import EntityMap.Proofs.Context.Replay
import EntityMap.Proofs.Query.Invariant

/-!
# Where a resolved column lies

A column that a path has been resolved to is found again by looking
(`Context.resolveMember_eq_ok_iff`), and resolving the path once more
leaves the context as it is (`Context.run_resolvePath`).

Neither the value of a lookup nor the foreign key that stands for a
primary key leads out of what is below the boundary: the one lies below
its node, and the other is taken of a node below the boundary only. So
what a path from an anchor is resolved to is the anchor or below it
(`Context.ResolvesPath.below`).
-/

namespace EntityMap

namespace Context

open Growing

variable {ctx ctx' : Context} {boundary i j k start target : Nat} {member path : String}
  {c : NodeColumn} {keys : List ChildKey} {segments : List String}

/-! ## Looking again -/

/-- The column behind a member is looked up, not chosen. -/
theorem resolveMember_eq_ok_iff :
    ctx.resolveMember i member boundary = .ok c ↔ ctx.Resolves boundary i member c := by
  refine ⟨resolves_of_resolveMember, ?_⟩
  rintro ⟨mapped, hmapped, hc⟩
  obtain ⟨t, ht, hcolumn⟩ := Except.bind_eq_ok_iff.mp hmapped
  obtain ⟨n, hn, htable⟩ := table_eq_ok_iff.mp ht
  have hfind := Table.column_eq_ok_iff.mp (Except.mapError_eq_ok_iff.mp hcolumn)
  obtain rfl : mapped.member = member := by simpa using List.find?_some hfind
  unfold resolveMember
  refine Except.bind_eq_ok_iff.mpr ⟨n, node_eq_ok_iff.mpr hn, ?_⟩
  refine Except.bind_eq_ok_iff.mpr ⟨t, entityTable_eq_ok_iff.mpr htable, ?_⟩
  rw [hfind]
  dsimp only
  cases hc with
  | lookup hlookup hchild ht' hvalue =>
      rw [child?, hn, Option.bind_some] at hchild
      rw [hlookup]
      dsimp only
      rw [hchild]
      dsimp only
      refine Except.bind_eq_ok_iff.mpr ⟨_, ht', ?_⟩
      exact Except.bind_eq_ok_iff.mpr ⟨_, Except.mapError_eq_ok_iff.mpr hvalue, rfl⟩
  | onOrigin hlookup hkey hbelow hlink hforeignKey =>
      rw [hlookup]
      dsimp only
      rw [if_pos (by simp [hkey, hbelow]), hlink]
      exact Except.bind_eq_ok_iff.mpr ⟨_, hforeignKey, rfl⟩
  | own hlookup hown =>
      rw [hlookup]
      dsimp only
      have hnone : (if mapped.primaryKey && i ≠ boundary then ctx.keyOnOrigin? i mapped.member
          else none) = none := by
        simpa using hown
      rw [hnone]
      rfl

theorem Resolves.unique {c' : NodeColumn} (h : ctx.Resolves boundary i member c)
    (h' : ctx.Resolves boundary i member c') : c' = c :=
  Except.ok.inj
    ((resolveMember_eq_ok_iff.mpr h').symm.trans (resolveMember_eq_ok_iff.mpr h))

theorem eq_member_of_column {mapped : Column} (h : ctx.column i member = .ok mapped) :
    mapped.member = member := by
  obtain ⟨t, -, hcolumn⟩ := Except.bind_eq_ok_iff.mp h
  exact (Table.mem_of_column (Except.mapError_eq_ok_iff.mp hcolumn)).2

theorem exists_node_of_resolves (h : ctx.Resolves boundary i member c) :
    ∃ n, ctx.nodes[i]? = some n := by
  obtain ⟨mapped, hmapped, -⟩ := h
  obtain ⟨t, ht, -⟩ := Except.bind_eq_ok_iff.mp hmapped
  obtain ⟨n, hn, -⟩ := table_eq_ok_iff.mp ht
  exact ⟨n, hn⟩

/-- A path that has been resolved is resolved once more to its column, and the context stays. -/
theorem run_resolvePath (h : ctx.ResolvesPath target path c) :
    (resolvePath target path).run ctx = (.ok c, ctx) := by
  obtain ⟨nodePath, member, i, hsplit, hi, hc⟩ := h
  have hstart : ∃ n, ctx.nodes[target]? = some n := by
    obtain ⟨segments, -, hdescend⟩ := hi
    exact exists_node_of_descend? hdescend (exists_node_of_resolves hc)
  unfold resolvePath
  rw [hsplit]
  dsimp only
  rw [run_bind, run_addPath_of_reaches hstart hi]
  dsimp only
  rw [run_look, resolveMember_eq_ok_iff.mpr hc]

/-! ## Below the boundary -/

theorem isAncestorOrSelf_self (i : Nat) : ctx.isAncestorOrSelf i i := by
  simp [isAncestorOrSelf]

theorem Arena.below_of_origin? {o : Nat} (harena : ctx.Arena) (ho : ctx.origin? i = some o)
    (h : ctx.isAncestorOrSelf target o) : ctx.isAncestorOrSelf target i := by
  by_cases hi : i = target
  · exact hi ▸ isAncestorOrSelf_self i
  · exact (harena.isAncestorOrSelf_iff ho hi).mpr h

theorem Registered.origin?_of_child? {key : ChildKey} (h : ctx.Registered)
    (hk : ctx.child? i key = some k) : ctx.origin? k = some i := by
  obtain ⟨link, hlink, rfl, -⟩ := h.hangs hk
  rw [origin?, hlink]
  rfl

/-- A walk leads down. -/
theorem Registered.below_of_descend? (h : ctx.Registered) (harena : ctx.Arena)
    (hi : ctx.isAncestorOrSelf target i) (hk : ctx.descend? i keys = some k) :
    ctx.isAncestorOrSelf target k := by
  induction keys generalizing i with
  | nil =>
      obtain rfl := Option.some.inj hk
      exact hi
  | cons key rest ih =>
      rw [descend?_cons] at hk
      obtain ⟨next, hnext, hk⟩ := Option.bind_eq_some_iff.mp hk
      exact ih (harena.below_of_origin? (h.origin?_of_child? hnext) hi) hk

/-- A member of a node below the boundary is stored below the boundary, also where a lookup or the
foreign key of the origin stands for it. -/
theorem Resolves.below (h : ctx.Resolves boundary i member c) (harena : ctx.Arena)
    (hregistered : ctx.Registered) (hi : ctx.isAncestorOrSelf boundary i) :
    ctx.isAncestorOrSelf boundary c.node := by
  obtain ⟨mapped, -, hc⟩ := h
  cases hc with
  | lookup _ hchild =>
      exact harena.below_of_origin? (hregistered.origin?_of_child? hchild) hi
  | onOrigin _ _ hbelow hlink =>
      have ho : ctx.origin? i = some _ := congrArg (·.map Link.origin)
        (Option.filter_eq_some_iff.mp hlink).1
      exact (harena.isAncestorOrSelf_iff ho hbelow).mp hi
  | own => exact hi

theorem ResolvesPath.below (h : ctx.ResolvesPath target path c) (harena : ctx.Arena)
    (hregistered : ctx.Registered) : ctx.isAncestorOrSelf target c.node := by
  obtain ⟨nodePath, member, i, -, ⟨segments, -, hi⟩, hc⟩ := h
  exact hc.below harena hregistered
    (hregistered.below_of_descend? harena (isAncestorOrSelf_self target) hi)

/-! ## Where a path ends -/

/-- A path ends at a member of a node, once the context has grown along it. -/
def EndsAt (ctx : Context) (start : Nat) (path : String) (i : Nat) (member : String)
    (ctx' : Context) : Prop :=
  ∃ nodePath, Path.splitMember? path = some (nodePath, member) ∧
    (addPath start nodePath).run ctx = (.ok i, ctx')

theorem EndsAt.reachable (h : ctx.EndsAt start path i member ctx') (hctx : Reachable ctx) :
    Reachable ctx' := by
  obtain ⟨nodePath, -, hrun⟩ := h
  have hcall := Reachable.call hctx (.addPath start nodePath)
  rwa [hrun] at hcall

theorem EndsAt.catalog_eq (h : ctx.EndsAt start path i member ctx') :
    ctx'.catalog = ctx.catalog := by
  obtain ⟨nodePath, -, hrun⟩ := h
  have hgrows := (@addPath_leads ctx start nodePath).grows
  rw [hrun] at hgrows
  exact hgrows.catalog

theorem EndsAt.run_resolvePath (h : ctx.EndsAt start path i member ctx')
    (hcolumn : ctx'.resolveMember i member start = .ok c) :
    (resolvePath start path).run ctx = (.ok c, ctx') := by
  obtain ⟨nodePath, hsplit, hrun⟩ := h
  unfold resolvePath
  rw [hsplit]
  dsimp only
  rw [run_bind, hrun]
  dsimp only
  rw [run_look, hcolumn]

/-- A path that is resolved ends at a member, and the column is the one behind it. -/
theorem exists_endsAt_of_resolvePath (hrun : (resolvePath start path).run ctx = (.ok c, ctx')) :
    ∃ i member, ctx.EndsAt start path i member ctx' ∧
      ctx'.resolveMember i member start = .ok c := by
  unfold resolvePath at hrun
  split at hrun
  · cases hrun
  · rename_i nodePath member hsplit
    obtain ⟨i, ctx₁, hpath, hlook⟩ := run_bind_eq_ok_iff.mp hrun
    rw [run_look] at hlook
    obtain ⟨hcolumn, rfl⟩ := Prod.mk.inj hlook
    exact ⟨i, member, ⟨nodePath, hsplit, hpath⟩, hcolumn⟩

/-- The node at which a path ends is the start or lies below it. -/
theorem EndsAt.below (h : ctx.EndsAt start path i member ctx') (harena : ctx'.Arena)
    (hregistered : ctx'.Registered) : ctx'.isAncestorOrSelf start i := by
  obtain ⟨nodePath, -, hrun⟩ := h
  have hleads : (addPath start nodePath).Leads ctx _ := addPath_leads start nodePath
  obtain ⟨segments, -, hi⟩ := hleads.answer i (congrArg (·.1) hrun)
  rw [hrun] at hi
  exact hregistered.below_of_descend? harena (isAncestorOrSelf_self start) hi

/-! ## The mapping behind it -/

/-- The column is one that its node maps. -/
theorem Resolves.exists_column (h : ctx.Resolves boundary i member c) (hsound : ctx.Sound) :
    ∃ mapped, ctx.column c.node c.member = .ok mapped ∧ c.column = mapped.column := by
  obtain ⟨mapped, hmapped, hc⟩ := h
  cases hc with
  | @lookup t value lookup k hlookup hchild ht hvalue =>
      obtain ⟨t₀, ht₀, hcolumn⟩ := Except.bind_eq_ok_iff.mp hmapped
      obtain ⟨n, hn, htable⟩ := table_eq_ok_iff.mp ht₀
      have hmem := (Table.mem_of_column (Except.mapError_eq_ok_iff.mp hcolumn)).1
      obtain ⟨child, hchild, -, hentity⟩ := lookup_of_child? hsound.arena hsound.registered
        hsound.accepted hn htable hmem hlookup hchild
      have htk : ctx.table k = .ok t :=
        table_eq_ok_iff.mpr ⟨child, hchild, hentity ▸ entityTable_eq_ok_iff.mp ht⟩
      refine ⟨value, Except.bind_eq_ok_iff.mpr ⟨t, htk, ?_⟩, rfl⟩
      rw [(Table.mem_of_column hvalue).2]
      exact Except.mapError_eq_ok_iff.mpr hvalue
  | @onOrigin foreignKey link _ _ _ _ hforeignKey =>
      refine ⟨foreignKey, ?_, rfl⟩
      rw [eq_member_of_column hforeignKey]
      exact hforeignKey
  | own =>
      refine ⟨mapped, ?_, rfl⟩
      rw [eq_member_of_column hmapped]
      exact hmapped

theorem ResolvesPath.exists_column (h : ctx.ResolvesPath target path c) (hsound : ctx.Sound) :
    ∃ mapped, ctx.column c.node c.member = .ok mapped ∧ c.column = mapped.column := by
  obtain ⟨nodePath, member, i, -, -, hc⟩ := h
  exact hc.exists_column hsound

end Context

end EntityMap
