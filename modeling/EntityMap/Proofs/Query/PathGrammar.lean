import EntityMap.Proofs.Context.Faults
import EntityMap.Proofs.Context.Routes
import EntityMap.Proofs.Query.Alone
import EntityMap.Proofs.Query.PathOrder
import EntityMap.Proofs.Query.Resolved
import EntityMap.Query.Include

/-!
# Which paths are read

A path is read in three ways: as the way to a node, as an included path,
and as the way to a member. The first two refuse every path with a blank
part, and add no node for it. So does the third
(`Context.refuses_of_not_escapes`), but for two kinds of paths
(`Path.Escapes`): what stands in front of the last dot is read as a path
of its own, which may be empty, and of the member behind it only the
empty one is refused. So a dot in front of a member is read over
(`Context.resolvePath_dotted`), and a member of nothing but white space
is looked for at the end of a path that has been walked. Neither is ever
refused (`Context.Sound.resolvePath_ne_invalidPath`).

A path leads to a node by its parts, and is put together from them again,
so one path leads to each node (`Context.Registered.eq_of_reaches`), and
one to each member, apart from the dot in front of it.
`Context.Reachable.oneGrammar` says all this of every context.
-/

namespace EntityMap

/-! ## Parts of a path -/

namespace Path

variable {path nodePath member : String}

/-- A path to a member is split at its last dot, or has none and starts at the member. -/
theorem splitMember?_eq_some_iff : splitMember? path = some (nodePath, member) ↔
    IsPlain member ∧
      (path = nodePath ++ "." ++ member ∨ nodePath = "" ∧ path = member) := by
  constructor
  · intro h
    unfold splitMember? at h
    dsimp only at h
    split at h
    · rename_i last hlast
      have hsplit := List.dropLast_append_getLast? last hlast
      have hmem : last ∈ segments path := List.mem_of_getLast? hlast
      split at h
      · cases h
      · rename_i hempty
        cases h
        refine ⟨⟨by simpa [String.isEmpty_iff] using hempty, notMem_of_mem_segments hmem⟩, ?_⟩
        have hjoin := join_segments path
        rw [← hsplit] at hjoin
        rcases List.eq_nil_or_concat' (segments path).dropLast with hnil | ⟨init, name, hinit⟩
        · rw [hnil] at hjoin ⊢
          exact .inr ⟨rfl, hjoin.symm⟩
        · have hne : (segments path).dropLast ≠ [] := by simp [hinit]
          rw [join_append hne (by simp)] at hjoin
          exact .inl hjoin.symm
    · cases h
  · rintro ⟨hplain, rfl | ⟨rfl, rfl⟩⟩
    · have hempty : member.isEmpty = false := by simpa [String.isEmpty_iff] using hplain.nonempty
      have hmember := segments_of_notMem hplain.dotless
      simp [splitMember?, segments_join, hmember, hempty, join_segments]
    · exact splitMember?_of_plain hplain

/-- A dot, and behind it a member. -/
def IsDotted (path : String) : Prop :=
  ∃ member, IsPlain member ∧ path = "." ++ member

/-- A member of nothing but white space, alone or at the end of a path without a blank part. -/
def EndsBlank (path : String) : Prop :=
  ∃ member, member ≠ "" ∧ Text.isBlank member.toList ∧
    (path = member ∨ ∃ nodePath, hasBlank nodePath = false ∧ path = nodePath ++ "." ++ member)

/-- The paths with a blank part that are read as the way to a member nevertheless. -/
def Escapes (path : String) : Prop :=
  IsDotted path ∨ EndsBlank path

theorem dotless_of_isBlank (h : Text.isBlank member.toList) : '.' ∉ member.toList := by
  intro hdot
  exact absurd (List.all_eq_true.mp h '.' hdot) (by decide)

theorem hasBlank_of_plain (h : IsPlain member) : hasBlank member = Text.isBlank member.toList := by
  simp [hasBlank, splitDots_of_notMem h.dotless]

/-- What stands in front of the member of a path that escapes has no blank part. -/
theorem Escapes.exists_split (h : Escapes path) : ∃ nodePath member,
    splitMember? path = some (nodePath, member) ∧
      (nodePath = "" ∨ hasBlank nodePath = false) := by
  rcases h with ⟨member, hmember, rfl⟩ | ⟨member, hne, hmember, rfl | ⟨nodePath, hfront, rfl⟩⟩
  · exact ⟨"", member, splitMember?_eq_some_iff.mpr ⟨hmember, .inl rfl⟩, .inl rfl⟩
  · exact ⟨"", path, splitMember?_of_plain ⟨hne, dotless_of_isBlank hmember⟩, .inl rfl⟩
  · have hplain : IsPlain member := ⟨hne, dotless_of_isBlank hmember⟩
    exact ⟨nodePath, member, splitMember?_eq_some_iff.mpr ⟨hplain, .inl rfl⟩, .inr hfront⟩

theorem escapes_of_split (hblank : hasBlank path)
    (hsplit : splitMember? path = some (nodePath, member))
    (hfront : nodePath = "" ∨ hasBlank nodePath = false) : Escapes path := by
  obtain ⟨hplain, rfl | ⟨rfl, rfl⟩⟩ := splitMember?_eq_some_iff.mp hsplit
  · rcases hfront with rfl | hfront
    · exact .inl ⟨member, hplain, rfl⟩
    · rw [hasBlank_join, hfront, Bool.false_or, hasBlank_of_plain hplain] at hblank
      exact .inr ⟨member, hplain.nonempty, hblank, .inr ⟨nodePath, hfront, rfl⟩⟩
  · rw [hasBlank_of_plain hplain] at hblank
    exact .inr ⟨path, hplain.nonempty, hblank, .inl rfl⟩

/-- A path is known by what it is split into, but for a dot in front of its member. -/
theorem eq_of_split {other : String} (hsplit : splitMember? path = some (nodePath, member))
    (hother : splitMember? other = some (nodePath, member)) (hdotted : ¬ IsDotted path)
    (hdotted' : ¬ IsDotted other) : path = other := by
  obtain ⟨hplain, rfl | ⟨rfl, rfl⟩⟩ := splitMember?_eq_some_iff.mp hsplit
  · obtain ⟨-, rfl | ⟨rfl, rfl⟩⟩ := splitMember?_eq_some_iff.mp hother
    · rfl
    · exact absurd ⟨_, hplain, rfl⟩ hdotted
  · obtain ⟨-, rfl | ⟨-, rfl⟩⟩ := splitMember?_eq_some_iff.mp hother
    · exact absurd ⟨_, hplain, rfl⟩ hdotted'
    · rfl

end Path

namespace Context

open Growing

variable {ctx ctx' : Context} {start i : Nat} {n : Node} {path nodePath member p q : String}
  {before after : List String}

/-! ## Refusals -/

theorem pathSegments_of_hasBlank (hpath : path ≠ "") (hblank : Path.hasBlank path) :
    pathSegments path = .error (.invalidPath path) := by
  unfold pathSegments
  rw [if_neg (by simpa using hpath), if_pos hblank]

/-- A path to a node. -/
theorem run_addPath_of_hasBlank (hn : ctx.nodes[start]? = some n) (hpath : path ≠ "")
    (hblank : Path.hasBlank path) :
    (addPath start path).run ctx = (.error (.invalidPath path), ctx) := by
  rw [run_addPath path hn, pathSegments_of_hasBlank hpath hblank]

theorem includeSegments_of_hasBlank (hblank : Path.hasBlank path) :
    includeSegments path = .error (.context (.invalidPath path)) :=
  if_pos hblank

/-- Included paths are read one after the other, so a fold over them stops at a path that is
refused, where the paths before it have led. -/
theorem run_foldlM_of_refused {α : Type} {f : α → String → Growing PlanError α} {a b : α}
    {e : PlanError} (hbefore : (before.foldlM f a).run ctx = (.ok b, ctx'))
    (hrefused : (f b path).run ctx' = (.error e, ctx')) :
    ((before ++ path :: after).foldlM f a).run ctx = (.error e, ctx') := by
  rw [List.foldlM_append, run_bind, hbefore]
  dsimp only
  rw [List.foldlM_cons, run_bind, hrefused]

/-- An included path whose columns are selected. -/
theorem run_selectAll_of_hasBlank {target : Nat} {select : List NodeColumn}
    (hblank : Path.hasBlank path)
    (hbefore : (selectAll target before).run ctx = (.ok select, ctx')) :
    (selectAll target (before ++ path :: after)).run ctx =
      (.error (.context (.invalidPath path)), ctx') := by
  unfold selectAll at hbefore ⊢
  obtain ⟨own, ctx₁, hown, hbefore⟩ := run_bind_eq_ok_iff.mp hbefore
  rw [run_bind, hown]
  refine run_foldlM_of_refused hbefore ?_
  rw [run_look_bind, includeSegments_of_hasBlank hblank]

/-- Where there are included paths, collections are looked for. -/
theorem includes_eq {paths : List String} (parent : Plan) (hpaths : paths ≠ []) :
    ∃ depth, parent.includes paths = includesBelow (depth + 1) parent "" paths := by
  obtain ⟨path, hpath⟩ := List.exists_mem_of_ne_nil paths hpaths
  have hparts : 0 < (Path.segments path).length :=
    List.length_pos_iff.mpr (by simp [Path.segments, Path.splitDots_ne_nil])
  have hdepth : (Path.segments path).length ≤
      (paths.map fun path => (Path.segments path).length).foldl max 0 := by
    rw [List.foldl_max]
    exact Nat.le_trans (List.le_max?_getD_of_mem (List.mem_map.mpr ⟨path, hpath, rfl⟩))
      (Nat.le_max_right ..)
  obtain ⟨depth, hdepth⟩ := Nat.exists_eq_add_one.mpr (Nat.lt_of_lt_of_le hparts hdepth)
  exact ⟨depth, by rw [Plan.includes, hdepth]⟩

/-- An included path whose collections are planned. -/
theorem run_includes_of_hasBlank {parent : Plan} {found : List IncludedCollection}
    (hblank : Path.hasBlank path)
    (hbefore : (firstCollections parent before).run ctx = (.ok found, ctx')) :
    (parent.includes (before ++ path :: after)).run ctx =
      (.error (.context (.invalidPath path)), ctx') := by
  have hfirst : (firstCollections parent (before ++ path :: after)).run ctx =
      (.error (.context (.invalidPath path)), ctx') := by
    unfold firstCollections at hbefore ⊢
    refine run_foldlM_of_refused hbefore ?_
    rw [run_look_bind, includeSegments_of_hasBlank hblank]
  have hne : before ++ path :: after ≠ [] := by simp
  obtain ⟨depth, hincludes⟩ := includes_eq parent hne
  rw [hincludes, includesBelow, run_bind, hfirst]

/-! ## Paths to members -/

/-- What reads a path to a member refuses it and adds no node. The refusal quotes the path, or
what stands in front of the member. -/
def Refuses {ε α : Type} (ctx : Context) (path : String) (refusal : ContextError → ε)
    (m : Growing ε α) : Prop :=
  ∃ quoted, (quoted = path ∨ ∃ member, path = quoted ++ "." ++ member) ∧
    m.run ctx = (.error (refusal (.invalidPath quoted)), ctx)

namespace Refuses

variable {ε ε' α β : Type} {m : Growing ε α} {refusal : ContextError → ε}

theorem bind {f : α → Growing ε β} (h : ctx.Refuses path refusal m) :
    ctx.Refuses path refusal (m >>= f) := by
  obtain ⟨quoted, hquoted, hrun⟩ := h
  exact ⟨quoted, hquoted, by rw [run_bind, hrun]⟩

theorem adapt (f : ε → ε') (h : ctx.Refuses path refusal m) :
    ctx.Refuses path (fun e => f (refusal e)) (ExceptT.adapt f m) := by
  obtain ⟨quoted, hquoted, hrun⟩ := h
  exact ⟨quoted, hquoted, by rw [run_adapt, hrun]; rfl⟩

end Refuses

/-- A path to a member that has a blank part is refused, unless it escapes. -/
theorem refuses_of_not_escapes (hn : ctx.nodes[start]? = some n) (hblank : Path.hasBlank path)
    (hescapes : ¬ Path.Escapes path) : ctx.Refuses path id (resolvePath start path) := by
  cases hsplit : Path.splitMember? path with
  | none => exact ⟨path, .inl rfl, by unfold resolvePath; rw [hsplit]; rfl⟩
  | some split =>
      obtain ⟨nodePath, member⟩ := split
      have hfront : nodePath ≠ "" ∧ Path.hasBlank nodePath := by
        by_contra hfront
        refine hescapes (Path.escapes_of_split hblank hsplit ?_)
        rw [not_and_or, not_not, Bool.not_eq_true] at hfront
        exact hfront
      refine ⟨nodePath, .inr ⟨member, ?_⟩, ?_⟩
      · obtain ⟨-, hpath | ⟨hempty, -⟩⟩ := Path.splitMember?_eq_some_iff.mp hsplit
        · exact hpath
        · exact absurd hempty hfront.1
      · unfold resolvePath
        rw [hsplit]
        dsimp only
        rw [run_bind, run_addPath_of_hasBlank hn hfront.1 hfront.2]
        rfl

/-- A path that escapes is walked to where its member is looked for. -/
theorem Sound.resolvePath_ne_invalidPath (h : ctx.Sound) (hstart : start < ctx.nodes.size)
    (hescapes : Path.Escapes path) (quoted : String) :
    ((resolvePath start path).run ctx).1 ≠ .error (.invalidPath quoted) := by
  obtain ⟨nodePath, member, hsplit, hfront⟩ := hescapes.exists_split
  have hpath : ((addPath start nodePath).run ctx).1 ≠ .error (.invalidPath quoted) := by
    intro hfails
    rcases h.addPath_fails hstart hfails with ⟨-, hblank⟩ | ⟨entity, member, t, heq, -⟩
    · rcases hfront with rfl | hfront
      · rw [run_addPath_empty (Array.getElem?_eq_getElem hstart)] at hfails
        cases hfails
      · rw [hfront] at hblank
        cases hblank
    · cases heq
  unfold resolvePath
  rw [hsplit]
  dsimp only
  rw [run_bind]
  rcases hrun : (addPath start nodePath).run ctx with ⟨answer, ctx'⟩
  rw [hrun] at hpath
  cases answer with
  | error e => exact fun he => hpath (congrArg Except.error (Except.error.inj he))
  | ok i =>
      intro hfails
      rcases resolveMember_eq_error hfails with ⟨_, he⟩ | ⟨_, he⟩ | ⟨_, -, -, he⟩ <;> cases he

/-- A dot in front of a member is read over. -/
theorem resolvePath_dotted (start : Nat) (hmember : Path.IsPlain member) :
    resolvePath start ("." ++ member) = resolvePath start member := by
  have hdotted : Path.splitMember? ("." ++ member) = some ("", member) :=
    Path.splitMember?_eq_some_iff.mpr ⟨hmember, .inl rfl⟩
  unfold resolvePath
  rw [hdotted, Path.splitMember?_of_plain hmember]

/-! ## One path to each end -/

theorem eq_of_pathSegments {segments : List String} (hp : pathSegments p = .ok segments)
    (hq : pathSegments q = .ok segments) : p = q := by
  have hparts : ∀ {path : String}, path ≠ "" → pathSegments path = .ok segments →
      segments ≠ [] ∧ path = Path.join segments := by
    intro path hpath hsegments
    obtain ⟨-, rfl⟩ := (pathSegments_eq_ok_iff hpath).mp hsegments
    exact ⟨by simp [Path.segments, Path.splitDots_ne_nil], (Path.join_segments path).symm⟩
  by_cases hp' : p = ""
  · subst hp'
    obtain rfl : segments = [] := Except.ok.inj hp.symm
    by_contra hne
    exact (hparts (Ne.symm hne) hq).1 rfl
  · by_cases hq' : q = ""
    · subst hq'
      obtain rfl : segments = [] := Except.ok.inj hq.symm
      exact absurd rfl (hparts hp' hp).1
    · rw [(hparts hp' hp).2, (hparts hq' hq).2]

/-- One path leads to a node. -/
theorem Registered.eq_of_reaches (h : ctx.Registered) (harena : ctx.Arena)
    (hp : ctx.Reaches start p i) (hq : ctx.Reaches start q i) : p = q := by
  obtain ⟨segments, hsegments, hi⟩ := hp
  obtain ⟨segments', hsegments', hi'⟩ := hq
  obtain rfl : segments = segments' := h.eq_of_along? harena hi hi'
  exact eq_of_pathSegments hsegments hsegments'

theorem Grows.reaches (h : ctx.Grows ctx') (hpath : ctx.Reaches start path i) :
    ctx'.Reaches start path i := by
  obtain ⟨segments, hsegments, hi⟩ := hpath
  exact ⟨segments, hsegments, h.descend? hi⟩

theorem reaches_of_addPath (hrun : (addPath start path).run ctx = (.ok i, ctx')) :
    ctx.Grows ctx' ∧ ctx'.Reaches start path i := by
  have hleads : (addPath start path).Leads ctx _ := addPath_leads start path
  have hgrows := hleads.grows
  have hreaches := hleads.answer i (congrArg (·.1) hrun)
  rw [hrun] at hgrows hreaches
  exact ⟨hgrows, hreaches⟩

/-! ## The grammar -/

/-- The paths that a context reads from a start. -/
structure OneGrammar (ctx : Context) (start : Nat) : Prop where
  /-- A path with a blank part leads to no node, -/
  node : ∀ path, path ≠ "" → Path.hasBlank path →
    (addPath start path).run ctx = (.error (.invalidPath path), ctx)
  /-- is not included for the columns along it, -/
  selected : ∀ before path after select ctx', Path.hasBlank path →
    (selectAll start before).run ctx = (.ok select, ctx') →
    (selectAll start (before ++ path :: after)).run ctx =
      (.error (.context (.invalidPath path)), ctx')
  /-- nor for the collections on it, -/
  included : ∀ parent before path after found ctx', Path.hasBlank path →
    (firstCollections parent before).run ctx = (.ok found, ctx') →
    (parent.includes (before ++ path :: after)).run ctx =
      (.error (.context (.invalidPath path)), ctx')
  /-- and leads to no member for which a filter, a projection or an order could ask, -/
  member : ∀ path, Path.hasBlank path → ¬ Path.Escapes path →
    ctx.Refuses path id (resolvePath start path) ∧
    ctx.Refuses path .context (Filter.bind start (.member path)) ∧
    (∀ label, ctx.Refuses path id (selectProjection start { path, label })) ∧
    ∀ direction, ctx.Refuses path id (Order.bind start { path, direction })
  /-- unless it is one of those that escape. -/
  escaped : ∀ path quoted, Path.Escapes path →
    ((resolvePath start path).run ctx).1 ≠ .error (.invalidPath quoted)
  /-- Among them a dot in front of a member is read over. -/
  dotted : ∀ member, Path.IsPlain member →
    (resolvePath start ("." ++ member)).run ctx = (resolvePath start member).run ctx
  /-- One path leads to a node, whatever happens in between, -/
  nodes : ∀ p q i ctx₁ ctx₂ ctx₃, (addPath start p).run ctx = (.ok i, ctx₁) →
    Relation.ReflTransGen Call ctx₁ ctx₂ → (addPath start q).run ctx₂ = (.ok i, ctx₃) → p = q
  /-- and one to a member of a node, apart from a dot in front of the member. -/
  members : ∀ p q i member ctx₁ ctx₂ ctx₃, ctx.EndsAt start p i member ctx₁ →
    Relation.ReflTransGen Call ctx₁ ctx₂ → ctx₂.EndsAt start q i member ctx₃ →
    ¬ Path.IsDotted p → ¬ Path.IsDotted q → p = q

theorem refuses_member (hn : ctx.nodes[start]? = some n) (hblank : Path.hasBlank path)
    (hescapes : ¬ Path.Escapes path) :
    ctx.Refuses path id (resolvePath start path) ∧
    ctx.Refuses path .context (Filter.bind start (.member path)) ∧
    (∀ label, ctx.Refuses path id (selectProjection start { path, label })) ∧
    ∀ direction, ctx.Refuses path id (Order.bind start { path, direction }) := by
  have h := refuses_of_not_escapes hn hblank hescapes
  exact ⟨h, (h.adapt FilterError.context).bind, fun _ => h.bind, fun _ => h.bind⟩

/-- Every context refuses the paths with a blank part wherever it reads a path, but for those to
members that escape, and one path at most leads to each node and to each member of it. -/
theorem Reachable.oneGrammar (h : Reachable ctx) (hstart : start < ctx.nodes.size) :
    ctx.OneGrammar start := by
  have hn : ctx.nodes[start]? = some ctx.nodes[start] := Array.getElem?_eq_getElem hstart
  have hlater : ∀ {ctx₁ ctx₂ ctx₃ : Context} {p q : String} {i j : Nat},
      (addPath start p).run ctx = (.ok i, ctx₁) → Relation.ReflTransGen Call ctx₁ ctx₂ →
      (addPath start q).run ctx₂ = (.ok j, ctx₃) → ctx₁.Grows ctx₂ ∧ ctx₃.Arena ∧
        ctx₃.Registered := by
    intro ctx₁ ctx₂ ctx₃ p q i j hp hcalls hq
    have hgrows := grows_of_calls hcalls
    have hall := ((reaches_of_addPath hp).1.trans hgrows).trans (reaches_of_addPath hq).1
    exact ⟨hgrows, h.arena.grows hall, h.registered.grows hall⟩
  constructor
  case node => exact fun path => run_addPath_of_hasBlank hn
  case selected => exact fun before path after select ctx' => run_selectAll_of_hasBlank
  case included => exact fun parent before path after found ctx' => run_includes_of_hasBlank
  case member => exact fun path => refuses_member hn
  case escaped =>
    exact fun path quoted hescapes => h.sound.resolvePath_ne_invalidPath hstart hescapes quoted
  case dotted => exact fun member hmember => by rw [resolvePath_dotted start hmember]
  case nodes =>
    intro p q i ctx₁ ctx₂ ctx₃ hp hcalls hq
    obtain ⟨hgrows, harena, hregistered⟩ := hlater hp hcalls hq
    have hreaches := (hgrows.trans (reaches_of_addPath hq).1).reaches (reaches_of_addPath hp).2
    exact hregistered.eq_of_reaches harena hreaches (reaches_of_addPath hq).2
  case members =>
    rintro p q i member ctx₁ ctx₂ ctx₃ ⟨nodePath, hsplit, hp⟩ hcalls ⟨nodePath', hsplit', hq⟩
    obtain ⟨hgrows, harena, hregistered⟩ := hlater hp hcalls hq
    have hreaches := (hgrows.trans (reaches_of_addPath hq).1).reaches (reaches_of_addPath hp).2
    obtain rfl := hregistered.eq_of_reaches harena hreaches (reaches_of_addPath hq).2
    exact Path.eq_of_split hsplit hsplit'

/-- Paths from the parent of a ticket. -/
theorem oneGrammar_parent : ∃ ctx, (addPath root "Parent").run deskContext = (.ok 2, ctx) ∧
    2 < ctx.nodes.size ∧ ctx.OneGrammar 2 := by
  have hanswer : ((addPath root "Parent").run deskContext).1.toOption = some 2 := by
    decide +kernel
  have hsize : 2 < ((addPath root "Parent").run deskContext).2.nodes.size := by decide +kernel
  have hreachable : Reachable ((addPath root "Parent").run deskContext).2 :=
    .call reachable_deskContext (.addPath root "Parent")
  rcases hrun : (addPath root "Parent").run deskContext with ⟨answer, ctx⟩
  rw [hrun] at hanswer hsize hreachable
  obtain rfl := Except.toOption_eq_some_iff.mp hanswer
  exact ⟨ctx, rfl, hsize, hreachable.oneGrammar hsize⟩

/-- With and without a dot in front, `ParentId` is one member of the ticket; and looking for a blank
member of the parent leaves the parent behind. -/
theorem dotted_parentId :
    let parentId : NodeColumn := { node := 0, member := "ParentId", column := "parent_id" }
    Path.hasBlank ".ParentId" ∧
      (resolvePath root ".ParentId").run deskContext = (.ok parentId, deskContext) ∧
      (resolvePath root "ParentId").run deskContext = (.ok parentId, deskContext) ∧
      Path.hasBlank "Parent. " ∧
      ((resolvePath root "Parent. ").run deskContext).1 =
        .error (.catalog (.unknownMember "Ticket" " ")) ∧
      deskContext.nodes.size = 2 ∧
      ((resolvePath root "Parent. ").run deskContext).2.nodes.size = 4 := by
  intro parentId
  exact ⟨by decide, rfl, rfl, by decide, rfl, rfl, by decide +kernel⟩

end Context

end EntityMap
