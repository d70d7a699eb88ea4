import EntityMap.Proofs.Context.Navigation

/-!
# What paths draw

A chain of keys leads from the root to a node. Paths from the root draw
chains along their segments, and from the nodes there to their lookups
(`Context.Drawn`), and nothing else: whatever a walk attaches lies at the
end of such a chain (`Context.Within.addSegments`), whether the walk
succeeds or fails.
-/

namespace EntityMap

namespace Context

open Growing

/-- Navigation members in a row, from the root on along one of the paths. -/
def Along (paths members : List String) : Prop :=
  members = [] ∨
    ∃ path ∈ paths, ∃ segments, pathSegments path = .ok segments ∧ members <+: segments

/-- The chains along paths, and those from their nodes to a lookup. -/
def Drawn (paths : List String) (keys : List ChildKey) : Prop :=
  ∃ members, Along paths members ∧
    (keys = members.map .navigation ∨ ∃ column, keys = members.map .navigation ++ [.lookup column])

/-- The paths draw every chain that a context has. -/
def Within (ctx : Context) (paths : List String) : Prop :=
  ∀ keys k, ctx.descend? root keys = some k → Drawn paths keys

variable {ctx : Context} {i j k : Nat} {n origin : Node} {t target : Table} {link : Link}
  {entity : String} {keys : List ChildKey} {paths segments done : List String}

/-! ## What attaching adds to chains -/

theorem child?_eq_none_of_le {key : ChildKey} (h : ctx.nodes.size ≤ i) :
    ctx.child? i key = none := by
  rw [child?, Array.getElem?_eq_none h]
  rfl

/-- A chain was there, or ends with the node that is attached. -/
theorem descend?_attach {table : String} (horigin : ctx.nodes[link.origin]? = some origin)
    (hk : (ctx.attach entity table link).descend? j keys = some k) :
    ctx.descend? j keys = some k ∨
      k = ctx.nodes.size ∧ ∃ before, keys = before ++ [link.key] ∧
        ctx.descend? j before = some link.origin := by
  have hlt : link.origin < ctx.nodes.size := (Array.getElem?_eq_some_iff.mp horigin).1
  induction keys using List.reverseRecOn generalizing k with
  | nil => exact .inl hk
  | append_singleton before key ih =>
      rw [descend?_concat] at hk ⊢
      obtain ⟨o, ho, hchild⟩ := Option.bind_eq_some_iff.mp hk
      rw [child?_attach horigin] at hchild
      rcases ih ho with ho | ⟨rfl, -⟩
      · rw [ho, Option.bind_some]
        rcases Option.or_eq_some_iff.mp hchild with hchild | ⟨-, hnew⟩
        · exact .inl hchild
        · obtain ⟨⟨rfl, rfl⟩, hsize⟩ := Option.ite_none_right_eq_some.mp hnew
          exact .inr ⟨(Option.some.inj hsize).symm, before, rfl, ho⟩
      · -- the node that is attached has no child yet
        rw [child?_eq_none_of_le (Nat.le_refl _), Option.none_or,
          if_neg fun h => Nat.ne_of_gt hlt h.1] at hchild
        cases hchild

theorem descend?_forM_addLookup (entries : List (Column × Lookup)) (hn : ctx.nodes[i]? = some n)
    (hkeyed : ∀ entry ∈ entries, ∃ target key,
      ctx.catalog.table entry.2.entity = .ok target ∧ target.key = .ok key)
    (hk : ((entries.forM fun (column, lookup) => addLookup i column lookup).run ctx).2.descend? j
      keys = some k) :
    ctx.descend? j keys = some k ∨
      ∃ before column, keys = before ++ [.lookup column] ∧ ctx.descend? j before = some i := by
  induction entries generalizing ctx n with
  | nil => exact .inl hk
  | cons entry rest ih =>
      obtain ⟨target, key, htarget, hkey⟩ := hkeyed entry (List.mem_cons_self ..)
      have hrun : (addLookup i entry.1 entry.2).run ctx = _ := run_addLookup htarget hkey
      have hcons : ((entry :: rest).forM fun (column, lookup) => addLookup i column lookup) =
          (addLookup i entry.1 entry.2 >>= fun _ =>
            rest.forM fun (column, lookup) => addLookup i column lookup) := rfl
      rw [hcons, run_bind, hrun] at hk
      dsimp only at hk
      have hrest : ∀ other ∈ rest, ∃ target key,
          ctx.catalog.table other.2.entity = .ok target ∧ target.key = .ok key :=
        fun other hother => hkeyed other (List.mem_cons_of_mem _ hother)
      split at hk
      · have horigin : ctx.nodes[(lookupLink i entry.1 key).origin]? = some n := hn
        have hlt : i < ctx.nodes.size := (Array.getElem?_eq_some_iff.mp hn).1
        have hequips : Equips i ctx
            (ctx.attach entry.2.entity target.table (lookupLink i entry.1 key)) :=
          equips_attach hn
        obtain ⟨m, hm, -⟩ := hequips.node n hn
        rcases ih hm (by rw [catalog_attach horigin]; exact hrest) hk with
          hk | ⟨before, column, rfl, hi⟩
        · rcases descend?_attach horigin hk with hk | ⟨-, before, rfl, hi⟩
          · exact .inl hk
          · exact .inr ⟨before, entry.1.member, rfl, hi⟩
        · rcases descend?_attach horigin hi with hi | ⟨rfl, -⟩
          · exact .inr ⟨before, column, rfl, hi⟩
          · exact absurd hlt (Nat.lt_irrefl _)
      · exact ih hn hrest hk

/-- A chain was there, or ends with a lookup of the node. -/
theorem descend?_addLookups (hkeyed : ctx.catalog.LookupsKeyed) (hn : ctx.nodes[i]? = some n)
    (ht : ctx.catalog.table n.entity = .ok t)
    (hk : ((addLookups i).run ctx).2.descend? j keys = some k) :
    ctx.descend? j keys = some k ∨
      ∃ before column, keys = before ++ [.lookup column] ∧ ctx.descend? j before = some i := by
  unfold addLookups at hk
  rw [run_look_bind, table_eq_ok_iff.mpr ⟨n, hn, ht⟩] at hk
  refine descend?_forM_addLookup t.lookupColumns hn (fun entry hentry => ?_) hk
  obtain ⟨c, hc, heq⟩ := List.mem_filterMap.mp hentry
  obtain ⟨lookup, hlookup, rfl⟩ := Option.map_eq_some_iff.mp heq
  exact hkeyed t (Catalog.mem_of_table ht).1 c hc lookup hlookup

theorem Registered.lt_of_descend? (h : ctx.Registered) (hj : j < ctx.nodes.size)
    (hk : ctx.descend? j keys = some k) : k < ctx.nodes.size := by
  cases keys using List.reverseRecOn with
  | nil => exact Option.some.inj hk ▸ hj
  | append_singleton before key =>
      obtain ⟨link, hlink, -⟩ := h.exists_link_of_descend? hk
      obtain ⟨n, hn, -⟩ := Option.bind_eq_some_iff.mp hlink
      exact (Array.getElem?_eq_some_iff.mp hn).1

/-- A path leads to a node that is there, and its context stays sound. -/
theorem addPath_leads_sound (hsound : ctx.Sound) (start : Nat) (path : String) :
    (addPath start path).Leads ctx fun i ctx' => i < ctx'.nodes.size ∧ ctx'.Sound := by
  have hthere : (addPath start path).Leads ctx fun i ctx' => i < ctx'.nodes.size := by
    unfold addPath
    refine Leads.look_bind fun n hn => Leads.look_bind fun segments _ => ?_
    refine (addSegments_leads start).mono fun i ctx' hgrows hi => ?_
    obtain ⟨n', hn', -⟩ := hgrows.node (node_eq_ok_iff.mp hn)
    exact (hsound.registered.grows hgrows).lt_of_descend? (Array.getElem?_eq_some_iff.mp hn').1 hi
  exact hthere.kept (addPath_keeps_sound start path) hsound

/-- A chain was there, or ends with the node that is attached or with one of its lookups. -/
theorem Sound.descend?_furnish (h : ctx.Sound) (horigin : ctx.nodes[link.origin]? = some origin)
    (ht : ctx.catalog.table entity = .ok target) (hj : j < ctx.nodes.size)
    (hk : (ctx.furnish entity target.table link).descend? j keys = some k) :
    ctx.descend? j keys = some k ∨ ∃ before, ctx.descend? j before = some link.origin ∧
      (keys = before ++ [link.key] ∨
        ∃ column, keys = before ++ [link.key] ++ [.lookup column]) := by
  have hcatalog : (ctx.attach entity target.table link).catalog = ctx.catalog :=
    catalog_attach horigin
  rcases descend?_addLookups (by rw [hcatalog]; exact h.complete.keyed) (attach_last horigin)
    (by rw [hcatalog]; exact ht) hk with hk | ⟨before, column, rfl, hnew⟩
  · rcases descend?_attach horigin hk with hk | ⟨-, before, rfl, hbefore⟩
    · exact .inl hk
    · exact .inr ⟨before, hbefore, .inl rfl⟩
  · rcases descend?_attach horigin hnew with hnew | ⟨-, before, rfl, hbefore⟩
    · exact absurd (h.registered.lt_of_descend? hj hnew) (Nat.lt_irrefl _)
    · exact .inr ⟨before, hbefore, .inr ⟨column, rfl⟩⟩

/-! ## What a walk draws -/

theorem Drawn.navigation {members : List String} (h : Along paths members) :
    Drawn paths (members.map .navigation) :=
  ⟨members, h, .inl rfl⟩

theorem Drawn.lookup {members : List String} (column : String) (h : Along paths members) :
    Drawn paths (members.map .navigation ++ [.lookup column]) :=
  ⟨members, h, .inr ⟨column, rfl⟩⟩

namespace Within

/-- A walk along the paths draws nothing else, whether it succeeds or fails. -/
theorem addSegments (hwithin : ctx.Within paths) (h : ctx.Sound) (path : String)
    (hi : ctx.descend? root (done.map .navigation) = some i)
    (halong : ∀ members, members <+: segments → Along paths (done ++ members)) :
    ((Context.addSegments path i segments).run ctx).2.Within paths := by
  induction segments generalizing ctx i done with
  | nil => exact hwithin
  | cons member rest ih =>
      obtain ⟨rootNode, hroot, -⟩ := h.arena.root
      obtain ⟨n, hn, -⟩ := h.entityAlong?_of_descend? hroot hi
      obtain ⟨t, ht, -⟩ := h.arena.table hn
      cases hr : t.relationship? member with
      | none =>
          rw [h.run_addSegments_unknown path rest hn ht hr]
          exact hwithin
      | some r =>
          obtain ⟨next, ctx', hwalks⟩ := h.exists_walks hn ht hr
          have hhere := halong [member] (List.prefix_append [member] rest)
          have hwithin' : ctx'.Within paths := by
            rcases hwalks.attached with rfl | ⟨target, link, htarget, rfl, hkey, rfl⟩
            · exact hwithin
            · intro keys k hk
              have hsize : root < ctx.nodes.size := (Array.getElem?_eq_some_iff.mp hroot).1
              rcases h.descend?_furnish hn htarget hsize hk with hk | ⟨before, hbefore, hends⟩
              · exact hwithin keys k hk
              · obtain rfl := h.registered.eq_of_descend? h.arena hbefore hi
                rw [hkey] at hends
                rcases hends with rfl | ⟨column, rfl⟩
                · simpa using Drawn.navigation hhere
                · simpa using Drawn.lookup column hhere
          have hnext : ctx'.descend? root ((done ++ [member]).map .navigation) = some next := by
            rw [List.map_append, List.map_singleton, descend?_concat, hwalks.grows.descend? hi]
            exact hwalks.child
          rw [hwalks.run]
          refine ih hwithin' hwalks.sound hnext fun members hmembers => ?_
          rw [List.append_assoc]
          exact halong (member :: members) (List.cons_prefix_cons.mpr ⟨rfl, hmembers⟩)

/-- One of the paths draws nothing else. -/
theorem addPath {path : String} (hwithin : ctx.Within paths) (h : ctx.Sound)
    (hpath : path ∈ paths) :
    ((Context.addPath root path).run ctx).2.Within paths := by
  obtain ⟨n, hn, -⟩ := h.arena.root
  rw [run_addPath (i := root) path hn]
  cases hsegments : pathSegments path with
  | error e => exact hwithin
  | ok segments =>
      have halong : ∀ members, members <+: segments → Along paths ([] ++ members) :=
        fun members hmembers => .inr ⟨path, hpath, segments, hsegments, hmembers⟩
      exact hwithin.addSegments h path rfl halong

end Within

/-- A context starts with the chains to the lookups of its root. -/
theorem within_of_ofEntity {catalog : Catalog} (hkeyed : catalog.LookupsKeyed)
    (h : ofEntity catalog entity = .ok ctx) : ctx.Within paths := by
  unfold ofEntity at h
  obtain ⟨t, ht, h⟩ := Except.bind_eq_ok_iff.mp h
  have ht := Except.mapError_eq_ok_iff.mp ht
  let first : Node :=
    { index := root, entity, table := t.table, level := 0, link := none, joinKind := .inner
      children := [] }
  let start : Context := { catalog, nodes := #[first] }
  have hend : ((addLookups root).run start).2 = ctx := by
    obtain ⟨_, -, h⟩ := Except.bind_eq_ok_iff.mp h
    exact Except.ok.inj h
  intro keys k hk
  have halone : ∀ keys k, start.descend? root keys = some k → keys = [] := by
    intro keys k hk
    cases keys with
    | nil => rfl
    | cons key rest => simp [descend?_cons, child?, start, first, root, Node.child?] at hk
  rw [← hend] at hk
  have hroot : start.nodes[root]? = some first := rfl
  rcases descend?_addLookups hkeyed hroot ht hk with hk | ⟨before, column, rfl, hbefore⟩
  · have hhere : Drawn paths ([].map .navigation) := .navigation (.inl rfl)
    rw [halone keys k hk]
    exact hhere
  · have hhere : Drawn paths ([].map .navigation ++ [.lookup column]) := .lookup column (.inl rfl)
    rw [halone before root hbefore]
    exact hhere

end Context

end EntityMap
