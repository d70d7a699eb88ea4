import EntityMap.Proofs.Context.Arena
import EntityMap.Proofs.Context.Lookups

/-!
# As far as the catalog lets a path lead

Which members lead away from an entity, and to which entity in the end,
is written in the catalog (`Catalog.entityAlong?`). In a context that is
grown from an accepted catalog (`Context.Sound`) every member that the
catalog has can be followed (`Context.Sound.run_addNavigation`), so a walk
fails only where the catalog has no such member
(`Context.Sound.addPath_fails`), and up to there its nodes are added even
when it fails (`Context.Sound.exists_descend?_addSegments`).
-/

namespace EntityMap

/-- The entity that a chain of navigation members leads to. -/
def Catalog.entityAlong? (catalog : Catalog) (entity : String) : List String → Option String
  | [] => some entity
  | member :: rest => do
    let r ← (← catalog.table? entity).relationship? member
    catalog.entityAlong? (r.target entity) rest

namespace Catalog

variable {catalog : Catalog} {entity : String} {t : Table}

theorem table_eq_ok_iff : catalog.table entity = .ok t ↔ catalog.table? entity = some t := by
  unfold table
  cases catalog.table? entity <;> simp

theorem entityAlong?_cons {member : String} {rest : List String}
    (ht : catalog.table entity = .ok t) :
    catalog.entityAlong? entity (member :: rest) =
      (t.relationship? member).bind fun r => catalog.entityAlong? (r.target entity) rest := by
  rw [entityAlong?, table_eq_ok_iff.mp ht]
  rfl

theorem exists_of_entityAlong?_cons {member : String} {rest : List String} {e : String}
    (h : catalog.entityAlong? entity (member :: rest) = some e) :
    ∃ t r, catalog.table entity = .ok t ∧ t.relationship? member = some r ∧
      catalog.entityAlong? (r.target entity) rest = some e := by
  obtain ⟨t, ht, h⟩ := Option.bind_eq_some_iff.mp h
  obtain ⟨r, hr, h⟩ := Option.bind_eq_some_iff.mp h
  exact ⟨t, r, table_eq_ok_iff.mpr ht, hr, h⟩

end Catalog

namespace Context

open Growing

/-- A context that has grown from a root in an accepted catalog. -/
structure Sound (ctx : Context) : Prop where
  mapped : ∃ d : Definition, d.toCatalog = .ok ctx.catalog
  arena : ctx.Arena
  registered : ctx.Registered
  complete : ctx.Complete

variable {ctx : Context} {i k : Nat} {n : Node} {t : Table} {r : Relationship} {member : String}
  {segments : List String}

/-- A child under a navigation member hangs by the relationship of that name. -/
theorem Registered.exists_link_of_child? (h : ctx.Registered) (harena : ctx.Arena)
    (hn : ctx.nodes[i]? = some n) (hchild : ctx.child? i (.navigation member) = some k) :
    ∃ t r m nullable, ctx.catalog.table n.entity = .ok t ∧ t.relationship? member = some r ∧
      ctx.nodes[k]? = some m ∧ m.entity = r.target n.entity ∧
      ctx.link? k = some (linkOf i n.entity r nullable) := by
  obtain ⟨link, hlink, rfl, hkey⟩ := h.hangs hchild
  obtain ⟨m, origin, hm, hangs⟩ := harena.hangs_of_link? hlink
  obtain rfl : n = origin := Option.some.inj (hn.symm.trans hangs.origin_eq)
  have hdeclared := hangs.declared
  generalize hentity : m.entity = entity at hdeclared
  cases hdeclared with
  | lookup => simp at hkey
  | @navigation t foreign r foreignKey name _ ht hr _ _ =>
      rw [linkOf_key, (Table.mem_of_relationship? hr).2] at hkey
      obtain rfl := ChildKey.navigation.inj hkey
      exact ⟨t, r, m, foreignKey.nullable, ht, hr, hm, hentity, by simpa using hlink⟩

/-- A node that is attached, and its lookups. -/
def furnish (ctx : Context) (entity table : String) (link : Link) : Context :=
  ((addLookups ctx.nodes.size).run (ctx.attach entity table link)).2

/-- A path is walked segment by segment, unless some segment is blank. -/
theorem run_addPath (path : String) (hn : ctx.nodes[i]? = some n) :
    (addPath i path).run ctx = match pathSegments path with
      | .ok segments => (addSegments path i segments).run ctx
      | .error e => (.error e, ctx) := by
  unfold addPath
  rw [run_look_bind, node_eq_ok_iff.mpr hn]
  dsimp only
  rw [run_look_bind]
  cases pathSegments path <;> rfl

namespace Sound

theorem accepted (h : ctx.Sound) : ctx.catalog.Accepted := by
  obtain ⟨d, hd⟩ := h.mapped
  exact Definition.accepted_of_toCatalog hd

theorem keyed (h : ctx.Sound) : ctx.catalog.Keyed := by
  obtain ⟨d, hd⟩ := h.mapped
  exact Definition.keyed_of_toCatalog hd

theorem related (h : ctx.Sound) : ctx.catalog.Related := by
  obtain ⟨d, hd⟩ := h.mapped
  exact Definition.related_of_toCatalog hd

theorem of_grows {ctx' : Context} (h : ctx.Sound) (hgrows : ctx.Grows ctx')
    (hcomplete : ctx'.Complete) : ctx'.Sound where
  mapped := by rw [hgrows.catalog]; exact h.mapped
  arena := h.arena.grows hgrows
  registered := h.registered.grows hgrows
  complete := hcomplete

/-- The entity at the far end of a relationship is mapped. -/
theorem exists_target {entity : String} (h : ctx.Sound) (ht : t ∈ ctx.catalog.tables)
    (hr : r ∈ t.relationships) : ∃ target, ctx.catalog.table (r.target entity) = .ok target := by
  unfold Relationship.target
  split
  · obtain ⟨foreign, -, hforeign, -⟩ := h.related t ht r hr
    exact ⟨foreign, hforeign⟩
  · obtain ⟨target, -, htarget, -⟩ := h.keyed t ht r hr
    exact ⟨target, htarget⟩

/-- A navigation member that the catalog has can be followed. What is attached does not depend on
the path that is quoted. -/
theorem run_addNavigation (h : ctx.Sound) (hn : ctx.nodes[i]? = some n)
    (ht : ctx.catalog.table n.entity = .ok t) (hr : t.relationship? member = some r) :
    ∃ target nullable, ctx.catalog.table (r.target n.entity) = .ok target ∧
      ∀ path, (addNavigation i member path).run ctx = (.ok ctx.nodes.size,
        ctx.furnish (r.target n.entity) target.table (linkOf i n.entity r nullable)) := by
  obtain ⟨hmem, hentity⟩ := Catalog.mem_of_table ht
  have hrmem := (Table.mem_of_relationship? hr).1
  obtain ⟨target, htarget⟩ : ∃ target, ctx.catalog.table (r.target n.entity) = .ok target :=
    h.exists_target hmem hrmem
  obtain ⟨foreign, foreignKey, hforeign, hforeignKey⟩ := h.related t hmem r hrmem
  refine ⟨target, foreignKey.nullable, htarget, fun path => ?_⟩
  let link := linkOf i n.entity r foreignKey.nullable
  have horigin : ctx.nodes[link.origin]? = some n := by rw [linkOf_origin]; exact hn
  have hcatalog : (ctx.attach (r.target n.entity) target.table link).catalog = ctx.catalog :=
    catalog_attach horigin
  obtain ⟨ctx', hrun, -, -⟩ := exists_run_addLookups (by rw [hcatalog]; exact h.complete.keyed)
    (attach_last horigin) (by rw [hcatalog]; exact htarget)
  have hnode : (do let index ← addNode (r.target n.entity) link; addLookups index; return index :
      Growing ContextError Nat).run ctx = (.ok ctx.nodes.size, ctx') := by
    rw [run_bind, run_addNode htarget]
    simp only
    rw [run_bind, hrun]
    rfl
  have hend : ctx.furnish (r.target n.entity) target.table link = ctx' := by
    rw [furnish, hrun]
  unfold addNavigation
  rw [run_look_bind, node_eq_ok_iff.mpr hn]
  simp only [bind, Except.bind, entityTable_eq_ok_iff.mpr ht, hr,
    entityTable_eq_ok_iff.mpr hforeign, hforeignKey, Except.mapError, pure, Except.pure]
  rw [hend]
  exact hnode

theorem run_addNavigation_unknown (path : String) (hn : ctx.nodes[i]? = some n)
    (ht : ctx.catalog.table n.entity = .ok t) (hr : t.relationship? member = none) :
    (addNavigation i member path).run ctx =
      (.error (.unknownNavigation n.entity member path), ctx) := by
  unfold addNavigation
  rw [run_look_bind, node_eq_ok_iff.mpr hn]
  simp only [bind, Except.bind, entityTable_eq_ok_iff.mpr ht, hr, throw, throwThe,
    MonadExceptOf.throw]

/-- A child under a navigation member is of the entity that the member leads to. -/
theorem exists_of_child? (h : ctx.Sound) (hn : ctx.nodes[i]? = some n)
    (hchild : ctx.child? i (.navigation member) = some k) :
    ∃ t r m, ctx.catalog.table n.entity = .ok t ∧ t.relationship? member = some r ∧
      ctx.nodes[k]? = some m ∧ m.entity = r.target n.entity := by
  obtain ⟨t, r, m, nullable, ht, hr, hm, hentity, -⟩ :=
    h.registered.exists_link_of_child? h.arena hn hchild
  exact ⟨t, r, m, ht, hr, hm, hentity⟩

end Sound

/-- A walk goes on from a node over a member, to a child that is there or attached now. -/
structure Walks (ctx : Context) (i : Nat) (member entity : String) (next : Nat)
    (ctx' : Context) : Prop where
  sound : ctx'.Sound
  grows : ctx.Grows ctx'
  child : ctx'.child? i (.navigation member) = some next
  node : ∃ n, ctx'.nodes[next]? = some n ∧ n.entity = entity
  run : ∀ path rest,
    (addSegments path i (member :: rest)).run ctx = (addSegments path next rest).run ctx'
  attached : ctx' = ctx ∨ ∃ target link, ctx.catalog.table entity = .ok target ∧
    link.origin = i ∧ link.key = .navigation member ∧ ctx' = ctx.furnish entity target.table link

theorem pathSegments_eq_error {path : String} {e : ContextError}
    (h : pathSegments path = .error e) : e = .invalidPath path ∧ Path.hasBlank path := by
  unfold pathSegments at h
  split at h
  · cases h
  · split at h
    · rename_i hblank
      exact ⟨(Except.error.inj h).symm, hblank⟩
    · cases h

namespace Sound

theorem run_addSegments_cons (path : String) (rest : List String) :
    (addSegments path i (member :: rest)).run ctx =
      match ctx.child? i (.navigation member) with
      | some next => (addSegments path next rest).run ctx
      | none =>
        (addNavigation i member path >>= fun next => addSegments path next rest).run ctx := by
  rw [addSegments]
  refine (run_get_bind _ ctx).trans ?_
  cases ctx.child? i (.navigation member) with
  | some next => simp only [pure_bind]
  | none => rfl

/-- A member that the catalog has leads on. -/
theorem exists_walks (h : ctx.Sound) (hn : ctx.nodes[i]? = some n)
    (ht : ctx.catalog.table n.entity = .ok t) (hr : t.relationship? member = some r) :
    ∃ next ctx', ctx.Walks i member (r.target n.entity) next ctx' := by
  cases hchild : ctx.child? i (.navigation member) with
  | some next =>
      obtain ⟨t', r', m, ht', hr', hm, hentity⟩ := h.exists_of_child? hn hchild
      cases ht.symm.trans ht'
      cases hr.symm.trans hr'
      refine ⟨next, ctx, h, Grows.refl ctx, hchild, ⟨m, hm, hentity⟩, fun path rest => ?_, .inl rfl⟩
      rw [run_addSegments_cons, hchild]
  | none =>
      obtain ⟨target, nullable, htarget, hrun⟩ := h.run_addNavigation hn ht hr
      have hfree : (ctx.child? i (.navigation member)).isNone := by rw [hchild]; rfl
      have hleads : (addNavigation i member "").Leads ctx _ := addNavigation_leads hfree
      have hgrows := hleads.grows
      have hnext := hleads.answer _ (congrArg (·.1) (hrun ""))
      have hcomplete := addNavigation_keeps i member "" ctx h.complete
      rw [hrun ""] at hgrows hnext hcomplete
      have hsound := h.of_grows hgrows hcomplete
      obtain ⟨n', hn', more, rfl⟩ := hgrows.node hn
      obtain ⟨t', r', m, ht', hr', hm, hentity⟩ := hsound.exists_of_child? hn' hnext
      rw [hgrows.catalog] at ht'
      cases ht.symm.trans ht'
      cases hr.symm.trans hr'
      refine ⟨ctx.nodes.size, _, hsound, hgrows, hnext, ⟨m, hm, hentity⟩, fun path rest => ?_,
        .inr ⟨target, _, htarget, linkOf_origin .., ?_, rfl⟩⟩
      · rw [run_addSegments_cons, hchild]
        dsimp only
        rw [run_bind, hrun path]
      · rw [linkOf_key, (Table.mem_of_relationship? hr).2]

theorem run_addSegments_unknown (h : ctx.Sound) (path : String) (rest : List String)
    (hn : ctx.nodes[i]? = some n) (ht : ctx.catalog.table n.entity = .ok t)
    (hr : t.relationship? member = none) :
    (addSegments path i (member :: rest)).run ctx =
      (.error (.unknownNavigation n.entity member path), ctx) := by
  rw [run_addSegments_cons]
  cases hchild : ctx.child? i (.navigation member) with
  | some next =>
      obtain ⟨t', r', m, ht', hr', -⟩ := h.exists_of_child? hn hchild
      cases ht.symm.trans ht'
      cases hr.symm.trans hr'
  | none =>
      dsimp only
      rw [run_bind, run_addNavigation_unknown path hn ht hr]

/-- A walk fails at a member that the catalog does not have. -/
theorem addSegments_fails {path : String} {e : ContextError} (h : ctx.Sound)
    (hn : ctx.nodes[i]? = some n)
    (hfails : ((addSegments path i segments).run ctx).1 = .error e) :
    ∃ entity member t, e = .unknownNavigation entity member path ∧
      ctx.catalog.table entity = .ok t ∧ t.relationship? member = none := by
  induction segments generalizing ctx i n with
  | nil => cases hfails
  | cons member rest ih =>
      obtain ⟨t, ht, -⟩ := h.arena.table hn
      cases hr : t.relationship? member with
      | none =>
          rw [h.run_addSegments_unknown path rest hn ht hr] at hfails
          exact ⟨n.entity, member, t, (Except.error.inj hfails).symm, ht, hr⟩
      | some r =>
          obtain ⟨next, ctx', hwalks⟩ := h.exists_walks hn ht hr
          obtain ⟨m, hm, -⟩ := hwalks.node
          rw [hwalks.run] at hfails
          obtain ⟨entity, member, t, he, ht, hnone⟩ := ih hwalks.sound hm hfails
          exact ⟨entity, member, t, he, by rw [← hwalks.grows.catalog]; exact ht, hnone⟩

/-- A path from a node that is there fails where it has a blank segment, or where an entity on the
way has no such navigation member. -/
theorem addPath_fails {start : Nat} {path : String} {e : ContextError} (h : ctx.Sound)
    (hstart : start < ctx.nodes.size) (hfails : ((addPath start path).run ctx).1 = .error e) :
    (e = .invalidPath path ∧ Path.hasBlank path) ∨
      ∃ entity member t, e = .unknownNavigation entity member path ∧
        ctx.catalog.table entity = .ok t ∧ t.relationship? member = none := by
  have hn : ctx.nodes[start]? = some ctx.nodes[start] := Array.getElem?_eq_getElem hstart
  rw [run_addPath path hn] at hfails
  cases hsegments : pathSegments path with
  | error fault =>
      rw [hsegments] at hfails
      obtain rfl := Except.error.inj hfails
      exact .inl (pathSegments_eq_error hsegments)
  | ok segments =>
      rw [hsegments] at hfails
      exact .inr (h.addSegments_fails hn hfails)

/-- Whether a walk succeeds, and where it ends, does not depend on the path that is quoted. -/
theorem addSegments_eq_ok_iff {path path' : String} {ctx' : Context} (h : ctx.Sound)
    (hn : ctx.nodes[i]? = some n) :
    (addSegments path i segments).run ctx = (.ok k, ctx') ↔
      (addSegments path' i segments).run ctx = (.ok k, ctx') := by
  induction segments generalizing ctx i n with
  | nil => exact Iff.rfl
  | cons member rest ih =>
      obtain ⟨t, ht, -⟩ := h.arena.table hn
      cases hr : t.relationship? member with
      | none =>
          rw [h.run_addSegments_unknown path rest hn ht hr,
            h.run_addSegments_unknown path' rest hn ht hr]
          constructor <;> intro hok <;> cases hok
      | some r =>
          obtain ⟨next, ctx₁, hwalks⟩ := h.exists_walks hn ht hr
          obtain ⟨m, hm, -⟩ := hwalks.node
          rw [hwalks.run, hwalks.run]
          exact ih hwalks.sound hm

/-- The nodes of a chain are of the entities that the catalog names. -/
theorem entityAlong?_of_descend? (h : ctx.Sound) (hn : ctx.nodes[i]? = some n)
    (hk : ctx.descend? i (segments.map .navigation) = some k) :
    ∃ m, ctx.nodes[k]? = some m ∧ ctx.catalog.entityAlong? n.entity segments = some m.entity := by
  induction segments generalizing i n with
  | nil =>
      obtain rfl := Option.some.inj hk
      exact ⟨n, hn, rfl⟩
  | cons member rest ih =>
      rw [List.map_cons, descend?_cons] at hk
      obtain ⟨next, hchild, hk⟩ := Option.bind_eq_some_iff.mp hk
      obtain ⟨t, r, m, ht, hr, hm, hentity⟩ := h.exists_of_child? hn hchild
      obtain ⟨last, hlast, halong⟩ := ih hm hk
      refine ⟨last, hlast, ?_⟩
      rw [Catalog.entityAlong?_cons ht, hr, Option.bind_some, ← hentity]
      exact halong

/-- A walk adds its nodes as far as the catalog lets it, also when it fails further on. -/
theorem exists_descend?_addSegments {path e : String} {reached : List String} (h : ctx.Sound)
    (hn : ctx.nodes[i]? = some n) (hreached : reached <+: segments)
    (halong : ctx.catalog.entityAlong? n.entity reached = some e) :
    ∃ k,
      ((addSegments path i segments).run ctx).2.descend? i (reached.map .navigation) = some k := by
  induction segments generalizing ctx i n reached with
  | nil =>
      obtain rfl := List.prefix_nil.mp hreached
      exact ⟨i, rfl⟩
  | cons member rest ih =>
      cases reached with
      | nil => exact ⟨i, rfl⟩
      | cons first reached =>
          obtain ⟨rfl, hrest⟩ := List.cons_prefix_cons.mp hreached
          obtain ⟨t, r, ht, hr, halong⟩ := Catalog.exists_of_entityAlong?_cons halong
          obtain ⟨next, ctx', hwalks⟩ := h.exists_walks hn ht hr
          obtain ⟨m, hm, hentity⟩ := hwalks.node
          rw [← hentity, ← hwalks.grows.catalog] at halong
          obtain ⟨k, hk⟩ := ih hwalks.sound hm hrest halong
          refine ⟨k, ?_⟩
          have hgrows : ctx'.Grows ((addSegments path next rest).run ctx').2 :=
            (addSegments_leads next).grows
          rw [hwalks.run, List.map_cons, descend?_cons, hgrows.child? hwalks.child]
          exact hk

end Sound

/-- A context that is sound stays so along every path. -/
theorem addPath_keeps_sound (start : Nat) (path : String) : (addPath start path).Keeps Sound :=
  fun ctx h => h.of_grows (addPath_leads start path).grows (addPath_keeps start path ctx h.complete)

end Context

end EntityMap
