import EntityMap.Proofs.Context.Navigation
import EntityMap.Proofs.Query.Invariant

/-!
# What acceptance spares the traversal

A definition is checked once, relationship by relationship, each as its
declaring entity sees it. A context decides anew at every node which way
to walk, to which entity and over which members. The checks suffice for
it: in an accepted catalog no walk meets a fault of the mapping
(`Definition.sufficient_of_toCatalog`).

What a link names is always mapped (`Link.Mapped`): a foreign key on one
side and the single key on the other, whichever way the link is walked
(`Link.Declared.mapped`).
-/

namespace EntityMap

/-- A link joins mapped members of two entities, the foreign key of the one with the single key of
the other, and may be open where the foreign key may be null. -/
def Link.Mapped (catalog : Catalog) (originEntity entity : String) (link : Link) : Prop :=
  ∃ origin node originColumn nodeColumn,
    catalog.table originEntity = .ok origin ∧ catalog.table entity = .ok node ∧
    origin.column link.originMember = .ok originColumn ∧
    node.column link.nodeMember = .ok nodeColumn ∧
    if link.traversal = .inverse then
      origin.key = .ok originColumn ∧ link.nullable = nodeColumn.nullable
    else node.key = .ok nodeColumn ∧ link.nullable = originColumn.nullable

/-- Every link that an accepted catalog declares joins mapped members. -/
theorem Link.Declared.mapped {catalog : Catalog} {originEntity entity : String} {link : Link}
    (h : Link.Declared catalog originEntity entity link) (haccepted : catalog.Accepted)
    (hkeyed : catalog.Keyed) : link.Mapped catalog originEntity entity := by
  cases h with
  | @lookup table target column key lookup i htable hcolumn _ htarget hkey =>
      have hkeycolumn := haccepted.column_eq (Catalog.mem_of_table htarget).1
        (mem_columns_of_key hkey)
      refine ⟨table, target, column, key, htable, htarget, ?_, hkeycolumn, ?_⟩
      · exact haccepted.column_eq (Catalog.mem_of_table htable).1 hcolumn
      · rw [if_neg (by simp)]
        exact ⟨hkey, rfl⟩
  | @navigation table foreign r foreignKey name i htable hr hforeign hforeignKey =>
      obtain ⟨hmem, hentity⟩ := Catalog.mem_of_table htable
      have hrmem := (Table.mem_of_relationship? hr).1
      have htouches := haccepted.touches table hmem r hrmem
      rw [hentity] at htouches
      obtain ⟨target, key, htarget, hkey, hmember⟩ := hkeyed table hmem r hrmem
      have hkeycolumn : target.column r.primaryKey.member = .ok key := by
        rw [← hmember]
        exact haccepted.column_eq (Catalog.mem_of_table htarget).1 (mem_columns_of_key hkey)
      cases hwalk : r.isInverseFrom originEntity with
      | true =>
          have hkeyhere := r.primaryKey_entity htouches hwalk
          rw [hkeyhere] at htarget
          refine ⟨target, foreign, key, foreignKey, htarget, ?_, ?_⟩
          · rw [Relationship.target, hwalk]
            exact hforeign
          · simp [Context.linkOf, hwalk, hkeycolumn, hforeignKey, hkey]
      | false =>
          have hforeignhere := r.foreignKey_entity htouches hwalk
          rw [hforeignhere] at hforeign
          refine ⟨foreign, target, foreignKey, key, hforeign, ?_, ?_⟩
          · rw [Relationship.target, hwalk]
            exact htarget
          · simp [Context.linkOf, hwalk, hkeycolumn, hforeignKey, hkey]

namespace Context

open Growing

variable {ctx : Context}

theorem Reachable.sound (h : Reachable ctx) : ctx.Sound :=
  ⟨h.accepted, h.arena, h.registered, h.complete⟩

/-- A context cannot be started for an entity only if the entity is not mapped. -/
theorem ofEntity_fails {catalog : Catalog} {entity : String} {e : ContextError}
    (hkeyed : catalog.LookupsKeyed) (h : ofEntity catalog entity = .error e) :
    e = .catalog (.unmappedEntity entity) ∧ catalog.table? entity = none := by
  cases ht : catalog.table? entity with
  | some t =>
      obtain ⟨ctx, hctx, -⟩ := exists_ofEntity hkeyed (Catalog.table_eq_ok_iff.mpr ht)
      cases h.symm.trans hctx
  | none =>
      simp only [ofEntity, Catalog.table, ht, Except.mapError, bind, Except.bind] at h
      exact ⟨(Except.error.inj h).symm, rfl⟩

end Context

open Context in
/-- The checks of a definition suffice for every traversal of its catalog. A context fails to start
only for an entity that is not mapped. In every context that calls lead to, a path from a node that
is there fails only for its blank segments or for a member that the catalog does not have. And the
link of every node but the root joins mapped members, a foreign key and a single key. -/
theorem Definition.sufficient_of_toCatalog {d : Definition} {catalog : Catalog}
    (h : d.toCatalog = .ok catalog) :
    (∀ entity e, ofEntity catalog entity = .error e →
      e = .catalog (.unmappedEntity entity) ∧ catalog.table? entity = none) ∧
    ∀ ctx, Reachable ctx → ctx.catalog = catalog →
      (∀ start path e, start < ctx.nodes.size → ((addPath start path).run ctx).1 = .error e →
        (e = .invalidPath path ∧ Path.hasBlank path) ∨
          ∃ entity member t, e = .unknownNavigation entity member path ∧
            catalog.table entity = .ok t ∧ t.relationship? member = none) ∧
      ∀ i n, ctx.nodes[i]? = some n → i ≠ 0 → ∃ link origin, n.link = some link ∧
        ctx.nodes[link.origin]? = some origin ∧ link.Mapped catalog origin.entity n.entity := by
  refine ⟨fun entity e hfails => ofEntity_fails (lookupsKeyed_of_toCatalog h) hfails, ?_⟩
  rintro ctx hctx rfl
  have hsound := hctx.sound
  refine ⟨fun start path e hstart hfails => hsound.addPath_fails hstart hfails, ?_⟩
  intro i n hn hi
  cases hlink : n.link with
  | none => exact absurd (hsound.arena.linked hn hlink) hi
  | some link =>
      obtain ⟨origin, hangs⟩ := hsound.arena.hangs hn hlink
      exact ⟨link, origin, rfl, hangs.origin_eq,
        hangs.declared.mapped hsound.accepted hsound.keyed⟩

open Context in
/-- A ticket has no owner, and no entity has this name either. The parent that is on the way is
attached nevertheless, with its state. -/
theorem Definition.sufficient_desk :
    ∃ ctx, ((addPath 0 "Parent.Owner").run deskContext).2 = ctx ∧ ctx.nodes.size = 4 ∧
      (∃ e, ofEntity ctx.catalog "Owner" = .error e ∧ e = .catalog (.unmappedEntity "Owner") ∧
        ctx.catalog.table? "Owner" = none) ∧
      (∃ e, ((addPath 2 "Owner").run ctx).1 = .error e ∧
        ((e = .invalidPath "Owner" ∧ Path.hasBlank "Owner") ∨
          ∃ entity member t, e = .unknownNavigation entity member "Owner" ∧
            ctx.catalog.table entity = .ok t ∧ t.relationship? member = none)) ∧
      ∀ i n, ctx.nodes[i]? = some n → i ≠ 0 → ∃ link origin, n.link = some link ∧
        ctx.nodes[link.origin]? = some origin ∧ link.Mapped ctx.catalog origin.entity n.entity := by
  have haccepted : Definition.toCatalog ⟨[], deskTables⟩ = .ok deskContext.catalog := rfl
  have hctx : Reachable ((addPath 0 "Parent.Owner").run deskContext).2 :=
    .call reachable_deskContext (.addPath 0 "Parent.Owner")
  have hsize : ((addPath 0 "Parent.Owner").run deskContext).2.nodes.size = 4 := by decide +kernel
  have hcatalog : ((addPath 0 "Parent.Owner").run deskContext).2.catalog = deskContext.catalog :=
    (addPath_leads 0 "Parent.Owner").grows.catalog
  have hfails : ((addPath 2 "Owner").run ((addPath 0 "Parent.Owner").run deskContext).2).1 =
      .error (.unknownNavigation "Ticket" "Owner" "Owner") := by decide +kernel
  generalize ((addPath 0 "Parent.Owner").run deskContext).2 = ctx at hctx hsize hcatalog hfails
  have howner : ofEntity ctx.catalog "Owner" = .error (.catalog (.unmappedEntity "Owner")) := by
    rw [hcatalog]
    rfl
  obtain ⟨hstart, hcalls⟩ := sufficient_of_toCatalog haccepted
  rw [← hcatalog] at hstart hcalls
  obtain ⟨hpaths, hlinks⟩ := hcalls ctx hctx rfl
  refine ⟨ctx, rfl, hsize, ⟨_, howner, hstart "Owner" _ howner⟩, ⟨_, hfails, ?_⟩, hlinks⟩
  exact hpaths 2 "Owner" _ (by omega) hfails

end EntityMap
