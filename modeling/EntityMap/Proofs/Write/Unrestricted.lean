import EntityMap.Proofs.Query.Unrestricted
import EntityMap.Proofs.Write.SaveSteps

/-!
# Writing without permissions

The same rules over a catalog in which everything is permitted ask by the
same key queries (`CascadeRules.keyQuery_unrestricted`) and bring values
into the same storage form. Rules that agree there differ at most in what
they permit (`CascadeRules.Peer`): they find the same tables and
ownerships, each with what it permits on them, and what is left to differ
is where a table is asked for its permission.
-/

namespace EntityMap

/-- Whether operations of a kind are permitted. -/
def Permissions.allows (p : Permissions) : OperationKind → Bool
  | .insert => p.insert
  | .update | .patch | .detach => p.update
  | .delete => p.delete

namespace Table

variable (t : Table) (kind : OperationKind)

theorem permit_eq : t.permit kind =
    if t.permissions.allows kind then .ok () else .error (.notPermitted t.entity kind) := by
  cases kind <;> rfl

@[simp] theorem permit_unrestricted : t.unrestricted.permit kind = .ok () := by
  cases kind <;> rfl

end Table

namespace CascadeRules

/-- The same rules where everything is permitted. -/
def unrestricted (rules : CascadeRules) : CascadeRules :=
  { rules with catalog := rules.catalog.unrestricted }

variable (rules : CascadeRules)

theorem keyedTable_unrestricted (entity : String) :
    rules.unrestricted.keyedTable entity =
      (rules.keyedTable entity).map fun keyed => (keyed.1.unrestricted, keyed.2) := by
  unfold keyedTable unrestricted
  rw [Catalog.table_unrestricted]
  cases rules.catalog.table entity with
  | error e => rfl
  | ok t =>
      show (t.key.mapError WriteError.catalog >>= fun key => .ok (t.unrestricted, key)) =
        (t.key.mapError WriteError.catalog >>= fun key => .ok (t, key)).map _
      cases t.key <;> rfl

/-- Rows are queried by the same statement. -/
theorem keyQuery_unrestricted (entity : String) (filter : Filter) :
    rules.unrestricted.keyQuery entity filter = rules.keyQuery entity filter := by
  unfold keyQuery
  rw [keyedTable_unrestricted, Except.map_bind]
  cases rules.keyedTable entity with
  | error e => rfl
  | ok keyed =>
      obtain ⟨t, keyColumn⟩ := keyed
      have hctx : Context.ofEntity rules.unrestricted.catalog entity = _ :=
        Context.ofEntity_unrestricted rules.catalog entity
      dsimp only [bind, Except.bind]
      rw [hctx]
      cases Context.ofEntity rules.catalog entity with
      | error e => rfl
      | ok ctx =>
          have hplan := Request.plan_blind (r := (({} : Request).projecting keyColumn.member
            keyLabel).filtered filter) rfl Context.root .outer ctx
          dsimp only [Except.map, Except.mapError]
          rw [hplan]

/-! ## What is permitted -/

/-- What is permitted on an entity. -/
def grants (entity : String) : Permissions :=
  match rules.catalog.table entity with
  | .ok t => t.permissions
  | .error _ => {}

/-- A table with what is permitted on its entity. -/
def restrict (t : Table) : Table :=
  { t with permissions := rules.grants t.entity }

/-- An ownership with what is permitted on the entity of its child. -/
def restrictChild (o : Ownership) : Ownership :=
  { o with child := rules.restrict o.child }

/-- Rules that differ at most in what is permitted. -/
def Peer (base : CascadeRules) : Prop :=
  rules.unrestricted = base.unrestricted

variable {rules} {base : CascadeRules} {entity : String}

theorem restrict_eq {t : Table} (ht : rules.catalog.table entity = .ok t) :
    rules.restrict t = t := by
  obtain rfl := (Catalog.mem_of_table ht).2
  have hgrants : rules.grants t.entity = t.permissions := by
    unfold grants
    rw [ht]
  unfold restrict
  rw [hgrants]

theorem Peer.identityInsert_eq (h : rules.Peer base) : rules.identityInsert = base.identityInsert :=
  (congrArg CascadeRules.identityInsert h :
    rules.unrestricted.identityInsert = base.unrestricted.identityInsert)

theorem Peer.depth_eq (h : rules.Peer base) : rules.depth = base.depth :=
  (congrArg CascadeRules.depth h : rules.unrestricted.depth = base.unrestricted.depth)

theorem Peer.maxParallelCollections_eq (h : rules.Peer base) :
    rules.maxParallelCollections = base.maxParallelCollections :=
  (congrArg CascadeRules.maxParallelCollections h :
    rules.unrestricted.maxParallelCollections = base.unrestricted.maxParallelCollections)

theorem Peer.of_unrestricted : base.unrestricted.Peer base := by
  have htables : (base.catalog.tables.map Table.unrestricted).map Table.unrestricted =
      base.catalog.tables.map Table.unrestricted := by
    rw [List.map_map]
    rfl
  unfold Peer unrestricted Catalog.unrestricted
  rw [htables]

theorem restrict_of_unrestricted (rules : CascadeRules) (t : Table) :
    rules.unrestricted.restrict t = (rules.restrict t).unrestricted := by
  have hgrants : rules.unrestricted.grants t.entity = {} := by
    unfold grants unrestricted
    rw [Catalog.table_unrestricted]
    cases rules.catalog.table t.entity <;> rfl
  unfold restrict
  rw [hgrants]
  rfl

/-- Peers find the same tables, each with what it permits on them. -/
theorem Peer.table_eq (h : rules.Peer base) (entity : String) :
    rules.catalog.table entity = (base.catalog.table entity).map rules.restrict := by
  have hcatalog : rules.catalog.unrestricted = base.catalog.unrestricted :=
    congrArg CascadeRules.catalog h
  have hsame := rules.catalog.table_unrestricted entity
  rw [hcatalog, base.catalog.table_unrestricted] at hsame
  cases ht : rules.catalog.table entity with
  | error e =>
      cases hbase : base.catalog.table entity with
      | error e' =>
          rw [ht, hbase] at hsame
          cases hsame
          rfl
      | ok t =>
          rw [ht, hbase] at hsame
          cases hsame
  | ok t =>
      cases hbase : base.catalog.table entity with
      | error e' =>
          rw [ht, hbase] at hsame
          cases hsame
      | ok t' =>
          rw [ht, hbase] at hsame
          -- What is permitted on a table does not count in what it is restricted to.
          have hrestrict : rules.restrict t'.unrestricted = rules.restrict t.unrestricted :=
            congrArg rules.restrict (Except.ok.inj hsame)
          have hown : rules.restrict t' = t := hrestrict.trans (restrict_eq ht)
          exact congrArg Except.ok hown.symm

theorem Peer.table_eq_ok (h : rules.Peer base) {t : Table}
    (ht : base.catalog.table t.entity = .ok t) :
    rules.catalog.table t.entity = .ok (rules.restrict t) := by
  rw [h.table_eq, ht]
  rfl

theorem Peer.keyedTable_eq (h : rules.Peer base) (entity : String) :
    rules.keyedTable entity =
      (base.keyedTable entity).map fun keyed => (rules.restrict keyed.1, keyed.2) := by
  unfold keyedTable
  rw [h.table_eq]
  cases base.catalog.table entity with
  | error e => rfl
  | ok t =>
      show (t.key.mapError WriteError.catalog >>= fun key => .ok (rules.restrict t, key)) =
        (t.key.mapError WriteError.catalog >>= fun key => .ok (t, key)).map _
      cases t.key <;> rfl

theorem Peer.keyedTable_eq_ok (h : rules.Peer base) {t : Table} {keyColumn : Column}
    (ht : base.keyedTable entity = .ok (t, keyColumn)) :
    rules.keyedTable entity = .ok (rules.restrict t, keyColumn) := by
  rw [h.keyedTable_eq, ht]
  rfl

/-- Rows hang on each other alike. -/
theorem Peer.ownership_eq (h : rules.Peer base) (r : Relationship) :
    rules.ownership r = (base.ownership r).map rules.restrictChild := by
  unfold ownership
  rw [h.keyedTable_eq, Except.map_bind]
  cases base.keyedTable r.foreignKey.entity with
  | error e => rfl
  | ok keyed =>
      obtain ⟨child, childKey⟩ := keyed
      have hcolumn : (rules.restrict child).column r.foreignKey.member =
          child.column r.foreignKey.member := rfl
      dsimp only [bind, Except.bind]
      rw [hcolumn]
      cases child.column r.foreignKey.member <;> rfl

theorem Peer.genuine_iff (h : rules.Peer base) (e : Event) :
    e.Genuine rules ↔ e.Genuine base := by
  have hquery : ∀ entity filter, rules.keyQuery entity filter = base.keyQuery entity filter := by
    intro entity filter
    rw [← rules.keyQuery_unrestricted, h, base.keyQuery_unrestricted]
  cases e with
  | asked => exact iff_of_eq (congrArg (· = _) (hquery _ _))
  | swept => exact iff_of_eq (congrArg (· = _) (hquery _ _))
  | executed => exact Iff.rfl
  | generated => exact Iff.rfl

end CascadeRules

/-- Peers send the same. -/
theorem UnitOfWork.Sends.of_peer {σ : Type} [Executor σ] {base rules : CascadeRules}
    {u u' : UnitOfWork σ} {es : List Event} (h : UnitOfWork.Sends base u es u')
    (hpeer : rules.Peer base) : UnitOfWork.Sends rules u es u' := by
  induction h with
  | done u => exact .done u
  | event hopen hgenuine hanswered _ ih =>
      exact .event hopen ((hpeer.genuine_iff _).mpr hgenuine) hanswered ih

namespace Cascade

variable {σ : Type} [Executor σ] {rules : CascadeRules}

theorem selectKeys_unrestricted :
    (selectKeys rules.unrestricted : String → Filter → Writing σ (List Value)) =
      selectKeys rules := by
  funext entity filter
  unfold selectKeys
  rw [rules.keyQuery_unrestricted]

/-! ## Assignments -/

variable (t : Table)

theorem storageValue_unrestricted :
    (storageValue rules.unrestricted t.unrestricted : Column → Value → Writing σ Value) =
      storageValue rules t := by
  funext c v
  unfold storageValue resolveLookup
  simp only [selectKeys_unrestricted]
  rfl

theorem updateAssignment_unrestricted (values aside : Named Value) :
    (updateAssignment rules.unrestricted t.unrestricted values aside :
      Column → Writing σ (Option Assignment)) = updateAssignment rules t values aside := by
  funext c
  unfold updateAssignment
  rw [storageValue_unrestricted]
  rfl

theorem insertAssignment_unrestricted (values aside : Named Value) :
    (insertAssignment rules.unrestricted t.unrestricted values aside :
      Column → Writing σ (Option Assignment)) = insertAssignment rules t values aside := by
  funext c
  unfold insertAssignment
  rw [storageValue_unrestricted]
  rfl

theorem patchAssignment_unrestricted :
    (patchAssignment rules.unrestricted t.unrestricted : String → Value → Writing σ Assignment) =
      patchAssignment rules t := by
  funext member v
  unfold patchAssignment
  rw [storageValue_unrestricted]
  rfl

theorem changeRow_unrestricted (keyColumn : Column) (key : Value) :
    (changeRow rules.unrestricted t.unrestricted keyColumn key :
      List Assignment → Writing σ Value) = changeRow rules t keyColumn key := by
  funext assignments
  unfold changeRow
  rw [selectKeys_unrestricted]
  rfl

end Cascade

end EntityMap
