import EntityMap.Proofs.Catalog.Accepted
import EntityMap.Write.Cascade

/-!
# What a cascade works by

The tables and keys that the rules of a cascade find in the catalog, and
how the rows of a relationship hang on each other. What the catalog does
not allow is found out before a statement is executed, so that the error
is none of execution (`Checked`).
-/

namespace EntityMap

namespace CascadeRules

variable {rules : CascadeRules} {entity : String} {t : Table} {keyColumn : Column}
  {r : Relationship} {o : Ownership}

theorem table_of_keyedTable (h : rules.keyedTable entity = .ok (t, keyColumn)) :
    rules.catalog.table entity = .ok t ∧ t.key = .ok keyColumn := by
  obtain ⟨t', ht, hkey⟩ := Except.bind_eq_ok_iff.mp h
  obtain ⟨keyColumn', hkeyColumn, heq⟩ := Except.bind_eq_ok_iff.mp hkey
  cases heq
  exact ⟨Except.mapError_eq_ok_iff.mp ht, Except.mapError_eq_ok_iff.mp hkeyColumn⟩

theorem mem_of_keyedTable (h : rules.keyedTable entity = .ok (t, keyColumn)) :
    t ∈ rules.catalog.tables ∧ t.entity = entity :=
  Catalog.mem_of_table (table_of_keyedTable h).1

theorem keyedTable_eq_ok (h : rules.keyedTable entity = .ok (t, keyColumn)) :
    t.entity = entity ∧ rules.keyedTable t.entity = .ok (t, keyColumn) := by
  obtain ⟨-, hentity⟩ := mem_of_keyedTable h
  exact ⟨hentity, hentity ▸ h⟩

theorem table_entity_of_keyedTable (h : rules.keyedTable entity = .ok (t, keyColumn)) :
    rules.catalog.table t.entity = .ok t :=
  (table_of_keyedTable (keyedTable_eq_ok h).2).1

/-- A column that is not the key has a member of its own. -/
theorem member_ne_of_keyedTable {c : Column} (haccepted : rules.catalog.Accepted)
    (h : rules.keyedTable entity = .ok (t, keyColumn)) (hc : c ∈ t.columns)
    (hprimary : c.primaryKey = false) : c.member ≠ keyColumn.member := by
  obtain ⟨ht, hkey⟩ := table_of_keyedTable h
  intro heq
  have hsame := haccepted.eq_of_member (Catalog.mem_of_table ht).1 hc (mem_columns_of_key hkey) heq
  rw [hsame, primaryKey_of_key hkey] at hprimary
  cases hprimary

/-- The child table of an ownership is that of its entity. -/
theorem keyedTable_child (h : rules.ownership r = .ok o) :
    rules.keyedTable o.child.entity = .ok (o.child, o.childKey) := by
  obtain ⟨⟨child, childKey⟩, hchild, hrest⟩ := Except.bind_eq_ok_iff.mp h
  obtain ⟨foreignKey, -, heq⟩ := Except.bind_eq_ok_iff.mp hrest
  cases heq
  exact (keyedTable_eq_ok hchild).2

/-- The foreign key of an ownership is a column of its child table. -/
theorem foreignKey_mem (h : rules.ownership r = .ok o) : o.foreignKey ∈ o.child.columns := by
  obtain ⟨⟨child, childKey⟩, -, hrest⟩ := Except.bind_eq_ok_iff.mp h
  obtain ⟨foreignKey, hforeignKey, heq⟩ := Except.bind_eq_ok_iff.mp hrest
  cases heq
  exact (Table.mem_of_column (Except.mapError_eq_ok_iff.mp hforeignKey)).1

/-- The rows at the far end of a relationship hang on those of the table that declares it. -/
structure Declares (rules : CascadeRules) (t : Table) (r : Relationship)
    (o : Ownership) : Prop where
  table : t ∈ rules.catalog.tables
  relationship : r ∈ t.relationships
  isInverse : r.isInverseFrom t.entity = true
  ownership : rules.ownership r = .ok o

end CascadeRules

/-! ## Checks -/

/-- An answer whose error, if it is one, is none of execution. -/
def Checked {α : Type} (answer : Except WriteError α) : Prop :=
  ∀ error, answer = .error error → error.category ≠ .execution

namespace Checked

variable {α β ε : Type}

theorem ok {a : α} : Checked (.ok a : Except WriteError α) :=
  nofun

theorem error {error : WriteError} (h : error.category ≠ .execution) :
    Checked (.error error : Except WriteError α) :=
  fun _ heq => Except.error.inj heq ▸ h

theorem bind {answer : Except WriteError α} {f : α → Except WriteError β} (h : Checked answer)
    (hf : ∀ a, Checked (f a)) : Checked (answer >>= f) := by
  cases answer with
  | error e => exact error (h e rfl)
  | ok a => exact hf a

theorem mapError {answer : Except ε α} {f : ε → WriteError}
    (h : ∀ e, (f e).category ≠ .execution) : Checked (answer.mapError f) := by
  cases answer with
  | error e => exact error (h e)
  | ok a => exact ok

end Checked

theorem WriteError.category_catalog (e : CatalogError) : (catalog e).category ≠ .execution := by
  rw [category]
  split <;> exact nofun

theorem WriteError.category_context (e : ContextError) : (context e).category ≠ .execution := by
  cases e with
  | catalog e =>
      rw [category]
      split <;> exact nofun
  | _ => exact nofun

theorem WriteError.category_plan (e : PlanError) : (plan e).category ≠ .execution := by
  cases e <;> exact nofun

theorem Table.permit_checked (t : Table) (kind : OperationKind) : Checked (t.permit kind) := by
  have hpermit : t.permit kind = .ok () ∨ t.permit kind = .error (.notPermitted t.entity kind) := by
    unfold permit
    exact ite_eq_or_eq ..
  rcases hpermit with hpermit | hpermit
  · exact hpermit ▸ .ok
  · exact hpermit ▸ .error nofun

namespace CascadeRules

variable {rules : CascadeRules}

theorem keyedTable_checked (entity : String) : Checked (rules.keyedTable entity) :=
  (Checked.mapError WriteError.category_catalog).bind fun _ =>
    (Checked.mapError WriteError.category_catalog).bind fun _ => .ok

theorem ownership_checked (r : Relationship) : Checked (rules.ownership r) :=
  (keyedTable_checked _).bind fun _ =>
    (Checked.mapError WriteError.category_catalog).bind fun _ => .ok

theorem keyQuery_checked (entity : String) (filter : Filter) :
    Checked (rules.keyQuery entity filter) :=
  (keyedTable_checked entity).bind fun _ =>
    (Checked.mapError WriteError.category_context).bind fun _ =>
      (Checked.mapError WriteError.category_plan).bind fun _ => .mapError nofun

end CascadeRules

end EntityMap
