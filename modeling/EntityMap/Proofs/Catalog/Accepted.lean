import EntityMap.Catalog.Definition
import EntityMap.Proofs.Distinct
import EntityMap.Proofs.Except

/-!
# Accepted catalogs

What a catalog promises once its definition is accepted
(`Catalog.Accepted`): the columns of a table have distinct members, so
that a column is the one of its member, and every relationship touches
the entity that declares it. What relationships and lookups point to are
keys (`Catalog.Keyed`, `Catalog.LookupsKeyed`), what relationships point
from are mapped members (`Catalog.Related`), and so are the labels of
lookups (`Catalog.LookupsLabelled`).
-/

namespace EntityMap

/-- What is known of the tables of an accepted catalog. -/
structure Catalog.Accepted (catalog : Catalog) : Prop where
  members : ∀ t ∈ catalog.tables, (t.columns.map (·.member)).Nodup
  touches : ∀ t ∈ catalog.tables, ∀ r ∈ t.relationships,
    r.foreignKey.entity = t.entity ∨ r.primaryKey.entity = t.entity

/-- Every relationship points to the single key of an entity. -/
def Catalog.Keyed (catalog : Catalog) : Prop :=
  ∀ t ∈ catalog.tables, ∀ r ∈ t.relationships, ∃ target key,
    catalog.table r.primaryKey.entity = .ok target ∧ target.key = .ok key ∧
      key.member = r.primaryKey.member

/-- The foreign key of every relationship is a mapped member. -/
def Catalog.Related (catalog : Catalog) : Prop :=
  ∀ t ∈ catalog.tables, ∀ r ∈ t.relationships, ∃ foreign foreignKey,
    catalog.table r.foreignKey.entity = .ok foreign ∧
      foreign.column r.foreignKey.member = .ok foreignKey

/-- Every lookup leads to the single key of an entity. -/
def Catalog.LookupsKeyed (catalog : Catalog) : Prop :=
  ∀ t ∈ catalog.tables, ∀ c ∈ t.columns, ∀ lookup, c.lookup = some lookup → ∃ target key,
    catalog.table lookup.entity = .ok target ∧ target.key = .ok key

/-- Every lookup has a label, the value of a mapped member. -/
def Catalog.LookupsLabelled (catalog : Catalog) : Prop :=
  ∀ t ∈ catalog.tables, ∀ c ∈ t.columns, ∀ lookup, c.lookup = some lookup → ∀ target,
    catalog.table lookup.entity = .ok target → ∃ value, target.column lookup.valueMember = .ok value

variable {catalog : Catalog}

theorem Catalog.mem_of_table {entity : String} {t : Table} (h : catalog.table entity = .ok t) :
    t ∈ catalog.tables ∧ t.entity = entity := by
  unfold table at h
  split at h
  · rename_i t' ht
    cases h
    unfold table? at ht
    exact ⟨List.mem_of_find?_eq_some ht, by simpa using List.find?_some ht⟩
  · cases h

theorem mem_primaryKeys_of_key {t : Table} {key : Column} (h : t.key = .ok key) :
    key ∈ t.primaryKeys := by
  unfold Table.key Table.soleKey at h
  have h := Except.mapError_eq_ok_iff.mp h
  split at h
  · rename_i key' hkeys
    cases h
    exact hkeys ▸ List.mem_singleton_self _
  · cases h
  · cases h

theorem mem_columns_of_key {t : Table} {key : Column} (h : t.key = .ok key) : key ∈ t.columns :=
  (List.mem_filter.mp (mem_primaryKeys_of_key h)).1

theorem primaryKey_of_key {t : Table} {key : Column} (h : t.key = .ok key) :
    key.primaryKey = true :=
  (List.mem_filter.mp (mem_primaryKeys_of_key h)).2

/-! ## The two ends of a relationship -/

/-- A relationship that is walked from the one row to the many has its primary key there. -/
theorem Relationship.primaryKey_entity {r : Relationship} {entity : String}
    (htouches : r.foreignKey.entity = entity ∨ r.primaryKey.entity = entity)
    (hinverse : r.isInverseFrom entity = true) : r.primaryKey.entity = entity := by
  unfold isInverseFrom at hinverse
  split at hinverse
  · rename_i heq
    rcases htouches with h | h
    · exact heq.trans h
    · exact h
  · simpa using hinverse

/-- One that is walked from a row of the many has its foreign key there. -/
theorem Relationship.foreignKey_entity {r : Relationship} {entity : String}
    (htouches : r.foreignKey.entity = entity ∨ r.primaryKey.entity = entity)
    (hforward : r.isInverseFrom entity = false) : r.foreignKey.entity = entity := by
  unfold isInverseFrom at hforward
  split at hforward
  · rename_i heq
    rcases htouches with h | h
    · exact h
    · exact heq.symm.trans h
  · rcases htouches with h | h
    · exact h
    · exact absurd h (by simpa using hforward)

namespace Definition

theorem nodup_of_checkColumns {entity : String} {seen : List String} {columns : List Column}
    (h : checkColumns entity seen columns = .ok ()) :
    (columns.map (·.member)).Nodup ∧ ∀ c ∈ columns, c.member ∉ seen := by
  induction columns generalizing seen with
  | nil => simp
  | cons column rest ih =>
      unfold checkColumns at h
      split at h
      · cases h
      · rename_i hseen
        split at h
        · cases h
        · obtain ⟨hnodup, hfree⟩ := ih h
          have hcolumn : column.member ∉ seen := fun hmem =>
            hseen (List.contains_iff_mem.mpr hmem)
          constructor
          · rw [List.map_cons, List.nodup_cons]
            refine ⟨fun hmem => ?_, hnodup⟩
            obtain ⟨c, hc, heq⟩ := List.mem_map.mp hmem
            exact hfree c hc (heq ▸ List.mem_cons_self ..)
          · intro c hc
            rcases List.mem_cons.mp hc with rfl | hc
            · exact hcolumn
            · exact fun hmem => hfree c hc (List.mem_cons_of_mem _ hmem)

/-- No key may be null. -/
theorem required_of_checkColumns {entity : String} {seen : List String} {columns : List Column}
    (h : checkColumns entity seen columns = .ok ()) :
    ∀ c ∈ columns, c.primaryKey = true → c.nullable = false := by
  induction columns generalizing seen with
  | nil => simp
  | cons column rest ih =>
      unfold checkColumns at h
      split at h
      · cases h
      · split at h
        · cases h
        · rename_i hnullable
          refine List.forall_mem_cons.mpr ⟨fun hprimary => ?_, ih h⟩
          simpa [hprimary] using hnullable

theorem touches_of_checkRelationship {t : Table} {r : Relationship}
    (h : catalog.checkRelationship t r = .ok ()) :
    r.foreignKey.entity = t.entity ∨ r.primaryKey.entity = t.entity := by
  by_contra hnot
  rw [not_or] at hnot
  unfold Catalog.checkRelationship at h
  rw [if_pos hnot] at h
  cases h

theorem key_of_checkRelationship {t : Table} {r : Relationship}
    (h : catalog.checkRelationship t r = .ok ()) :
    ∃ target key, catalog.table r.primaryKey.entity = .ok target ∧ target.key = .ok key ∧
      key.member = r.primaryKey.member := by
  unfold Catalog.checkRelationship at h
  split at h
  · cases h
  · obtain ⟨foreign, -, h⟩ := Except.bind_eq_ok_iff.mp h
    obtain ⟨foreignColumn, -, h⟩ := Except.bind_eq_ok_iff.mp h
    obtain ⟨target, htarget, h⟩ := Except.bind_eq_ok_iff.mp h
    obtain ⟨column, hcolumn, h⟩ := Except.bind_eq_ok_iff.mp h
    obtain ⟨key, hkey, h⟩ := Except.bind_eq_ok_iff.mp h
    have hmember : key.member = column.member := by
      by_contra hne
      rw [if_pos hne] at h
      cases h
    exact ⟨target, key, htarget, hkey, hmember.trans (Table.mem_of_column hcolumn).2⟩

/-- The foreign key of a relationship is a column of the entity that holds it. -/
theorem foreignKey_of_checkRelationship {t : Table} {r : Relationship}
    (h : catalog.checkRelationship t r = .ok ()) :
    ∃ foreign foreignKey, catalog.table r.foreignKey.entity = .ok foreign ∧
      foreign.column r.foreignKey.member = .ok foreignKey := by
  unfold Catalog.checkRelationship at h
  split at h
  · cases h
  · obtain ⟨foreign, hforeign, h⟩ := Except.bind_eq_ok_iff.mp h
    obtain ⟨foreignKey, hforeignKey, -⟩ := Except.bind_eq_ok_iff.mp h
    exact ⟨foreign, foreignKey, hforeign, hforeignKey⟩

theorem key_of_checkColumn {t : Table} {c : Column} {lookup : Lookup}
    (h : catalog.checkColumn t c = .ok ()) (hlookup : c.lookup = some lookup) :
    ∃ target key, catalog.table lookup.entity = .ok target ∧ target.key = .ok key := by
  unfold Catalog.checkColumn at h
  obtain ⟨_, -, h⟩ := Except.bind_eq_ok_iff.mp h
  rw [hlookup, Option.bind_some] at h
  cases htarget : catalog.table? lookup.entity with
  | none => simp [Catalog.lookupFault?, htarget, throw, throwThe, MonadExceptOf.throw] at h
  | some target =>
      cases hkey : target.soleKey with
      | error fault =>
          simp [Catalog.lookupFault?, htarget, hkey, throw, throwThe, MonadExceptOf.throw] at h
      | ok key =>
          exact ⟨target, key, by rw [Catalog.table, htarget], by rw [Table.key, hkey]; rfl⟩

/-- The value member of a lookup is a column of the entity that it leads to. -/
theorem value_of_checkColumn {t target : Table} {c : Column} {lookup : Lookup}
    (h : catalog.checkColumn t c = .ok ()) (hlookup : c.lookup = some lookup)
    (htarget : catalog.table lookup.entity = .ok target) :
    ∃ value, target.column lookup.valueMember = .ok value := by
  have htarget : catalog.table? lookup.entity = some target := by
    unfold Catalog.table at htarget
    split at htarget <;> cases htarget
    assumption
  unfold Catalog.checkColumn at h
  obtain ⟨_, -, h⟩ := Except.bind_eq_ok_iff.mp h
  rw [hlookup, Option.bind_some, Catalog.lookupFault?, htarget] at h
  dsimp only at h
  split at h
  · cases h
  · rename_i hnone
    split at hnone
    · cases hnone
    · split at hnone
      · cases hnone
      · rename_i value hvalue
        exact ⟨value, Table.column_eq_ok_iff.mpr hvalue⟩

/-- Each table of an accepted catalog has passed its checks, on its own and in the catalog. -/
theorem checked_of_toCatalog {d : Definition} (h : d.toCatalog = .ok catalog) :
    ∀ t ∈ catalog.tables, checkTable t = .ok () ∧ catalog.checkTable t = .ok () := by
  unfold toCatalog at h
  obtain ⟨_, hcheck, h⟩ := Except.bind_eq_ok_iff.mp h
  unfold Catalog.build at h
  split at h
  · cases h
  · obtain ⟨_, htables, h⟩ := Except.bind_eq_ok_iff.mp h
    cases h
    refine fun t ht => ⟨?_, Except.forM_eq_ok_iff.mp htables t ht⟩
    unfold check at hcheck
    split at hcheck
    · cases hcheck
    · exact Except.forM_eq_ok_iff.mp hcheck t ht

theorem checkTable_eq_ok_iff {t : Table} : catalog.checkTable t = .ok () ↔
    (∀ c ∈ t.columns, catalog.checkColumn t c = .ok ()) ∧
      ∀ r ∈ t.relationships, catalog.checkRelationship t r = .ok () := by
  unfold Catalog.checkTable
  rw [Except.bind_eq_ok_iff, ← Except.forM_eq_ok_iff, ← Except.forM_eq_ok_iff]
  exact ⟨fun ⟨_, hcolumns, h⟩ => ⟨hcolumns, h⟩, fun ⟨hcolumns, h⟩ => ⟨_, hcolumns, h⟩⟩

theorem accepted_of_toCatalog {d : Definition} (h : d.toCatalog = .ok catalog) :
    catalog.Accepted := by
  have hchecked := checked_of_toCatalog h
  constructor
  case members =>
    intro t ht
    have hone := (hchecked t ht).1
    unfold checkTable at hone
    obtain ⟨_, hcolumns, -⟩ := Except.bind_eq_ok_iff.mp hone
    exact (nodup_of_checkColumns hcolumns).1
  case touches =>
    exact fun t ht r hr =>
      touches_of_checkRelationship ((checkTable_eq_ok_iff.mp (hchecked t ht).2).2 r hr)

theorem required_of_toCatalog {d : Definition} (h : d.toCatalog = .ok catalog) :
    ∀ t ∈ catalog.tables, ∀ c ∈ t.columns, c.primaryKey = true → c.nullable = false := by
  intro t ht
  have hone := (checked_of_toCatalog h t ht).1
  unfold checkTable at hone
  obtain ⟨_, hcolumns, -⟩ := Except.bind_eq_ok_iff.mp hone
  exact required_of_checkColumns hcolumns

theorem keyed_of_toCatalog {d : Definition} (h : d.toCatalog = .ok catalog) : catalog.Keyed :=
  fun t ht r hr => key_of_checkRelationship
    ((checkTable_eq_ok_iff.mp (checked_of_toCatalog h t ht).2).2 r hr)

theorem related_of_toCatalog {d : Definition} (h : d.toCatalog = .ok catalog) : catalog.Related :=
  fun t ht r hr => foreignKey_of_checkRelationship
    ((checkTable_eq_ok_iff.mp (checked_of_toCatalog h t ht).2).2 r hr)

theorem lookupsKeyed_of_toCatalog {d : Definition} (h : d.toCatalog = .ok catalog) :
    catalog.LookupsKeyed := by
  intro t ht c hc lookup hlookup
  have hcolumn := (checkTable_eq_ok_iff.mp (checked_of_toCatalog h t ht).2).1 c hc
  exact key_of_checkColumn hcolumn hlookup

theorem lookupsLabelled_of_toCatalog {d : Definition} (h : d.toCatalog = .ok catalog) :
    catalog.LookupsLabelled := by
  intro t ht c hc lookup hlookup target htarget
  have hcolumn := (checkTable_eq_ok_iff.mp (checked_of_toCatalog h t ht).2).1 c hc
  exact value_of_checkColumn hcolumn hlookup htarget

end Definition

namespace Catalog.Accepted

theorem eq_of_member {t : Table} {c c' : Column} (h : catalog.Accepted) (ht : t ∈ catalog.tables)
    (hc : c ∈ t.columns) (hc' : c' ∈ t.columns) (hmember : c.member = c'.member) : c = c' :=
  List.inj_on_of_nodup_map (h.members t ht) hc hc' hmember

/-- A column is the one of its member. -/
theorem column_eq {t : Table} {column : Column} (h : catalog.Accepted) (ht : t ∈ catalog.tables)
    (hcolumn : column ∈ t.columns) : t.column column.member = .ok column := by
  rw [Table.column_eq_ok_iff, Table.column?]
  exact find?_eq_some_of_nodup_map (h.members t ht) hcolumn

end Catalog.Accepted

end EntityMap
