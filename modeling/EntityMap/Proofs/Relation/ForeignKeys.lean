import EntityMap.Proofs.Catalog.Accepted
import EntityMap.Proofs.Context.Attach
import EntityMap.Proofs.Relation.Evaluation

/-!
# Stores that respect the foreign keys

A store respects a catalog when every foreign key of a relationship or
of a lookup column leads to a row unless it is null, and is null only
where its column may be (`Store.Respects`). Then every link that is not
open leads from each row to a row (`Store.Respects.exists_joined`).
-/

namespace EntityMap

/-- The values of a foreign key column that are not null point to rows; null is there
only if the column may be null. -/
def Store.References (c : Comparison) (store : Store) (foreign : Table) (foreignKey : Column)
    (target : Table) (key : Column) : Prop :=
  ∀ row ∈ store foreign.table,
    (foreignKey.nullable = false → row foreignKey.column ≠ .null) ∧
    (row foreignKey.column ≠ .null →
      ∃ other ∈ store target.table, c.joins (row foreignKey.column) (other key.column))

/-- All foreign keys of a catalog are respected. -/
structure Store.Respects (c : Comparison) (catalog : Catalog) (store : Store) : Prop where
  relationship : ∀ t ∈ catalog.tables, ∀ r ∈ t.relationships, ∀ foreign foreignKey target key,
    catalog.table r.foreignKey.entity = .ok foreign →
    foreign.column r.foreignKey.member = .ok foreignKey →
    catalog.table r.primaryKey.entity = .ok target →
    target.column r.primaryKey.member = .ok key →
    store.References c foreign foreignKey target key
  lookup : ∀ t ∈ catalog.tables, ∀ column ∈ t.columns, ∀ lookup target key,
    column.lookup = some lookup → catalog.table lookup.entity = .ok target →
    target.key = .ok key → store.References c t column target key

variable {catalog : Catalog} {c : Comparison} {store : Store}

/-- A foreign key that may not be null leads to a row. -/
theorem Store.References.exists_joined {foreign target : Table} {foreignKey key : Column}
    (h : store.References c foreign foreignKey target key) (hnullable : foreignKey.nullable = false)
    {row : Row} (hrow : row ∈ store foreign.table) :
    ∃ other ∈ store target.table, c.joins (other key.column) (row foreignKey.column) := by
  obtain ⟨hvalue, hpoints⟩ := h row hrow
  obtain ⟨other, hother, hjoins⟩ := hpoints (hvalue hnullable)
  exact ⟨other, hother, by rw [c.joins_comm]; exact hjoins⟩

/-- A link that is not open leads from every row to a row. -/
theorem Store.Respects.exists_joined {originEntity entity : String} {link : Link}
    {origin t : Table} {originColumn column : Column}
    (h : store.Respects c catalog) (haccepted : catalog.Accepted)
    (hlink : Link.Declared catalog originEntity entity link) (hclosed : link.isOpen = false)
    (horigin : catalog.table originEntity = .ok origin) (ht : catalog.table entity = .ok t)
    (horiginColumn : origin.column link.originMember = .ok originColumn)
    (hcolumn : t.column link.nodeMember = .ok column) {row : Row}
    (hrow : row ∈ store origin.table) :
    ∃ other ∈ store t.table, c.joins (other column.column) (row originColumn.column) := by
  obtain ⟨horiginMem, horiginEntity⟩ := Catalog.mem_of_table horigin
  cases hlink with
  | @lookup table target foreignKey key lookup _ htable hforeignKey hlookup htarget hkey =>
      obtain rfl : table = origin := Except.ok.inj (htable.symm.trans horigin)
      obtain rfl : target = t := Except.ok.inj (htarget.symm.trans ht)
      have hcol := haccepted.column_eq horiginMem hforeignKey
      obtain rfl : originColumn = foreignKey := Except.ok.inj (horiginColumn.symm.trans hcol)
      have hkeyCol := haccepted.column_eq (Catalog.mem_of_table ht).1 (mem_columns_of_key hkey)
      obtain rfl : column = key := Except.ok.inj (hcolumn.symm.trans hkeyCol)
      have href := h.lookup table horiginMem originColumn hforeignKey lookup target column
        hlookup htarget hkey
      refine href.exists_joined ?_ hrow
      simpa [Link.isOpen] using hclosed
  | @navigation table foreignTable r foreignKey name _ htable hr hforeign hkey =>
      obtain rfl : table = origin := Except.ok.inj (htable.symm.trans horigin)
      have hrmem := (Table.mem_of_relationship? hr).1
      have hforward : r.isInverseFrom originEntity = false := by
        by_contra hinverse
        rw [Bool.not_eq_false] at hinverse
        simp [Link.isOpen, Context.linkOf, hinverse] at hclosed
      have hentity : r.foreignKey.entity = originEntity := by
        have htouches := haccepted.touches table horiginMem r hrmem
        rw [horiginEntity] at htouches
        unfold Relationship.isInverseFrom at hforward
        split at hforward
        · rename_i heq
          rcases htouches with h | h
          · exact h
          · exact heq.symm.trans h
        · exact htouches.resolve_right (by simpa using hforward)
      simp only [Context.linkOf, hforward, Link.isOpen] at hclosed horiginColumn hcolumn
      rw [Relationship.target, hforward] at ht
      rw [hentity, horigin] at hforeign
      cases hforeign
      obtain rfl : originColumn = foreignKey := Except.ok.inj (horiginColumn.symm.trans hkey)
      have href := h.relationship table horiginMem r hrmem table originColumn t column
        (by rw [hentity]; exact horigin) hkey ht hcolumn
      refine href.exists_joined ?_ hrow
      simpa using hclosed

end EntityMap
