import EntityMap.Proofs.Catalog.Accepted
import EntityMap.Proofs.Context.Attach
import EntityMap.Proofs.Relation.Evaluation
import Mathlib.Data.List.Pairwise

/-!
# Stores with unique keys

Where the equality of a database is transitive (`Collation`) and the
single key of every entity is unique in its table (`Store.UniqueKeys`),
a row is the one of its key (`Store.UniqueKeys.eq_of_same`), and a join
on a key finds at most one row (`Store.UniqueKeys.length_matching_le_one`).

Every link that is not inverse leads to a key
(`Link.Declared.exists_key`).
-/

namespace EntityMap

/-- How a database compares and sorts values: what is equal to the same is equal, and all
values, null too, have an order, in which several may share a place. -/
structure Collation extends Comparison where
  trans : ∀ u v w, holds .eq u v → holds .eq v w → holds .eq u w
  le : Value → Value → Bool
  le_trans : ∀ u v w, le u v → le v w → le u w
  le_total : ∀ v w, le v w || le w v

namespace Collation

variable {c : Collation} {u v w : Value}

theorem joins_trans (huv : c.joins u v) (hvw : c.joins v w) : c.joins u w := by
  simp only [Comparison.joins, Bool.and_eq_true] at huv hvw ⊢
  obtain ⟨⟨hu, -⟩, huv⟩ := huv
  obtain ⟨⟨-, hw⟩, hvw⟩ := hvw
  exact ⟨⟨hu, hw⟩, c.trans u v w huv hvw⟩

/-- Whether two values are one to the database: null is no value, and one with itself. -/
def same (c : Collation) (v w : Value) : Bool :=
  v = w || c.joins v w

theorem same_refl (v : Value) : c.same v v := by
  simp [same]

theorem same_symm (h : c.same v w) : c.same w v := by
  simp only [same, Bool.or_eq_true, decide_eq_true_eq] at h ⊢
  rcases h with rfl | h
  · exact .inl rfl
  · exact .inr ((c.joins_comm w v).trans h)

theorem same_trans (huv : c.same u v) (hvw : c.same v w) : c.same u w := by
  simp only [same, Bool.or_eq_true, decide_eq_true_eq] at huv hvw ⊢
  rcases huv with rfl | huv
  · exact hvw
  · rcases hvw with rfl | hvw
    · exact .inr huv
    · exact .inr (joins_trans huv hvw)

theorem same_of_joins (h : c.joins v w) : c.same v w := by
  simp [same, h]

theorem same_of_joins_both (hu : c.joins u w) (hv : c.joins v w) : c.same u v :=
  same_of_joins (joins_trans hu ((c.joins_comm w v).trans hv))

end Collation

/-- No two rows of a table have the same value in the key column of an entity that is
mapped to it. -/
def Store.UniqueKeys (c : Collation) (catalog : Catalog) (store : Store) : Prop :=
  ∀ t ∈ catalog.tables, ∀ key, t.key = .ok key →
    (store t.table).Pairwise fun row other => ¬ c.same (row key.column) (other key.column)

variable {catalog : Catalog} {c : Collation} {store : Store} {t : Table} {key : Column}

namespace Store.UniqueKeys

theorem eq_of_same (h : store.UniqueKeys c catalog) (ht : t ∈ catalog.tables)
    (hkey : t.key = .ok key) {row other : Row} (hrow : row ∈ store t.table)
    (hother : other ∈ store t.table) (hsame : c.same (row key.column) (other key.column)) :
    row = other := by
  by_contra hne
  have hsymm : Std.Symm fun row other : Row => ¬ c.same (row key.column) (other key.column) :=
    ⟨fun _ _ hnot hsame => hnot (Collation.same_symm hsame)⟩
  exact (h t ht key hkey).forall hrow hother hne hsame

theorem nodup (h : store.UniqueKeys c catalog) (ht : t ∈ catalog.tables) (hkey : t.key = .ok key) :
    (store t.table).Nodup := by
  refine (h t ht key hkey).imp ?_
  rintro row other hnot rfl
  exact hnot (Collation.same_refl _)

theorem length_filter_joins_le_one (h : store.UniqueKeys c catalog) (ht : t ∈ catalog.tables)
    (hkey : t.key = .ok key) (v : Value) :
    ((store t.table).filter fun row => c.joins (row key.column) v).length ≤ 1 := by
  have hapart := (h t ht key hkey).sublist
    (List.filter_sublist (p := fun row : Row => c.joins (row key.column) v))
  have hjoined : ∀ row ∈ (store t.table).filter fun row => c.joins (row key.column) v,
      c.joins (row key.column) v := fun row hrow => (List.mem_filter.mp hrow).2
  match hrows : (store t.table).filter fun row => c.joins (row key.column) v with
  | [] => simp [hrows]
  | [_] => simp [hrows]
  | row :: other :: rest =>
      rw [hrows] at hapart hjoined
      have hnot := (List.pairwise_cons.mp hapart).1 other (List.mem_cons_self ..)
      exact absurd (Collation.same_of_joins_both (hjoined row (by simp)) (hjoined other (by simp)))
        hnot

theorem length_matching_le_one (h : store.UniqueKeys c catalog) (ht : t ∈ catalog.tables)
    (hkey : t.key = .ok key) {j : Join} (htable : j.table = t.table)
    (hcolumn : j.nodeColumn = key.column) (a : Reading) :
    (j.matching c.toComparison store a).length ≤ 1 := by
  rw [Join.matching, htable, hcolumn]
  exact h.length_filter_joins_le_one ht hkey _

end Store.UniqueKeys

/-- A link that is not inverse leads to the key of its entity. -/
theorem Link.Declared.exists_key {originEntity entity : String} {link : Link}
    (h : Link.Declared catalog originEntity entity link) (hkeyed : catalog.Keyed)
    (hforward : link.traversal ≠ .inverse) :
    ∃ t key, catalog.table entity = .ok t ∧ t.key = .ok key ∧ link.nodeMember = key.member := by
  cases h with
  | @lookup table target column key lookup _ _ _ _ htarget hkey =>
      exact ⟨target, key, htarget, hkey, rfl⟩
  | @navigation table foreignTable r foreignKey name _ htable hr _ _ =>
      have hrmem := (Table.mem_of_relationship? hr).1
      obtain ⟨target, key, htarget, hkey, hmember⟩ :=
        hkeyed table (Catalog.mem_of_table htable).1 r hrmem
      have hwalk : r.isInverseFrom originEntity = false := by
        by_contra hinverse
        rw [Bool.not_eq_false] at hinverse
        simp [Context.linkOf, hinverse] at hforward
      refine ⟨target, key, ?_, hkey, ?_⟩
      · rw [Relationship.target, hwalk]
        exact htarget
      · simp [Context.linkOf, hwalk, hmember]

end EntityMap
