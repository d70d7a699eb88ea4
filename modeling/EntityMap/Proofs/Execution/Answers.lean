import EntityMap.Execution.RecordSet
import EntityMap.Proofs.Distinct
import EntityMap.Query.Strategy
import Mathlib.Data.List.Perm.Basic

/-!
# The keys of an answer

What a record set answers under a name are the values of its cells there
(`RecordSet.cells`). The keys among them are the distinct ones but null,
in the order in which they are first seen (`FirstSeen`). These are not
more than one list, `RecordSet.storedKeys` for the name under which key
queries answer, and it is what `RecordSet.distinctValues?` computes.
-/

namespace EntityMap

/-- Distinct values but null, in the order in which they are first seen. -/
structure FirstSeen (cells keys : List Value) : Prop where
  mem_iff : ∀ v, v ∈ keys ↔ v ∈ cells ∧ v.isNull = false
  ordered : keys.Pairwise fun v w => cells.idxOf v < cells.idxOf w

namespace FirstSeen

variable {cells keys keys' : List Value}

theorem nodup (h : FirstSeen cells keys) : keys.Nodup :=
  h.ordered.imp fun {v w} hlt (heq : v = w) => Nat.lt_irrefl _ (heq ▸ hlt)

/-- The cells determine the keys. -/
theorem eq_of_firstSeen (h : FirstSeen cells keys) (h' : FirstSeen cells keys') :
    keys = keys' := by
  have hperm : keys.Perm keys' := (List.perm_ext_iff_of_nodup h.nodup h'.nodup).mpr fun v =>
    (h.mem_iff v).trans (h'.mem_iff v).symm
  exact hperm.eq_of_pairwise (fun _ _ _ _ hlt hgt => absurd hgt (Nat.lt_asymm hlt))
    h.ordered h'.ordered

theorem eraseDups (cells : List Value) :
    FirstSeen cells (cells.filter fun v => !v.isNull).eraseDups := by
  refine ⟨fun v => by simp [List.mem_eraseDups], ?_⟩
  have hnonnull : ∀ v ∈ (cells.filter fun v => !v.isNull).eraseDups, (!v.isNull) = true :=
    fun v hv => (List.mem_filter.mp (List.mem_eraseDups.mp hv)).2
  exact (pairwise_idxOf_eraseDups _).imp_of_mem fun hv hw h =>
    idxOf_lt_of_filter (hnonnull _ hv) (hnonnull _ hw) h

end FirstSeen

namespace RecordSet

variable {s : RecordSet} {name : String} {keys : List Value}

/-- What the rows answer under a name. -/
def cells (s : RecordSet) (name : String) : List Value :=
  (List.range s.rows.length).filterMap fun row => s.get? row name

/-- The keys that a key query answers: distinct, without null, and in the order in which they are
first seen. -/
def storedKeys (s : RecordSet) : List Value :=
  ((s.cells keyLabel).filter fun v => !v.isNull).eraseDups

theorem cells_eq {index : Nat} (h : s.columnIndex? name = some index) :
    s.cells name = s.rows.filterMap (·[index]?) := by
  unfold cells get?
  simp only [h, Option.bind_eq_bind, Option.bind_some]
  induction s.rows with
  | nil => rfl
  | cons row rest ih =>
      rw [List.length_cons, List.range_succ_eq_map, List.filterMap_cons, List.filterMap_map,
        List.filterMap_cons, ← ih]
      rfl

theorem cells_eq_nil (h : s.columnIndex? name = none) : s.cells name = [] := by
  simp [cells, get?, h]

theorem firstSeen_of_distinctValues? (h : s.distinctValues? name = some keys) :
    FirstSeen (s.cells name) keys := by
  obtain ⟨index, hindex, h⟩ := Option.bind_eq_some_iff.mp h
  obtain rfl := Option.some.inj h
  rw [cells_eq hindex]
  exact .eraseDups _

theorem firstSeen_storedKeys (s : RecordSet) : FirstSeen (s.cells keyLabel) s.storedKeys :=
  .eraseDups _

theorem storedKeys_eq (h : FirstSeen (s.cells keyLabel) keys) : s.storedKeys = keys :=
  s.firstSeen_storedKeys.eq_of_firstSeen h

/-- The keys that a cascade takes from an answer are those of its cells. -/
theorem distinctValues?_getD (s : RecordSet) :
    (s.distinctValues? keyLabel).getD [] = s.storedKeys := by
  cases hindex : s.columnIndex? keyLabel with
  | none =>
      rw [storedKeys, cells_eq_nil hindex, distinctValues?, hindex]
      rfl
  | some index =>
      rw [storedKeys, cells_eq hindex, distinctValues?, hindex]
      rfl

end RecordSet

end EntityMap
