import EntityMap.Proofs.Query.JoinTree
import Mathlib.Algebra.BigOperators.Group.List.Basic
import Mathlib.Data.List.Count
import Mathlib.Logic.Function.Basic

/-!
# What a plan reads

The rows of a plan, over any store: the base gives one reading for
each of its rows, and every join extends each reading by the rows
that match it, or, as a left join, by no row when none matches
(`Plan.rows`).

How often a reading occurs does not depend on the order of the
joins: it is the product of how often the base has its row and how often
each join offers its row beside the others (`Plan.count_rows`). So two
plans of the same nodes are compared one join at a time.
-/

namespace EntityMap

abbrev Row := String → Value

abbrev Store := String → List Row

/-- The row that is read at each node; none where nothing is joined, or nothing matched. -/
abbrev Reading := Nat → Option Row

/-- How a database compares two values, neither of which is null. -/
structure Comparison where
  holds : Operator → Value → Value → Bool
  symm : ∀ v w, holds .eq v w = holds .eq w v

namespace Comparison

variable {c : Comparison} {v w : Value}

/-- Whether rows with these values are joined: null is equal to nothing. -/
def joins (c : Comparison) (v w : Value) : Bool :=
  !v.isNull && !w.isNull && c.holds .eq v w

theorem joins_comm (v w : Value) : c.joins v w = c.joins w v := by
  rw [joins, joins, c.symm v w, Bool.and_comm (!v.isNull)]

theorem not_joins_null : c.joins v .null = false := by
  simp [joins, Value.isNull]

end Comparison

namespace Reading

/-- The value of a column; null where no row is. -/
def value (a : Reading) (node : Nat) (column : String) : Value :=
  match a node with
  | some row => row column
  | none => .null

theorem ne_none_of_value {a : Reading} {node : Nat} {column : String}
    (h : a.value node column ≠ .null) : a node ≠ none := by
  intro hnone
  simp [value, hnone] at h

def without (a : Reading) (nodes : List Nat) : Reading :=
  fun i => if i ∈ nodes then none else a i

end Reading

namespace Join

variable {c : Comparison} {store : Store} {j : Join} {a b : Reading}

def matching (c : Comparison) (store : Store) (j : Join) (a : Reading) : List Row :=
  (store j.table).filter fun row => c.joins (row j.nodeColumn) (a.value j.source j.sourceColumn)

/-- What a join puts at its node: the rows that it finds, and as a left join none
if it finds no row. -/
def candidates (c : Comparison) (store : Store) (j : Join) (a : Reading) : List (Option Row) :=
  match j.kind, j.matching c store a with
  | .left, [] => [none]
  | _, rows => rows.map some

def extend (c : Comparison) (store : Store) (j : Join) (a : Reading) : List Reading :=
  (j.candidates c store a).map (Function.update a j.node)

/-- A join sees nothing of a reading but the row of its source. -/
theorem candidates_congr (h : a j.source = b j.source) :
    j.candidates c store a = j.candidates c store b := by
  simp only [candidates, matching, Reading.value, h]

end Join

def TableSource.rows (store : Store) (base : TableSource) : List Reading :=
  (store base.table).map fun row => Function.update (fun _ => none) base.node (some row)

/-- The readings of a plan: its base, and then its joins in order. -/
def Plan.rows (c : Comparison) (store : Store) (p : Plan) : List Reading :=
  p.joins.foldl (fun rows j => rows.flatMap (j.extend c store)) (p.base.rows store)

/-! ## How often a reading occurs -/

section Multiplicity

open scoped Classical

variable {c : Comparison} {store : Store} {a b : Reading}

/-- How often a join offers the row that a reading has at its node. -/
noncomputable def Join.weight (c : Comparison) (store : Store) (b : Reading) (j : Join) : Nat :=
  (j.candidates c store b).count (b j.node)

/-- How often the base has the row that a reading has there. -/
noncomputable def TableSource.weight (store : Store) (b : Reading) (base : TableSource) : Nat :=
  ((store base.table).map some).count (b base.node)

/-- One row at a free node is the only way to a reading. -/
theorem count_map_update (rows : List (Option Row)) {i : Nat} (ha : a i = none) :
    (rows.map (Function.update a i)).count b =
      if a = Function.update b i none then rows.count (b i) else 0 := by
  by_cases hab : a = Function.update b i none
  · have hb : Function.update a i (b i) = b := by
      rw [hab, Function.update_idem, Function.update_eq_self]
    rw [if_pos hab]
    conv_lhs => rw [← hb]
    exact List.count_map_of_injective rows _ (Function.update_injective a i) (b i)
  · rw [if_neg hab, List.count_eq_zero]
    intro hmem
    obtain ⟨row, -, rfl⟩ := List.mem_map.mp hmem
    rw [Function.update_idem, ← ha, Function.update_eq_self] at hab
    exact hab rfl

/-- One join: a reading comes from the one without the row of the joined node. -/
theorem count_flatMap_extend {rows : List Reading} {j : Join}
    (hfree : ∀ a ∈ rows, a j.node = none) (hsource : j.source ≠ j.node) :
    (rows.flatMap (j.extend c store)).count b =
      rows.count (Function.update b j.node none) * j.weight c store b := by
  induction rows with
  | nil => simp
  | cons a rest ih =>
      have hrest : ∀ a ∈ rest, a j.node = none := fun a ha => hfree a (List.mem_cons_of_mem _ ha)
      rw [List.flatMap_cons, List.count_append, ih hrest, Join.extend,
        count_map_update _ (hfree a (List.mem_cons_self ..)), List.count_cons, Nat.add_mul,
        Nat.add_comm]
      by_cases hab : a = Function.update b j.node none
      · have hsees : j.candidates c store a = j.candidates c store b :=
          Join.candidates_congr (by rw [hab, Function.update_of_ne hsource])
        simp [hab, Join.weight, ← hsees]
      · simp [hab]

/-- A run of joins, each on a node that is there: the weights multiply. -/
theorem count_foldl_extend {joins : List Join} {rows : List Reading}
    {known : List Nat} (hknown : ∀ a ∈ rows, ∀ i, i ∉ known → a i = none)
    (hnodup : (known ++ joins.map (·.node)).Nodup)
    (hsource : ∀ pre j post, joins = pre ++ j :: post → j.source ∈ known ++ pre.map (·.node)) :
    (joins.foldl (fun rows j => rows.flatMap (j.extend c store)) rows).count b =
      rows.count (b.without (joins.map (·.node))) * (joins.map (Join.weight c store b)).prod := by
  induction joins generalizing rows known with
  | nil =>
      have hnone : b.without [] = b := by
        funext i
        simp [Reading.without]
      simp [hnone]
  | cons j rest ih =>
      have hsplit : (known ++ [j.node] ++ rest.map (·.node)).Nodup := by simpa using hnodup
      obtain ⟨hfirst, -, hapart⟩ := List.nodup_append.mp hsplit
      have hj : j.node ∉ known := fun h =>
        (List.nodup_append.mp hfirst).2.2 _ h _ (List.mem_singleton_self _) rfl
      have hsrc : j.source ∈ known := by simpa using hsource [] j rest rfl
      have hkeep : ∀ i ∈ known ++ [j.node], i ∉ rest.map (·.node) :=
        fun i hi hmem => hapart i hi i hmem rfl
      have hrest := @ih (rows.flatMap (j.extend c store)) (known ++ [j.node])
      rw [List.foldl_cons, hrest]
      · rw [count_flatMap_extend (fun a ha => hknown a ha j.node hj) (fun h => hj (h ▸ hsrc))]
        have hwithout : Function.update (b.without (rest.map (·.node))) j.node none =
            b.without ((j :: rest).map (·.node)) := by
          funext i
          by_cases hi : i = j.node
          · simp [hi, Reading.without]
          · simp [hi, Reading.without, Function.update_of_ne]
        have hweight : j.weight c store (b.without (rest.map (·.node))) = j.weight c store b := by
          have hnode : b.without (rest.map (·.node)) j.node = b j.node :=
            if_neg (hkeep j.node (by simp))
          have hsees : b.without (rest.map (·.node)) j.source = b j.source :=
            if_neg (hkeep j.source (by simp [hsrc]))
          rw [Join.weight, Join.weight, hnode, Join.candidates_congr hsees]
        rw [hwithout, hweight, List.map_cons, List.map_cons, List.prod_cons, Nat.mul_assoc]
      · intro a ha i hi
        obtain ⟨a', ha', hext⟩ := List.mem_flatMap.mp ha
        obtain ⟨row, -, rfl⟩ := List.mem_map.mp hext
        have hne : i ≠ j.node := by
          rintro rfl
          exact hi (by simp)
        rw [Function.update_of_ne hne]
        exact hknown a' ha' i fun h => hi (by simp [h])
      · exact hsplit
      · intro pre j' post hpost
        have := hsource (j :: pre) j' post (by rw [hpost]; rfl)
        simpa using this

theorem count_base_rows {base : TableSource} {b : Reading}
    (hfree : ∀ i, i ≠ base.node → b i = none) :
    (base.rows store).count b = base.weight store b := by
  have hrows : base.rows store =
      ((store base.table).map some).map (Function.update (fun _ => none) base.node) := by
    rw [List.map_map]
    rfl
  have hnone : (fun _ => none) = Function.update b base.node none := by
    funext i
    by_cases hi : i = base.node
    · simp [hi]
    · rw [Function.update_of_ne hi, hfree i hi]
  rw [hrows, count_map_update _ rfl, if_pos hnone]
  rfl

namespace Plan

variable {p : Plan}

theorem eq_none_of_mem_rows {base : TableSource} (ha : a ∈ base.rows store) :
    ∀ i, i ∉ [base.node] → a i = none := by
  intro i hi
  obtain ⟨row, -, rfl⟩ := List.mem_map.mp ha
  rw [Function.update_of_ne (by simpa using hi)]

/-- A reading of a plan has rows at the nodes of the plan only. -/
theorem count_rows_eq_zero (hordered : p.Ordered) {i : Nat} (hi : i ∉ p.nodes) (hb : b i ≠ none) :
    (p.rows c store).count b = 0 := by
  simp only [nodes, List.mem_cons, not_or] at hi
  rw [rows, count_foldl_extend (fun _ => eq_none_of_mem_rows) hordered.nodup hordered.source,
    List.count_eq_zero.mpr, Nat.zero_mul]
  intro hmem
  have hnone := eq_none_of_mem_rows hmem i (by simpa using hi.1)
  rw [Reading.without, if_neg hi.2] at hnone
  exact hb hnone

/-- A reading occurs as often as the base and the joins have its rows. -/
theorem count_rows (hordered : p.Ordered) (hb : ∀ i, i ∉ p.nodes → b i = none) :
    (p.rows c store).count b =
      p.base.weight store b * (p.joins.map (Join.weight c store b)).prod := by
  rw [rows, count_foldl_extend (fun _ => eq_none_of_mem_rows) hordered.nodup hordered.source,
    count_base_rows]
  · have hnode : b.without (p.joins.map (·.node)) p.base.node = b p.base.node :=
      if_neg (List.nodup_cons.mp hordered.nodup).1
    rw [TableSource.weight, TableSource.weight, hnode]
  · intro i hi
    by_cases hmem : i ∈ p.joins.map (·.node)
    · exact if_pos hmem
    · rw [Reading.without, if_neg hmem]
      exact hb i (by simp only [nodes, List.mem_cons, not_or]; exact ⟨hi, hmem⟩)

end Plan

end Multiplicity

end EntityMap
