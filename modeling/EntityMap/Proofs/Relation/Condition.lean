import EntityMap.Proofs.Relation.Evaluation

/-!
# Conditions over readings

The value of a condition in three-valued logic: a comparison with null
is null, unless it tests for null, and a row passes a condition that is
true (`BoundFilter.value`, `Plan.passing`).

Conjunctions of comparisons reject nulls: where one is true, each column
in it has a value (`BoundFilter.value_ne_null_of_passes`), as long as none
is an equality with null.
-/

namespace EntityMap

namespace Value

/-- The conjunction of truth values, of which null is the unknown one. -/
def both : Value → Value → Value
  | .bool false, _ => .bool false
  | _, .bool false => .bool false
  | .bool true, .bool true => .bool true
  | _, _ => .null

/-- The disjunction of truth values. -/
def either : Value → Value → Value
  | .bool true, _ => .bool true
  | _, .bool true => .bool true
  | .bool false, .bool false => .bool false
  | _, _ => .null

theorem both_eq_true {v w : Value} : v.both w = .bool true ↔ v = .bool true ∧ w = .bool true := by
  unfold both
  split <;> simp_all

end Value

namespace Comparison

/-- The value of a comparison: unknown when one side is null. -/
def value (c : Comparison) (op : Operator) (v w : Value) : Value :=
  if v.isNull || w.isNull then .null else .bool (c.holds op v w)

theorem ne_null_of_value_eq_true {c : Comparison} {op : Operator} {v w : Value}
    (h : c.value op v w = .bool true) : v ≠ .null ∧ w ≠ .null := by
  unfold value at h
  constructor
  · rintro rfl
    simp [Value.isNull] at h
  · rintro rfl
    simp [Value.isNull] at h

end Comparison

namespace BoundFilter

variable {c : Comparison} {a : Reading}

/-- Whether a comparison tests for null: it compares for equality or inequality with a
null literal. -/
def testsNull (op : Operator) (left right : BoundFilter) : Bool :=
  (op = .eq || op = .notEq) && (left = .literal .null || right = .literal .null)

def value (c : Comparison) (a : Reading) : BoundFilter → Value
  | .member column => Reading.value a column.node column.column
  | .literal v => v
  | .binary op left right =>
    let v := value c a left
    let w := value c a right
    if op = .and then v.both w
    else if op = .or then v.either w
    else if testsNull op left right then
      .bool (if op = .eq then v.isNull && w.isNull else !(v.isNull && w.isNull))
    else c.value op v w

/-- Whether a reading passes a condition: it has to be true. -/
def passes (c : Comparison) (filter : BoundFilter) (a : Reading) : Bool :=
  value c a filter = .bool true

def isOperand : BoundFilter → Bool
  | .binary _ _ _ => false
  | _ => true

/-- Whether a condition is a conjunction of comparisons between columns and literals,
none of which is an equality with a null literal. -/
def isConjunction : BoundFilter → Bool
  | .binary op left right =>
    if op = .and then isConjunction left && isConjunction right
    else !op.isLogical && isOperand left && isOperand right &&
      !(op = .eq && testsNull op left right)
  | _ => false

theorem value_of_mem_operand {operand : BoundFilter} (h : isOperand operand) {column : NodeColumn}
    (hcolumn : column ∈ operand.members) :
    Reading.value a column.node column.column = value c a operand ∧ operand ≠ .literal .null := by
  cases operand with
  | binary op left right => cases h
  | literal v => cases hcolumn
  | member m =>
      obtain rfl := List.mem_singleton.mp hcolumn
      exact ⟨rfl, fun h => by cases h⟩

/-- Where a comparison of operands is true, its columns have values. -/
theorem value_ne_null_of_comparison {op : Operator} {left right : BoundFilter}
    (hop : op.isLogical = false) (hleft : isOperand left) (hright : isOperand right)
    (heq : ¬ (op = .eq ∧ testsNull op left right))
    (h : value c a (.binary op left right) = .bool true) {column : NodeColumn}
    (hcolumn : column ∈ left.members ++ right.members) :
    Reading.value a column.node column.column ≠ .null := by
  have hand : op ≠ .and := fun h => by simp [h, Operator.isLogical] at hop
  have hor : op ≠ .or := fun h => by simp [h, Operator.isLogical] at hop
  simp only [value, if_neg hand, if_neg hor] at h
  by_cases htest : testsNull op left right
  · -- an inequality: the literal is null, so the other side is not
    have hne : op ≠ .eq := fun h => heq ⟨h, htest⟩
    rw [if_pos htest, if_neg hne, Value.bool.injEq, Bool.not_eq_true', Bool.and_eq_false_iff] at h
    simp only [testsNull, Bool.and_eq_true, Bool.or_eq_true, decide_eq_true_eq] at htest
    rcases List.mem_append.mp hcolumn with hmem | hmem
    · obtain ⟨hvalue, hcol⟩ := value_of_mem_operand (c := c) (a := a) hleft hmem
      have hright : right = .literal .null := htest.2.resolve_left hcol
      intro hnull
      simp [← hvalue, hnull, hright, value, Value.isNull] at h
    · obtain ⟨hvalue, hcol⟩ := value_of_mem_operand (c := c) (a := a) hright hmem
      have hleft : left = .literal .null := htest.2.resolve_right hcol
      intro hnull
      simp [← hvalue, hnull, hleft, value, Value.isNull] at h
  · rw [if_neg htest] at h
    obtain ⟨hv, hw⟩ := Comparison.ne_null_of_value_eq_true h
    rcases List.mem_append.mp hcolumn with hmem | hmem
    · rw [(value_of_mem_operand (c := c) hleft hmem).1]
      exact hv
    · rw [(value_of_mem_operand (c := c) hright hmem).1]
      exact hw

/-- Where a conjunction of comparisons is true, all its columns have values. -/
theorem value_ne_null_of_passes {filter : BoundFilter} (hfilter : isConjunction filter)
    (h : passes c filter a) {column : NodeColumn} (hcolumn : column ∈ filter.members) :
    Reading.value a column.node column.column ≠ .null := by
  simp only [passes, decide_eq_true_eq] at h
  induction filter with
  | member => cases hfilter
  | literal => cases hfilter
  | binary op left right ihleft ihright =>
      unfold isConjunction at hfilter
      by_cases hand : op = .and
      · rw [if_pos hand, Bool.and_eq_true] at hfilter
        simp only [value, if_pos hand] at h
        obtain ⟨hl, hr⟩ := Value.both_eq_true.mp h
        rcases List.mem_append.mp hcolumn with hmem | hmem
        · exact ihleft hfilter.1 hmem hl
        · exact ihright hfilter.2 hmem hr
      · rw [if_neg hand] at hfilter
        simp only [Bool.and_eq_true, Bool.not_eq_true', Bool.and_eq_false_iff] at hfilter
        obtain ⟨⟨⟨hop, hl⟩, hr⟩, heq⟩ := hfilter
        refine value_ne_null_of_comparison hop hl hr ?_ h hcolumn
        rintro ⟨rfl, htest⟩
        simp [htest] at heq

end BoundFilter

namespace Plan

/-- Whether a reading passes the filter of a plan, if it has one. -/
def admits (c : Comparison) (p : Plan) (a : Reading) : Bool :=
  p.filter.all (·.passes c a)

def passing (c : Comparison) (store : Store) (p : Plan) : List Reading :=
  (p.rows c store).filter (p.admits c)

/-- A reading that passes a conjunction has a row at each node that only the filter refers
to. -/
theorem rows_of_conjunction {c : Comparison} {p : Plan} {a : Reading}
    (hfilter : ∀ filter, p.filter = some filter → filter.isConjunction) (h : p.admits c a) :
    ∀ f ∈ p.filterOnlyNodes, a f ≠ none := by
  intro f hf
  obtain ⟨-, filter, hsome, column, hcolumn, rfl⟩ := Draft.mem_filterOnlyNodes.mp hf
  have hpasses : filter.passes c a := by simpa [admits, hsome] using h
  exact Reading.ne_none_of_value
    (BoundFilter.value_ne_null_of_passes (hfilter filter hsome) hpasses hcolumn)

end Plan

end EntityMap
