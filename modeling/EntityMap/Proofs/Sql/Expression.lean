import EntityMap.Sql.Query

/-!
# Expressions

The tree that the conditions of a statement are meant as. A condition
becomes an expression node by node (`BoundFilter.expression`), except that
equality and inequality with null are the two tests for null. A restriction
to keys is a membership, and one that no row satisfies when there is no key.
-/

namespace EntityMap

namespace Sql

/-- An expression in a statement. -/
inductive Expression where
  /-- A column of the table that stands under an alias. -/
  | column (nodeAlias name : String)
  | literal (v : Value)
  /-- A word that is not a name, as a number. -/
  | constant (word : String)
  | binary (op : Operator) (left right : Expression)
  /-- `IS NULL`, or `IS NOT NULL` when negated. -/
  | nullTest (negated : Bool) (operand : Expression)
  | isIn (operand : Expression) (values : List Value)
  deriving DecidableEq, Repr

namespace Expression

/-- Equality and inequality with null, on either side, are tests for null. -/
def ofBinary : Operator → Expression → Expression → Expression
  | .eq, operand, .literal .null => .nullTest false operand
  | .eq, .literal .null, operand => .nullTest false operand
  | .notEq, operand, .literal .null => .nullTest true operand
  | .notEq, .literal .null, operand => .nullTest true operand
  | op, left, right => .binary op left right

/-- The literals of an expression, from left to right. -/
def literals : Expression → List Value
  | column _ _ => []
  | literal v => [v]
  | constant _ => []
  | binary _ left right => left.literals ++ right.literals
  | nullTest _ operand => operand.literals
  | isIn operand values => operand.literals ++ values

end Expression

end Sql

/-- The expression that a condition is meant as. -/
def BoundFilter.expression : BoundFilter → Sql.Expression
  | .member c => .column (nodeAlias c.node) c.column
  | .literal v => .literal v
  | .binary op left right =>
    .ofBinary op (BoundFilter.expression left) (BoundFilter.expression right)

/-- The expression that a restriction is meant as; no row has none of no keys. -/
def KeyRestriction.expression (r : KeyRestriction) : Sql.Expression :=
  if r.keys.isEmpty then .binary .eq (.constant "1") (.constant "0")
  else .isIn (.column (nodeAlias r.column.node) r.column.column) r.keys

namespace Sql

/-- The comparison with null that a test for null is written for. -/
def nullComparison (negated : Bool) : Operator :=
  if negated then .notEq else .eq

/-- The words of a test for null. -/
def nullTestText (negated : Bool) : String :=
  if negated then " IS NOT NULL" else " IS NULL"

theorem expression_eq_null_iff {c : BoundFilter} :
    BoundFilter.expression c = .literal .null ↔ c = .literal .null := by
  constructor
  · intro h
    cases c with
    | member c => simp [BoundFilter.expression] at h
    | literal v => simpa [BoundFilter.expression] using h
    | binary op left right =>
      unfold BoundFilter.expression Expression.ofBinary at h
      split at h <;> simp at h
  · rintro rfl
    rfl

/-- Where nothing is tested for null, an operator stands between its operands. -/
theorem condition_binary {op : Operator} {left right : BoundFilter}
    (h : nullTest? op = none ∨ left ≠ .literal .null ∧ right ≠ .literal .null) :
    condition (.binary op left right) = [.text "("] ++ condition left ++
        [.text (" " ++ op.sql ++ " ")] ++ condition right ++ [.text ")"] ∧
      BoundFilter.expression (.binary op left right) =
        .binary op (BoundFilter.expression left) (BoundFilter.expression right) := by
  constructor
  · rw [condition]
    · rintro test htest rfl
      simp_all
    · rintro test htest rfl
      simp_all
  · rw [BoundFilter.expression]
    cases op <;> simp_all [Expression.ofBinary, nullTest?, expression_eq_null_iff]

/-- A comparison with null is a test of its left operand … -/
theorem condition_null_right (negated : Bool) (left : BoundFilter) :
    condition (.binary (nullComparison negated) left (.literal .null)) =
        condition left ++ [.text (nullTestText negated)] ∧
      BoundFilter.expression (.binary (nullComparison negated) left (.literal .null)) =
        .nullTest negated (BoundFilter.expression left) := by
  cases negated <;> exact ⟨rfl, rfl⟩

/-- … and of its right one, if it is the left one that is null. -/
theorem condition_null_left (negated : Bool) {right : BoundFilter} (h : right ≠ .literal .null) :
    condition (.binary (nullComparison negated) (.literal .null) right) =
        condition right ++ [.text (nullTestText negated)] ∧
      BoundFilter.expression (.binary (nullComparison negated) (.literal .null) right) =
        .nullTest negated (BoundFilter.expression right) := by
  constructor
  · rw [condition]
    · cases negated <;> rfl
    · exact h
  · have h' : BoundFilter.expression right ≠ .literal .null := mt expression_eq_null_iff.mp h
    cases negated with
    | false => exact Expression.ofBinary.eq_2 _ h'
    | true => exact Expression.ofBinary.eq_4 _ h'

/-- What is shown of the pieces of a null test and of an operator in parentheses, each from
what is shown of the operands, holds of every condition and the expression it is meant as. -/
theorem condition_induction {P : List Piece → Expression → Prop}
    (column : ∀ c : NodeColumn, P (nodeColumn c) (.column (nodeAlias c.node) c.column))
    (literal : ∀ v, P [.parameter v] (.literal v))
    (nullTest : ∀ negated ps e, P ps e →
      P (ps ++ [.text (nullTestText negated)]) (.nullTest negated e))
    (binary : ∀ op ls l rs r, P ls l → P rs r →
      P ([.text "("] ++ ls ++ [.text (" " ++ op.sql ++ " ")] ++ rs ++ [.text ")"])
        (.binary op l r))
    (c : BoundFilter) : P (condition c) (BoundFilter.expression c) := by
  induction c with
  | member c => exact column c
  | literal v => exact literal v
  | binary op left right ihl ihr =>
    have hgrouped (h : nullTest? op = none ∨ left ≠ .literal .null ∧ right ≠ .literal .null) :
        P (condition (.binary op left right)) (BoundFilter.expression (.binary op left right)) := by
      obtain ⟨htext, hmeaning⟩ := condition_binary h
      rw [htext, hmeaning]
      exact binary op _ _ _ _ ihl ihr
    have hcompared (negated : Bool) (hop : op = nullComparison negated) :
        P (condition (.binary op left right)) (BoundFilter.expression (.binary op left right)) := by
      by_cases hright : right = .literal .null
      · obtain ⟨htext, hmeaning⟩ := condition_null_right negated left
        rw [hop, hright, htext, hmeaning]
        exact nullTest negated _ _ ihl
      · by_cases hleft : left = .literal .null
        · obtain ⟨htext, hmeaning⟩ := condition_null_left negated hright
          rw [hop, hleft, htext, hmeaning]
          exact nullTest negated _ _ ihr
        · exact hgrouped (.inr ⟨hleft, hright⟩)
    cases op with
    | eq => exact hcompared false rfl
    | notEq => exact hcompared true rfl
    | _ => exact hgrouped (.inl rfl)

end Sql

end EntityMap
