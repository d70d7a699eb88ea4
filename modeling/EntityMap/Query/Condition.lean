import EntityMap.Context.Node

/-!
# Conditions

A condition is a tree of operators over members and literals. In a
`Filter`, as a request writes it, a member is a path from the target; in
a `BoundFilter` it is a column of a node. Binding (`Query.Binding`) leads
from the one to the other and keeps the tree.
-/

namespace EntityMap

/-- The operators of conditions: two connectives, and comparisons. -/
inductive Operator where
  | and
  | or
  | eq
  | notEq
  | lt
  | ltEq
  | gt
  | gtEq
  | like
  deriving DecidableEq, Repr

namespace Operator

/-- Whether an operator connects conditions; the others compare values. -/
def isLogical : Operator → Bool
  | and | or => true
  | _ => false

/-- The spelling in statements. -/
def sql : Operator → String
  | and => "AND"
  | or => "OR"
  | eq => "="
  | notEq => "<>"
  | lt => "<"
  | ltEq => "<="
  | gt => ">"
  | gtEq => ">="
  | like => "LIKE"

end Operator

/-- A tree of operators whose members are of type `α`. -/
inductive Condition (α : Type) where
  | binary (op : Operator) (left right : Condition α)
  | member (a : α)
  | literal (v : Value)
  deriving DecidableEq, Repr

/-- A condition on paths. -/
abbrev Filter := Condition String

/-- A condition on columns of a context. -/
abbrev BoundFilter := Condition NodeColumn

namespace Condition

variable {α : Type}

/-- The members of a condition, from left to right. -/
def members : Condition α → List α
  | binary _ left right => left.members ++ right.members
  | member a => [a]
  | literal _ => []

/-- Both conditions. -/
def and (c d : Condition α) : Condition α :=
  binary .and c d

/-- One of the conditions. -/
def or (c d : Condition α) : Condition α :=
  binary .or c d

/-- A member compared with a literal. -/
def compare (a : α) (op : Operator) (v : Value) : Condition α :=
  binary op (member a) (literal v)

end Condition

namespace BoundFilter

/-- The nodes whose columns a condition compares, ascending. -/
def nodes (filter : BoundFilter) : List Nat :=
  (filter.members.map (·.node)).eraseDups.mergeSort

/-- The condition as messages show it. -/
def display : BoundFilter → String
  | .binary op left right =>
    "(" ++ BoundFilter.display left ++ " " ++ op.sql ++ " " ++ BoundFilter.display right ++ ")"
  | .member column => column.place
  | .literal v => v.display

end BoundFilter

end EntityMap
