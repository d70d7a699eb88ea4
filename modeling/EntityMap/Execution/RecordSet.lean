import EntityMap.Value

/-!
# Record sets

The rows that a query answers. A row may be shorter than the list of
columns; of two columns with one name the first counts.
-/

namespace EntityMap

/-- The answer to one query. -/
structure RecordSet where
  columns : List String
  /-- What is known of the type of each column. -/
  types : List (Option String)
  rows : List (List Value)
  deriving DecidableEq, Repr

namespace RecordSet

/-- A record set without rows. -/
def empty (columns : List String) : RecordSet :=
  { columns, types := columns.map fun _ => none, rows := [] }

def columnIndex? (s : RecordSet) (name : String) : Option Nat :=
  s.columns.findIdx? (· = name)

/-- The value of a column in a row. -/
def get? (s : RecordSet) (row : Nat) (name : String) : Option Value := do
  let index ← s.columnIndex? name
  let values ← s.rows[row]?
  values[index]?

/-- The distinct values of a column but null, in the order in which they occur. -/
def distinctValues? (s : RecordSet) (name : String) : Option (List Value) := do
  let index ← s.columnIndex? name
  return ((s.rows.filterMap (·[index]?)).filter fun v => !v.isNull).eraseDups

end RecordSet

/-- A record set with the included path that it was read for, empty for the
query itself. -/
structure NamedRecordSet where
  name : String
  records : RecordSet
  deriving DecidableEq, Repr

end EntityMap
