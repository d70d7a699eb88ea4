import EntityMap.Execution.UnitOfWork
import EntityMap.Json

/-!
# Writing record sets and calls

Record sets and the calls of a connection as JSON, in which `ofValue`
writes the values. A call is a list that its name leads.
-/

namespace EntityMap

/-- Writes a record set with all its fields. -/
def RecordSet.toJson (ofValue : Value → Json) (s : RecordSet) : Json :=
  .obj [
    ("columns", .texts s.columns),
    ("types", .arr (s.types.map fun type => .orNull (type.map .str))),
    ("rows", .arr (s.rows.map fun row => .arr (row.map ofValue)))]

namespace Call

/-- A call that sends a statement. -/
def statementJson (ofValue : Value → Json) (name : String) (s : Statement) : Json :=
  .arr [.str name, .str s.sql, .arr (s.parameters.map ofValue)]

/-- Writes a call. -/
def toJson (ofValue : Value → Json) : Call → Json
  | timeout milliseconds => .arr [.str "timeout", .int milliseconds]
  | begin => .arr [.str "begin"]
  | commit => .arr [.str "commit"]
  | rollback => .arr [.str "rollback"]
  | query s => statementJson ofValue "query" s
  | scalar s => statementJson ofValue "scalar" s
  | execute s => statementJson ofValue "execute" s

end Call

end EntityMap
