import EntityMap.Document
import EntityMap.Execution.Script

/-!
# Reading scripts

Scripts and record sets are written as JSON, in which `readValue` reads
the values. A script names a queue for each kind of call and for each
table the key lists that are stored; an entry with the field `error`
fails its call.
-/

namespace EntityMap

/-- Reads a list of values. -/
def readValues? (readValue : Json → Option Value) (j : Json) : Option (List Value) :=
  Document.listOf? readValue j

/-- Reads a record set. Without types, nothing is known of them. -/
def RecordSet.read? (readValue : Json → Option Value) (j : Json) : Option RecordSet := do
  let columns ← Document.listOf? Json.text? (← j.field? "columns")
  let type := fun (j : Json) => if j.isNull then some none else j.text?.map some
  let types ← match j.field? "types" with
    | some types => Document.listOf? type types
    | none => some (columns.map fun _ => none)
  let rows ← Document.listOf? (readValues? readValue) (← j.field? "rows")
  return { columns, types, rows }

/-- Reads a failure of a call. -/
def ExecutionError.read? (j : Json) : Option ExecutionError := do
  match ← (← j.field? "error").text? with
  | "driver" => return .driver (← (← j.field? "message").text?)
  | "timeout" => return .timeout (← Document.natural? (← j.field? "ms"))
  | "no_value" => return .noValue
  | _ => none

namespace Script

/-- Reads an answer: a failure, or else what `read` reads. -/
def readAnswer? {α : Type} (read : Json → Option α) (j : Json) :
    Option (Except ExecutionError α) :=
  if (j.field? "error").isSome then (ExecutionError.read? j).map .error else (read j).map .ok

/-- Reads a queue of answers, which is empty when it is left out. -/
def readQueue? {α : Type} (name : String) (read : Json → Option α) (j : Json) :
    Option (List (Except ExecutionError α)) :=
  match j.field? name with
  | some entries => Document.listOf? (readAnswer? read) entries
  | none => some []

/-- Reads the key lists of each table. -/
def readStored? (readValue : Json → Option Value) (j : Json) :
    Option (List (String × List (List Value))) := do
  (← j.fields?).mapM fun (table, queue) => do
    return (table, ← Document.listOf? (readValues? readValue) queue)

/-- Reads a script. An execution whose entry is no count affects one row. -/
def read? (readValue : Json → Option Value) (j : Json) : Option Script := do
  let done := fun (_ : Json) => some ()
  let affected := fun (entry : Json) => some ((Document.natural? entry).getD 1)
  let standard : Script := {}
  return {
    begins := ← readQueue? "begin" done j
    commits := ← readQueue? "commit" done j
    rollbacks := ← readQueue? "rollback" done j
    queries := ← readQueue? "query" (RecordSet.read? readValue) j
    scalars := ← readQueue? "scalar" readValue j
    executions := ← readQueue? "execute" affected j
    nextKey := ((j.field? "next_key").bind Document.int64?).getD standard.nextKey
    stored := ← ((j.field? "stored").map (readStored? readValue)).getD (some []) }

end Script

end EntityMap
