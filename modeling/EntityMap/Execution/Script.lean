import EntityMap.Execution.UnitOfWork
import EntityMap.Named

/-!
# Scripted connections

A connection whose answers are written down beforehand, one queue for
each kind of call. When its queue is empty, a call succeeds: a statement
affects one row, generated keys count upwards, and a query answers the
next of the key lists that are stored for its table.
-/

namespace EntityMap

/-- The answers of a connection that are still to come. -/
structure Script where
  begins : List (Except ExecutionError Unit) := []
  commits : List (Except ExecutionError Unit) := []
  rollbacks : List (Except ExecutionError Unit) := []
  queries : List (Except ExecutionError RecordSet) := []
  scalars : List (Except ExecutionError Value) := []
  executions : List (Except ExecutionError Nat) := []
  /-- The key that the next insert generates. -/
  nextKey : Int64 := 101
  /-- For each table the key lists that its next queries answer. -/
  stored : List (String × List (List Value)) := []
  deriving Repr

namespace Script

/-- What stands behind the first occurrence of a text, if it occurs. -/
def behind? (mark : List Char) : List Char → Option (List Char)
  | [] => if mark.isEmpty then some [] else none
  | c :: rest =>
    if mark.isPrefixOf (c :: rest) then some ((c :: rest).drop mark.length)
    else behind? mark rest

/-- The table that a query starts from: the name behind the first `FROM`, up to
a quotation mark. -/
def tableOf (sql : String) : String :=
  match behind? " FROM \"".toList sql.toList with
  | some rest => String.ofList (rest.takeWhile (· ≠ '"'))
  | none => ""

/-- A record set of keys. -/
def keySet (keys : List Value) : RecordSet :=
  { RecordSet.empty ["__key"] with rows := keys.map ([·]) }

/-- Takes the next key list of a table. -/
def takeStored (table : String) :
    List (String × List (List Value)) → List Value × List (String × List (List Value))
  | [] => ([], [])
  | (other, queue) :: rest =>
    if other = table then
      match queue with
      | [] => ([], (other, []) :: rest)
      | keys :: later => (keys, (other, later) :: rest)
    else
      let (keys, rest) := takeStored table rest
      (keys, (other, queue) :: rest)

instance : Executor Script where
  begin s :=
    match s.begins with
    | answer :: later => (answer, { s with begins := later })
    | [] => (.ok (), s)
  commit s :=
    match s.commits with
    | answer :: later => (answer, { s with commits := later })
    | [] => (.ok (), s)
  rollback s :=
    match s.rollbacks with
    | answer :: later => (answer, { s with rollbacks := later })
    | [] => (.ok (), s)
  query statement s :=
    match s.queries with
    | answer :: later => (answer, { s with queries := later })
    | [] =>
      let (keys, stored) := takeStored (tableOf statement.sql) s.stored
      (.ok (keySet keys), { s with stored })
  scalar _ s :=
    match s.scalars with
    | answer :: later => (answer, { s with scalars := later })
    | [] => (.ok (.int s.nextKey), { s with nextKey := s.nextKey + 1 })
  execute _ s :=
    match s.executions with
    | answer :: later => (answer, { s with executions := later })
    | [] => (.ok 1, s)

/-- How many queries can still answer rows. -/
def answers (s : Script) : Nat :=
  s.queries.length + (s.stored.flatMap fun (_, queue) => queue).length

end Script

end EntityMap
