import EntityMap.Execution.Error
import EntityMap.Execution.RecordSet

/-!
# Units of work

A unit of work is one transaction on one connection. It is committed at
most once; when it is closed without a commit or a rollback, it is
rolled back. What is asked of the connection is kept in `calls`, in
order.

It has two sides. Callers see the `state` of the transaction, which
decides what is asked at all. The writer, who alone talks to the
connection, keeps for itself whether the transaction `isFinished`, and
decides by that whether it has to roll back when it is closed.
-/

namespace EntityMap

/-- A connection, as the functions by which its state answers calls. -/
class Executor (σ : Type) where
  begin : σ → Except ExecutionError Unit × σ
  commit : σ → Except ExecutionError Unit × σ
  rollback : σ → Except ExecutionError Unit × σ
  query : Statement → σ → Except ExecutionError RecordSet × σ
  /-- The first value of the first row. -/
  scalar : Statement → σ → Except ExecutionError Value × σ
  /-- How many rows are affected. -/
  execute : Statement → σ → Except ExecutionError Nat × σ

/-- What is asked of a connection. -/
inductive Call where
  /-- Limits the time of each statement, in milliseconds. -/
  | timeout (milliseconds : Nat)
  | begin
  | commit
  | rollback
  | query (s : Statement)
  | scalar (s : Statement)
  | execute (s : Statement)
  deriving DecidableEq, Repr

inductive TransactionState where
  | active
  | committed
  | rolledBack
  deriving DecidableEq, Repr

/-- A transaction on a connection. -/
structure UnitOfWork (σ : Type) where
  connection : σ
  state : TransactionState := .active
  /-- Whether the writer has no transaction left to end. -/
  isFinished : Bool := false
  isOpen : Bool := true
  /-- All calls of the connection so far. -/
  calls : List Call := []
  deriving Repr

/-- A computation in a unit of work. -/
abbrev Working (σ ε α : Type) := ExceptT ε (StateM (UnitOfWork σ)) α

/-- An answer that does not touch the unit of work. -/
def Working.ofExcept {σ ε α : Type} (answer : Except ε α) : Working σ ε α :=
  ExceptT.mk (return answer)

namespace UnitOfWork

variable {σ : Type}

/-- Asks the connection, and keeps the call. -/
def call {α : Type} (c : Call) (answer : σ → α × σ) (u : UnitOfWork σ) : α × UnitOfWork σ :=
  let (a, connection) := answer u.connection
  (a, { u with connection, calls := u.calls ++ [c] })

/-- Sends a statement, unless the unit of work is closed. -/
def send {α : Type} (s : Statement) (c : Call) (answer : σ → Except ExecutionError α × σ) :
    Working σ UnitOfWorkError α := do
  if (← get).isOpen then
    match ← modifyGet (call c answer) with
    | .ok a => return a
    | .error source => throw (.statement s.sql source)
  else throw .closed

variable [Executor σ]

def query (s : Statement) : Working σ UnitOfWorkError RecordSet :=
  send s (.query s) (Executor.query s)

def scalar (s : Statement) : Working σ UnitOfWorkError Value :=
  send s (.scalar s) (Executor.scalar s)

def execute (s : Statement) : Working σ UnitOfWorkError Nat :=
  send s (.execute s) (Executor.execute s)

/-- The writer commits. It has finished unless that fails. -/
def writeCommit (u : UnitOfWork σ) : Except ExecutionError Unit × UnitOfWork σ :=
  let (answer, u) := u.call .commit Executor.commit
  (answer, { u with isFinished := answer.isOk })

/-- The writer rolls back. It has finished also when that fails. -/
def writeRollback (u : UnitOfWork σ) : Except ExecutionError Unit × UnitOfWork σ :=
  { u with isFinished := true }.call .rollback Executor.rollback

/-- Begins a transaction, with a limit for each statement in milliseconds. The
calls are kept also when it cannot begin. -/
def begin (timeout : Nat) (connection : σ) : Except UnitOfWorkError Unit × UnitOfWork σ :=
  let prepared : UnitOfWork σ := { connection, calls := [.timeout timeout] }
  let (answer, u) := prepared.call .begin Executor.begin
  (answer.mapError .begin, u)

/-- Commits. Once committed, nothing more is done. -/
def commit : Working σ UnitOfWorkError Unit := do
  match (← get).state with
  | .committed => return ()
  | .rolledBack => throw .rolledBack
  | .active =>
    if (← get).isOpen then
      match ← modifyGet writeCommit with
      | .ok () => modify ({ · with state := .committed })
      | .error source => throw (.commit source)
    else throw .closed

/-- Rolls back. The transaction has ended also when that fails. -/
def rollback : Working σ UnitOfWorkError Unit := do
  match (← get).state with
  | .rolledBack => return ()
  | .committed => throw .committed
  | .active =>
    modify ({ · with state := .rolledBack })
    if (← get).isOpen then
      match ← modifyGet writeRollback with
      | .ok () => return ()
      | .error source => throw (.rollback source)
    else throw .closed

/-- Releases the connection; a transaction that the writer has not finished is
rolled back. -/
def close (u : UnitOfWork σ) : UnitOfWork σ :=
  let released :=
    if u.isOpen && !u.isFinished then (u.call .rollback Executor.rollback).2 else u
  { released with isOpen := false }

end UnitOfWork

end EntityMap
