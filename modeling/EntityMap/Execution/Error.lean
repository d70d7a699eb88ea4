import EntityMap.Sql.Statement

/-!
# Execution errors

What can go wrong with a connection, a unit of work and a query.
-/

namespace EntityMap

/-- What a connection reports. -/
inductive ExecutionError where
  | driver (text : String)
  | timeout (milliseconds : Nat)
  | noValue
  deriving DecidableEq, Repr

namespace ExecutionError

/-- Drops the zeros at the end of a list of digits. -/
def trimZeros (digits : List Char) : List Char :=
  (digits.reverse.dropWhile (· = '0')).reverse

/-- A duration: in seconds from one second on, below in milliseconds, and zero
as no nanosecond. -/
def durationText (milliseconds : Nat) : String :=
  if milliseconds = 0 then "0ns"
  else if milliseconds < 1000 then toString milliseconds ++ "ms"
  else
    let thousandths := Nat.toDigits 10 (1000 + milliseconds % 1000)
    let fraction := trimZeros (thousandths.drop 1)
    let point := if fraction.isEmpty then [] else '.' :: fraction
    toString (milliseconds / 1000) ++ String.ofList point ++ "s"

def message : ExecutionError → String
  | driver text => "Driver error: " ++ text
  | timeout milliseconds => "Command timed out after " ++ durationText milliseconds
  | noValue => "Statement returned no value"

end ExecutionError

inductive UnitOfWorkError where
  /-- A statement failed; the text is the one that was tried. -/
  | statement (sql : String) (source : ExecutionError)
  | begin (source : ExecutionError)
  | commit (source : ExecutionError)
  | rollback (source : ExecutionError)
  | rolledBack
  | committed
  | closed
  deriving DecidableEq, Repr

namespace UnitOfWorkError

def message : UnitOfWorkError → String
  | statement sql source => "Statement failed: " ++ sql ++ ": " ++ source.message
  | begin source => "Could not begin transaction: " ++ source.message
  | commit source => "Commit failed: " ++ source.message
  | rollback source => "Rollback failed: " ++ source.message
  | rolledBack => "Unit of work was already rolled back"
  | committed => "Unit of work was already committed"
  | closed => "Execution channel closed"

end UnitOfWorkError

inductive QueryError where
  | statement (error : StatementError)
  | unitOfWork (error : UnitOfWorkError)
  | missingColumn (recordSet column : String)
  deriving DecidableEq, Repr

namespace QueryError

def message : QueryError → String
  | statement error => error.message
  | unitOfWork error => error.message
  | missingColumn recordSet column =>
    "Record set `" ++ recordSet ++ "` has no column `" ++ column ++ "`"

end QueryError

end EntityMap
