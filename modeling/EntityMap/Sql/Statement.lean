import EntityMap.Value

/-!
# Statements

A statement is a text with a placeholder for each of its parameters. It
is put together from pieces, each of which is a fixed text, a name or a
parameter, so that placeholders and parameters have one order
(`Statement.ofPieces`). Names are quoted: whatever characters a name has,
its text is one complete name.
-/

namespace EntityMap

/-- A text with placeholders, and its parameters in the order of these. -/
structure Statement where
  sql : String
  parameters : List Value := []
  deriving DecidableEq, Repr

namespace Statement

/-- A statement on one line, its parameters in a comment behind it. -/
def display (s : Statement) : String :=
  if s.parameters.isEmpty then s.sql
  else s.sql ++ " -- [" ++ ", ".intercalate (s.parameters.map (·.display)) ++ "]"

end Statement

namespace Sql

/-- Writes every quotation mark twice. -/
def doubleMarks : List Char → List Char
  | [] => []
  | c :: rest => if c = '"' then '"' :: '"' :: doubleMarks rest else c :: doubleMarks rest

/-- A name between quotation marks. -/
def quote (name : String) : String :=
  String.ofList ('"' :: doubleMarks name.toList ++ ['"'])

/-- A part of a statement. -/
inductive Piece where
  /-- Keywords, punctuation, counts and the names of nodes. -/
  | text (s : String)
  /-- The name of a table or column, or an alias. -/
  | name (s : String)
  | parameter (v : Value)
  deriving DecidableEq, Repr

namespace Piece

def sql : Piece → String
  | text s => s
  | name s => quote s
  | parameter _ => "?"

def parameter? : Piece → Option Value
  | parameter v => some v
  | _ => none

end Piece

/-- Parts with commas between them. -/
def commaSeparated (parts : List (List Piece)) : List Piece :=
  [.text ", "].intercalate parts

end Sql

/-- The statement that consists of the given pieces. -/
def Statement.ofPieces (pieces : List Sql.Piece) : Statement :=
  { sql := String.join (pieces.map (·.sql))
    parameters := pieces.filterMap (·.parameter?) }

/-- Why an operation or a plan has no statement. -/
inductive StatementError where
  | emptySelect (entity : String)
  | emptyAssignments (kind entity : String)
  | missingKey (kind entity : String)
  deriving DecidableEq, Repr

namespace StatementError

def message : StatementError → String
  | emptySelect entity => "Query on `" ++ entity ++ "` selects no columns"
  | emptyAssignments kind entity => kind ++ " on `" ++ entity ++ "` assigns no columns"
  | missingKey kind entity => kind ++ " on `" ++ entity ++ "` has no key condition"

end StatementError

end EntityMap
