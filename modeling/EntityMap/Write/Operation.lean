import EntityMap.Document
import EntityMap.Sql.Statement

/-!
# Write operations

What one statement writes: the row of a table that is inserted, changed,
deleted or detached from its parent. Values are in storage form.
-/

namespace EntityMap

inductive OperationKind where
  | insert
  | update
  /-- Changes some members of a row. -/
  | patch
  | delete
  /-- Empties the foreign key of a row. -/
  | detach
  deriving DecidableEq, Repr

namespace OperationKind

/-- The name of a kind in messages. -/
def label : OperationKind → String
  | insert => "INSERT"
  | update => "UPDATE"
  | patch => "PATCH"
  | delete => "DELETE"
  | detach => "DETACH"

def read? (j : Json) : Option OperationKind :=
  match Document.choice? j with
  | some ("insert", payload) => Document.unit? insert payload
  | some ("update", payload) => Document.unit? update payload
  | some ("patch", payload) => Document.unit? patch payload
  | some ("delete", payload) => Document.unit? delete payload
  | some ("detach", payload) => Document.unit? detach payload
  | _ => none

end OperationKind

/-- A stored column and the value that it takes or must have. -/
structure Assignment where
  column : String
  value : Value
  deriving DecidableEq, Repr

/-- What one statement writes. -/
structure Operation where
  kind : OperationKind
  entity : String
  table : String
  assignments : List Assignment := []
  /-- Which row is written, unless a row is inserted. -/
  key : Option Assignment := none
  /-- The generated key column that an insert answers. -/
  returning : Option String := none
  deriving DecidableEq, Repr

open Document

def Assignment.read? (j : Json) : Option Assignment := do
  let fields ← record? ["column", "value"] j
  some { column := ← fields.required? "column" text?, value := ← fields.required? "value" literal? }

/-- Reads an operation, whose fields must all be there. -/
def Operation.read? (j : Json) : Option Operation := do
  let fields ← record? ["kind", "entity", "table", "assignments", "key", "returning"] j
  some
    { kind := ← fields.required? "kind" OperationKind.read?
      entity := ← fields.required? "entity" text?
      table := ← fields.required? "table" text?
      assignments := ← fields.required? "assignments" (listOf? Assignment.read?)
      key := ← fields.nullable? "key" Assignment.read?
      returning := ← fields.nullable? "returning" text? }

namespace Operation

/-- The condition that a row has the key. -/
def keyPieces (op : Operation) : Except StatementError (List Sql.Piece) :=
  match op.key with
  | some key => .ok [.text " WHERE ", .name key.column, .text " = ", .parameter key.value]
  | none => .error (.missingKey op.kind.label op.entity)

/-- The pieces of an insert. Without assignments every column takes its default. -/
def insertPieces (op : Operation) : List Sql.Piece :=
  let columns := op.assignments.map fun a => [Sql.Piece.name a.column]
  let values := op.assignments.map fun a => [Sql.Piece.parameter a.value]
  let row : List Sql.Piece :=
    if op.assignments.isEmpty then [.text " DEFAULT VALUES"]
    else [.text " ("] ++ Sql.commaSeparated columns ++ [.text ") VALUES ("] ++
      Sql.commaSeparated values ++ [.text ")"]
  let returning := match op.returning with
    | some column => [.text " RETURNING ", .name column]
    | none => []
  [.text "INSERT INTO ", .name op.table] ++ row ++ returning

/-- The pieces of a change, which has to assign something. -/
def updatePieces (op : Operation) : Except StatementError (List Sql.Piece) :=
  if op.assignments.isEmpty then .error (.emptyAssignments op.kind.label op.entity)
  else do
    let key ← op.keyPieces
    let sets := op.assignments.map fun a =>
      [Sql.Piece.name a.column, .text " = ", .parameter a.value]
    return [.text "UPDATE ", .name op.table, .text " SET "] ++ Sql.commaSeparated sets ++ key

def deletePieces (op : Operation) : Except StatementError (List Sql.Piece) := do
  return [.text "DELETE FROM ", .name op.table] ++ (← op.keyPieces)

/-- The pieces of an operation's statement. -/
def pieces (op : Operation) : Except StatementError (List Sql.Piece) :=
  match op.kind with
  | .insert => .ok op.insertPieces
  | .update | .patch | .detach => op.updatePieces
  | .delete => op.deletePieces

/-- The statement of an operation. -/
def statement (op : Operation) : Except StatementError Statement :=
  op.pieces.map Statement.ofPieces

end Operation

end EntityMap
