import EntityMap.Query.Plan
import EntityMap.Sql.Statement

/-!
# Query statements

The statement of a plan, clause by clause: what is selected, the base
and the joins, the conditions, the order and the limits.
-/

namespace EntityMap

/-- How limits are written. -/
inductive LimitStyle where
  /-- As `LIMIT n OFFSET m`. -/
  | limitOffset
  /-- As `OFFSET m ROWS FETCH NEXT n ROWS ONLY`. -/
  | offsetFetch
  deriving DecidableEq, Repr

namespace Sql

/-- The clause that limits rows, if anything does. -/
def limits (style : LimitStyle) (m : Modifiers) : Option String :=
  match style, m.limit, m.skip with
  | _, none, none => none
  | .limitOffset, some n, none => some ("LIMIT " ++ toString n)
  | .limitOffset, some n, some m => some ("LIMIT " ++ toString n ++ " OFFSET " ++ toString m)
  | .limitOffset, none, some m => some ("LIMIT -1 OFFSET " ++ toString m)
  | .offsetFetch, some n, none => some ("FETCH FIRST " ++ toString n ++ " ROWS ONLY")
  | .offsetFetch, some n, some m =>
    some ("OFFSET " ++ toString m ++ " ROWS FETCH NEXT " ++ toString n ++ " ROWS ONLY")
  | .offsetFetch, none, some m => some ("OFFSET " ++ toString m ++ " ROWS")

/-- A column of a node. -/
def column (node : Nat) (name : String) : List Piece :=
  [.text (nodeAlias node ++ "."), .name name]

def nodeColumn (c : NodeColumn) : List Piece :=
  column c.node c.column

/-- A table under the name of its node. -/
def tableAs (table : String) (node : Nat) : List Piece :=
  [.name table, .text (" AS " ++ nodeAlias node)]

/-- A column under the name by which it is answered. -/
def selected (c : NodeColumn) : List Piece :=
  match c.label with
  | some label => nodeColumn c ++ [.text " AS ", .name label]
  | none => nodeColumn c

/-- The test that equality or inequality with null stands for. -/
def nullTest? : Operator → Option String
  | .eq => some " IS NULL"
  | .notEq => some " IS NOT NULL"
  | _ => none

/-- A condition; its literals are parameters, but null is tested for. -/
def condition : BoundFilter → List Piece
  | .member c => nodeColumn c
  | .literal v => [.parameter v]
  | .binary op left right =>
    match nullTest? op, left, right with
    | some test, left, .literal .null => condition left ++ [.text test]
    | some test, .literal .null, right => condition right ++ [.text test]
    | _, left, right =>
      [.text "("] ++ condition left ++ [.text (" " ++ op.sql ++ " ")] ++ condition right ++
        [.text ")"]

def joinWords : JoinKind → String
  | .inner => "INNER JOIN "
  | .left => "LEFT JOIN "

def join (j : Join) : List Piece :=
  [.text (" " ++ joinWords j.kind)] ++ tableAs j.table j.node ++ [.text " ON "] ++
    column j.node j.nodeColumn ++ [.text " = "] ++ column j.source j.sourceColumn

/-- A restriction to keys; no key admits no row. -/
def restriction (r : KeyRestriction) : List Piece :=
  if r.keys.isEmpty then [.text "1 = 0"]
  else
    nodeColumn r.column ++ [.text " IN ("] ++ commaSeparated (r.keys.map fun v => [.parameter v]) ++
      [.text ")"]

def orderTerm (term : OrderTerm) : List Piece :=
  nodeColumn term.column ++ [.text (" " ++ term.direction.sql)]

/-- The conditions of a plan: its filter and its keys. -/
def conditions (p : Plan) : List (List Piece) :=
  (p.filter.map condition).toList ++ (p.keyRestriction.map restriction).toList

/-- A clause of parts, which is left out when there is no part. -/
def clause (word separator : String) (parts : List (List Piece)) : List Piece :=
  if parts.isEmpty then [] else .text word :: [.text separator].intercalate parts

end Sql

namespace Plan

/-- The pieces of a plan's statement. -/
def pieces (style : LimitStyle) (p : Plan) : List Sql.Piece :=
  [.text (if p.modifiers.distinct then "SELECT DISTINCT " else "SELECT ")] ++
  Sql.commaSeparated (p.select.map Sql.selected) ++
  [.text " FROM "] ++ Sql.tableAs p.base.table p.base.node ++
  p.joins.flatMap Sql.join ++
  Sql.clause " WHERE " " AND " (Sql.conditions p) ++
  Sql.clause " ORDER BY " ", " (p.orderBy.map Sql.orderTerm) ++
  ((Sql.limits style p.modifiers).map fun text => .text (" " ++ text)).toList

/-- The statement of a plan, which has to select something. -/
def statement (style : LimitStyle) (p : Plan) : Except StatementError Statement :=
  if p.select.isEmpty then .error (.emptySelect p.base.entity)
  else .ok (Statement.ofPieces (p.pieces style))

end Plan

end EntityMap
