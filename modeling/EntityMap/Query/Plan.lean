import EntityMap.Query.Request

/-!
# Plans

A plan says what one statement reads. Its `Draft` says what is answered,
in which order and under which conditions; the plan adds the table to
start from and the joins to all other nodes of the draft, each on a node
that is joined before it.
-/

namespace EntityMap

/-- A column to order by. -/
structure OrderTerm where
  column : NodeColumn
  direction : SortDirection
  deriving DecidableEq, Repr

/-- Restricts a column to keys that are known when the statement runs. -/
structure KeyRestriction where
  column : NodeColumn
  keys : List Value := []
  deriving DecidableEq, Repr

/-- What a statement answers, before it is known how its nodes are joined. -/
structure Draft where
  target : Nat
  select : List NodeColumn
  filter : Option BoundFilter := none
  keyRestriction : Option KeyRestriction := none
  orderBy : List OrderTerm := []
  modifiers : Modifiers := {}
  deriving DecidableEq, Repr

/-- The table of a node that a statement starts from. -/
structure TableSource where
  node : Nat
  entity : String
  table : String
  deriving DecidableEq, Repr

/-- A node that is joined on a node before it: the rows in which the column of
`node` equals that of `source`. -/
structure Join where
  node : Nat
  table : String
  nodeColumn : String
  source : Nat
  sourceColumn : String
  kind : JoinKind
  deriving DecidableEq, Repr

namespace Join

def display (j : Join) : String :=
  j.kind.label ++ " " ++ j.table ++ " " ++ nodeAlias j.node ++ " on " ++
    nodeAlias j.node ++ "." ++ j.nodeColumn ++ " = " ++ nodeAlias j.source ++ "." ++ j.sourceColumn

end Join

/-- What one statement reads. -/
structure Plan extends Draft where
  /-- The key column of the target, in its own table. -/
  targetKey : NodeColumn
  base : TableSource
  joins : List Join
  /-- The joined nodes, other than the target, of which a row above may have many. -/
  invertedNodes : List Nat
  deriving DecidableEq, Repr

namespace Plan

/-- The nodes of a plan, in the order in which they are joined. -/
def nodes (p : Plan) : List Nat :=
  p.base.node :: p.joins.map (·.node)

def joinFor? (p : Plan) (node : Nat) : Option Join :=
  p.joins.find? (·.node = node)

/-- The plan with the keys of its restriction, if it has one. -/
def withKeys (p : Plan) (keys : List Value) : Plan :=
  { p with keyRestriction := p.keyRestriction.map ({ · with keys }) }

/-- The place of a selected column, by the name under which it is answered. -/
def columnPosition? (p : Plan) (label : String) : Option Nat :=
  p.select.findIdx? (·.label = some label)

/-! ## Display -/

/-- The lines of a plan, one for each clause that it has. -/
def lines (p : Plan) : List String :=
  let distinct := if p.modifiers.distinct then " distinct" else ""
  let orderTerm := fun (term : OrderTerm) => term.column.place ++ " " ++ term.direction.sql
  ["select" ++ distinct ++ ": " ++ ", ".intercalate (p.select.map (·.display)),
    "from: " ++ p.base.table ++ " " ++ nodeAlias p.base.node] ++
  p.joins.map ("  " ++ ·.display) ++
  (p.filter.map fun filter => "where: " ++ BoundFilter.display filter).toList ++
  (p.keyRestriction.map fun r =>
    "keys: " ++ r.column.place ++ " in " ++ toString r.keys.length ++ " value(s)").toList ++
  (if p.orderBy.isEmpty then [] else ["order: " ++ ", ".intercalate (p.orderBy.map orderTerm)]) ++
  (p.modifiers.limit.map fun n => "limit: " ++ toString n).toList ++
  (p.modifiers.skip.map fun n => "skip: " ++ toString n).toList

def display (p : Plan) : String :=
  String.join (p.lines.map (· ++ "\n"))

end Plan

end EntityMap
