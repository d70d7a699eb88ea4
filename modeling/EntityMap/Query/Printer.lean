import EntityMap.Json
import EntityMap.Query.Include
import EntityMap.Query.Strategy

/-!
# Writing requests and plans

Requests, plans and strategies as JSON, in the form in which they are
read, with every field written.
-/

namespace EntityMap

/-- The scalar of a value. A float that is no number has none and becomes null. -/
def Value.toJson : Value → Json
  | .null => .null
  | .bool b => .bool b
  | .int i => .int i.toInt
  | .float x => if x.isFinite then .float x else .null
  | .text s => .str s
  | .timestamp t => .str t.documentText
  | .uuid u => .str u.text

namespace Json

def ofNat (n : Nat) : Json :=
  int n

/-- A count, or null for none. -/
def ofNat? (n : Option Nat) : Json :=
  orNull (n.map ofNat)

end Json

/-- The word of an operator. -/
def Operator.word : Operator → String
  | .and => "and"
  | .or => "or"
  | .eq => "eq"
  | .notEq => "not_eq"
  | .lt => "lt"
  | .ltEq => "lt_eq"
  | .gt => "gt"
  | .gtEq => "gt_eq"
  | .like => "like"

def SortDirection.word : SortDirection → String
  | .asc => "asc"
  | .desc => "desc"

/-! ## Requests -/

def Filter.toJson : Filter → Json
  | .binary op left right =>
    .obj [("binary", .obj [
      ("op", .str op.word), ("left", Filter.toJson left), ("right", Filter.toJson right)])]
  | .member path => .obj [("member", .str path)]
  | .literal v => .obj [("literal", v.toJson)]

def Order.toJson (order : Order) : Json :=
  .obj [("path", .str order.path), ("direction", .str order.direction.word)]

def Modifiers.toJson (m : Modifiers) : Json :=
  .obj [
    ("distinct", .bool m.distinct),
    ("top", Json.ofNat? m.top),
    ("skip", Json.ofNat? m.skip),
    ("take", Json.ofNat? m.take)]

def Projection.toJson (entry : Projection) : Json :=
  .obj [("path", .str entry.path), ("alias", .str entry.label)]

def Selection.toJson : Selection → Json
  | .allColumns includes => .obj [("all_columns", .obj [("includes", Json.texts includes)])]
  | .projection entries => .obj [("projection", .arr (entries.map (·.toJson)))]

def Request.toJson (r : Request) : Json :=
  .obj [
    ("selection", r.selection.toJson),
    ("filter", Json.orNull (r.filter.map Filter.toJson)),
    ("order_by", .arr (r.orderBy.map (·.toJson))),
    ("modifiers", r.modifiers.toJson)]

/-! ## Plans -/

def NodeColumn.toJson (c : NodeColumn) : Json :=
  .obj [
    ("node", Json.ofNat c.node),
    ("member", .str c.member),
    ("column", .str c.column),
    ("alias", Json.orNull (c.label.map .str))]

def BoundFilter.toJson : BoundFilter → Json
  | .binary op left right =>
    .obj [("Binary", .obj [
      ("op", .str op.word), ("left", BoundFilter.toJson left),
      ("right", BoundFilter.toJson right)])]
  | .member column => .obj [("Column", column.toJson)]
  | .literal v => .obj [("Literal", v.toJson)]

def TableSource.toJson (source : TableSource) : Json :=
  .obj [
    ("node", Json.ofNat source.node),
    ("entity", .str source.entity),
    ("table", .str source.table)]

def Join.toJson (join : Join) : Json :=
  .obj [
    ("node", Json.ofNat join.node),
    ("table", .str join.table),
    ("node_column", .str join.nodeColumn),
    ("source", Json.ofNat join.source),
    ("source_column", .str join.sourceColumn),
    ("join_type", .str join.kind.label)]

def KeyRestriction.toJson (r : KeyRestriction) : Json :=
  .obj [("column", r.column.toJson), ("keys", .arr (r.keys.map (·.toJson)))]

def OrderTerm.toJson (term : OrderTerm) : Json :=
  .obj [("column", term.column.toJson), ("direction", .str term.direction.word)]

def Plan.toJson (p : Plan) : Json :=
  .obj [
    ("target", Json.ofNat p.target),
    ("target_key", p.targetKey.toJson),
    ("base", p.base.toJson),
    ("select", .arr (p.select.map (·.toJson))),
    ("joins", .arr (p.joins.map (·.toJson))),
    ("filter", Json.orNull (p.filter.map BoundFilter.toJson)),
    ("key_restriction", Json.orNull (p.keyRestriction.map (·.toJson))),
    ("order_by", .arr (p.orderBy.map (·.toJson))),
    ("modifiers", p.modifiers.toJson),
    ("inverted_nodes", .arr (p.invertedNodes.map Json.ofNat))]

def Strategy.toJson : Strategy → Json
  | .direct plan => .obj [("direct", plan.toJson)]
  | .twoPhase keys rows =>
    .obj [("two_phase", .obj [("keys", keys.toJson), ("rows", rows.toJson)])]

end EntityMap
