import EntityMap.Context.Node
import EntityMap.Path

/-!
# The context of a query

A context holds the part of the relationship graph that one call
touches, as an array of nodes in the order in which they were reached. A
link always leads to a smaller index, so every walk towards the root
ends. This file looks at contexts; `Context.Growth` makes them.
-/

namespace EntityMap

/-- What can go wrong on the way along a path. -/
inductive ContextError where
  | catalog (error : CatalogError)
  | unknownNavigation (entity member path : String)
  | invalidPath (path : String)
  /-- The member is a navigation, or a lookup without its node. -/
  | unresolvableMember (entity member : String)
  | nodeOutOfRange (index : Nat)
  deriving DecidableEq, Repr

namespace ContextError

def message : ContextError → String
  | catalog error => error.message
  | unknownNavigation entity member path =>
    "Entity `" ++ entity ++ "` has no navigation member `" ++ member ++ "` (in path `" ++ path ++
      "`)"
  | invalidPath path => "Invalid navigation path `" ++ path ++ "`"
  | unresolvableMember entity member =>
    "Member `" ++ entity ++ "." ++ member ++ "` cannot be resolved to a column"
  | nodeOutOfRange index => "Context node " ++ toString index ++ " does not exist"

end ContextError

/-- The nodes that a call has reached, the root first. -/
structure Context where
  catalog : Catalog
  nodes : Array Node
  deriving Repr

namespace Context

/-- The index of the root. -/
def root : Nat := 0

def node (ctx : Context) (i : Nat) : Except ContextError Node :=
  match ctx.nodes[i]? with
  | some n => .ok n
  | none => .error (.nodeOutOfRange i)

/-- The table of an entity. -/
def entityTable (ctx : Context) (entity : String) : Except ContextError Table :=
  (ctx.catalog.table entity).mapError .catalog

/-- The table of a node. -/
def table (ctx : Context) (i : Nat) : Except ContextError Table := do
  ctx.entityTable (← ctx.node i).entity

/-- The mapping of a member of a node. -/
def column (ctx : Context) (i : Nat) (member : String) : Except ContextError Column := do
  ((← ctx.table i).column member).mapError .catalog

/-- The single key column of a node. -/
def key (ctx : Context) (i : Nat) : Except ContextError Column := do
  ((← ctx.table i).key).mapError .catalog

def link? (ctx : Context) (i : Nat) : Option Link :=
  (ctx.nodes[i]?).bind (·.link)

def origin? (ctx : Context) (i : Nat) : Option Nat :=
  (ctx.link? i).map (·.origin)

def isInverse (ctx : Context) (i : Nat) : Bool :=
  (ctx.nodes[i]?).any (·.isInverse)

def level (ctx : Context) (i : Nat) : Nat :=
  ((ctx.nodes[i]?).map (·.level)).getD 0

/-! ## Towards the root -/

/-- The nodes above a node, nearest first. -/
def ancestors (ctx : Context) (i : Nat) : List Nat :=
  match ctx.origin? i with
  | some o => if o < i then o :: ctx.ancestors o else []
  | none => []
termination_by i

/-- The nodes above a node up to `stop`, nearest first; up to the root when
`stop` is not among them. -/
def ancestorsUntil (ctx : Context) (i stop : Nat) : List Nat :=
  (ctx.ancestors i).takeWhile (· ≠ stop)

/-- Whether a node is `i` or above it. -/
def isAncestorOrSelf (ctx : Context) (ancestor i : Nat) : Bool :=
  ancestor = i || (ctx.ancestors i).contains ancestor

/-- The steps from the root to a node, lookups in brackets. -/
def pathOf (ctx : Context) (i : Nat) : String :=
  Path.join ((i :: ctx.ancestors i).filterMap fun j => (ctx.link? j).map (·.key.step)).reverse

/-! ## Away from the root -/

/-- The child of a node under a name. -/
def child? (ctx : Context) (i : Nat) (key : ChildKey) : Option Nat :=
  (ctx.nodes[i]?).bind (·.child? key)

/-- The nodes that a walk over navigation members reaches, in order. -/
def walk? (ctx : Context) (i : Nat) : List String → Option (List Nat)
  | [] => some []
  | member :: rest => do
    let next ← ctx.child? i (.navigation member)
    return next :: (← ctx.walk? next rest)

/-- The parts of a path to a node. The empty path has none. -/
def pathSegments (path : String) : Except ContextError (List String) :=
  if path.isEmpty then .ok []
  else if Path.hasBlank path then .error (.invalidPath path)
  else .ok (Path.segments path)

/-- The nodes along a path, without its start, if all of them are there. -/
def nodesInPath? (ctx : Context) (start : Nat) (path : String) : Option (List Nat) := do
  let segments ← (pathSegments path).toOption
  let _ ← ctx.nodes[start]?
  ctx.walk? start segments

/-- The node at the end of a path, if it is there. -/
def find? (ctx : Context) (start : Nat) (path : String) : Option Nat :=
  (ctx.nodesInPath? start path).map fun reached => reached.getLast?.getD start

/-! ## The column behind a member -/

/-- The place where the key of a node is stored above it: the foreign key by
which the node was joined, unless the node holds the foreign key itself. -/
def keyOnOrigin? (ctx : Context) (i : Nat) (member : String) : Option Link :=
  (ctx.link? i).filter fun link => link.traversal ≠ .inverse && link.nodeMember = member

/-- The stored column of a member. A lookup column stands for the value column
of its lookup node. A primary key below `boundary` that was joined by a
foreign key is read from that foreign key; on `boundary` itself, and where
the node holds the foreign key, from its own table. -/
def resolveMember (ctx : Context) (i : Nat) (member : String) (boundary : Nat) :
    Except ContextError NodeColumn := do
  let node ← ctx.node i
  let table ← ctx.entityTable node.entity
  match table.column? member with
  | none =>
    if (table.relationship? member).isSome then throw (.unresolvableMember node.entity member)
    else throw (.catalog (.unknownMember node.entity member))
  | some column =>
    match column.lookup with
    | some lookup =>
      match node.child? (.lookup member) with
      | none => throw (.unresolvableMember node.entity member)
      | some lookupNode =>
        let value ← ((← ctx.entityTable lookup.entity).column lookup.valueMember).mapError .catalog
        return { node := lookupNode, member := value.member, column := value.column }
    | none =>
      match if column.primaryKey && i ≠ boundary then ctx.keyOnOrigin? i member else none with
      | some link =>
        let foreignKey ← ctx.column link.origin link.originMember
        return { node := link.origin, member := foreignKey.member, column := foreignKey.column }
      | none => return { node := i, member := column.member, column := column.column }

/-! ## Display -/

/-- One line per node, indented by its level. -/
def display (ctx : Context) : String :=
  let line := fun (node : Node) =>
    let path := ctx.pathOf node.index
    String.ofList (List.replicate (2 * node.level) ' ') ++ nodeAlias node.index ++ " " ++
      node.entity ++ " " ++ (if path.isEmpty then "<root>" else path) ++ " " ++
      node.joinKind.label ++ (if node.isInverse then " inverse" else "") ++ "\n"
  String.join (ctx.nodes.toList.map line)

end Context

end EntityMap
