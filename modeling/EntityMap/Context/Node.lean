import EntityMap.Catalog

/-!
# Nodes of a context

A node is one row source of a query: the root entity, an entity reached
by walking a relationship, or a small table behind a lookup column. Its
`link` says how it hangs on the node it was reached from.
-/

namespace EntityMap

/-- The name under which a child hangs on its origin. A navigation member and a
lookup column may have one name, so they are kept apart. -/
inductive ChildKey where
  | navigation (member : String)
  | lookup (member : String)
  deriving DecidableEq, Repr

namespace ChildKey

def member : ChildKey → String
  | navigation m => m
  | lookup m => m

/-- How a step is shown in a path. -/
def step : ChildKey → String
  | navigation m => m
  | lookup m => "[" ++ m ++ "]"

end ChildKey

/-- The way in which a link is walked. -/
inductive Traversal where
  /-- From the foreign key on the origin to a row. -/
  | forward
  /-- From the primary key on the origin to the rows that point to it. -/
  | inverse
  /-- From a lookup column on the origin to a row. -/
  | lookup
  deriving DecidableEq, Repr

/-- The two kinds of joins. -/
inductive JoinKind where
  | inner
  | left
  deriving DecidableEq, Repr, Inhabited

namespace JoinKind

def label : JoinKind → String
  | inner => "Inner"
  | left => "Left"

end JoinKind

/-- How a node hangs on its origin. -/
structure Link where
  origin : Nat
  key : ChildKey
  traversal : Traversal
  /-- The member of the origin in the join condition. -/
  originMember : String
  /-- The member of the node in the join condition. -/
  nodeMember : String
  /-- Whether the foreign key of the two may be null. -/
  nullable : Bool
  deriving DecidableEq, Repr

namespace Link

/-- Whether a row of the origin may have no row here, or several. -/
def isOpen (link : Link) : Bool :=
  link.traversal = .inverse || link.nullable

end Link

/-- A row source. -/
structure Node where
  /-- The place of the node in its context. -/
  index : Nat
  entity : String
  table : String
  /-- The number of links up to the root. -/
  level : Nat
  link : Option Link
  /-- `left` when some row of the root may have no row here. -/
  joinKind : JoinKind
  children : List (ChildKey × Nat)
  deriving DecidableEq, Repr, Inhabited

namespace Node

def origin? (n : Node) : Option Nat :=
  n.link.map (·.origin)

def isInverse (n : Node) : Bool :=
  n.link.any (·.traversal = .inverse)

def isLookup (n : Node) : Bool :=
  n.link.any (·.traversal = .lookup)

/-- The child under a name. -/
def child? (n : Node) (key : ChildKey) : Option Nat :=
  n.children.lookup key

def addChild (n : Node) (key : ChildKey) (index : Nat) : Node :=
  { n with children := n.children ++ [(key, index)] }

end Node

/-- The name of a node in statements. -/
def nodeAlias (index : Nat) : String :=
  "t" ++ toString index

/-- A column of a node, with the name under which a query answers it. -/
structure NodeColumn where
  node : Nat
  member : String
  column : String
  label : Option String := none
  deriving DecidableEq, Repr

namespace NodeColumn

def withLabel (c : NodeColumn) (name : String) : NodeColumn :=
  { c with label := some name }

/-- Whether two columns are one stored column. -/
def sameColumn (c d : NodeColumn) : Bool :=
  c.node = d.node && c.column = d.column

/-- The column as messages show it. -/
def place (c : NodeColumn) : String :=
  nodeAlias c.node ++ "." ++ c.column

def display (c : NodeColumn) : String :=
  match c.label with
  | some name => c.place ++ " AS " ++ name
  | none => c.place

end NodeColumn

end EntityMap
