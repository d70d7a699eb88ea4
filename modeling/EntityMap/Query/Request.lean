import EntityMap.Query.Condition

/-!
# Requests

What is asked of one entity: a selection, a filter, an order and
modifiers. Paths start at the target of the request.
-/

namespace EntityMap

inductive SortDirection where
  | asc
  | desc
  deriving DecidableEq, Repr

namespace SortDirection

def sql : SortDirection → String
  | asc => "ASC"
  | desc => "DESC"

end SortDirection

/-- A member to order by. -/
structure Order where
  path : String
  direction : SortDirection := .asc
  deriving DecidableEq, Repr

/-- What collapses and limits the rows of a query. -/
structure Modifiers where
  distinct : Bool := false
  top : Option Nat := none
  skip : Option Nat := none
  take : Option Nat := none
  deriving DecidableEq, Repr

namespace Modifiers

/-- Whether some modifier limits or collapses rows. -/
def isLimiting (m : Modifiers) : Bool :=
  m.distinct || m.top.isSome || m.skip.isSome || m.take.isSome

/-- Whether a page is asked for. -/
def isPaged (m : Modifiers) : Bool :=
  m.skip.isSome || m.take.isSome

/-- How many rows are asked for at most. -/
def limit (m : Modifiers) : Option Nat :=
  m.top.or m.take

end Modifiers

/-- A member and the name under which it is answered. -/
structure Projection where
  path : String
  label : String
  deriving DecidableEq, Repr

/-- What a query answers. -/
inductive Selection where
  /-- The columns of the target, and those along each included path. -/
  | allColumns (includes : List String)
  /-- The given members. No member stands for all columns of the target. -/
  | projection (entries : List Projection)
  deriving DecidableEq, Repr

namespace Selection

/-- The included paths. -/
def includes : Selection → List String
  | allColumns paths => paths
  | projection _ => []

/-- The projected members. -/
def entries : Selection → List Projection
  | allColumns _ => []
  | projection entries => entries

end Selection

/-- A query on one target. -/
structure Request where
  selection : Selection := .allColumns []
  filter : Option Filter := none
  orderBy : List Order := []
  modifiers : Modifiers := {}
  deriving DecidableEq, Repr

namespace Request

/-- The included paths of a request. -/
def includes (r : Request) : List String :=
  r.selection.includes

/-- Includes one more path, instead of any projection. -/
def including (r : Request) (path : String) : Request :=
  { r with selection := .allColumns (r.includes ++ [path]) }

/-- Projects one more member, instead of all columns. -/
def projecting (r : Request) (path label : String) : Request :=
  { r with selection := .projection (r.selection.entries ++ [{ path, label }]) }

def filtered (r : Request) (filter : Filter) : Request :=
  { r with filter := some filter }

/-- Filters by the present filter and one more, joined by `connect`. -/
def filteredAlso (r : Request) (connect : Filter → Filter → Filter) (filter : Filter) : Request :=
  match r.filter with
  | some present => r.filtered (connect present filter)
  | none => r.filtered filter

def ordered (r : Request) (path : String) (direction : SortDirection) : Request :=
  { r with orderBy := r.orderBy ++ [{ path, direction }] }

def distinct (r : Request) : Request :=
  { r with modifiers := { r.modifiers with distinct := true } }

def top (r : Request) (n : Nat) : Request :=
  { r with modifiers := { r.modifiers with top := some n } }

def skip (r : Request) (n : Nat) : Request :=
  { r with modifiers := { r.modifiers with skip := some n } }

def take (r : Request) (n : Nat) : Request :=
  { r with modifiers := { r.modifiers with take := some n } }

end Request

end EntityMap
