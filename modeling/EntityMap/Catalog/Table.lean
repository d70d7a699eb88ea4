import EntityMap.Catalog.Enumeration
import EntityMap.Catalog.Error

/-!
# Tables

The mapping of one entity onto one table: its columns, the relationships
it can be left by, and the writes that are permitted. A relationship
joins the foreign key of one entity with the primary key of another, and
is walked from the declaring entity either way (`isInverseFrom`).
-/

namespace EntityMap

/-- A mapped member of an entity, written `Entity.Member`. -/
structure MemberRef where
  entity : String
  member : String
  deriving DecidableEq, Repr

namespace MemberRef

def text (ref : MemberRef) : String :=
  ref.entity ++ "." ++ ref.member

/-- Reads a reference: what stands before and behind the first dot, neither
empty. -/
def read? (text : String) : Except CatalogError MemberRef :=
  let cs := text.toList
  let entity := cs.takeWhile (· ≠ '.')
  let member := (cs.dropWhile (· ≠ '.')).drop 1
  if entity.isEmpty || member.isEmpty then .error (.invalidMemberRef text)
  else .ok ⟨String.ofList entity, String.ofList member⟩

end MemberRef

/-- Which side of a relationship declares it. -/
inductive RelationshipKind where
  /-- A reference: the declaring entity holds the foreign key. -/
  | manyToOne
  /-- A collection: the related entity holds the foreign key. -/
  | oneToMany
  deriving DecidableEq, Repr

/-- A foreign key and the primary key that it points to, reached through the
navigation member `name` of the declaring entity. -/
structure Relationship where
  name : String
  kind : RelationshipKind
  foreignKey : MemberRef
  primaryKey : MemberRef
  deriving DecidableEq, Repr

namespace Relationship

/-- Whether walking away from `entity` leads from the one row to the many: the
primary key lies on `entity`. Between rows of one entity the declared kind
decides. -/
def isInverseFrom (r : Relationship) (entity : String) : Bool :=
  if r.primaryKey.entity = r.foreignKey.entity then r.kind = .oneToMany
  else r.primaryKey.entity = entity

/-- The entity at the far end, seen from `entity`. -/
def target (r : Relationship) (entity : String) : String :=
  if r.isInverseFrom entity then r.foreignKey.entity else r.primaryKey.entity

end Relationship

/-- A column that is a foreign key into a small table, and stands for the
member `value` of that table's row. -/
structure Lookup where
  entity : String
  valueMember : String
  deriving DecidableEq, Repr

/-- What an insert writes where a record has no value. -/
inductive DefaultPolicy where
  /-- Nothing: a value is required unless the column is nullable. -/
  | required
  /-- Nothing: the store generates the value and returns it. -/
  | generated
  /-- Nothing: the store has a default of its own. -/
  | database
  /-- The literal. -/
  | literal (value : Value)
  deriving DecidableEq, Repr

/-- The mapping of one member onto one column. -/
structure Column where
  member : String
  column : String
  type : DataType
  nullable : Bool := false
  primaryKey : Bool := false
  default : DefaultPolicy := .required
  adapter : Option Adapter := none
  lookup : Option Lookup := none
  /-- Whether the column is among the columns of an entity that a query selects. -/
  selectable : Bool := true
  /-- Whether the column is stored but no member of a record in memory. -/
  shadow : Bool := false
  deriving DecidableEq, Repr

namespace Column

def isGenerated (c : Column) : Bool :=
  c.default = .generated

/-- The storage form of a value under the column's adapter. -/
def toStorage (c : Column) (v : Value) : Except ConversionError Value :=
  match c.adapter with
  | some adapter => adapter.toStorage v
  | none => .ok v

end Column

/-- The writes that are permitted on a table. -/
structure Permissions where
  insert : Bool := true
  update : Bool := true
  delete : Bool := true
  deriving DecidableEq, Repr

/-- The mapping of one entity onto one table. -/
structure Table where
  entity : String
  table : String
  columns : List Column
  relationships : List Relationship
  permissions : Permissions
  deriving DecidableEq, Repr

namespace Table

/-- The column of a member. -/
def column? (t : Table) (member : String) : Option Column :=
  t.columns.find? (·.member = member)

def column (t : Table) (member : String) : Except CatalogError Column :=
  match t.column? member with
  | some c => .ok c
  | none => .error (.unknownMember t.entity member)

/-- The relationship behind a navigation member. -/
def relationship? (t : Table) (name : String) : Option Relationship :=
  t.relationships.find? (·.name = name)

def primaryKeys (t : Table) : List Column :=
  t.columns.filter (·.primaryKey)

/-- The single key column, or why there is none. -/
def soleKey (t : Table) : Except KeyFault Column :=
  match t.primaryKeys with
  | [key] => .ok key
  | [] => .error .missing
  | _ => .error .composite

/-- The single key column that planning and writing need. -/
def key (t : Table) : Except CatalogError Column :=
  t.soleKey.mapError (.key t.entity)

/-- The columns that are lookups. -/
def lookupColumns (t : Table) : List (Column × Lookup) :=
  t.columns.filterMap fun c => c.lookup.map fun l => (c, l)

end Table

end EntityMap
