import EntityMap.Catalog.Table

/-!
# The mapping catalog

A catalog holds the tables and enumerations of a mapping and is complete
before anything is planned. `Catalog.build` accepts a mapping whose
references all resolve: enumerations are declared, lookups and
relationships name mapped members, and every relationship points to the
single primary key of an entity.
-/

namespace EntityMap

/-- The mapped entities, and the enumerations, later declarations first. -/
structure Catalog where
  tables : List Table
  enumerations : List Enumeration
  deriving Repr

namespace Catalog

def table? (c : Catalog) (entity : String) : Option Table :=
  c.tables.find? (·.entity = entity)

def table (c : Catalog) (entity : String) : Except CatalogError Table :=
  match c.table? entity with
  | some t => .ok t
  | none => .error (.unmappedEntity entity)

/-- The enumeration of a name; a later declaration hides an earlier one. -/
def enumeration? (c : Catalog) (name : String) : Option Enumeration :=
  c.enumerations.find? (·.name = name)

/-! ## What a catalog checks -/

/-- A column of an enumeration needs its declaration. -/
def checkType (c : Catalog) : DataType → Except CatalogError Unit
  | .enumeration name =>
    if (c.enumeration? name).isSome then .ok () else .error (.unknownEnumeration name)
  | _ => .ok ()

/-- A lookup needs a mapped entity with a single key and a value member that is
not the key. -/
def lookupFault? (c : Catalog) (lookup : Lookup) : Option LookupFault :=
  match c.table? lookup.entity with
  | none => some (.unmapped lookup.entity)
  | some target =>
    match target.soleKey with
    | .error fault => some (.key target.entity fault)
    | .ok _ =>
      match target.column? lookup.valueMember with
      | none => some (.noMember lookup.entity lookup.valueMember)
      | some value => if value.primaryKey then some .valueIsKey else none

def checkColumn (c : Catalog) (t : Table) (column : Column) : Except CatalogError Unit := do
  c.checkType column.type
  match column.lookup.bind c.lookupFault? with
  | some fault => throw (.invalidLookup t.entity column.member fault)
  | none => pure ()

/-- A relationship touches its declaring entity and joins mapped members; its
target is a single primary key, and its foreign key no part of a composite one. -/
def checkRelationship (c : Catalog) (t : Table) (r : Relationship) : Except CatalogError Unit := do
  if r.foreignKey.entity ≠ t.entity ∧ r.primaryKey.entity ≠ t.entity then
    throw (.invalid (.foreignRelationship t.entity r.name))
  let foreignTable ← c.table r.foreignKey.entity
  let foreignColumn ← foreignTable.column r.foreignKey.member
  let targetTable ← c.table r.primaryKey.entity
  let targetColumn ← targetTable.column r.primaryKey.member
  let key ← targetTable.key
  if key.member ≠ targetColumn.member then
    throw (.invalid (.targetNotKey t.entity r.name targetTable.entity))
  if foreignColumn.primaryKey ∧ 1 < foreignTable.primaryKeys.length then
    throw (.key foreignTable.entity .composite)

def checkTable (c : Catalog) (t : Table) : Except CatalogError Unit := do
  t.columns.forM (c.checkColumn t)
  t.relationships.forM (c.checkRelationship t)

/-- The first entity that an earlier table maps already. -/
def duplicate? (seen : List String) : List Table → Option String
  | [] => none
  | t :: rest =>
    if seen.contains t.entity then some t.entity else duplicate? (t.entity :: seen) rest

/-- The catalog of the given tables and enumerations, if every reference in
them resolves. -/
def build (tables : List Table) (enumerations : List Enumeration) :
    Except CatalogError Catalog := do
  let catalog : Catalog := ⟨tables, enumerations.reverse⟩
  match duplicate? [] tables with
  | some entity => throw (.duplicateEntity entity)
  | none => pure ()
  tables.forM catalog.checkTable
  return catalog

end Catalog

end EntityMap
