import EntityMap.Write.Cascade
import EntityMap.Write.Together

/-!
# Write cascades: records

Saves a record with the records around it: first the records that it
refers to, whose keys become its foreign keys, then its own row, and then
its collections beside each other, whose items take its key as their
foreign key. When the row was there before, the stored children that are
no longer in a collection are released.

A save answers the record as it leaves it, also when it fails: keys and
foreign keys have been filled in as far as it came.
-/

namespace EntityMap

/-- What a record takes over from the record that it is saved with. -/
structure Placement where
  entity : String
  /-- The foreign key of a collection's item, and the key of its parent. -/
  foreignKey : Option (Column × Value) := none

namespace Placement

/-- The values of a record with its foreign key, if records have that member. -/
def place (p : Placement) (values : Named Value) : Named Value :=
  match p.foreignKey with
  | some (c, key) => if c.shadow then values else values.insert c.member key
  | none => values

/-- The foreign key, if records do not have that member. -/
def aside (p : Placement) : Named Value :=
  match p.foreignKey with
  | some (c, key) => if c.shadow then [(c.member, key)] else []
  | none => []

end Placement

namespace Cascade

open Saving

variable {σ : Type} [Executor σ]

/-- The entity of a record that is saved as one of `entity`: unless it names no
entity, the two must be one. -/
def adopt (t : Table) (name : String) (expected : NavigationRole) (entity : String) (r : Record) :
    Except WriteError Placement :=
  if r.entity.isEmpty || r.entity = entity then .ok { entity }
  else .error (.invalidNavigation t.entity name expected)

/-- The reference behind a navigation member, and its foreign key, which has to
be a plain member of the record. -/
def referenceOf (t : Table) (name : String) : Except WriteError (Relationship × Column) := do
  let r ← t.navigation name false
  let foreignKey ← (t.column r.foreignKey.member).mapError .catalog
  if foreignKey.shadow || foreignKey.primaryKey then
    throw (.foreignKeyNotSettable t.entity foreignKey.member)
  return (r, foreignKey)

/-- The collection behind a navigation member. -/
def collectionOf (rules : CascadeRules) (t : Table) (name : String) :
    Except WriteError Ownership := do
  rules.ownership (← t.navigation name true)

/-- Releases the stored children of a row that were not kept. -/
def releaseOrphans (rules : CascadeRules) (o : Ownership) (parentKey : Value) (kept : List Value) :
    Writing σ Unit := do
  let stored ← selectKeys rules o.child.entity (.compare o.foreignKey.member .eq parentKey)
  (stored.filter fun key => !kept.contains key).forM (release o (deleteRow rules rules.depth))

mutual

/-- Saves a record, and answers its key and the record as it is left. -/
def saveRecord (rules : CascadeRules) (p : Placement) :
    Record → Saving σ (Except WriteError Value × Record)
  | .mk _ values references collections => do
    let values := p.place values
    match rules.keyedTable p.entity with
    | .error e => return (.error e, .mk p.entity values references collections)
    | .ok (table, keyColumn) =>
      let (referred, values, references) ← saveReferences rules table values references
      match referred with
      | .error e => return (.error e, .mk p.entity values references collections)
      | .ok () =>
        match ← (writeRow rules table keyColumn values p.aside).run with
        | .error e => return (.error e, .mk p.entity values references collections)
        | .ok (key, isNew) =>
          let values := values.insert keyColumn.member key
          let (owned, collections) ← together rules.maxParallelCollections
            (collectionSaves rules table values isNew collections)
          return (owned.map fun () => key, .mk p.entity values references collections)

/-- Saves the records that a record refers to, and takes over their keys. -/
def saveReferences (rules : CascadeRules) (t : Table) (values : Named Value) :
    List (String × Option Record) →
      Saving σ (Except WriteError Unit × Named Value × List (String × Option Record))
  | [] => return (.ok (), values, [])
  | (name, none) :: rest => do
    match referenceOf t name with
    | .error e => return (.error e, values, (name, none) :: rest)
    | .ok (_, foreignKey) =>
      let values := values.insert foreignKey.member .null
      let (saved, values, rest) ← saveReferences rules t values rest
      return (saved, values, (name, none) :: rest)
  | (name, some r) :: rest => do
    match referenceOf t name with
    | .error e => return (.error e, values, (name, some r) :: rest)
    | .ok (relationship, foreignKey) =>
      match adopt t name .referenceTarget relationship.primaryKey.entity r with
      | .error e => return (.error e, values, (name, some r) :: rest)
      | .ok placement =>
        match ← saveRecord rules placement r with
        | (.error e, r) => return (.error e, values, (name, some r) :: rest)
        | (.ok key, r) =>
          let values := values.insert foreignKey.member key
          let (saved, values, rest) ← saveReferences rules t values rest
          return (saved, values, (name, some r) :: rest)

/-- The saves of the collections of a record, none of which has begun. -/
def collectionSaves (rules : CascadeRules) (t : Table) (values : Named Value) (isNew : Bool) :
    List (String × List Record) → List (Strand σ (String × List Record))
  | [] => []
  | collection :: rest =>
    .waiting collection (saveCollection rules t values isNew collection) ::
      collectionSaves rules t values isNew rest

/-- Saves a collection of a record. The row of a new record has no children that could be
released. -/
def saveCollection (rules : CascadeRules) (t : Table) (values : Named Value) (isNew : Bool) :
    String × List Record → Saving σ (Except WriteError Unit × String × List Record)
  | (name, items) => do
    match collectionOf rules t name with
    | .error e => return (.error e, name, items)
    | .ok o =>
      let parentKey := Record.valueOf values o.parentMember
      match ← saveItems rules t name o parentKey items with
      | (.error e, items) => return (.error e, name, items)
      | (.ok kept, items) =>
        let released ←
          if isNew then pure (.ok ()) else (releaseOrphans rules o parentKey kept).run
        return (released, name, items)

/-- Saves the items of a collection in their order, and answers their keys. -/
def saveItems (rules : CascadeRules) (t : Table) (name : String) (o : Ownership)
    (parentKey : Value) :
    List Record → Saving σ (Except WriteError (List Value) × List Record)
  | [] => return (.ok [], [])
  | item :: rest => do
    match adopt t name .collectionItem o.child.entity item with
    | .error e => return (.error e, item :: rest)
    | .ok placement =>
      let placement := { placement with foreignKey := some (o.foreignKey, parentKey) }
      match ← saveRecord rules placement item with
      | (.error e, item) => return (.error e, item :: rest)
      | (.ok key, item) =>
        let (kept, rest) ← saveItems rules t name o parentKey rest
        return (kept.map (key :: ·), item :: rest)

end

/-- Saves the collections of a record, no more at a time than the rules allow. -/
def saveCollections (rules : CascadeRules) (t : Table) (values : Named Value) (isNew : Bool)
    (collections : List (String × List Record)) :
    Saving σ (Except WriteError Unit × List (String × List Record)) :=
  together rules.maxParallelCollections (collectionSaves rules t values isNew collections)

/-- Saves a record with everything that is to be written with it. -/
def save (rules : CascadeRules) (r : Record) :
    Saving σ (Except WriteError Value × Record) :=
  saveRecord rules { entity := r.entity } r

end Cascade

end EntityMap
