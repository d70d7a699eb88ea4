import EntityMap.Execution.Query
import EntityMap.Write.Record
import EntityMap.Write.Steps

/-!
# Write cascades: rows

What a cascade does to single rows: it inserts, changes and deletes them,
with their values brought into storage form. A deletion releases the rows
that point to the deleted one first: such a row is detached when its
foreign key may be null, and deleted in turn when not.
-/

namespace EntityMap

/-- What a cascade works by. -/
structure CascadeRules where
  catalog : Catalog
  /-- Whether a record with a key is inserted, unless this cascade has inserted
  that key already. -/
  identityInsert : Bool
  /-- How many collections of a record may be saved at once. -/
  maxParallelCollections : Nat := 1
  /-- How many deletions may be nested in each other. -/
  depth : Nat

namespace Table

/-- Refuses an operation that the mapping does not permit. -/
def permit (t : Table) (kind : OperationKind) : Except WriteError Unit :=
  let isPermitted := match kind with
    | .insert => t.permissions.insert
    | .update | .patch | .detach => t.permissions.update
    | .delete => t.permissions.delete
  if isPermitted then .ok () else .error (.notPermitted t.entity kind)

/-- A stored value that is null needs a column that may be. -/
def requireValue (t : Table) (c : Column) (v : Value) : Except WriteError Unit :=
  if v.isNull && !c.nullable then .error (.missingRequiredValue t.entity c.member) else .ok ()

/-- The relationship behind a navigation member of a record, which leads to a
collection or to a reference, as is expected. -/
def navigation (t : Table) (name : String) (isCollection : Bool) :
    Except WriteError Relationship :=
  match t.relationship? name with
  | none => .error (.catalog (.unknownRelationship t.entity name))
  | some r =>
    if r.isInverseFrom t.entity = isCollection then .ok r
    else
      .error (.invalidNavigation t.entity name (if isCollection then .collection else .reference))

end Table

/-- How child rows hang on a row of their parent. -/
structure Ownership where
  child : Table
  childKey : Column
  /-- The column of the child that holds the key of the parent. -/
  foreignKey : Column
  /-- The key member of the parent. -/
  parentMember : String

namespace CascadeRules

/-- The table of an entity, and its single key column. -/
def keyedTable (rules : CascadeRules) (entity : String) : Except WriteError (Table × Column) := do
  let table ← (rules.catalog.table entity).mapError .catalog
  return (table, ← table.key.mapError .catalog)

/-- How the rows at the far end of a relationship hang on the row at this end. -/
def ownership (rules : CascadeRules) (r : Relationship) : Except WriteError Ownership := do
  let (child, childKey) ← rules.keyedTable r.foreignKey.entity
  let foreignKey ← (child.column r.foreignKey.member).mapError .catalog
  return { child, childKey, foreignKey, parentMember := r.primaryKey.member }

/-- The statement that answers the keys of the rows which pass a filter. -/
def keyQuery (rules : CascadeRules) (entity : String) (filter : Filter) :
    Except WriteError Statement := do
  let (_, key) ← rules.keyedTable entity
  let request := (({} : Request).projecting key.member keyLabel).filtered filter
  let ctx ← (Context.ofEntity rules.catalog entity).mapError .context
  let plan ← ((request.plan Context.root .outer).run ctx).1.mapError .plan
  (plan.statement .limitOffset).mapError .statement

/-- The storage form of a value in a column that is no lookup: by the
enumeration of its type, or else by its adapter, or else by its type. -/
def convert (rules : CascadeRules) (t : Table) (c : Column) (v : Value) : Except WriteError Value :=
  match c.type with
  | .enumeration name =>
    match rules.catalog.enumeration? name with
    | some enumeration => (enumeration.toStorage v).mapError (.invalidValue t.entity c.member)
    | none => .error (.catalog (.unknownEnumeration name))
  | type =>
    match c.adapter with
    | some adapter => (adapter.toStorage v).mapError (.invalidValue t.entity c.member)
    | none =>
      match v.coerce? type with
      | some stored => .ok stored
      | none => .error (.valueType t.entity c.member v type)

end CascadeRules

namespace Cascade

variable {σ : Type} [Executor σ]

/-! ## Statements -/

/-- The keys of the rows which pass a filter. -/
def selectKeys (rules : CascadeRules) (entity : String) (filter : Filter) :
    Writing σ (List Value) := do
  let statement ← Writing.ofExcept (rules.keyQuery entity filter)
  let records ← Writing.inWork (UnitOfWork.query statement)
  return (records.distinctValues? keyLabel).getD []

/-- Runs an operation on the row of a key. When no row is affected, there is no
such row. -/
def executeKeyed (t : Table) (op : Operation) (key : Value) : Writing σ Unit := do
  let statement ← Writing.ofExcept (op.statement.mapError .statement)
  let affected ← Writing.inWork (UnitOfWork.execute statement)
  if affected = 0 then throw (.rowNotFound t.entity key)

/-! ## Storage forms -/

/-- The key of the row that a lookup column stands for by its label. -/
def resolveLookup (rules : CascadeRules) (t : Table) (c : Column) (lookup : Lookup)
    (label : Value) : Writing σ Value := do
  let keys ← selectKeys rules lookup.entity (.compare lookup.valueMember .eq label)
  match keys with
  | key :: _ => return key
  | [] => throw (.unknownLookupValue t.entity c.member lookup.entity label)

/-- The storage form of a value in a column. -/
def storageValue (rules : CascadeRules) (t : Table) (c : Column) (v : Value) :
    Writing σ Value :=
  if v.isNull then return .null
  else
    match c.lookup with
    | some lookup => resolveLookup rules t c lookup v
    | none => Writing.ofExcept (rules.convert t c v)

/-- The assignments that the columns of a list make, in their order. -/
def collectAssignments (assign : Column → Writing σ (Option Assignment)) :
    List Column → Writing σ (List Assignment)
  | [] => return []
  | c :: rest => do
    let own ← assign c
    return own.toList ++ (← collectAssignments assign rest)

/-- The value of a member of a record, or else one that comes with it. Records
have no values for shadow columns. -/
def memberValue? (values aside : Named Value) (c : Column) : Option Value :=
  if c.shadow then aside.get? c.member
  else (values.get? c.member).or (aside.get? c.member)

/-! ## Deletion -/

/-- Releases a child row: detaches it, or deletes it by `delete`. -/
def release (o : Ownership) (delete : String → Value → Writing σ Unit) (key : Value) :
    Writing σ Unit :=
  if !o.foreignKey.nullable then delete o.child.entity key
  else do
    Writing.ofExcept (o.child.permit .detach)
    executeKeyed o.child
      { kind := .detach, entity := o.child.entity, table := o.child.table
        assignments := [⟨o.foreignKey.column, .null⟩]
        key := some ⟨o.childKey.column, key⟩ } key

/-- Releases the rows that point to a row over one relationship. A row that
points to itself goes with itself. -/
def releaseChildren (rules : CascadeRules) (delete : String → Value → Writing σ Unit) (t : Table)
    (key : Value) (r : Relationship) : Writing σ Unit := do
  let o ← Writing.ofExcept (rules.ownership r)
  let children ← selectKeys rules o.child.entity (.compare o.foreignKey.member .eq key)
  (children.filter fun child => !(o.child.entity = t.entity && child = key)).forM
    (release o delete)

/-- Deletes a row, after the rows that point to it are released. -/
def deleteRow (rules : CascadeRules) : Nat → String → Value → Writing σ Unit
  | 0, entity, key => throw (.nestedTooDeep entity key)
  | depth + 1, entity, key => do
    let (table, keyColumn) ← Writing.ofExcept (rules.keyedTable entity)
    Writing.ofExcept (table.permit .delete)
    if key.isUnset keyColumn.type then throw (.missingKeyValue table.entity .delete)
    (table.relationships.filter (·.isInverseFrom table.entity)).forM
      (releaseChildren rules (deleteRow rules depth) table key)
    executeKeyed table
      { kind := .delete, entity := table.entity, table := table.table
        key := some ⟨keyColumn.column, key⟩ } key

/-- Deletes the row of a record. -/
def delete (rules : CascadeRules) (r : Record) : Writing σ Unit := do
  let (_, keyColumn) ← Writing.ofExcept (rules.keyedTable r.entity)
  deleteRow rules rules.depth r.entity (Record.valueOf r.values keyColumn.member)

/-! ## Changes -/

/-- Assigns a changed member, which must be neither key nor shadow. -/
def patchAssignment (rules : CascadeRules) (t : Table) (member : String) (v : Value) :
    Writing σ Assignment := do
  match (t.column? member).filter fun c => !c.primaryKey && !c.shadow with
  | none => throw (.unknownMember t.entity member)
  | some c =>
    let stored ← storageValue rules t c v
    Writing.ofExcept (t.requireValue c stored)
    return ⟨c.column, stored⟩

/-- Changes the given members of a row, and no others. -/
def patch (rules : CascadeRules) (entity : String) (key : Value) (changes : Named Value) :
    Writing σ Unit := do
  let (table, keyColumn) ← Writing.ofExcept (rules.keyedTable entity)
  Writing.ofExcept (table.permit .patch)
  if key.isUnset keyColumn.type then throw (.missingKeyValue table.entity .patch)
  if !changes.isEmpty then
    let assignments ← changes.mapM fun (member, v) => patchAssignment rules table member v
    executeKeyed table
      { kind := .patch, entity := table.entity, table := table.table, assignments
        key := some ⟨keyColumn.column, key⟩ } key

/-- Assigns the value of a member, if the record has one. -/
def updateAssignment (rules : CascadeRules) (t : Table) (values aside : Named Value) (c : Column) :
    Writing σ (Option Assignment) :=
  match memberValue? values aside c with
  | none => return none
  | some v => do
    let stored ← storageValue rules t c v
    Writing.ofExcept (t.requireValue c stored)
    return some ⟨c.column, stored⟩

/-- Changes the row of a record. When there is nothing to change, the row must
still be there. -/
def updateRow (rules : CascadeRules) (t : Table) (keyColumn : Column) (key : Value)
    (values aside : Named Value) : Writing σ Value := do
  Writing.ofExcept (t.permit .update)
  let columns := t.columns.filter fun c => !c.primaryKey
  let assignments ← collectAssignments (updateAssignment rules t values aside) columns
  if assignments.isEmpty then
    let found ← selectKeys rules t.entity (.compare keyColumn.member .eq key)
    if found.isEmpty then throw (.rowNotFound t.entity key)
  else
    executeKeyed t
      { kind := .update, entity := t.entity, table := t.table, assignments
        key := some ⟨keyColumn.column, key⟩ } key
  return key

/-! ## Inserts -/

/-- Assigns the value of a member, or what its default policy says. -/
def insertAssignment (rules : CascadeRules) (t : Table) (values aside : Named Value) (c : Column) :
    Writing σ (Option Assignment) :=
  match (memberValue? values aside c).filter fun v => !v.isNull with
  | some v => do return some ⟨c.column, ← storageValue rules t c v⟩
  | none =>
    match c.default with
    | .generated | .database => return none
    | .literal v => return some ⟨c.column, v⟩
    | .required =>
      if c.nullable then return some ⟨c.column, .null⟩
      else throw (.missingRequiredValue t.entity c.member)

/-- Runs an insert that answers a generated key. -/
def executeGenerating (t : Table) (keyColumn : Column) (s : Statement) : Writing σ Value := do
  let generated ← Writing.inWork (UnitOfWork.scalar s)
  if generated.isNull then throw (.missingGeneratedKey t.entity)
  return (generated.coerce? keyColumn.type).getD generated

/-- Inserts the row of a record. A key that is unset must be one that the store
generates. -/
def insertRow (rules : CascadeRules) (t : Table) (keyColumn : Column) (key : Value)
    (values aside : Named Value) : Writing σ Value := do
  Writing.ofExcept (t.permit .insert)
  let generates := key.isUnset keyColumn.type
  if generates && !keyColumn.isGenerated then throw (.missingKeyValue t.entity .insert)
  let columns := t.columns.filter fun c => !(generates && c.member = keyColumn.member)
  let assignments ← collectAssignments (insertAssignment rules t values aside) columns
  let op : Operation :=
    { kind := .insert, entity := t.entity, table := t.table, assignments
      returning := if generates then some keyColumn.column else none }
  let statement ← Writing.ofExcept (op.statement.mapError .statement)
  let key ←
    if generates then executeGenerating t keyColumn statement
    else do
      let _ ← Writing.inWork (UnitOfWork.execute statement)
      pure key
  modify fun c => { c with inserted := (t.entity, key) :: c.inserted }
  return key

/-- Whether a record is inserted: its key is unset, or keys are inserted and
this one has not been. -/
def routesToInsert (rules : CascadeRules) (inserted : List (String × Value)) (t : Table)
    (keyColumn : Column) (key : Value) : Bool :=
  key.isUnset keyColumn.type || (rules.identityInsert && !inserted.contains (t.entity, key))

/-- Writes the row of a record, and answers its key and whether it is a new row. -/
def writeRow (rules : CascadeRules) (t : Table) (keyColumn : Column) (values aside : Named Value) :
    Writing σ (Value × Bool) := do
  let key := Record.valueOf values keyColumn.member
  if routesToInsert rules (← get).inserted t keyColumn key then
    return (← insertRow rules t keyColumn key values aside, true)
  else return (← updateRow rules t keyColumn key values aside, false)

end Cascade

end EntityMap
