import EntityMap.Catalog
import EntityMap.Document.Tagged
import EntityMap.Yaml.Reader

/-!
# Mapping definitions

A definition is what a mapping document declares. `Definition.read` reads
the YAML text, `check` tests what each entity can tell on its own, and
`toCatalog` does both kinds of checks and yields the catalog.
-/

namespace EntityMap

open Document

section Readers

variable {δ : Type} [HeldDocument δ]

/-- Reads the name of a storage type, or the enumeration behind `enum`. -/
def DataType.read? (d : δ) : Option DataType :=
  match choice? d with
  | some ("bool", payload) => unit? .bool payload
  | some ("int32", payload) => unit? .int32 payload
  | some ("int64", payload) => unit? .int64 payload
  | some ("float64", payload) => unit? .float64 payload
  | some ("text", payload) => unit? .text payload
  | some ("timestamp", payload) => unit? .timestamp payload
  | some ("uuid", payload) => unit? .uuid payload
  | some ("enum", some name) => (text? name).map .enumeration
  | _ => none

/-- How deep the fields of an adapter nest: 128 levels can be held, and six of them
are the mapping, its entities, the entity, its columns, the column and the
adapter. -/
def Adapter.heldDepth : Nat := 122

/-- Reads an adapter, named by the field `kind`. -/
def Adapter.read? (d : δ) : Option Adapter := do
  let (kind, held) ← Held.read? "kind" Adapter.heldDepth d
  match kind with
  | "bool_flag" =>
    let fields ← held.fields? ["true_value", "false_value"]
    some (.boolFlag (← fields.required? "true_value" Held.literalText?)
      (← fields.required? "false_value" Held.literalText?))
  | "scale" =>
    let fields ← held.fields? ["factor"]
    some (.scale (← fields.required? "factor" Held.literalInt?))
  | "upper_case" => if held.isBare then some .upperCase else none
  | _ => none

def Enumeration.read? (d : δ) : Option Enumeration := do
  let fields ← record? ["name", "variants"] d
  let name ← fields.required? "name" text?
  let variants ← fields.required? "variants" fields?
  let variants ← variants.mapM fun (variant, stored) => (int64? stored).map fun i => (variant, i)
  some ⟨name, Named.ofList variants⟩

def DefaultPolicy.read? (d : δ) : Option DefaultPolicy :=
  match choice? d with
  | some ("none", payload) => unit? .required payload
  | some ("generated", payload) => unit? .generated payload
  | some ("database", payload) => unit? .database payload
  | some ("literal", some value) => (literal? value).map .literal
  | _ => none

def MemberRef.readNode? (d : δ) : Option MemberRef :=
  (text? d).bind fun text => (MemberRef.read? text).toOption

def RelationshipKind.read? (d : δ) : Option RelationshipKind :=
  match choice? d with
  | some ("many_to_one", payload) => unit? .manyToOne payload
  | some ("one_to_many", payload) => unit? .oneToMany payload
  | _ => none

def Relationship.read? (d : δ) : Option Relationship := do
  let fields ← record? ["name", "kind", "foreign_key", "primary_key"] d
  some
    { name := ← fields.required? "name" text?
      kind := ← fields.required? "kind" RelationshipKind.read?
      foreignKey := ← fields.required? "foreign_key" MemberRef.readNode?
      primaryKey := ← fields.required? "primary_key" MemberRef.readNode? }

def Lookup.read? (d : δ) : Option Lookup := do
  let fields ← record? ["entity", "value_member"] d
  some ⟨← fields.required? "entity" text?, ← fields.required? "value_member" text?⟩

/-- Reads a column; without a storage name it is stored under its member's. -/
def Column.read? (d : δ) : Option Column := do
  let fields ← record? ["member", "column", "type", "nullable", "primary_key", "default", "adapter",
    "lookup", "selectable", "shadow"] d
  let member ← fields.required? "member" text?
  some
    { member
      column := (← fields.optional? "column" text?).getD member
      type := ← fields.required? "type" DataType.read?
      nullable := ← fields.default? "nullable" false bool?
      primaryKey := ← fields.default? "primary_key" false bool?
      default := ← fields.default? "default" .required DefaultPolicy.read?
      adapter := ← fields.optional? "adapter" Adapter.read?
      lookup := ← fields.optional? "lookup" Lookup.read?
      selectable := ← fields.default? "selectable" true bool?
      shadow := ← fields.default? "shadow" false bool? }

def Permissions.read? (d : δ) : Option Permissions := do
  let fields ← record? ["insert", "update", "delete"] d
  some
    { insert := ← fields.default? "insert" true bool?
      update := ← fields.default? "update" true bool?
      delete := ← fields.default? "delete" true bool? }

def Table.read? (d : δ) : Option Table := do
  let fields ← record? ["entity", "table", "permissions", "columns", "relationships"] d
  some
    { entity := ← fields.required? "entity" text?
      table := ← fields.required? "table" text?
      permissions := ← fields.default? "permissions" {} Permissions.read?
      columns := ← fields.required? "columns" (listOf? Column.read?)
      relationships := ← fields.default? "relationships" [] (listOf? Relationship.read?) }

end Readers

/-- What a mapping document declares. -/
structure Definition where
  enumerations : List Enumeration
  tables : List Table
  deriving Repr

namespace Definition

/-- Reads the text of a mapping. -/
def read (text : String) : Except CatalogError Definition :=
  let definition : Option Definition := do
    let fields ← record? ["enums", "entities"] (← Yaml.read? text)
    some ⟨← fields.default? "enums" [] (listOf? Enumeration.read?),
      ← fields.required? "entities" (listOf? Table.read?)⟩
  match definition with
  | some d => .ok d
  | none => .error .malformed

/-- The columns of an entity have distinct members, and none is a key that may
be null; `seen` are the members of earlier columns. -/
def checkColumns (entity : String) (seen : List String) : List Column → Except CatalogError Unit
  | [] => .ok ()
  | column :: rest =>
    if seen.contains column.member then
      .error (.invalid (.duplicateMember entity column.member))
    else if column.primaryKey && column.nullable then
      .error (.invalid (.nullableKey entity column.member))
    else checkColumns entity (column.member :: seen) rest

/-- The navigation members of an entity are distinct from each other and from
its mapped members. -/
def checkNavigations (entity : String) (seen : List String) :
    List Relationship → Except CatalogError Unit
  | [] => .ok ()
  | r :: rest =>
    if seen.contains r.name then .error (.invalid (.duplicateNavigation entity r.name))
    else checkNavigations entity (r.name :: seen) rest

def checkTable (t : Table) : Except CatalogError Unit := do
  checkColumns t.entity [] t.columns
  checkNavigations t.entity (t.columns.map (·.member)) t.relationships

/-- The rules that each entity keeps on its own. -/
def check (d : Definition) : Except CatalogError Unit :=
  if d.tables.isEmpty then .error (.invalid .noEntities) else d.tables.forM checkTable

/-- The catalog of a definition that keeps all rules. -/
def toCatalog (d : Definition) : Except CatalogError Catalog := do
  d.check
  Catalog.build d.tables d.enumerations

end Definition

end EntityMap
