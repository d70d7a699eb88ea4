import EntityMap.Document
import EntityMap.Named

/-!
# Records

An entity in memory: the values of its members, and as far as they are to
be written the records it refers to and the collections it owns. An
empty collection says that there are no children any more, a reference
to nothing that there is no referenced row.
-/

namespace EntityMap

/-- An entity in memory. -/
inductive Record where
  | mk (entity : String) (values : Named Value) (references : List (String × Option Record))
    (collections : List (String × List Record))
  deriving Repr

namespace Record

def entity : Record → String
  | mk entity _ _ _ => entity

def values : Record → Named Value
  | mk _ values _ _ => values

/-- The referenced records, by the names of the navigation members. -/
def references : Record → Named (Option Record)
  | mk _ _ references _ => references

/-- The owned records, by the names of the navigation members. -/
def collections : Record → Named (List Record)
  | mk _ _ _ collections => collections

/-- The value of a member, null without one. -/
def valueOf (values : Named Value) (member : String) : Value :=
  (values.get? member).getD .null

open Document

/-- Reads a record that is nested no deeper than `depth`, with its values as
`readValue` reads them. -/
def readTo? (readValue : Json → Option Value) : Nat → Json → Option Record
  | 0, _ => none
  | depth + 1, j => do
    let fields ← record? ["entity", "values", "references", "collections"] j
    let named {α : Type} (read : Json → Option α) (j : Json) : Option (Named α) := do
      let entries ← (← fields? j).mapM fun (name, item) => (read item).map fun a => (name, a)
      return Named.ofList entries
    let reference (j : Json) : Option (Option Record) :=
      if j.isNull then some none else (readTo? readValue depth j).map some
    some (mk
      (← fields.required? "entity" text?)
      (← fields.default? "values" [] (named readValue))
      (← fields.default? "references" [] (named reference))
      (← fields.default? "collections" [] (named (listOf? (readTo? readValue depth)))))

/-- Reads a record, with its values as `readValue` reads them. -/
def read? (readValue : Json → Option Value) (j : Json) : Option Record :=
  readTo? readValue j.depth j

mutual

/-- Writes a record with all its fields, and its values as `ofValue` writes them. -/
def toJson (ofValue : Value → Json) : Record → Json
  | mk entity values references collections =>
    .obj [
      ("entity", .str entity),
      ("values", .obj (values.map fun (name, v) => (name, ofValue v))),
      ("references", .obj (referencesToJson ofValue references)),
      ("collections", .obj (collectionsToJson ofValue collections))]

def referencesToJson (ofValue : Value → Json) : List (String × Option Record) → List (String × Json)
  | [] => []
  | (name, none) :: rest => (name, .null) :: referencesToJson ofValue rest
  | (name, some r) :: rest => (name, r.toJson ofValue) :: referencesToJson ofValue rest

def collectionsToJson (ofValue : Value → Json) : List (String × List Record) → List (String × Json)
  | [] => []
  | (name, items) :: rest =>
    (name, .arr (itemsToJson ofValue items)) :: collectionsToJson ofValue rest

def itemsToJson (ofValue : Value → Json) : List Record → List Json
  | [] => []
  | r :: rest => r.toJson ofValue :: itemsToJson ofValue rest

end

end Record

end EntityMap
