import EntityMap.Json.Raw
import EntityMap.Yaml

/-!
# Reading records from documents

JSON and YAML documents are read alike, through the class `Document`. A
record is written as an object, whose unknown fields are passed over and
whose known fields occur at most once, in JSON also as a list of its
fields in their order. A choice is written as its name, or as an object
of one field, the name in front of what the choice carries.
-/

namespace EntityMap

/-- How the nodes of a document notation are looked at. -/
class Document (δ : Type) where
  /-- The text of a node where a text is asked for. -/
  text? : δ → Option String
  /-- The value of a scalar where any literal may stand. -/
  literal? : δ → Option Value
  /-- The truth value of a node. -/
  bool? : δ → Option Bool
  /-- The integer of a node. -/
  integer? : δ → Option Int
  /-- The count of a node: an integer of 64 bits, written without a minus sign. -/
  natural? : δ → Option Nat
  /-- Whether a node in an optional place says that there is nothing. -/
  isNothing : δ → Bool
  /-- Whether a node may stand behind the name of a choice that carries nothing. -/
  isUnit : δ → Bool
  /-- The items of a list. -/
  items? : δ → Option (List δ)
  /-- The fields of an object, by their names. -/
  fields? : δ → Option (List (String × δ))
  /-- The fields of a record that is written as a list. -/
  tuple? : δ → Option (List δ)

namespace Json

/-- The value of a scalar; integers above the signed 64-bit range become floats. -/
def literal? : Json → Option Value
  | null => some .null
  | bool b => some (.bool b)
  | int i =>
    match Word.signed? i with
    | some word => some (.int word)
    | none => some (.float (Binary64.ofInt i))
  | float x => some (.float x)
  | str s => some (.text s)
  | arr _ => none
  | obj _ => none

def text? : Json → Option String
  | str s => some s
  | _ => none

def bool? : Json → Option Bool
  | bool b => some b
  | _ => none

def integer? : Json → Option Int
  | int i => some i
  | _ => none

def natural? (j : Json) : Option Nat :=
  j.integer?.bind Word.unsigned?

def isNull : Json → Bool
  | null => true
  | _ => false

def items? : Json → Option (List Json)
  | arr items => some items
  | _ => none

def fields? : Json → Option (List (String × Json))
  | obj fields => some fields
  | _ => none

instance : Document Json where
  text? := text?
  literal? := literal?
  bool? := bool?
  integer? := integer?
  natural? := natural?
  isNothing := isNull
  isUnit := isNull
  items? := items?
  fields? := fields?
  tuple? := items?

instance : Document Raw where
  text? raw := raw.scalar?.bind text?
  literal? raw := raw.scalar?.bind literal?
  bool? raw := raw.scalar?.bind bool?
  integer? raw := raw.scalar?.bind integer?
  natural? raw := raw.scalar?.bind natural?
  isNothing raw := raw.scalar?.any isNull
  isUnit raw := raw.scalar?.any isNull
  items? := Raw.items?
  fields? := Raw.fields?
  tuple? := Raw.items?

end Json

namespace Yaml

def text? : Yaml → Option String
  | plain text => some text
  | quoted text => some text
  | _ => none

def bool? : Yaml → Option Bool
  | plain text => boolText? text
  | _ => none

def integer? : Yaml → Option Int
  | plain text => integerText? text
  | _ => none

def natural? : Yaml → Option Nat
  | plain text =>
    if text.toList.head? = some '-' then none else (integerText? text).bind Word.unsigned?
  | _ => none

def isNull : Yaml → Bool
  | plain text => isNullText text
  | _ => false

/-- The items of a sequence, none where nothing is written. -/
def items? : Yaml → Option (List Yaml)
  | seq items => some items
  | plain "" => some []
  | _ => none

/-- The entries of a mapping whose keys are scalars, none where nothing is
written. -/
def fields? : Yaml → Option (List (String × Yaml))
  | map entries => entries.mapM fun (key, value) => key.text?.map fun name => (name, value)
  | plain "" => some []
  | _ => none

instance : Document Yaml where
  text? := text?
  literal? := literal?
  bool? := bool?
  integer? := integer?
  natural? := natural?
  isNothing := isNull
  isUnit := fun _ => false
  items? := items?
  fields? := fields?
  tuple? := fun _ => none

end Yaml

/-- The fields of a record as they are written: by name, or in a list. -/
structure Fields (δ : Type) where
  entries : List (String × δ)
  isList : Bool

namespace Document

variable {δ : Type} [Document δ]

/-- Reads a list item by item. -/
def listOf? {α : Type} (read : δ → Option α) (d : δ) : Option (List α) := do
  (← items? d).mapM read

/-- Looks at a node as a record with the named fields. -/
def record? (names : List String) (d : δ) : Option (Fields δ) :=
  match fields? d with
  | some entries =>
    if names.all fun name => entries.countP (·.1 = name) ≤ 1 then some ⟨entries, false⟩ else none
  | none =>
    match tuple? d with
    | some items => if items.length ≤ names.length then some ⟨names.zip items, true⟩ else none
    | none => none

/-- Looks at a node as a choice: its name, and what stands behind it. -/
def choice? (d : δ) : Option (String × Option δ) :=
  match text? d with
  | some name => some (name, none)
  | none =>
    match fields? d with
    | some [(name, payload)] => some (name, some payload)
    | _ => none

/-- Reads a choice that carries nothing. -/
def unit? {α : Type} (a : α) (payload : Option δ) : Option α :=
  if payload.all isUnit then some a else none

/-- An integer of 64 bits with sign. -/
def int64? (d : δ) : Option Int64 :=
  (integer? d).bind Word.signed?

end Document

namespace Fields

variable {δ : Type} [Document δ] {α : Type}

/-- Reads a field that must be there. -/
def required? (fields : Fields δ) (name : String) (read : δ → Option α) : Option α :=
  (fields.entries.lookup name).bind read

/-- Reads a field that may be left out. -/
def default? (fields : Fields δ) (name : String) (absent : α) (read : δ → Option α) : Option α :=
  match fields.entries.lookup name with
  | some d => read d
  | none => some absent

/-- Reads a field that may say that there is nothing, or be left out. -/
def optional? (fields : Fields δ) (name : String) (read : δ → Option α) : Option (Option α) :=
  match fields.entries.lookup name with
  | some d => if Document.isNothing d then some none else (read d).map some
  | none => some none

/-- Reads a field that may say that there is nothing; only an object may leave
it out. -/
def nullable? (fields : Fields δ) (name : String) (read : δ → Option α) : Option (Option α) :=
  if fields.isList && (fields.entries.lookup name).isNone then none
  else fields.optional? name read

end Fields

end EntityMap
