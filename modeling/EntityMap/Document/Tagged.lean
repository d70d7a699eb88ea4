import EntityMap.Document

/-!
# Tagged records

A tagged record names in one of its fields, the tag, which of several
records it is. Since the tag may come last, the rest of the record is
held as it stands until the tag is known, and only then are its fields
told apart: a key may be the name of a field or its number, and keys
that are neither stand for no field. Instead of an object, a list may
hold the tag and all the fields in their order.

Not every node can be held: in YAML an integer has 64 bits, and the
nodes nest to a given depth.
-/

namespace EntityMap

/-- How nodes are looked at that are held before it is known what they are. -/
class HeldDocument (δ : Type) extends Document δ where
  /-- The entries of an object, whose keys may be any nodes. -/
  entries? : δ → Option (List (δ × δ))
  /-- Whether a node can be held in a given depth. -/
  canHold : Nat → δ → Bool

instance : HeldDocument Json where
  entries? := fun
    | .obj fields => some (fields.map fun (name, value) => (.str name, value))
    | _ => none
  canHold := fun _ _ => true

namespace Yaml

def entries? : Yaml → Option (List (Yaml × Yaml))
  | map entries => some entries
  | _ => none

def canHold : Nat → Yaml → Bool
  | _, plain text => (plainLiteral? text).isSome
  | _, quoted _ => true
  | 0, _ => false
  | depth + 1, seq items => items.all (canHold depth)
  | depth + 1, map entries =>
    entries.all fun (key, value) => canHold depth key && canHold depth value

instance : HeldDocument Yaml where
  entries? := entries?
  canHold := canHold

end Yaml

/-- What a tagged record holds besides its tag. -/
inductive Held (δ : Type) where
  | list (items : List δ)
  | object (entries : List (δ × δ))

namespace Held

open Document HeldDocument

variable {δ : Type} [HeldDocument δ]

/-- The text of a key or of a held node. -/
def literalText? (d : δ) : Option String :=
  (literal? d).bind Value.text?

/-- The integer of a held node. -/
def literalInt? (d : δ) : Option Int64 :=
  match literal? d with
  | some (.int i) => some i
  | _ => none

/-- Reads the tag of a record, named `tag` in an object, and holds the rest in the
given depth. -/
def read? (tag : String) (depth : Nat) (d : δ) : Option (String × Held δ) :=
  match entries? d, items? d with
  | some entries, _ =>
    let (tags, rest) := entries.partition fun (key, _) => literalText? key = some tag
    match tags with
    | [(_, name)] =>
      if rest.all fun (key, value) => canHold depth key && canHold depth value then
        (text? name).map fun name => (name, object rest)
      else none
    | _ => none
  | none, some (name :: items) =>
    if items.all (canHold depth) then (text? name).map fun name => (name, list items) else none
  | none, _ => none

/-- The field that a key stands for: none of the known ones, or one of them. A key
that is no text and no number is refused. -/
def field? (names : List String) (key : δ) : Option (Option String) :=
  match literalText? key with
  | some name => some (if names.contains name then some name else none)
  | none => (natural? key).map fun i => names[i]?

/-- The named fields of a record, each once. A list has exactly these. -/
def fields? (names : List String) : Held δ → Option (Fields δ)
  | list items => if items.length = names.length then some ⟨names.zip items, true⟩ else none
  | object entries => do
    let found ← entries.mapM fun (key, value) => (field? names key).map fun name => (name, value)
    let known := found.filterMap fun (name, value) => name.map fun name => (name, value)
    if names.all fun name => known.countP (·.1 = name) ≤ 1 then some ⟨known, false⟩ else none

/-- Whether a record without fields may be written like this. -/
def isBare : Held δ → Bool
  | list items => items.isEmpty
  | object _ => true

end Held

end EntityMap
