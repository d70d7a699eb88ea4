import EntityMap.Binary64.Decimal

/-!
# JSON documents

The tree of a JSON document. Numbers without fraction and exponent that
fit 64 bits are integers, all others are floats; the fields of an object
keep the order in which they are written, and a name may occur twice
until `lastWins` settles it.
-/

namespace EntityMap

/-- A JSON document. -/
inductive Json where
  | null
  | bool (b : Bool)
  | int (i : Int)
  | float (x : Binary64)
  | str (s : String)
  | arr (items : List Json)
  | obj (fields : List (String × Json))
  deriving Repr, Inhabited

namespace Json

/-- The value of a field; of two fields with one name, the first. -/
def field? (name : String) : Json → Option Json
  | obj fields => fields.lookup name
  | _ => none

/-- An array of texts. -/
def texts (items : List String) : Json :=
  arr (items.map str)

/-- A document, or null for none. -/
def orNull : Option Json → Json
  | some j => j
  | none => null

/-- Puts a field in place of the field of that name, or at the end. -/
def putField (name : String) (value : Json) : List (String × Json) → List (String × Json)
  | [] => [(name, value)]
  | (other, old) :: rest =>
    if other = name then (name, value) :: rest else (other, old) :: putField name value rest

mutual

/-- How deeply arrays and objects are nested. -/
def depth : Json → Nat
  | arr items => depthItems items + 1
  | obj fields => depthFields fields + 1
  | _ => 0

def depthItems : List Json → Nat
  | [] => 0
  | item :: rest => max item.depth (depthItems rest)

def depthFields : List (String × Json) → Nat
  | [] => 0
  | (_, value) :: rest => max value.depth (depthFields rest)

end

mutual

/-- Keeps one field of each name: the last value, at the first place. -/
def lastWins : Json → Json
  | arr items => arr (lastWinsItems items)
  | obj fields => obj (lastWinsFields [] fields)
  | leaf => leaf

def lastWinsItems : List Json → List Json
  | [] => []
  | item :: rest => lastWins item :: lastWinsItems rest

def lastWinsFields (done : List (String × Json)) : List (String × Json) → List (String × Json)
  | [] => done
  | (name, value) :: rest => lastWinsFields (putField name (lastWins value) done) rest

end

end Json

end EntityMap
