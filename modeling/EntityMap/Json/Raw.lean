import EntityMap.Json

/-!
# JSON as it is written

The tree that the punctuation of a JSON text gives it. A text with half
of a surrogate pair and a number beyond the largest float are well
written and denote nothing, which is no fault where nobody asks for
them; `Raw.value?` asks for everything.
-/

namespace EntityMap.Json

/-- A document whose texts and numbers may denote nothing. -/
inductive Raw where
  | scalar (value : Option Json)
  | arr (items : List Raw)
  | obj (fields : List (Option String × Raw))
  deriving Repr, Inhabited

namespace Raw

mutual

/-- How deeply arrays and objects are nested. -/
def depth : Raw → Nat
  | arr items => depthItems items + 1
  | obj fields => depthFields fields + 1
  | scalar _ => 0

def depthItems : List Raw → Nat
  | [] => 0
  | item :: rest => max item.depth (depthItems rest)

def depthFields : List (Option String × Raw) → Nat
  | [] => 0
  | (_, value) :: rest => max value.depth (depthFields rest)

end

mutual

/-- The document that is written, if every part of it denotes something. -/
def value? : Raw → Option Json
  | scalar value => value
  | arr items => (valueItems? items).map .arr
  | obj fields => (valueFields? fields).map .obj

def valueItems? : List Raw → Option (List Json)
  | [] => some []
  | item :: rest =>
    match item.value?, valueItems? rest with
    | some value, some values => some (value :: values)
    | _, _ => none

def valueFields? : List (Option String × Raw) → Option (List (String × Json))
  | [] => some []
  | (name, item) :: rest =>
    match name, item.value?, valueFields? rest with
    | some name, some value, some values => some ((name, value) :: values)
    | _, _, _ => none

end

/-- The fields of an object, if each has a name. -/
def fields? : Raw → Option (List (String × Raw))
  | obj fields => fields.mapM fun (name, value) => name.map fun name => (name, value)
  | _ => none

def items? : Raw → Option (List Raw)
  | arr items => some items
  | _ => none

/-- The scalar that is written, if it denotes something. -/
def scalar? : Raw → Option Json
  | scalar value => value
  | _ => none

end Raw

end EntityMap.Json
