import EntityMap.Text.Uppercase.Table

/-!
# Uppercase texts

The uppercase form of a text replaces each character by its full
uppercase mapping, which may be longer than one character (`ß` becomes
`SS`). The mapping of a character does not depend on its neighbours.
-/

namespace EntityMap.Text

/-- The full uppercase mapping of one character. -/
def uppercaseChar (c : Char) : List Char :=
  let code := c.toNat
  match uppercaseExpansions.lookup code with
  | some codes => codes.map Char.ofNat
  | none =>
    match uppercaseRuns.find? (·.contains code) with
    | some run => [Char.ofNat (run.apply code)]
    | none => [c]

/-- The uppercase form of a text. -/
def uppercase (text : String) : String :=
  String.ofList (text.toList.flatMap uppercaseChar)

end EntityMap.Text
