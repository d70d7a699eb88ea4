import EntityMap.Json
import EntityMap.Uuid

/-!
# Writing JSON

`compact` writes a document without white space, `pretty` with a line
for each item and field, indented by two spaces. A float has its
shortest digits; one that is not finite is written as `null`.
-/

namespace EntityMap.Json

/-- The escape of a character inside quotes. -/
def escapeChar (c : Char) : List Char :=
  if c = '"' then ['\\', '"']
  else if c = '\\' then ['\\', '\\']
  else if c = '\n' then ['\\', 'n']
  else if c = '\r' then ['\\', 'r']
  else if c = '\t' then ['\\', 't']
  else if c.toNat = 8 then ['\\', 'b']
  else if c.toNat = 12 then ['\\', 'f']
  else if c.toNat < 0x20 then '\\' :: 'u' :: Uuid.hexDigits 4 c.toNat
  else [c]

/-- A text in quotes. -/
def quoted (s : String) : String :=
  "\"" ++ String.ofList (s.toList.flatMap escapeChar) ++ "\""

/-- The text of a float. -/
def floatText (x : Binary64) : String :=
  if x.isFinite then x.compact else "null"

mutual

/-- The document without white space. -/
def compact : Json → String
  | null => "null"
  | bool b => if b then "true" else "false"
  | int i => toString i
  | float x => floatText x
  | str s => quoted s
  | arr items => "[" ++ compactItems items ++ "]"
  | obj fields => "\x7b" ++ compactFields fields ++ "\x7d"

def compactItems : List Json → String
  | [] => ""
  | [item] => compact item
  | item :: rest => compact item ++ "," ++ compactItems rest

def compactFields : List (String × Json) → String
  | [] => ""
  | [(name, value)] => quoted name ++ ":" ++ compact value
  | (name, value) :: rest =>
    quoted name ++ ":" ++ compact value ++ "," ++ compactFields rest

end

/-- A line break and the indentation of a depth. -/
def newline (depth : Nat) : String :=
  "\n" ++ String.ofList (List.replicate (2 * depth) ' ')

mutual

/-- The document at a depth, with a line for each item and field. -/
def prettyAt (depth : Nat) : Json → String
  | arr [] => "[]"
  | arr items => "[" ++ prettyItems (depth + 1) items ++ newline depth ++ "]"
  | obj [] => "\x7b\x7d"
  | obj fields => "\x7b" ++ prettyFields (depth + 1) fields ++ newline depth ++ "\x7d"
  | leaf => compact leaf

def prettyItems (depth : Nat) : List Json → String
  | [] => ""
  | [item] => newline depth ++ prettyAt depth item
  | item :: rest => newline depth ++ prettyAt depth item ++ "," ++ prettyItems depth rest

def prettyFields (depth : Nat) : List (String × Json) → String
  | [] => ""
  | [(name, value)] => newline depth ++ quoted name ++ ": " ++ prettyAt depth value
  | (name, value) :: rest =>
    newline depth ++ quoted name ++ ": " ++ prettyAt depth value ++ "," ++
      prettyFields depth rest

end

/-- The document with a line for each item and field. -/
def pretty (j : Json) : String :=
  prettyAt 0 j

end EntityMap.Json
