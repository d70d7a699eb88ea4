/-!
# Tokens of a YAML text

What the characters of a text amount to before its nodes are built:
scalars, the signs of collections, and the beginnings and ends of block
collections, which no character shows but the indentation does.
-/

namespace EntityMap.Yaml

/-- A token of a text. -/
inductive Token where
  /-- The line `---`. -/
  | documentStart
  /-- The line `...`. -/
  | documentEnd
  | blockSequence
  | blockMapping
  | blockEnd
  /-- A dash in front of an item of a block sequence. -/
  | dash
  /-- Comes in front of a key. -/
  | key
  /-- The colon in front of a value. -/
  | value
  | openSequence
  | closeSequence
  | openMapping
  | closeMapping
  | comma
  | plain (text : String)
  | quoted (text : String)
  deriving DecidableEq, Repr

end EntityMap.Yaml
