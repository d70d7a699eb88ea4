import EntityMap.Json.Number
import EntityMap.Json.Raw
import EntityMap.Uuid

/-!
# Reading JSON

`Raw.read?` reads a whole text as one document by its punctuation, and
`Json.read?` asks for the values too and for a depth of at most 127.
Reading is by recursive descent; the first argument of the mutual
functions bounds their calls, and since every call consumes a character
the length of the text is enough.
-/

namespace EntityMap.Json

/-- How deep arrays and objects may nest. -/
def maxDepth : Nat := 127

/-- Drops white space. -/
def skipSpace (cs : List Char) : List Char :=
  cs.dropWhile fun c => c = ' ' || c = '\n' || c = '\t' || c = '\r'

/-- Four hexadecimal digits. -/
def codeUnit? (a b c d : Char) : Option Nat :=
  Uuid.hexNumber? [a, b, c, d]

/-- The escape letters that stand for one character. -/
def escaped? : Char → Option Char
  | '"' => some '"'
  | '\\' => some '\\'
  | '/' => some '/'
  | 'b' => some (Char.ofNat 8)
  | 'f' => some (Char.ofNat 12)
  | 'n' => some '\n'
  | 'r' => some '\r'
  | 't' => some '\t'
  | _ => none

/-- Whether a code is the first half of a surrogate pair. -/
def isHighSurrogate (code : Nat) : Bool :=
  0xD800 ≤ code && code < 0xDC00

/-- Whether a code is the second half of a surrogate pair. -/
def isLowSurrogate (code : Nat) : Bool :=
  0xDC00 ≤ code && code < 0xE000

/-- The character of a surrogate pair. -/
def surrogatePair (high low : Nat) : Char :=
  Char.ofNat (0x10000 + (high - 0xD800) * 0x400 + (low - 0xDC00))

/-- The text of codes whose surrogates come in pairs; `done` is its beginning, last
character first. -/
def textOfCodes? (done : List Char) : List Nat → Option String
  | [] => some (String.ofList done.reverse)
  | [code] =>
    if isHighSurrogate code || isLowSurrogate code then none
    else some (String.ofList (Char.ofNat code :: done).reverse)
  | code :: next :: rest =>
    if isHighSurrogate code then
      if isLowSurrogate next then textOfCodes? (surrogatePair code next :: done) rest else none
    else if isLowSurrogate code then none
    else textOfCodes? (Char.ofNat code :: done) (next :: rest)

/-- The codes of a string behind its opening quote; `done` holds those read so far,
the last one first. Control characters are refused. -/
def readCodes? (done : List Nat) : List Char → Option (List Nat × List Char)
  | '"' :: rest => some (done.reverse, rest)
  | '\\' :: 'u' :: a :: b :: c :: d :: rest =>
    match codeUnit? a b c d with
    | some code => readCodes? (code :: done) rest
    | none => none
  | '\\' :: c :: rest =>
    match escaped? c with
    | some e => readCodes? (e.toNat :: done) rest
    | none => none
  | c :: rest => if c.toNat < 0x20 || c = '\\' then none else readCodes? (c.toNat :: done) rest
  | [] => none

/-- Reads a string behind its opening quote, and its text if it has one. -/
def readString? (cs : List Char) : Option (Option String × List Char) :=
  (readCodes? [] cs).map fun (codes, rest) => (textOfCodes? [] codes, rest)

/-- The text behind a given beginning. -/
def after? (word : String) (cs : List Char) : Option (List Char) :=
  let expected := word.toList
  if expected.isPrefixOf cs then some (cs.drop expected.length) else none

mutual

/-- Reads one document. -/
def readValue? : Nat → List Char → Option (Raw × List Char)
  | 0, _ => none
  | fuel + 1, cs =>
    match skipSpace cs with
    | [] => none
    | '"' :: rest => (readString? rest).map fun (s, rest) => (.scalar (s.map str), rest)
    | '[' :: rest =>
      match skipSpace rest with
      | ']' :: rest => some (.arr [], rest)
      | rest => (readItems? fuel [] rest).map fun (items, rest) => (.arr items, rest)
    | '\x7b' :: rest =>
      match skipSpace rest with
      | '\x7d' :: rest => some (.obj [], rest)
      | rest => (readFields? fuel [] rest).map fun (fields, rest) => (.obj fields, rest)
    | 't' :: rest => (after? "rue" rest).map fun rest => (.scalar (some (bool true)), rest)
    | 'f' :: rest => (after? "alse" rest).map fun rest => (.scalar (some (bool false)), rest)
    | 'n' :: rest => (after? "ull" rest).map fun rest => (.scalar (some null), rest)
    | rest => (number? rest).map fun (x, rest) => (.scalar x, rest)

/-- Reads the items of an array up to its closing bracket, behind those that are
`done`. -/
def readItems? : Nat → List Raw → List Char → Option (List Raw × List Char)
  | 0, _, _ => none
  | fuel + 1, done, cs =>
    match readValue? fuel cs with
    | none => none
    | some (item, rest) =>
      match skipSpace rest with
      | ',' :: rest => readItems? fuel (item :: done) rest
      | ']' :: rest => some ((item :: done).reverse, rest)
      | _ => none

/-- Reads the fields of an object up to its closing brace, behind those that are
`done`. -/
def readFields? : Nat → List (Option String × Raw) → List Char →
    Option (List (Option String × Raw) × List Char)
  | 0, _, _ => none
  | fuel + 1, done, cs =>
    match skipSpace cs with
    | '"' :: rest =>
      match readString? rest with
      | none => none
      | some (name, rest) =>
        match skipSpace rest with
        | ':' :: rest =>
          match readValue? fuel rest with
          | none => none
          | some (value, rest) =>
            match skipSpace rest with
            | ',' :: rest => readFields? fuel ((name, value) :: done) rest
            | '\x7d' :: rest => some (((name, value) :: done).reverse, rest)
            | _ => none
        | _ => none
    | _ => none

end

/-- Reads a text that is written as one document and nothing else. -/
def Raw.read? (text : String) : Option Raw :=
  let cs := text.toList
  match readValue? (cs.length + 1) cs with
  | some (raw, rest) => if (skipSpace rest).isEmpty then some raw else none
  | none => none

/-- Reads a text that holds one document and nothing else. -/
def read? (text : String) : Option Json := do
  let raw ← Raw.read? text
  if raw.depth ≤ maxDepth then raw.value? else none

end EntityMap.Json
