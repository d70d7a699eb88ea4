import EntityMap.Value

/-!
# YAML documents

The tree of a YAML document of scalars, sequences and mappings. A scalar
keeps its text and whether it stood in quotes, since only a plain scalar
can be anything but a text, and since a place that asks for a text takes
the plain scalar `123` as it is written.

`Yaml.literal?` resolves a scalar by the core rules: the words for null
and the truth values, integers in four bases, floats, and texts. Digits
behind a leading zero are a text.
-/

namespace EntityMap

/-- A YAML document. -/
inductive Yaml where
  | plain (text : String)
  | quoted (text : String)
  | seq (items : List Yaml)
  | map (entries : List (Yaml × Yaml))
  deriving Repr, Inhabited

namespace Yaml

/-! ## Plain scalars -/

/-- Whether a plain scalar is null: nothing at all, or one of its words. -/
def isNullText (text : String) : Bool :=
  ["", "null", "Null", "NULL", "~"].contains text

/-- The truth value that a plain scalar names. -/
def boolText? (text : String) : Option Bool :=
  if ["true", "True", "TRUE"].contains text then some true
  else if ["false", "False", "FALSE"].contains text then some false
  else none

/-- Whether a scalar consists of several digits with a zero in front. -/
def isZeroPadded (cs : List Char) : Bool :=
  let digits := match cs with
    | '-' :: rest => rest
    | '+' :: rest => rest
    | rest => rest
  1 < digits.length && digits.head? = some '0' && digits.all Char.isDigit

/-- The number that digits of a base up to 16 denote. -/
def baseNumber? (base : Nat) (digits : List Char) : Option Nat :=
  if digits.isEmpty then none
  else digits.foldlM (fun n c =>
    match Uuid.hexValue? c with
    | some d => if d < base then some (base * n + d) else none
    | none => none) 0

/-- Reads an integer without its sign: in base 16, 8 or 2 behind `0x`, `0o` or
`0b`, else in base 10. -/
def naturalText? (cs : List Char) : Option Nat :=
  match cs with
  | '0' :: 'x' :: rest => baseNumber? 16 rest
  | '0' :: 'o' :: rest => baseNumber? 8 rest
  | '0' :: 'b' :: rest => baseNumber? 2 rest
  | rest => if isZeroPadded rest then none else baseNumber? 10 rest

/-- The integer that a plain scalar denotes. -/
def integerText? (text : String) : Option Int :=
  match text.toList with
  | '-' :: rest => (naturalText? rest).map fun n => -(n : Int)
  | '+' :: rest => (naturalText? rest).map Int.ofNat
  | rest => (naturalText? rest).map Int.ofNat

/-- The float that a plain scalar denotes; a decimal text beyond the largest
float denotes none. -/
def floatText? (text : String) : Option Binary64 :=
  if [".inf", ".Inf", ".INF", "+.inf", "+.Inf", "+.INF"].contains text then
    some (Binary64.infinity false)
  else if ["-.inf", "-.Inf", "-.INF"].contains text then some (Binary64.infinity true)
  else if [".nan", ".NaN", ".NAN"].contains text then some Binary64.nan
  else if isZeroPadded text.toList then none
  else (Binary64.ofDecimalText? text).filter (·.isFinite)

/-- The integers that a document can hold without turning into floats. -/
def inWideRange (i : Int) : Bool :=
  -(1 <<< 127 : Nat) ≤ i && i < (1 <<< 128 : Nat)

/-- The value of a plain scalar where any literal may stand. Integers above the
signed 64-bit range become floats up to 64 bits and are refused up to 128. -/
def plainLiteral? (text : String) : Option Value :=
  if isNullText text then some .null
  else
    match boolText? text with
    | some b => some (.bool b)
    | none =>
      match (integerText? text).filter inWideRange with
      | some i =>
        match Word.signed? i, Word.unsigned? i with
        | some word, _ => some (.int word)
        | none, some n => some (.float (Binary64.ofInt n))
        | none, none => none
      | none =>
        match floatText? text with
        | some x => some (.float x)
        | none => some (.text text)

/-- The value of a scalar where any literal may stand. -/
def literal? : Yaml → Option Value
  | plain text => plainLiteral? text
  | quoted text => some (.text text)
  | seq _ => none
  | map _ => none

end Yaml

end EntityMap
