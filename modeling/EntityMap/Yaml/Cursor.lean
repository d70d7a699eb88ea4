import EntityMap.Yaml

/-!
# Positions in a YAML text

A mark counts the lines, the columns and the bytes in front of a
position; a cursor is a mark with the text still to be read.
`Cursor.pass` leads from one token to the next, over white space, line
breaks and comments. A tab is white space only where no key may begin,
since it is no indentation.

Line breaks are normalised beforehand: `\r\n`, `\r` and U+0085 count as
`\n`, while U+2028 and U+2029 break lines as themselves.
-/

namespace EntityMap.Yaml

/-- Characters that a document may hold. -/
def isAllowedChar (c : Char) : Bool :=
  let code := c.toNat
  code = 0x9 || code = 0xA || code = 0xD || (0x20 ≤ code && code ≤ 0x7E) || code = 0x85 ||
    (0xA0 ≤ code && code ≤ 0xFFFD) || 0x10000 ≤ code

/-- Writes every line break of one character or two as `\n`. -/
def normalizeBreaks : List Char → List Char
  | [] => []
  | '\r' :: '\n' :: rest => '\n' :: normalizeBreaks rest
  | '\r' :: rest => '\n' :: normalizeBreaks rest
  | c :: rest => (if c.toNat = 0x85 then '\n' else c) :: normalizeBreaks rest

def isBreak (c : Char) : Bool :=
  c = '\n' || c.toNat = 0x2028 || c.toNat = 0x2029

def isSpace (c : Char) : Bool :=
  c = ' ' || c = '\t'

def isByteOrderMark (c : Char) : Bool :=
  c.toNat = 0xFEFF

/-- Whether a text begins with white space, a line break, or not at all. -/
def startsBlank : List Char → Bool
  | [] => true
  | c :: _ => isSpace c || isBreak c

/-- Characters that shape flow collections. -/
def isFlowIndicator (c : Char) : Bool :=
  c = ',' || c = '[' || c = ']' || c = '\x7b' || c = '\x7d'

/-- Whether a line begins with a mark between documents. -/
def startsMarker : List Char → Bool
  | '-' :: '-' :: '-' :: rest => startsBlank rest
  | '.' :: '.' :: '.' :: rest => startsBlank rest
  | _ => false

/-- How much of a text lies in front of a position. -/
structure Mark where
  line : Nat
  column : Nat
  /-- Bytes of the characters in front. -/
  offset : Nat
  deriving DecidableEq, Repr

namespace Mark

def zero : Mark := ⟨0, 0, 0⟩

/-- The mark behind one more character. -/
def next (m : Mark) (c : Char) : Mark :=
  if isBreak c then ⟨m.line + 1, 0, m.offset + c.utf8Size⟩
  else ⟨m.line, m.column + 1, m.offset + c.utf8Size⟩

end Mark

/-- A position: where it is, and what follows. -/
structure Cursor where
  mark : Mark
  rest : List Char
  deriving Repr

namespace Cursor

/-- The beginning of a text. -/
def start (cs : List Char) : Cursor := ⟨Mark.zero, cs⟩

/-- The position behind `n` characters. -/
def skip : Nat → Cursor → Cursor
  | 0, cur => cur
  | n + 1, cur =>
    match cur.rest with
    | [] => cur
    | c :: cs => skip n ⟨cur.mark.next c, cs⟩

/-- Whether a mark between documents stands here. -/
def atMarker (cur : Cursor) : Bool :=
  cur.mark.column = 0 && startsMarker cur.rest

/-- Passes over what stands between tokens, inside a comment or not. Outside flow
collections a line break lets a key begin; a byte order mark may open a line. -/
def passBlanks (flow keyAllowed comment : Bool) (mark : Mark) : List Char → Cursor × Bool
  | [] => (⟨mark, []⟩, keyAllowed)
  | c :: cs =>
    let next := mark.next c
    if isBreak c then passBlanks flow (keyAllowed || !flow) false next cs
    else if comment || c = '#' then passBlanks flow keyAllowed true next cs
    else if c = ' ' || (c = '\t' && (flow || !keyAllowed)) ||
        (mark.column = 0 && isByteOrderMark c) then
      passBlanks flow keyAllowed false next cs
    else (⟨mark, c :: cs⟩, keyAllowed)

/-- The next token, and whether a key may begin there. -/
def pass (flow keyAllowed : Bool) (cur : Cursor) : Cursor × Bool :=
  passBlanks flow keyAllowed false cur.mark cur.rest

end Cursor

end EntityMap.Yaml
