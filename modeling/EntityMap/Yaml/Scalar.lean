import EntityMap.Yaml.Cursor

/-!
# Scalars of a YAML text

Quoted scalars with their escapes, and plain scalars, which end where a
value or a comment begins. A line break inside a scalar is folded: one
becomes a space, each further one stays, and white space around them is
dropped. In double quotes a backslash in front of a line break takes
that break away.
-/

namespace EntityMap.Yaml

/-! ## Folding -/

/-- What a run of line breaks inside a scalar stands for. -/
def foldBreaks : List Char → List Char
  | [] => []
  | ['\n'] => [' ']
  | '\n' :: rest => rest
  | rest => rest

/-- The white space and line breaks that are passed over since the last character
of a scalar, all in reverse. -/
structure Gap where
  spaces : List Char
  breaks : List Char
  /-- Whether an escaped line break opens the gap. -/
  joined : Bool

namespace Gap

def none : Gap := ⟨[], [], false⟩

/-- The gap behind an escaped line break. -/
def join : Gap := ⟨[], [], true⟩

/-- Whether a new line has begun. -/
def isBroken (gap : Gap) : Bool :=
  gap.joined || !gap.breaks.isEmpty

def isEmpty (gap : Gap) : Bool :=
  gap.spaces.isEmpty && !gap.isBroken

/-- White space counts as long as no new line has begun. -/
def addSpace (gap : Gap) (c : Char) : Gap :=
  if gap.isBroken then gap else { gap with spaces := c :: gap.spaces }

def addBreak (gap : Gap) (c : Char) : Gap :=
  { gap with spaces := [], breaks := c :: gap.breaks }

/-- Puts what the gap stands for in front of a reversed text. -/
def close (gap : Gap) (done : List Char) : List Char :=
  if gap.joined then gap.breaks ++ done
  else if gap.breaks.isEmpty then gap.spaces ++ done
  else (foldBreaks gap.breaks.reverse).reverse ++ done

end Gap

/-! ## Quoted scalars -/

/-- The escape letters of double quotes that stand for one character. -/
def escaped? (c : Char) : Option Char :=
  match c with
  | '0' => some (Char.ofNat 0)
  | 'a' => some (Char.ofNat 7)
  | 'b' => some (Char.ofNat 8)
  | 't' => some '\t'
  | '\t' => some '\t'
  | 'n' => some '\n'
  | 'v' => some (Char.ofNat 11)
  | 'f' => some (Char.ofNat 12)
  | 'r' => some '\r'
  | 'e' => some (Char.ofNat 27)
  | ' ' => some ' '
  | '"' => some '"'
  | '/' => some '/'
  | '\\' => some '\\'
  | 'N' => some (Char.ofNat 0x85)
  | '_' => some (Char.ofNat 0xA0)
  | 'L' => some (Char.ofNat 0x2028)
  | 'P' => some (Char.ofNat 0x2029)
  | _ => none

/-- The character with a code, unless the code is a surrogate or too large. -/
def charOfCode? (code : Nat) : Option Char :=
  if code < 0xD800 || (0xDFFF < code && code < 0x110000) then some (Char.ofNat code) else none

/-- The character that an escape of hexadecimal digits names. -/
def coded? (digits : List Char) : Option Char :=
  (Uuid.hexNumber? digits).bind charOfCode?

/-- Reads a scalar behind its opening double quote. Answers how many characters
it took, besides the text; `used` of them are taken already. -/
def doubleQuoted? (done : List Char) (gap : Gap) (used : Nat) :
    List Char → Option (String × Nat)
  | [] => none
  | '"' :: _ => some (String.ofList (gap.close done).reverse, used + 1)
  | '\\' :: 'x' :: a :: b :: rest =>
    match coded? [a, b] with
    | some e => doubleQuoted? (e :: gap.close done) Gap.none (used + 4) rest
    | none => none
  | '\\' :: 'u' :: a :: b :: c :: d :: rest =>
    match coded? [a, b, c, d] with
    | some e => doubleQuoted? (e :: gap.close done) Gap.none (used + 6) rest
    | none => none
  | '\\' :: 'U' :: a :: b :: c :: d :: e :: f :: g :: h :: rest =>
    match coded? [a, b, c, d, e, f, g, h] with
    | some e => doubleQuoted? (e :: gap.close done) Gap.none (used + 10) rest
    | none => none
  | '\\' :: c :: rest =>
    if isBreak c then
      if startsMarker rest then none
      else doubleQuoted? (gap.close done) Gap.join (used + 2) rest
    else
      match escaped? c with
      | some e => doubleQuoted? (e :: gap.close done) Gap.none (used + 2) rest
      | none => none
  | c :: rest =>
    if c = '\\' then none
    else if isSpace c then doubleQuoted? done (gap.addSpace c) (used + 1) rest
    else if isBreak c then
      if startsMarker rest then none else doubleQuoted? done (gap.addBreak c) (used + 1) rest
    else doubleQuoted? (c :: gap.close done) Gap.none (used + 1) rest

/-- Reads a scalar behind its opening single quote; a doubled quote is one. -/
def singleQuoted? (done : List Char) (gap : Gap) (used : Nat) :
    List Char → Option (String × Nat)
  | [] => none
  | '\'' :: '\'' :: rest => singleQuoted? ('\'' :: gap.close done) Gap.none (used + 2) rest
  | '\'' :: _ => some (String.ofList (gap.close done).reverse, used + 1)
  | c :: rest =>
    if isSpace c then singleQuoted? done (gap.addSpace c) (used + 1) rest
    else if isBreak c then
      if startsMarker rest then none else singleQuoted? done (gap.addBreak c) (used + 1) rest
    else singleQuoted? (c :: gap.close done) Gap.none (used + 1) rest

/-- Reads a quoted scalar at a position. -/
def quotedScalar? (cur : Cursor) : Option (String × Cursor) :=
  match cur.rest with
  | '"' :: rest =>
    (doubleQuoted? [] Gap.none 1 rest).map fun (text, used) => (text, cur.skip used)
  | '\'' :: rest =>
    (singleQuoted? [] Gap.none 1 rest).map fun (text, used) => (text, cur.skip used)
  | _ => none

/-! ## Plain scalars -/

/-- Characters that cannot begin a plain scalar. -/
def reserved : List Char :=
  ['-', '?', ':', ',', '[', ']', '\x7b', '\x7d', '#', '&', '*', '!', '|', '>', '\'', '"', '%',
    '@', Char.ofNat 0x60]

/-- Whether a plain scalar begins here. -/
def startsPlain (flow : Bool) : List Char → Bool
  | [] => false
  | c :: rest =>
    if c = '-' then !startsBlank rest
    else if c = '?' || c = ':' then !flow && !startsBlank rest
    else !isSpace c && !isBreak c && !reserved.contains c

/-- Whether the character at a position, which is neither white space nor a line
break, ends a plain scalar. After a gap it does so at a mark between documents,
in a comment, and left of `indent` outside flow collections; anywhere a colon in
front of a blank ends it, and an indicator of the flow collection around it. -/
def endsPlain (flow : Bool) (indent : Nat) (gap : Gap) (cur : Cursor) : Bool :=
  let afterGap := !gap.isEmpty && (cur.atMarker || cur.rest.head? = some '#' ||
    (!flow && cur.mark.column < indent))
  match cur.rest with
  | [] => true
  | c :: rest => afterGap || (c = ':' && startsBlank rest) || (flow && isFlowIndicator c)

/-- Inside a flow collection no plain scalar may touch the colon of a value. -/
def touchesColon (flow : Bool) : List Char → Bool
  | ':' :: d :: _ => flow && (isFlowIndicator d || d = '?')
  | _ => false

/-- Reads on in a plain scalar, whose lines but the first stand at column
`indent` or right of it; a tab left of it is refused. Answers the text, whether
the gap behind it spans lines, and the position behind that gap. -/
def plainText? (flow : Bool) (indent : Nat) (done : List Char) (gap : Gap) (mark : Mark) :
    List Char → Option (String × Bool × Cursor)
  | [] => some (String.ofList done.reverse, gap.isBroken, ⟨mark, []⟩)
  | c :: rest =>
    if isBreak c then plainText? flow indent done (gap.addBreak c) (mark.next c) rest
    else if isSpace c then
      if gap.isBroken && c = '\t' && mark.column < indent then none
      else plainText? flow indent done (gap.addSpace c) (mark.next c) rest
    else if endsPlain flow indent gap ⟨mark, c :: rest⟩ then
      some (String.ofList done.reverse, gap.isBroken, ⟨mark, c :: rest⟩)
    else if touchesColon flow (c :: rest) then none
    else plainText? flow indent (c :: gap.close done) Gap.none (mark.next c) rest

/-- Reads a plain scalar at a position. -/
def plainScalar? (flow : Bool) (indent : Nat) (cur : Cursor) : Option (String × Bool × Cursor) :=
  if startsPlain flow cur.rest then plainText? flow indent [] Gap.none cur.mark cur.rest else none

end EntityMap.Yaml
