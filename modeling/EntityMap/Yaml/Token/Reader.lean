import EntityMap.Yaml.Layout
import EntityMap.Yaml.Scalar

/-!
# Reading tokens

`tokens?` reads the tokens of a text. Directives, anchors, tags and
block scalars are refused. Every token but the last ones, which close
what is still open, takes a character, so the length of the text bounds
their number.
-/

namespace EntityMap.Yaml

namespace Layout

/-- A mark between documents, which closes all blocks. -/
def marker? (t : Token) (l : Layout) : Option Layout :=
  (l.dedent (-1)).withoutCandidate?.map (take t 3 false)

/-- Opens a flow collection, which may be a key itself. -/
def openFlow? (t : Token) (l : Layout) : Option Layout :=
  l.withCandidate?.map fun l =>
    { l.take t 1 true with candidate := none, outer := l.candidate :: l.outer }

/-- Closes a flow collection. -/
def closeFlow? (t : Token) (l : Layout) : Option Layout :=
  l.withoutCandidate?.map fun l =>
    match l.outer with
    | candidate :: outer => { l.take t 1 false with candidate, outer }
    | [] => l.take t 1 false

/-- Separates the items of a flow collection. -/
def comma? (l : Layout) : Option Layout :=
  l.withoutCandidate?.map (take .comma 1 true)

/-- An item of a block sequence, which may begin only where a key may. -/
def dash? (l : Layout) : Option Layout :=
  if l.inFlow || l.keyAllowed then
    (l.indentHere .blockSequence).withoutCandidate?.map (take .dash 1 true)
  else none

/-- A key behind its own sign. -/
def explicitKey? (l : Layout) : Option Layout :=
  if l.inFlow || l.keyAllowed then
    (l.indentHere .blockMapping).withoutCandidate?.map (take .key 1 !l.inFlow)
  else none

/-- The colon of a value: behind the candidate, whose key it shows, or else behind
an explicit key. -/
def value? (l : Layout) : Option Layout :=
  match l.candidate with
  | some c => some ((l.resolve c).take .value 1 false)
  | none =>
    if l.inFlow || l.keyAllowed then
      some ((l.indentHere .blockMapping).take .value 1 !l.inFlow)
    else none

/-- A quoted scalar. -/
def quoted? (l : Layout) : Option Layout := do
  let l ← l.withCandidate?
  let (text, cursor) ← quotedScalar? l.cursor
  some { l.emit (.quoted text) with cursor, keyAllowed := false }

/-- A plain scalar; behind one that reaches over a line break a key may begin. -/
def plain? (l : Layout) : Option Layout := do
  let l ← l.withCandidate?
  let (text, broken, cursor) ← plainScalar? l.inFlow (l.indent + 1).toNat l.cursor
  some { l.emit (.plain text) with cursor, keyAllowed := broken }

/-- Reads the token at the cursor. -/
def token? (l : Layout) : Option Layout :=
  match l.cursor.rest with
  | [] => none
  | c :: rest =>
    let loose := l.inFlow || startsBlank rest
    if l.cursor.atMarker then l.marker? (if c = '-' then .documentStart else .documentEnd)
    else if c = '%' && l.cursor.mark.column = 0 then none
    else if c = '[' then l.openFlow? .openSequence
    else if c = '\x7b' then l.openFlow? .openMapping
    else if c = ']' then l.closeFlow? .closeSequence
    else if c = '\x7d' then l.closeFlow? .closeMapping
    else if c = ',' then l.comma?
    else if c = '-' && startsBlank rest then l.dash?
    else if c = '?' && loose then l.explicitKey?
    else if c = ':' && loose then l.value?
    else if c = '"' || c = '\'' then l.quoted?
    else l.plain?

/-- The layout at the end of the text. -/
def finish? (l : Layout) : Option Layout :=
  (l.dedent (-1)).withoutCandidate?

/-- Reads at most `n` tokens up to the end of the text. -/
def read? : Nat → Layout → Option Layout
  | 0, _ => none
  | n + 1, l => do
    let (cursor, keyAllowed) := l.cursor.pass l.inFlow l.keyAllowed
    let l ← { l with cursor, keyAllowed }.refreshAll?
    let l := l.dedent cursor.mark.column
    if cursor.rest.isEmpty then l.finish?
    else read? n (← l.token?)

end Layout

/-- The tokens of a text. -/
def tokens? (cs : List Char) : Option (List Token) :=
  ((Layout.start cs).read? (cs.length + 1)).map fun l => l.tokens.toList

end EntityMap.Yaml
