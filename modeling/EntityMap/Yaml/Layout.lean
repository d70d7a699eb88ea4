import EntityMap.Yaml.Cursor
import EntityMap.Yaml.Token

/-!
# Layout of a YAML text

A layout is what has been seen of a text: its tokens so far, the columns
of the open block collections and the open flow collections. A key shows
only at the colon behind it. Until then the place where it may begin is
a candidate, at most one for each flow collection and one for the block
around them; the colon puts the key's token, and the beginning of a new
block mapping, in at that place.

A candidate lapses at the end of its line and `keyLimit` bytes behind
its beginning. One at the column of the innermost open collection is
required: there nothing but a key may stand, so it must not lapse.
-/

namespace EntityMap.Yaml

/-- A place where a key may begin. -/
structure Candidate where
  mark : Mark
  /-- How many tokens are in front of it. -/
  place : Nat
  required : Bool
  deriving DecidableEq, Repr

/-- What has been seen of a text. -/
structure Layout where
  cursor : Cursor
  /-- The tokens so far. -/
  tokens : Array Token
  /-- The columns of the open block collections, the innermost first. -/
  columns : List Nat
  /-- The candidate of the innermost open collection. -/
  candidate : Option Candidate
  /-- The candidates around the open flow collections, the innermost first. -/
  outer : List (Option Candidate)
  /-- Whether a key may begin here. -/
  keyAllowed : Bool
  deriving Repr

namespace Layout

/-- How many bytes a key may have, together with what stands up to its colon. -/
def keyLimit : Nat := 1024

/-- The layout in front of a text. -/
def start (cs : List Char) : Layout :=
  { cursor := Cursor.start cs, tokens := #[], columns := [], candidate := none, outer := [],
    keyAllowed := true }

/-- Whether a flow collection is open. -/
def inFlow (l : Layout) : Bool :=
  !l.outer.isEmpty

/-- The column of the innermost block collection, or -1. -/
def indent (l : Layout) : Int :=
  match l.columns with
  | column :: _ => column
  | [] => -1

/-- Adds a token. -/
def emit (t : Token) (l : Layout) : Layout :=
  { l with tokens := l.tokens.push t }

/-- Adds a token that takes up `n` characters; `keyAllowed` tells whether a key
may begin behind it. -/
def take (t : Token) (n : Nat) (keyAllowed : Bool) (l : Layout) : Layout :=
  { l.emit t with cursor := l.cursor.skip n, keyAllowed }

/-! ## Block collections -/

/-- Closes the block collections right of a column. -/
def closeRightOf (column : Int) (tokens : Array Token) : List Nat → Array Token × List Nat
  | [] => (tokens, [])
  | inner :: rest =>
    if column < inner then closeRightOf column (tokens.push .blockEnd) rest
    else (tokens, inner :: rest)

/-- Goes back to a column; flow collections ignore the indentation. -/
def dedent (column : Int) (l : Layout) : Layout :=
  if l.inFlow then l
  else
    let (tokens, columns) := closeRightOf column l.tokens l.columns
    { l with tokens, columns }

/-- Adds a token behind the first `place` ones. -/
def insertAt (place : Nat) (t : Token) (l : Layout) : Layout :=
  { l with tokens := l.tokens.insertIdxIfInBounds place t }

/-- Opens a block collection at a column, behind the first `place` tokens, unless
one is open there. -/
def indentTo (column : Nat) (t : Token) (place : Nat) (l : Layout) : Layout :=
  if l.inFlow || (column : Int) ≤ l.indent then l
  else { l.insertAt place t with columns := column :: l.columns }

/-- Opens a block collection here. -/
def indentHere (t : Token) (l : Layout) : Layout :=
  l.indentTo l.cursor.mark.column t l.tokens.size

/-! ## Keys -/

/-- Whether a candidate lapses before a mark. -/
def lapses (now : Mark) (c : Candidate) : Bool :=
  c.mark.line < now.line || c.mark.offset + keyLimit < now.offset

/-- A candidate as far as it has not lapsed; fails if it is required. -/
def refresh? (now : Mark) : Option Candidate → Option (Option Candidate)
  | some c => if lapses now c then (if c.required then none else some none) else some (some c)
  | none => some none

/-- Drops the candidates that have lapsed. -/
def refreshAll? (l : Layout) : Option Layout := do
  let now := l.cursor.mark
  some { l with
    candidate := ← refresh? now l.candidate
    outer := ← l.outer.mapM (refresh? now) }

/-- Gives the innermost candidate up, which must not be required. -/
def withoutCandidate? (l : Layout) : Option Layout :=
  if l.candidate.any (·.required) then none else some { l with candidate := none }

/-- Makes the next token a candidate if a key may begin here. -/
def withCandidate? (l : Layout) : Option Layout :=
  if l.keyAllowed then
    let required := !l.inFlow && l.indent = l.cursor.mark.column
    l.withoutCandidate?.map fun l =>
      { l with candidate := some ⟨l.cursor.mark, l.tokens.size, required⟩ }
  else some l

/-- Puts the key of a candidate in. -/
def resolve (c : Candidate) (l : Layout) : Layout :=
  { l.insertAt c.place .key with candidate := none }.indentTo c.mark.column .blockMapping c.place

end Layout

end EntityMap.Yaml
