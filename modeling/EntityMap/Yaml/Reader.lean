import EntityMap.Yaml.Token.Reader

/-!
# Reading YAML

`Yaml.read?` reads a text that holds at most one document: it builds the
nodes from the tokens of the text. A node that is left out is an empty
plain scalar.

Nodes are read by recursive descent. The first argument of the mutual
functions bounds their calls; at least one of three calls in a row takes
a token, so four times the number of tokens is enough.
-/

namespace EntityMap.Yaml

/-- The node that stands where nothing is written. -/
def empty : Yaml := plain ""

/-- Whether one of the signs, or nothing, comes next. -/
def comesNext (signs : List Token) : List Token → Bool
  | t :: _ => signs.contains t
  | [] => false

mutual

/-- Reads a node. Block collections may stand in a `block` only; the items of a
sequence may follow a key without an indentation of their own. -/
def node? : Nat → Bool → Bool → List Token → Option (Yaml × List Token)
  | 0, _, _, _ => none
  | fuel + 1, block, unindented, tokens =>
    match tokens with
    | .plain text :: rest => some (plain text, rest)
    | .quoted text :: rest => some (quoted text, rest)
    | .openSequence :: rest => flowItems? fuel true [] rest
    | .openMapping :: rest => flowEntries? fuel true [] rest
    | .blockSequence :: rest => if block then blockItems? fuel [] rest else none
    | .blockMapping :: rest => if block then blockEntries? fuel [] rest else none
    | .dash :: _ => if unindented then plainItems? fuel [] tokens else none
    | _ => none

/-- Reads a node of a block, or nothing in front of one of the signs. -/
def blockNode? : Nat → Bool → List Token → List Token → Option (Yaml × List Token)
  | 0, _, _, _ => none
  | fuel + 1, unindented, signs, tokens =>
    if comesNext signs tokens then some (empty, tokens) else node? fuel true unindented tokens

/-- Reads the items of a block sequence up to its end. -/
def blockItems? : Nat → List Yaml → List Token → Option (Yaml × List Token)
  | 0, _, _ => none
  | fuel + 1, done, tokens =>
    match tokens with
    | .dash :: rest =>
      match blockNode? fuel false [.dash, .blockEnd] rest with
      | some (item, rest) => blockItems? fuel (item :: done) rest
      | none => none
    | .blockEnd :: rest => some (seq done.reverse, rest)
    | _ => none

/-- Reads the items of a sequence at the column of its mapping. -/
def plainItems? : Nat → List Yaml → List Token → Option (Yaml × List Token)
  | 0, _, _ => none
  | fuel + 1, done, tokens =>
    match tokens with
    | .dash :: rest =>
      match blockNode? fuel false [.dash, .key, .value, .blockEnd] rest with
      | some (item, rest) => plainItems? fuel (item :: done) rest
      | none => none
    | _ => some (seq done.reverse, tokens)

/-- Reads the entries of a block mapping up to its end. -/
def blockEntries? : Nat → List (Yaml × Yaml) → List Token → Option (Yaml × List Token)
  | 0, _, _ => none
  | fuel + 1, done, tokens =>
    match tokens with
    | .key :: rest =>
      match blockNode? fuel true [.key, .value, .blockEnd] rest with
      | some (key, .value :: rest) =>
        match blockNode? fuel true [.key, .value, .blockEnd] rest with
        | some (value, rest) => blockEntries? fuel ((key, value) :: done) rest
        | none => none
      | some (key, rest) => blockEntries? fuel ((key, empty) :: done) rest
      | none => none
    | .blockEnd :: rest => some (map done.reverse, rest)
    | _ => none

/-- Reads the value behind a key of a flow collection, if there is one. -/
def flowValue? : Nat → Token → List Token → Option (Yaml × List Token)
  | 0, _, _ => none
  | fuel + 1, close, tokens =>
    match tokens with
    | .value :: rest =>
      if comesNext [.comma, close] rest then some (empty, rest) else node? fuel false false rest
    | _ => some (empty, tokens)

/-- Reads the items of a flow sequence up to its bracket; all but the first come
behind a comma. An item with a key is a mapping of one entry; if the key is left
out, so is the sign behind it. -/
def flowItems? : Nat → Bool → List Yaml → List Token → Option (Yaml × List Token)
  | 0, _, _, _ => none
  | fuel + 1, first, done, tokens =>
    match first, tokens with
    | _, .closeSequence :: rest => some (seq done.reverse, rest)
    | false, .comma :: rest => flowItem? fuel done rest
    | false, _ => none
    | true, rest => flowItem? fuel done rest

/-- Reads an item of a flow sequence and those behind it. -/
def flowItem? : Nat → List Yaml → List Token → Option (Yaml × List Token)
  | 0, _, _ => none
  | fuel + 1, done, tokens =>
    match tokens with
    | .closeSequence :: rest => some (seq done.reverse, rest)
    | .key :: rest =>
      let key :=
        if comesNext [.value, .comma, .closeSequence] rest then some (empty, rest.drop 1)
        else node? fuel false false rest
      match key with
      | some (key, rest) =>
        match flowValue? fuel .closeSequence rest with
        | some (value, rest) => flowItems? fuel false (map [(key, value)] :: done) rest
        | none => none
      | none => none
    | _ =>
      match node? fuel false false tokens with
      | some (item, rest) => flowItems? fuel false (item :: done) rest
      | none => none

/-- Reads the entries of a flow mapping up to its brace; all but the first come
behind a comma. -/
def flowEntries? : Nat → Bool → List (Yaml × Yaml) → List Token → Option (Yaml × List Token)
  | 0, _, _, _ => none
  | fuel + 1, first, done, tokens =>
    match first, tokens with
    | _, .closeMapping :: rest => some (map done.reverse, rest)
    | false, .comma :: rest => flowEntry? fuel done rest
    | false, _ => none
    | true, rest => flowEntry? fuel done rest

/-- Reads an entry of a flow mapping and those behind it. -/
def flowEntry? : Nat → List (Yaml × Yaml) → List Token → Option (Yaml × List Token)
  | 0, _, _ => none
  | fuel + 1, done, tokens =>
    match tokens with
    | .closeMapping :: rest => some (map done.reverse, rest)
    | .key :: rest =>
      let key :=
        if comesNext [.value, .comma, .closeMapping] rest then some (empty, rest)
        else node? fuel false false rest
      match key with
      | some (key, rest) =>
        match flowValue? fuel .closeMapping rest with
        | some (value, rest) => flowEntries? fuel false ((key, value) :: done) rest
        | none => none
      | none => none
    | _ =>
      match node? fuel false false tokens with
      | some (key, rest) => flowEntries? fuel false ((key, empty) :: done) rest
      | none => none

end

/-- Reads the node of the document in front of a list of tokens. -/
def document? (tokens : List Token) : Option (Yaml × List Token) :=
  let fuel := 4 * tokens.length + 4
  match tokens with
  | [] => some (empty, [])
  | .documentStart :: rest =>
    if rest.isEmpty || comesNext [.documentStart, .documentEnd] rest then some (empty, rest)
    else node? fuel true false rest
  | _ => node? fuel true false tokens

/-- Reads a text that holds one document or none. -/
def read? (text : String) : Option Yaml := do
  let cs := text.toList
  if cs.all isAllowedChar then
    let (node, rest) ← document? (← tokens? (normalizeBreaks cs))
    if rest.all (· = .documentEnd) then some node else none
  else none

end EntityMap.Yaml
