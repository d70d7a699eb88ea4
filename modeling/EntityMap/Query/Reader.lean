import EntityMap.Document
import EntityMap.Json.Reader
import EntityMap.Query.Plan

/-!
# Reading requests and plans

Requests and plans are written as JSON. A choice is an object with one
field, or a word when it carries nothing; the fields of a request may be
left out, those of a plan may not.

A request is read from a document, or right from its text. In the text
what the request passes over need not denote anything, and may nest to
any depth, but its conditions may not.
-/

namespace EntityMap

open Document

section Requests

variable {δ : Type} [Document δ]

def Operator.read? (d : δ) : Option Operator :=
  match choice? d with
  | some ("and", payload) => unit? .and payload
  | some ("or", payload) => unit? .or payload
  | some ("eq", payload) => unit? .eq payload
  | some ("not_eq", payload) => unit? .notEq payload
  | some ("lt", payload) => unit? .lt payload
  | some ("lt_eq", payload) => unit? .ltEq payload
  | some ("gt", payload) => unit? .gt payload
  | some ("gt_eq", payload) => unit? .gtEq payload
  | some ("like", payload) => unit? .like payload
  | _ => none

/-- The words for the three kinds of conditions. -/
structure ConditionWords where
  binary : String
  member : String
  literal : String

/-- The words of requests. -/
def Filter.words : ConditionWords := ⟨"binary", "member", "literal"⟩

/-- The words of plans. -/
def BoundFilter.words : ConditionWords := ⟨"Binary", "Column", "Literal"⟩

/-- Reads a condition that is nested no deeper than `depth`. -/
def Condition.readTo? {α : Type} (words : ConditionWords) (readMember : δ → Option α) :
    Nat → δ → Option (Condition α)
  | 0, _ => none
  | depth + 1, d => do
    let (word, payload) ← choice? d
    let content ← payload
    if word = words.binary then
      let fields ← record? ["op", "left", "right"] content
      let op ← fields.required? "op" Operator.read?
      let left ← fields.required? "left" (readTo? words readMember depth)
      let right ← fields.required? "right" (readTo? words readMember depth)
      return .binary op left right
    else if word = words.member then return .member (← readMember content)
    else if word = words.literal then return .literal (← literal? content)
    else none

/-! ## Requests -/

/-- Reads a filter whose conditions nest no deeper than `depth`. -/
def Filter.readTo? (depth : Nat) (d : δ) : Option Filter :=
  Condition.readTo? Filter.words text? depth d

def SortDirection.read? (d : δ) : Option SortDirection :=
  match choice? d with
  | some ("asc", payload) => unit? .asc payload
  | some ("desc", payload) => unit? .desc payload
  | _ => none

def Order.read? (d : δ) : Option Order := do
  let fields ← record? ["path", "direction"] d
  some
    { path := ← fields.required? "path" text?
      direction := ← fields.default? "direction" .asc SortDirection.read? }

def Modifiers.read? (d : δ) : Option Modifiers := do
  let fields ← record? ["distinct", "top", "skip", "take"] d
  some
    { distinct := ← fields.default? "distinct" false bool?
      top := ← fields.optional? "top" natural?
      skip := ← fields.optional? "skip" natural?
      take := ← fields.optional? "take" natural? }

def Projection.read? (d : δ) : Option Projection := do
  let fields ← record? ["path", "alias"] d
  some { path := ← fields.required? "path" text?, label := ← fields.required? "alias" text? }

def Selection.read? (d : δ) : Option Selection :=
  match choice? d with
  | some ("all_columns", some content) => do
    let fields ← record? ["includes"] content
    some (.allColumns (← fields.default? "includes" [] (listOf? text?)))
  | some ("projection", some content) => (listOf? Projection.read? content).map .projection
  | _ => none

/-- Reads a request whose conditions nest no deeper than `depth`. -/
def Request.readTo? (depth : Nat) (d : δ) : Option Request := do
  let fields ← record? ["selection", "filter", "order_by", "modifiers"] d
  some
    { selection := ← fields.default? "selection" (.allColumns []) Selection.read?
      filter := ← fields.optional? "filter" (Filter.readTo? depth)
      orderBy := ← fields.default? "order_by" [] (listOf? Order.read?)
      modifiers := ← fields.default? "modifiers" {} Modifiers.read? }

end Requests

def Filter.read? (j : Json) : Option Filter :=
  Filter.readTo? j.depth j

def Request.read? (j : Json) : Option Request :=
  Request.readTo? j.depth j

/-- How deep the conditions of a request text may nest: the request and every
condition take one level of `Json.maxDepth`, and every operator one more. -/
def Request.maxConditionDepth : Nat := 63

/-- Reads a request from its text. -/
def Request.ofText? (text : String) : Option Request :=
  (Json.Raw.read? text).bind (Request.readTo? Request.maxConditionDepth)

/-! ## Plans -/

def NodeColumn.read? (j : Json) : Option NodeColumn := do
  let fields ← record? ["node", "member", "column", "alias"] j
  some
    { node := ← fields.required? "node" natural?
      member := ← fields.required? "member" text?
      column := ← fields.required? "column" text?
      label := ← fields.nullable? "alias" text? }

def BoundFilter.read? (j : Json) : Option BoundFilter :=
  Condition.readTo? BoundFilter.words NodeColumn.read? j.depth j

def TableSource.read? (j : Json) : Option TableSource := do
  let fields ← record? ["node", "entity", "table"] j
  some
    { node := ← fields.required? "node" natural?
      entity := ← fields.required? "entity" text?
      table := ← fields.required? "table" text? }

def JoinKind.read? (j : Json) : Option JoinKind :=
  match choice? j with
  | some ("Inner", payload) => unit? .inner payload
  | some ("Left", payload) => unit? .left payload
  | _ => none

def Join.read? (j : Json) : Option Join := do
  let fields ← record? ["node", "table", "node_column", "source", "source_column", "join_type"] j
  some
    { node := ← fields.required? "node" natural?
      table := ← fields.required? "table" text?
      nodeColumn := ← fields.required? "node_column" text?
      source := ← fields.required? "source" natural?
      sourceColumn := ← fields.required? "source_column" text?
      kind := ← fields.required? "join_type" JoinKind.read? }

def KeyRestriction.read? (j : Json) : Option KeyRestriction := do
  let fields ← record? ["column", "keys"] j
  some
    { column := ← fields.required? "column" NodeColumn.read?
      keys := ← fields.required? "keys" (listOf? literal?) }

def OrderTerm.read? (j : Json) : Option OrderTerm := do
  let fields ← record? ["column", "direction"] j
  some
    { column := ← fields.required? "column" NodeColumn.read?
      direction := ← fields.required? "direction" SortDirection.read? }

def Plan.read? (j : Json) : Option Plan := do
  let fields ← record? ["target", "target_key", "base", "select", "joins", "filter",
    "key_restriction", "order_by", "modifiers", "inverted_nodes"] j
  some
    { target := ← fields.required? "target" natural?
      targetKey := ← fields.required? "target_key" NodeColumn.read?
      base := ← fields.required? "base" TableSource.read?
      select := ← fields.required? "select" (listOf? NodeColumn.read?)
      joins := ← fields.required? "joins" (listOf? Join.read?)
      filter := ← fields.nullable? "filter" BoundFilter.read?
      keyRestriction := ← fields.nullable? "key_restriction" KeyRestriction.read?
      orderBy := ← fields.required? "order_by" (listOf? OrderTerm.read?)
      modifiers := ← fields.required? "modifiers" Modifiers.read?
      invertedNodes := ← fields.required? "inverted_nodes" (listOf? natural?) }

end EntityMap
