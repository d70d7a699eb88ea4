import Mathlib.Data.List.Basic
import EntityMap.Sql.Query

/-!
# The lexemes of a statement

How the text of a statement is read, without knowledge of the pieces that it
was put together from. A `Lexer` takes the characters one by one. A mark
begins a name, and the name ends at the next mark that is not doubled. A
question mark outside of names is a hole for a parameter, and any other
character outside of names is a sign.

`Statement.lexemes?` also puts the parameters into the holes, the first into
the first and so on; there have to be as many of the one as of the other. The
main result, `Statement.lexemes?_ofPieces`, says that pieces are read as they
were meant, whatever characters the names have, as long as the fixed texts
have none of the two marks and no name follows another at once (`Spaced`).
-/

namespace EntityMap

namespace Sql

/-- What a text consists of, with something of type `α` in the place of each hole. -/
inductive Lexeme (α : Type) where
  | sign (c : Char)
  | name (s : String)
  | hole (a : α)
  deriving DecidableEq, Repr

namespace Lexeme

variable {α : Type}

def sign? : Lexeme α → Option Char
  | sign c => some c
  | _ => none

def name? : Lexeme α → Option String
  | name s => some s
  | _ => none

def hole? : Lexeme α → Option α
  | hole a => some a
  | _ => none

/-- A lexeme as it stands in a text, where holes are all alike. -/
def blank : Lexeme α → Lexeme Unit
  | sign c => sign c
  | name s => name s
  | hole _ => hole ()

/-- The names and holes among lexemes. -/
def marks (ls : List (Lexeme α)) : List (Lexeme α) :=
  ls.filter fun
    | sign _ => false
    | _ => true

/-- Puts values into the holes, of which there have to be as many. -/
def fill : List (Lexeme Unit) → List α → Option (List (Lexeme α))
  | [], [] => some []
  | [], _ :: _ => none
  | sign c :: rest, values => (sign c :: ·) <$> fill rest values
  | name s :: rest, values => (name s :: ·) <$> fill rest values
  | hole () :: rest, v :: values => (hole v :: ·) <$> fill rest values
  | hole () :: _, [] => none

theorem fill_blank (ls : List (Lexeme α)) :
    fill (ls.map blank) (ls.filterMap hole?) = some ls := by
  induction ls with
  | nil => rfl
  | cons l ls ih => cases l <;> simp [fill, blank, hole?, ih, List.filterMap_cons]

theorem filterMap_name?_blank (ls : List (Lexeme α)) :
    (ls.map blank).filterMap name? = ls.filterMap name? := by
  rw [List.filterMap_map]
  congr 1
  funext l
  cases l <;> rfl

theorem length_holes_blank (ls : List (Lexeme α)) :
    ((ls.map blank).filterMap hole?).length = (ls.filterMap hole?).length := by
  rw [List.filterMap_map, List.length_filterMap_eq_countP, List.length_filterMap_eq_countP]
  congr 1
  funext l
  cases l <;> rfl

theorem filterMap_marks {β : Type} {f : Lexeme α → Option β} (hf : ∀ c, f (sign c) = none)
    (ls : List (Lexeme α)) : (marks ls).filterMap f = ls.filterMap f := by
  rw [marks, List.filterMap_filter]
  congr 1
  funext l
  cases l with
  | sign c => exact (hf c).symm
  | name s => rfl
  | hole a => rfl

end Lexeme

/-! ## The lexer -/

/-- Where a lexer stands. -/
inductive Place where
  | outside
  /-- In a name of which some characters are read. -/
  | inside (read : List Char)
  /-- Behind a mark in a name, which ends the name unless another mark follows. -/
  | behindMark (read : List Char)
  deriving DecidableEq, Repr

/-- The lexemes read so far, and the place. -/
structure Lexer where
  lexemes : List (Lexeme Unit)
  place : Place
  deriving DecidableEq, Repr

namespace Lexer

/-- Reads a character that is not part of a name. -/
def outside (ls : List (Lexeme Unit)) (c : Char) : Lexer :=
  if c = '"' then ⟨ls, .inside []⟩
  else if c = '?' then ⟨ls ++ [.hole ()], .outside⟩
  else ⟨ls ++ [.sign c], .outside⟩

def step (x : Lexer) (c : Char) : Lexer :=
  match x.place with
  | .outside => outside x.lexemes c
  | .inside read =>
    if c = '"' then ⟨x.lexemes, .behindMark read⟩ else ⟨x.lexemes, .inside (read ++ [c])⟩
  | .behindMark read =>
    if c = '"' then ⟨x.lexemes, .inside (read ++ [c])⟩
    else outside (x.lexemes ++ [.name (String.ofList read)]) c

/-- The lexemes of a text that is at its end, if no name is left open. -/
def finish (x : Lexer) : Option (List (Lexeme Unit)) :=
  match x.place with
  | .outside => some x.lexemes
  | .inside _ => none
  | .behindMark read => some (x.lexemes ++ [.name (String.ofList read)])

def run (x : Lexer) (text : String) : Lexer :=
  text.toList.foldl step x

end Lexer

/-- The lexemes of a text, unless it ends in an unfinished name. -/
def lex (text : String) : Option (List (Lexeme Unit)) :=
  (Lexer.run ⟨[], .outside⟩ text).finish

end Sql

/-- The lexemes of a statement with its parameters in the holes of its text. -/
def Statement.lexemes? (s : Statement) : Option (List (Sql.Lexeme Value)) :=
  (Sql.lex s.sql).bind (Sql.Lexeme.fill · s.parameters)

/-! ## Pieces -/

namespace Sql

/-- A text that is there, and has neither names nor holes. -/
def Plain (s : String) : Prop :=
  s ≠ "" ∧ s.toList.all fun c => c != '"' && c != '?'

instance (s : String) : Decidable (Plain s) :=
  inferInstanceAs (Decidable (_ ∧ _))

theorem plain_iff {s : String} : Plain s ↔ s ≠ "" ∧ ∀ c ∈ s.toList, c ≠ '"' ∧ c ≠ '?' := by
  simp [Plain]

namespace Plain

theorem append {s t : String} (hs : Plain s) (ht : Plain t) : Plain (s ++ t) := by
  refine ⟨fun h => hs.1 (String.append_eq_empty_iff.mp h).1, ?_⟩
  rw [String.toList_append, List.all_append, hs.2, ht.2, Bool.and_true]

theorem toString (n : Nat) : Plain (toString n) := by
  have htext : (ToString.toString n).toList = Nat.toDigits 10 n := Nat.toList_repr
  refine plain_iff.mpr ⟨?_, ?_⟩
  · intro h
    rw [h] at htext
    exact Nat.toDigits_ne_nil htext.symm
  · intro c hc
    rw [htext] at hc
    have hdigit := Nat.isDigit_of_mem_toDigits (by decide) (by decide) hc
    constructor <;> rintro rfl <;> simp at hdigit

theorem nodeAlias (node : Nat) : Plain (nodeAlias node) :=
  append (by decide) (toString node)

end Plain

/-- The lexemes that a piece is meant as. -/
def Piece.lexemes : Piece → List (Lexeme Value)
  | text s => s.toList.map .sign
  | name s => [.name s]
  | parameter v => [.hole v]

/-- Pieces of which no text can be mistaken for something else, and no name for a part of
the name before it. -/
def Spaced : List Piece → Prop
  | [] => True
  | .text s :: rest => Plain s ∧ Spaced rest
  | .name _ :: rest => (∀ s, rest.head? ≠ some (.name s)) ∧ Spaced rest
  | .parameter _ :: rest => Spaced rest

/-- Spaced pieces that may stand behind any others, since they do not begin with a name. -/
def Loose (ps : List Piece) : Prop :=
  (∀ s, ps.head? ≠ some (.name s)) ∧ Spaced ps

namespace Spaced

@[simp] theorem nil : Spaced [] :=
  trivial

@[simp] theorem text {s : String} {rest : List Piece} :
    Spaced (.text s :: rest) ↔ Plain s ∧ Spaced rest :=
  Iff.rfl

@[simp] theorem parameter {v : Value} {rest : List Piece} :
    Spaced (.parameter v :: rest) ↔ Spaced rest :=
  Iff.rfl

@[simp] theorem name {s : String} {rest : List Piece} :
    Spaced (.name s :: rest) ↔ Loose rest :=
  Iff.rfl

end Spaced

namespace Loose

@[simp] theorem nil : Loose [] :=
  ⟨by simp, trivial⟩

@[simp] theorem text {s : String} {rest : List Piece} :
    Loose (.text s :: rest) ↔ Plain s ∧ Spaced rest := by
  simp [Loose]

@[simp] theorem parameter {v : Value} {rest : List Piece} :
    Loose (.parameter v :: rest) ↔ Spaced rest := by
  simp [Loose]

end Loose

theorem Spaced.append {ps qs : List Piece} (hp : Spaced ps) (hq : Loose qs) :
    Spaced (ps ++ qs) := by
  induction ps with
  | nil => exact hq.2
  | cons p ps ih =>
    cases p with
    | text s => exact ⟨hp.1, ih hp.2⟩
    | parameter v => exact ih hp
    | name s =>
      refine ⟨fun t => ?_, ih hp.2⟩
      cases ps with
      | nil => exact hq.1 t
      | cons p ps => exact hp.1 t

theorem Loose.append {ps qs : List Piece} (hp : Loose ps) (hq : Loose qs) :
    Loose (ps ++ qs) := by
  refine ⟨fun s => ?_, hp.2.append hq⟩
  cases ps with
  | nil => exact hq.1 s
  | cons p ps => exact hp.1 s

theorem Loose.flatMap {α : Type} {f : α → List Piece} (h : ∀ a, Loose (f a)) (l : List α) :
    Loose (l.flatMap f) := by
  induction l with
  | nil => exact .nil
  | cons a l ih => exact (h a).append ih

/-- Spaced parts with a separator between them are spaced. -/
theorem Spaced.intercalate {separator : String} (hs : Plain separator) {parts : List (List Piece)}
    (h : ∀ p ∈ parts, Spaced p) : Spaced ([.text separator].intercalate parts) := by
  induction parts with
  | nil => exact .nil
  | cons p parts ih =>
    obtain ⟨hp, hrest⟩ := List.forall_mem_cons.mp h
    cases parts with
    | nil => simpa using hp
    | cons q parts =>
      rw [List.intercalate_cons_cons, List.append_assoc]
      exact hp.append (Loose.text.mpr ⟨hs, ih hrest⟩)

namespace Lexer

theorem run_append (x : Lexer) (s t : String) : x.run (s ++ t) = (x.run s).run t := by
  simp [run]

/-- Outside of names, a plain text is read sign by sign. -/
theorem run_signs {ls : List (Lexeme Unit)} {cs : List Char}
    (h : ∀ c ∈ cs, c ≠ '"' ∧ c ≠ '?') :
    cs.foldl step ⟨ls, .outside⟩ = ⟨ls ++ cs.map .sign, .outside⟩ := by
  induction cs generalizing ls with
  | nil => simp
  | cons c cs ih =>
    obtain ⟨⟨hmark, hhole⟩, hrest⟩ := List.forall_mem_cons.mp h
    rw [List.foldl_cons, step]
    simp [outside, hmark, hhole, ih hrest]

/-- The rest of a name is read up to the mark that ends it. -/
theorem run_name {ls : List (Lexeme Unit)} (read cs : List Char) :
    (doubleMarks cs ++ ['"']).foldl step ⟨ls, .inside read⟩ = ⟨ls, .behindMark (read ++ cs)⟩ := by
  induction cs generalizing read with
  | nil => simp [doubleMarks, step]
  | cons c cs ih =>
    by_cases hc : c = '"'
    · simp [doubleMarks, step, hc, ih]
    · simp [doubleMarks, step, hc, ih]

/-- A character other than a mark ends what stands before it. -/
theorem step_of_finish {x : Lexer} {ls : List (Lexeme Unit)} {c : Char}
    (hx : x.finish = some ls) (hc : c ≠ '"') : x.step c = outside ls c := by
  obtain ⟨read, place⟩ := x
  cases place with
  | outside => simp_all [finish, step]
  | inside cs => simp [finish] at hx
  | behindMark cs => simp_all [finish, step]

/-- Behind what is finished, a plain text is read sign by sign. -/
theorem run_plain {x : Lexer} {ls : List (Lexeme Unit)} {s : String} (hx : x.finish = some ls)
    (hs : Plain s) : x.run s = ⟨ls ++ s.toList.map .sign, .outside⟩ := by
  obtain ⟨c, cs, hchars⟩ : ∃ c cs, s.toList = c :: cs := by
    cases hchars : s.toList with
    | nil => exact absurd (String.toList_eq_nil_iff.mp hchars) hs.1
    | cons c cs => exact ⟨c, cs, rfl⟩
  have hplain := (plain_iff.mp hs).2
  rw [hchars] at hplain
  obtain ⟨⟨hmark, hhole⟩, hrest⟩ := List.forall_mem_cons.mp hplain
  rw [run, hchars, List.foldl_cons, step_of_finish hx hmark]
  simp [outside, hmark, hhole, run_signs hrest]

/-- A quoted name is read as the name. -/
theorem run_quote {ls : List (Lexeme Unit)} (name : String) :
    (run ⟨ls, .outside⟩ (quote name)).finish = some (ls ++ [.name name]) := by
  rw [run, quote, String.toList_ofList, List.cons_append, List.foldl_cons]
  have hopen : step ⟨ls, .outside⟩ '"' = ⟨ls, .inside []⟩ := rfl
  rw [hopen, run_name]
  simp [finish]

/-- Pieces are read as they are meant, from the end of a name only if they are loose. -/
theorem run_pieces {ps : List Piece} {x : Lexer} {ls : List (Lexeme Unit)} (hps : Spaced ps)
    (hx : x.finish = some ls) (hplace : x.place = .outside ∨ Loose ps) :
    (x.run (String.join (ps.map (·.sql)))).finish =
      some (ls ++ (ps.flatMap Piece.lexemes).map Lexeme.blank) := by
  -- A lexer learns only from the next character that a name has ended, so that the pieces
  -- before are known by what they would be if the text ended here.
  induction ps generalizing x ls with
  | nil => simpa [run] using hx
  | cons p ps ih =>
    rw [List.map_cons, String.join_cons, run_append]
    cases p with
    | text s =>
      rw [Piece.sql, run_plain hx hps.1, ih hps.2 rfl (.inl rfl)]
      simp [Piece.lexemes, Lexeme.blank, Function.comp_def]
    | parameter v =>
      have hhole : x.run "?" = ⟨ls ++ [.hole ()], .outside⟩ := step_of_finish hx (by decide)
      rw [Piece.sql, hhole, ih hps rfl (.inl rfl)]
      simp [Piece.lexemes, Lexeme.blank]
    | name s =>
      have houtside : x = ⟨ls, .outside⟩ := by
        obtain ⟨read, place⟩ := x
        rcases hplace with rfl | hloose
        · simp_all [finish]
        · exact absurd rfl (hloose.1 s)
      rw [Piece.sql, houtside, ih hps.2 (run_quote s) (.inr hps)]
      simp [Piece.lexemes, Lexeme.blank]

end Lexer

theorem lex_join {ps : List Piece} (h : Spaced ps) :
    lex (String.join (ps.map (·.sql))) =
      some ((ps.flatMap Piece.lexemes).map Lexeme.blank) := by
  rw [lex, Lexer.run_pieces h rfl (.inl rfl), List.nil_append]

example : lex "\"a\"\"?\" = ?" =
    some [.name "a\"?", .sign ' ', .sign '=', .sign ' ', .hole ()] := by decide

theorem filterMap_hole?_lexemes (ps : List Piece) :
    (ps.flatMap Piece.lexemes).filterMap Lexeme.hole? = ps.filterMap (·.parameter?) := by
  induction ps with
  | nil => rfl
  | cons p ps ih =>
    cases p <;>
      simp [ih, Piece.lexemes, Piece.parameter?, List.filterMap_cons, Lexeme.hole?,
        Function.comp_def]

end Sql

/-- Spaced pieces are read as they are meant, with the parameters in their places. -/
theorem Statement.lexemes?_ofPieces {ps : List Sql.Piece} (h : Sql.Spaced ps) :
    (Statement.ofPieces ps).lexemes? = some (ps.flatMap Sql.Piece.lexemes) := by
  rw [lexemes?, ofPieces, Sql.lex_join h, Option.bind_some, ← Sql.filterMap_hole?_lexemes,
    Sql.Lexeme.fill_blank]

end EntityMap
