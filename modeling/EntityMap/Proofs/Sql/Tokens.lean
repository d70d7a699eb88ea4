import Mathlib.Data.List.SplitBy
import EntityMap.Proofs.Sql.Lexing

/-!
# Tokens

The words among lexemes. Neighbouring signs are one word if both are letters,
digits or underscores, or if both belong to the signs of comparisons;
spaces are nothing but an end to words. A word that the grammar of conditions
has a use for is a token of its own, and any other one is an alias or a
number (`tokens`).

Words end at every sign that belongs to none, so that the tokens of pieces are
those of the parts before and behind a text that begins and ends with such a
sign (`pieceTokens_append`).
-/

namespace EntityMap

namespace Sql

/-- A token of a condition. -/
inductive Token where
  | name (s : String)
  | value (v : Value)
  | operator (op : Operator)
  | is
  | not
  | null
  | isIn
  | opening
  | closing
  | comma
  | dot
  /-- Any other word, such as an alias or a number. -/
  | word (s : String)
  deriving DecidableEq, Repr

/-- The words that are not for aliases and numbers. -/
def keywords : List (String × Token) :=
  [("OR", .operator .or), ("AND", .operator .and), ("=", .operator .eq), ("<>", .operator .notEq),
    ("<", .operator .lt), ("<=", .operator .ltEq), (">", .operator .gt), (">=", .operator .gtEq),
    ("LIKE", .operator .like), ("IS", .is), ("NOT", .not), ("NULL", .null), ("IN", .isIn),
    ("(", .opening), (")", .closing), (",", .comma), (".", .dot)]

namespace Token

def ofWord (s : String) : Token :=
  (keywords.lookup s).getD (.word s)

/-- The tokens of lexemes that belong together. -/
def ofGroup (group : List (Lexeme Value)) : List Token :=
  match group with
  | [.name s] => [.name s]
  | [.hole v] => [.value v]
  | signs =>
    let word := String.ofList (signs.filterMap Lexeme.sign?)
    if word = " " then [] else [ofWord word]

end Token

def isWordSign (c : Char) : Bool :=
  c.isAlphanum || c = '_'

def isComparisonSign (c : Char) : Bool :=
  c = '=' || c = '<' || c = '>'

/-- Whether two lexemes that are neighbours belong to one word. -/
def joined : Lexeme Value → Lexeme Value → Bool
  | .sign c, .sign d => isWordSign c && isWordSign d || isComparisonSign c && isComparisonSign d
  | _, _ => false

def tokens (ls : List (Lexeme Value)) : List Token :=
  (ls.splitBy joined).flatMap Token.ofGroup

/-- The tokens that pieces are read as. -/
def pieceTokens (ps : List Piece) : List Token :=
  tokens (ps.flatMap Piece.lexemes)

/-! ## Where words end -/

/-- A sign that ends the words on both sides. -/
def isSeparator (c : Char) : Bool :=
  !isWordSign c && !isComparisonSign c

theorem joined_separator_left {c : Char} (h : isSeparator c) (l : Lexeme Value) :
    joined (.sign c) l = false := by
  cases l <;> simp_all [joined, isSeparator]

theorem joined_separator_right {c : Char} (h : isSeparator c) (l : Lexeme Value) :
    joined l (.sign c) = false := by
  cases l <;> simp_all [joined, isSeparator]

theorem tokens_append_separator {c : Char} (h : isSeparator c) (ls ms : List (Lexeme Value)) :
    tokens (ls ++ .sign c :: ms) = tokens ls ++ tokens (.sign c :: ms) := by
  rw [tokens, List.splitBy_append_cons ms fun l _ => joined_separator_right h l,
    List.flatMap_append]
  rfl

theorem tokens_separator_append {c : Char} (h : isSeparator c) (ls ms : List (Lexeme Value)) :
    tokens (ls ++ [.sign c] ++ ms) = tokens (ls ++ [.sign c]) ++ tokens ms := by
  rw [tokens, List.splitBy_append, List.flatMap_append]
  · rfl
  · intro l hl m _
    rw [List.getLast?_concat, Option.mem_some_iff] at hl
    exact hl ▸ joined_separator_left h m

theorem pieceTokens_append_text {ps qs : List Piece} {s : String}
    (hs : s.toList.head?.any isSeparator) :
    pieceTokens (ps ++ .text s :: qs) = pieceTokens ps ++ pieceTokens (.text s :: qs) := by
  obtain ⟨c, hhead, hc⟩ := (Option.any_eq_true _ _).mp hs
  obtain ⟨cs, hcs⟩ := List.head?_eq_some_iff.mp hhead
  simp only [pieceTokens, List.flatMap_append, List.flatMap_cons, Piece.lexemes, hcs,
    List.map_cons, List.cons_append]
  exact tokens_append_separator hc _ _

theorem pieceTokens_text_append {qs : List Piece} {s : String}
    (hs : s.toList.getLast?.any isSeparator) :
    pieceTokens (.text s :: qs) = pieceTokens [.text s] ++ pieceTokens qs := by
  obtain ⟨c, hlast, hc⟩ := (Option.any_eq_true _ _).mp hs
  obtain ⟨cs, hcs⟩ := List.getLast?_eq_some_iff.mp hlast
  simp only [pieceTokens, List.flatMap_cons, List.flatMap_nil, Piece.lexemes, hcs, List.map_append,
    List.map_cons, List.map_nil, List.append_nil]
  exact tokens_separator_append hc _ _

/-- A text that ends words on both sides is read by itself. -/
theorem pieceTokens_append_text_append {ps qs : List Piece} {s : String}
    (hfirst : s.toList.head?.any isSeparator) (hlast : s.toList.getLast?.any isSeparator) :
    pieceTokens (ps ++ [.text s] ++ qs) =
      pieceTokens ps ++ pieceTokens [.text s] ++ pieceTokens qs := by
  rw [List.append_assoc, List.singleton_append, pieceTokens_append_text hfirst,
    pieceTokens_text_append hlast, List.append_assoc]

/-! ## Aliases -/

theorem toList_nodeAlias (node : Nat) : (nodeAlias node).toList = 't' :: Nat.toDigits 10 node := by
  have hdigits : (toString node).toList = Nat.toDigits 10 node := Nat.toList_repr
  rw [nodeAlias, String.toList_append, hdigits]
  rfl

theorem Token.ofGroup_signs (cs : List Char) :
    ofGroup (cs.map .sign) =
      if String.ofList cs = " " then [] else [ofWord (String.ofList cs)] := by
  have hsigns : (cs.map (Lexeme.sign : Char → Lexeme Value)).filterMap Lexeme.sign? = cs := by
    simp [List.filterMap_map, Function.comp_def, Lexeme.sign?]
  unfold ofGroup
  split
  case h_1 h => cases cs <;> simp at h
  case h_2 h => cases cs <;> simp at h
  case h_3 => rw [hsigns]

/-- An alias is not mistaken for a keyword. -/
theorem Token.ofWord_nodeAlias (node : Nat) : ofWord (nodeAlias node) = .word (nodeAlias node) := by
  have hkeywords : ∀ p ∈ keywords, p.1.toList.head? ≠ some 't' := by decide
  have hnone : keywords.lookup (nodeAlias node) = none := by
    refine List.lookup_eq_none_iff.mpr fun p hp => ?_
    rw [bne_iff_ne]
    intro heq
    have hhead := hkeywords p hp
    rw [← heq, toList_nodeAlias] at hhead
    exact hhead rfl
  rw [ofWord, hnone]
  rfl

theorem tokens_nodeAlias (node : Nat) :
    tokens ((nodeAlias node).toList.map .sign) = [.word (nodeAlias node)] := by
  have hsigns : ∀ c ∈ (nodeAlias node).toList, isWordSign c := by
    rw [toList_nodeAlias]
    refine List.forall_mem_cons.mpr ⟨by decide, fun c hc => ?_⟩
    have hdigit := Nat.isDigit_of_mem_toDigits (by decide) (by decide) hc
    simp [isWordSign, Char.isAlphanum, hdigit]
  have hchain : ((nodeAlias node).toList.map Lexeme.sign).IsChain
      fun l m => joined (l : Lexeme Value) m := by
    refine (List.pairwise_map.mpr (List.pairwise_of_forall_mem_list fun c hc d hd => ?_)).isChain
    simp [joined, hsigns c hc, hsigns d hd]
  have hspace : nodeAlias node ≠ " " := by
    rw [Ne, ← String.toList_inj, toList_nodeAlias]
    exact fun h => absurd (List.cons.inj h).1 (by decide)
  rw [tokens, List.splitBy_of_isChain (by simp [toList_nodeAlias]) hchain, List.flatMap_singleton,
    Token.ofGroup_signs, String.ofList_toList, if_neg hspace, Token.ofWord_nodeAlias]

theorem pieceTokens_column (node : Nat) (name : String) :
    pieceTokens (column node name) = [.word (nodeAlias node), .dot, .name name] := by
  have hlexemes : (column node name).flatMap Piece.lexemes =
      (nodeAlias node).toList.map .sign ++ [.sign '.', .name name] := by
    simp [column, Piece.lexemes]
  rw [pieceTokens, hlexemes, tokens_append_separator (by decide), tokens_nodeAlias]
  rfl

end Sql

end EntityMap
