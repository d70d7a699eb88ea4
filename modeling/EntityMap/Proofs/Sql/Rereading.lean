import EntityMap.Proofs.Sql.Alignment
import EntityMap.Proofs.Sql.Grammar

/-!
# Conditions read back

A test for null is written behind its operand, without parentheses. Where
the test is the right operand of a comparison, the comparison is read first
and the test is one of its result (`Expression.reread`): `(a = b IS NULL)` is
meant as `a = (b IS NULL)`. Every other place of a test is harmless, as the
left operand of a comparison, as an operand of another test or of `AND` and
`OR`, or beside a restriction to keys.

So the text of a condition, alone or joined with a restriction, is read as
exactly what it is meant as if and only if no comparison has a test for null
as its right operand (`Plan.condition_read_back_iff`).
-/

namespace EntityMap

namespace Sql

namespace Expression

/-- No comparison has a test for null as its right operand. -/
def Apart : Expression → Prop
  | binary op left right =>
    left.Apart ∧ right.Apart ∧ (op.isLogical ∨ ∀ negated operand, right ≠ nullTest negated operand)
  | nullTest _ operand => operand.Apart
  | _ => True

/-- A comparison with `right`, which by itself is read as `read`: tests for null at the end
of it are tests of the comparison. -/
def compared (op : Operator) (left : Expression) : Expression → Expression → Expression
  | nullTest _ right, nullTest negated read => nullTest negated (compared op left right read)
  | _, read => binary op left read

/-- What the text of a condition is read as that is meant as the given expression. -/
def reread : Expression → Expression
  | binary op left right =>
    if op.isLogical then binary op left.reread right.reread
    else compared op left.reread right right.reread
  | nullTest negated operand => nullTest negated operand.reread
  | e => e

theorem compared_of_ne {op : Operator} {left right : Expression}
    (h : ∀ negated operand, right ≠ nullTest negated operand) (read : Expression) :
    compared op left right read = binary op left read := by
  cases right with
  | nullTest negated operand => exact absurd rfl (h negated operand)
  | _ => rfl

theorem reread_eq_iff {e : Expression} : e.reread = e ↔ e.Apart := by
  induction e with
  | column nodeAlias name => simp [reread, Apart]
  | literal v => simp [reread, Apart]
  | constant word => simp [reread, Apart]
  | isIn operand values ih => simp [reread, Apart]
  | nullTest negated operand ih => simp [reread, Apart, ih]
  | binary op left right ihl ihr =>
    by_cases hop : op.isLogical
    · simp [reread, Apart, hop, ihl, ihr]
    · by_cases hright : ∃ negated operand, right = nullTest negated operand
      · obtain ⟨negated, operand, rfl⟩ := hright
        simp [reread, Apart, hop, compared]
      · push Not at hright
        simp [reread, Apart, hop, compared_of_ne hright, ihl, ihr, hright]

end Expression

/-- The tokens of a test for null. -/
def nullTestTokens (negated : Bool) : List Token :=
  if negated then [.is, .not, .null] else [.is, .null]

theorem Derives.nullTest {ts : List Token} {e : Expression} (negated : Bool) (h : Derives 2 ts e) :
    Derives 2 (ts ++ nullTestTokens negated) (.nullTest negated e) := by
  cases negated with
  | false => exact h.isNull
  | true => exact h.isNotNull

theorem Derives.comparison {op : Operator} (hop : ¬ op.isLogical) {ls rs : List Token}
    {l r : Expression} (left : Derives 2 ls l) (right : Derives 3 rs r) :
    Derives 2 (ls ++ [.operator op] ++ rs) (.binary op l r) := by
  have hlevel : bindingLevel op = 2 := by
    cases op <;> simp_all [Operator.isLogical, bindingLevel]
  rw [← hlevel]
  exact .binary (by rwa [hlevel]) (by rwa [hlevel])

theorem Derives.logical {op : Operator} (hop : op.isLogical) {ls rs : List Token}
    {l r : Expression} (left : Derives 2 ls l) (right : Derives 2 rs r) :
    Derives 0 (ls ++ [.operator op] ++ rs) (.binary op l r) := by
  have hlevel : bindingLevel op + 1 ≤ 2 := by
    cases op <;> simp_all [Operator.isLogical, bindingLevel]
  have hbinary := Derives.binary (left.mono (Nat.le_of_succ_le hlevel)) (right.mono hlevel)
  exact hbinary.mono (Nat.zero_le _)

theorem pieceTokens_nullTest (ps : List Piece) (negated : Bool) :
    pieceTokens (ps ++ [.text (nullTestText negated)]) =
      pieceTokens ps ++ nullTestTokens negated := by
  cases negated with
  | false => rw [pieceTokens_append_text (by decide)]; rfl
  | true => rw [pieceTokens_append_text (by decide)]; rfl

theorem pieceTokens_operator (ls rs : List Piece) (op : Operator) :
    pieceTokens (ls ++ [.text (" " ++ op.sql ++ " ")] ++ rs) =
      pieceTokens ls ++ [.operator op] ++ pieceTokens rs := by
  have htext : pieceTokens [.text (" " ++ op.sql ++ " ")] = [.operator op] := by
    cases op <;> decide
  rw [pieceTokens_append_text_append, htext]
  all_goals cases op <;> decide

theorem pieceTokens_group (ps : List Piece) :
    pieceTokens ([.text "("] ++ ps ++ [.text ")"]) =
      [.opening] ++ pieceTokens ps ++ [.closing] := by
  rw [pieceTokens_append_text (by decide), List.singleton_append,
    pieceTokens_text_append (by decide)]
  rfl

/-- How the tokens of a condition may be read: by themselves, and as the right operand of a
comparison. -/
structure Rereads (ts : List Token) (e : Expression) : Prop where
  alone : Derives 2 ts e.reread
  behind {op : Operator} (hop : ¬ op.isLogical) {ls : List Token} {l : Expression}
    (left : Derives 2 ls l) :
    Derives 2 (ls ++ [.operator op] ++ ts) (.compared op l e e.reread)

namespace Rereads

/-- What needs no parentheses is read as an operand anywhere. -/
theorem of_operand {ts : List Token} {e : Expression} (h : Derives 3 ts e.reread)
    (he : ∀ negated operand, e ≠ .nullTest negated operand) : Rereads ts e where
  alone := h.weaken
  behind hop ls l left := by
    rw [Expression.compared_of_ne he]
    exact .comparison hop left h

theorem nullTest {ts : List Token} {e : Expression} (negated : Bool) (h : Rereads ts e) :
    Rereads (ts ++ nullTestTokens negated) (.nullTest negated e) where
  alone := h.alone.nullTest negated
  behind hop ls l left := by
    rw [← List.append_assoc]
    exact (h.behind hop left).nullTest negated

theorem binary {op : Operator} {ls rs : List Token} {l r : Expression} (hl : Rereads ls l)
    (hr : Rereads rs r) :
    Rereads ([.opening] ++ (ls ++ [.operator op] ++ rs) ++ [.closing]) (.binary op l r) := by
  refine of_operand (.group ?_) fun _ _ h => by cases h
  rw [Expression.reread]
  split
  case isTrue hop => exact .logical hop hl.alone hr.alone
  case isFalse hop => exact (hr.behind hop hl.alone).mono (Nat.zero_le _)

end Rereads

/-- Every condition is read as its expression is. -/
theorem rereads_condition (c : BoundFilter) :
    Rereads (pieceTokens (condition c)) (BoundFilter.expression c) := by
  refine condition_induction (P := fun ps e => Rereads (pieceTokens ps) e)
    ?column ?literal ?nullTest ?binary c
  case column =>
    intro c
    rw [nodeColumn, pieceTokens_column]
    exact .of_operand (.column _ _) fun _ _ h => by cases h
  case literal =>
    intro v
    exact .of_operand (.literal v) fun _ _ h => by cases h
  case nullTest =>
    intro negated ps e h
    rw [pieceTokens_nullTest]
    exact h.nullTest negated
  case binary =>
    intro op ls l rs r hl hr
    have hgroup : [.text "("] ++ ls ++ [.text (" " ++ op.sql ++ " ")] ++ rs ++ [.text ")"] =
        [.text "("] ++ (ls ++ [.text (" " ++ op.sql ++ " ")] ++ rs) ++ [Piece.text ")"] := by
      simp
    rw [hgroup, pieceTokens_group, pieceTokens_operator]
    exact hl.binary hr

theorem pieceTokens_values (v : Value) (vs : List Value) :
    pieceTokens (commaSeparated ((v :: vs).map fun v => [.parameter v])) =
      .value v :: vs.flatMap fun v => [.comma, .value v] := by
  induction vs generalizing v with
  | nil => rfl
  | cons w vs ih =>
    have hhead : commaSeparated ((v :: w :: vs).map fun v => [Piece.parameter v]) =
        [.parameter v] ++ [.text ", "] ++
          commaSeparated ((w :: vs).map fun v => [.parameter v]) := by
      simp [commaSeparated, List.intercalate_cons_cons]
    rw [hhead, pieceTokens_append_text_append (by decide) (by decide), ih]
    rfl

theorem derives_restriction (r : KeyRestriction) :
    Derives 2 (pieceTokens (restriction r)) r.expression := by
  unfold restriction KeyRestriction.expression
  split
  case isTrue => exact .comparison (by decide) (.weaken (.constant "1")) (.constant "0")
  case isFalse h =>
    obtain ⟨v, vs, hkeys⟩ := List.exists_cons_of_ne_nil (mt List.isEmpty_iff.mpr h)
    rw [pieceTokens_append_text (by decide), pieceTokens_append_text_append (by decide) (by decide),
      hkeys, pieceTokens_values, nodeColumn, pieceTokens_column]
    exact .isIn v vs (.weaken (.column _ _))

end Sql

open Sql (Piece Spaced Expression)

/-- The text of a statement is read as the expression, with the parameters in their places. -/
def Statement.ReadsAs (s : Statement) (e : Expression) : Prop :=
  ∃ ls, s.lexemes? = some ls ∧ Sql.Derives 0 (Sql.tokens ls) e

theorem Statement.readsAs_iff {ps : List Piece} {e : Expression} (hspaced : Spaced ps)
    (h : Sql.Derives 0 (Sql.pieceTokens ps) e) {e' : Expression} :
    (Statement.ofPieces ps).ReadsAs e' ↔ e' = e := by
  rw [ReadsAs, lexemes?_ofPieces hspaced]
  constructor
  · rintro ⟨ls, hls, h'⟩
    cases hls
    exact h'.unique h
  · rintro rfl
    exact ⟨_, rfl, h⟩

namespace Plan

/-- The condition in a plan's statement, which stands behind `WHERE`. -/
def condition (p : Plan) : Statement :=
  .ofPieces ([.text " AND "].intercalate (Sql.conditions p))

/-- What the condition in a plan's statement is meant as, if there is one. -/
def meaning? (p : Plan) : Option Expression :=
  match p.conditions with
  | [] => none
  | e :: es => some (es.foldl (.binary .and) e)

/-- The condition of a plan is read as one expression and no other. -/
theorem readsAs_condition_iff {p : Plan} {c : BoundFilter} (hc : p.filter = some c)
    {e : Expression} :
    p.condition.ReadsAs e ↔ e = (p.keyRestriction.map KeyRestriction.expression).toList.foldl
      (.binary .and) (BoundFilter.expression c).reread := by
  have hspaced : Spaced ([.text " AND "].intercalate (Sql.conditions p)) :=
    .intercalate (by decide) fun part hpart => (Sql.loose_conditions p part hpart).2
  refine Statement.readsAs_iff hspaced ?_
  have halone := (Sql.rereads_condition c).alone
  cases hr : p.keyRestriction with
  | none => simpa [Sql.conditions, hc, hr] using halone.mono (Nat.zero_le 2)
  | some r =>
    have hpieces : [.text " AND "].intercalate (Sql.conditions p) =
        Sql.condition c ++ [.text (" " ++ Operator.and.sql ++ " ")] ++ Sql.restriction r := by
      have hword : " " ++ Operator.and.sql ++ " " = " AND " := by decide
      simp [Sql.conditions, hc, hr, List.intercalate_cons_cons, hword]
    rw [hpieces, Sql.pieceTokens_operator]
    exact .logical rfl halone (Sql.derives_restriction r)

/-- The condition stands in the statement, and has all of its parameters. -/
theorem statement_condition {style : LimitStyle} {p : Plan} {s : Statement}
    (hs : p.statement style = .ok s) (hp : p.filter ≠ none) :
    (∃ before after, s.sql = before ++ " WHERE " ++ p.condition.sql ++ after) ∧
      s.parameters = p.condition.parameters := by
  unfold statement at hs
  split at hs
  · cases hs
  cases hs
  have hwhere : Sql.clause " WHERE " " AND " (Sql.conditions p) =
      .text " WHERE " :: [.text " AND "].intercalate (Sql.conditions p) := by
    obtain ⟨c, hc⟩ := Option.ne_none_iff_exists'.mp hp
    rw [Sql.clause, if_neg]
    simp [Sql.conditions, hc]
  obtain ⟨front, back, hpieces⟩ : ∃ front back, p.pieces style =
      front ++ Sql.clause " WHERE " " AND " (Sql.conditions p) ++ back :=
    ⟨_, _, List.append_assoc ..⟩
  constructor
  · refine ⟨String.join (front.map (·.sql)), String.join (back.map (·.sql)), ?_⟩
    rw [Statement.ofPieces, hpieces, hwhere]
    simp [condition, Statement.ofPieces, Sql.Piece.sql, String.append_assoc]
  · rw [p.parameters_pieces style, condition, Statement.parameters_ofPieces,
      Sql.marks_intercalate, p.marks_conditions, p.holes_conditions]

/-- A text that is meant as a condition is read as it, and not otherwise, exactly if no
comparison in the condition has a test for null as its right operand. The restriction to
keys that may be joined to it makes no difference. -/
theorem condition_read_back_iff {style : LimitStyle} {p : Plan} {s : Statement} {c : BoundFilter}
    (hs : p.statement style = .ok s) (hc : p.filter = some c) :
    (∃ before after, s.sql = before ++ " WHERE " ++ p.condition.sql ++ after) ∧
      s.parameters = p.condition.parameters ∧
      ((∀ e, p.condition.ReadsAs e ↔ p.meaning? = some e) ↔
        (BoundFilter.expression c).Apart) := by
  obtain ⟨hsql, hparameters⟩ := statement_condition hs (hc ▸ Option.some_ne_none c)
  refine ⟨hsql, hparameters, ?_⟩
  have hmeaning : p.meaning? = some ((p.keyRestriction.map KeyRestriction.expression).toList.foldl
      (.binary .and) (BoundFilter.expression c)) := by
    simp [meaning?, conditions, hc]
  simp only [readsAs_condition_iff hc, hmeaning, Option.some.injEq, ← Expression.reread_eq_iff]
  constructor
  · intro h
    have hsame := (h _).mp rfl
    cases hr : p.keyRestriction with
    | none => simpa [hr] using hsame.symm
    | some r => simpa [hr] using hsame.symm
  · intro h e
    rw [h, eq_comm]

end Plan

def doneColumn : NodeColumn :=
  { node := 0, member := "Done", column := "done" }

def finishedColumn : NodeColumn :=
  { node := 0, member := "FinishedAt", column := "finished_at" }

/-- A query on two tasks. -/
def tasksWhere (filter : BoundFilter) : Plan :=
  let key : NodeColumn := { node := 0, member := "Id", column := "id" }
  { target := 0
    select := [key]
    filter := some filter
    keyRestriction := some { column := key, keys := [.int 1, .int 2] }
    targetKey := key
    base := { node := 0, entity := "Task", table := "tasks" }
    joins := []
    invertedNodes := [] }

/-- The tasks that are done exactly if they have no time of completion. -/
def unfinishedDone : BoundFilter :=
  .binary .eq (.compare finishedColumn .eq .null) (.member doneColumn)

/-- The same condition with its operands the other way round. -/
def doneUnfinished : BoundFilter :=
  .binary .eq (.member doneColumn) (.compare finishedColumn .eq .null)

theorem unfinishedDone_read_back :
    (tasksWhere unfinishedDone).condition.sql =
        "(t0.\"finished_at\" IS NULL = t0.\"done\") AND t0.\"id\" IN (?, ?)" ∧
      ∀ e, (tasksWhere unfinishedDone).condition.ReadsAs e ↔
        (tasksWhere unfinishedDone).meaning? = some e := by
  have hs : (tasksWhere unfinishedDone).statement .limitOffset = .ok _ := rfl
  have hread := (Plan.condition_read_back_iff hs rfl).2.2
  have hapart : (BoundFilter.expression unfinishedDone).Apart :=
    ⟨trivial, trivial, .inr fun _ _ h => by cases h⟩
  exact ⟨by decide, hread.mpr hapart⟩

/-- With the test for null on the right, it is the comparison that is tested. -/
theorem doneUnfinished_regrouped :
    (tasksWhere doneUnfinished).condition.sql =
        "(t0.\"done\" = t0.\"finished_at\" IS NULL) AND t0.\"id\" IN (?, ?)" ∧
      (tasksWhere doneUnfinished).meaning? = some (.binary .and
        (.binary .eq (.column "t0" "done") (.nullTest false (.column "t0" "finished_at")))
        (.isIn (.column "t0" "id") [.int 1, .int 2])) ∧
      ∀ e, (tasksWhere doneUnfinished).condition.ReadsAs e ↔ e = .binary .and
        (.nullTest false (.binary .eq (.column "t0" "done") (.column "t0" "finished_at")))
        (.isIn (.column "t0" "id") [.int 1, .int 2]) :=
  ⟨by decide, by decide, fun _ => Plan.readsAs_condition_iff (c := doneUnfinished) rfl⟩

end EntityMap
