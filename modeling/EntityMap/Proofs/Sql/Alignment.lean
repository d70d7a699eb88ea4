import EntityMap.Proofs.Except
import EntityMap.Proofs.Sql.Expression
import EntityMap.Proofs.Sql.Lexing
import EntityMap.Write.Operation

/-!
# Alignment

The names and parameters of a plan and of an operation, clause by clause
(`Plan.marks`, `Operation.marks`), are what is read in their statements, text
and parameters together: no name is cut short, runs on or brings in a hole
of its own, and each hole gets the value that belongs there. This holds
whatever characters the names have.
-/

namespace EntityMap

open Sql (Lexeme Piece Spaced Loose Plain Expression)

/-! ## What belongs into a statement -/

/-- The names and literals of an expression, from left to right. -/
def Sql.Expression.marks : Expression → List (Lexeme Value)
  | .column _ name => [.name name]
  | .literal v => [.hole v]
  | .constant _ => []
  | .binary _ left right => left.marks ++ right.marks
  | .nullTest _ operand => operand.marks
  | .isIn operand values => operand.marks ++ values.map .hole

namespace Plan

/-- The conditions of a plan as they are meant. -/
def conditions (p : Plan) : List Expression :=
  (p.filter.map BoundFilter.expression).toList ++
    (p.keyRestriction.map KeyRestriction.expression).toList

/-- The names and parameters of a plan in the order of its clauses. -/
def marks (p : Plan) : List (Lexeme Value) :=
  p.select.flatMap (fun c => .name c.column :: (c.label.map .name).toList) ++
  [.name p.base.table] ++
  p.joins.flatMap (fun j => [.name j.table, .name j.nodeColumn, .name j.sourceColumn]) ++
  p.conditions.flatMap Expression.marks ++
  p.orderBy.map (fun term => .name term.column.column)

/-- The parameters of a plan: the literals of its filter and then its keys. -/
def parameters (p : Plan) : List Value :=
  (p.filter.map fun c => (BoundFilter.expression c).literals).getD [] ++
    (p.keyRestriction.map (·.keys)).getD []

end Plan

namespace Operation

/-- The names and parameters of an operation in the order of its clauses. -/
def marks (op : Operation) : List (Lexeme Value) :=
  let key := op.key.toList.flatMap fun key => [.name key.column, .hole key.value]
  match op.kind with
  | .insert =>
    [.name op.table] ++ op.assignments.map (fun a => .name a.column) ++
      op.assignments.map (fun a => .hole a.value) ++ op.returning.toList.map .name
  | .update | .patch | .detach =>
    [.name op.table] ++ op.assignments.flatMap (fun a => [.name a.column, .hole a.value]) ++ key
  | .delete => [.name op.table] ++ key

/-- The parameters of an operation: the assigned values and then the key. -/
def parameters (op : Operation) : List Value :=
  let values := op.assignments.map (·.value)
  let key := op.key.toList.map (·.value)
  match op.kind with
  | .insert => values
  | .update | .patch | .detach => values ++ key
  | .delete => key

end Operation

/-- Text and parameters of a statement show the names and parameters of `marks`, in their
order: the names and holes of the text are as many, and with the parameters in the holes
they are the same. -/
structure Statement.Shows (s : Statement) (marks : List (Lexeme Value)) : Prop where
  lexed : ∃ ls, Sql.lex s.sql = some ls ∧
    ls.filterMap Lexeme.name? = marks.filterMap Lexeme.name? ∧
    (ls.filterMap Lexeme.hole?).length = s.parameters.length
  parameters : s.parameters = marks.filterMap Lexeme.hole?
  filled : s.lexemes?.map Lexeme.marks = some marks

namespace Sql

/-- The name or parameter of a piece. -/
def Piece.marks : Piece → List (Lexeme Value)
  | text _ => []
  | name s => [.name s]
  | parameter v => [.hole v]

theorem marks_lexemes (ps : List Piece) :
    Lexeme.marks (ps.flatMap Piece.lexemes) = ps.flatMap Piece.marks := by
  rw [Lexeme.marks, List.filter_flatMap]
  congr 1
  funext p
  cases p <;> simp [Piece.lexemes, Piece.marks]

end Sql

theorem Statement.parameters_ofPieces (ps : List Piece) :
    (ofPieces ps).parameters = (ps.flatMap Piece.marks).filterMap Lexeme.hole? := by
  rw [ofPieces, ← Sql.filterMap_hole?_lexemes, ← Sql.marks_lexemes,
    Lexeme.filterMap_marks fun _ => rfl]

/-- Spaced pieces show their names and parameters. -/
theorem Statement.shows_ofPieces {ps : List Piece} (h : Spaced ps) :
    (ofPieces ps).Shows (ps.flatMap Piece.marks) := by
  have hmarks := Sql.marks_lexemes ps
  refine ⟨⟨_, Sql.lex_join h, ?_, ?_⟩, parameters_ofPieces ps, ?_⟩
  · rw [Lexeme.filterMap_name?_blank, ← hmarks, Lexeme.filterMap_marks fun _ => rfl]
  · rw [Lexeme.length_holes_blank, Sql.filterMap_hole?_lexemes, ofPieces]
  · rw [lexemes?_ofPieces h, Option.map_some, hmarks]

namespace Sql

/-! ## Spacing -/

theorem Loose.one {s : String} (h : Plain s) : Loose [.text s] :=
  Loose.text.mpr ⟨h, .nil⟩

theorem loose_column (node : Nat) (name : String) : Loose (column node name) :=
  Loose.text.mpr ⟨(Plain.nodeAlias node).append (by decide), by simp⟩

theorem loose_selected (c : NodeColumn) : Loose (selected c) := by
  have hcolumn : Loose (nodeColumn c) := loose_column _ _
  unfold selected
  split
  · exact hcolumn.append (Loose.text.mpr ⟨by decide, by simp⟩)
  · exact hcolumn

theorem spaced_tableAs (table : String) (node : Nat) : Spaced (tableAs table node) :=
  Spaced.name.mpr (.one (Plain.append (by decide) (.nodeAlias node)))

theorem loose_join (j : Join) : Loose (join j) := by
  have hwords : Plain (" " ++ joinWords j.kind) := by cases j.kind <;> decide
  have htable : Loose ([.text (" " ++ joinWords j.kind)] ++ tableAs j.table j.node) :=
    Loose.text.mpr ⟨hwords, spaced_tableAs _ _⟩
  exact (((htable.append (.one (by decide))).append (loose_column _ _)).append
    (.one (by decide))).append (loose_column _ _)

theorem loose_condition (c : BoundFilter) : Loose (condition c) := by
  refine condition_induction (P := fun ps _ => Loose ps) ?column ?literal ?nullTest ?binary c
  case column => exact fun c => loose_column _ _
  case literal => simp
  case nullTest =>
    intro negated ps e hps
    exact hps.append (.one (by cases negated <;> decide))
  case binary =>
    intro op ls l rs r hl hr
    have hop : Plain (" " ++ op.sql ++ " ") := by cases op <;> decide
    exact ((((Loose.one (by decide)).append hl).append (.one hop)).append hr).append
      (.one (by decide))

theorem spaced_commaSeparated {α : Type} {f : α → List Piece} (h : ∀ a, Spaced (f a))
    (l : List α) : Spaced (commaSeparated (l.map f)) := by
  refine Spaced.intercalate (by decide) fun part hpart => ?_
  obtain ⟨a, -, rfl⟩ := List.mem_map.mp hpart
  exact h a

theorem loose_restriction (r : KeyRestriction) : Loose (restriction r) := by
  unfold restriction
  split
  · exact .one (by decide)
  · have hlist : Loose ([.text " IN ("] ++ commaSeparated (r.keys.map fun v => [.parameter v])) :=
      Loose.text.mpr ⟨by decide, spaced_commaSeparated (by simp) _⟩
    rw [List.append_assoc (nodeColumn _)]
    exact ((loose_column _ _).append hlist).append (.one (by decide))

theorem loose_conditions (p : Plan) : ∀ part ∈ conditions p, Loose part := by
  intro part hpart
  simp only [conditions, List.mem_append, Option.mem_toList, Option.map_eq_some_iff] at hpart
  obtain ⟨c, -, rfl⟩ | ⟨r, -, rfl⟩ := hpart
  · exact loose_condition c
  · exact loose_restriction r

theorem loose_orderTerm (term : OrderTerm) : Loose (orderTerm term) := by
  have hdirection : Plain (" " ++ term.direction.sql) := by cases term.direction <;> decide
  exact (loose_column _ _).append (.one hdirection)

theorem loose_clause {word separator : String} (hword : Plain word) (hseparator : Plain separator)
    {parts : List (List Piece)} (h : ∀ part ∈ parts, Loose part) :
    Loose (clause word separator parts) := by
  unfold clause
  split
  · exact .nil
  · exact Loose.text.mpr ⟨hword, .intercalate hseparator fun part hpart => (h part hpart).2⟩

theorem plain_limits {style : LimitStyle} {m : Modifiers} {text : String}
    (h : limits style m = some text) : Plain text := by
  have htext (s : String) (n : Nat) (hs : Plain s) : Plain (s ++ toString n) :=
    hs.append (.toString n)
  unfold limits at h
  split at h <;> cases h
  case h_2 n _ _ => exact htext _ n (by decide)
  case h_3 n m _ _ => exact htext _ m ((htext _ n (by decide)).append (by decide))
  case h_4 m _ _ => exact htext _ m (by decide)
  case h_5 n _ _ => exact (htext _ n (by decide)).append (by decide)
  case h_6 n m _ _ =>
    exact (htext _ n ((htext _ m (by decide)).append (by decide))).append (by decide)
  case h_7 m _ _ => exact (htext _ m (by decide)).append (by decide)

end Sql

theorem Plan.spaced_pieces (style : LimitStyle) (p : Plan) : Spaced (p.pieces style) := by
  have hselect : Loose ([.text (if p.modifiers.distinct then "SELECT DISTINCT " else "SELECT ")] ++
      Sql.commaSeparated (p.select.map Sql.selected)) :=
    Loose.text.mpr ⟨by split <;> decide,
      Sql.spaced_commaSeparated (fun c => (Sql.loose_selected c).2) _⟩
  have hbase : Loose ([.text " FROM "] ++ Sql.tableAs p.base.table p.base.node) :=
    Loose.text.mpr ⟨by decide, Sql.spaced_tableAs _ _⟩
  have hwhere : Loose (Sql.clause " WHERE " " AND " (Sql.conditions p)) :=
    Sql.loose_clause (by decide) (by decide) (Sql.loose_conditions p)
  have horder : Loose (Sql.clause " ORDER BY " ", " (p.orderBy.map Sql.orderTerm)) := by
    refine Sql.loose_clause (by decide) (by decide) fun part hpart => ?_
    obtain ⟨term, -, rfl⟩ := List.mem_map.mp hpart
    exact Sql.loose_orderTerm term
  have hlimits : Loose ((Sql.limits style p.modifiers).map fun t => .text (" " ++ t)).toList := by
    cases h : Sql.limits style p.modifiers with
    | none => exact .nil
    | some text => exact .one (Plain.append (by decide) (Sql.plain_limits h))
  unfold pieces
  rw [List.append_assoc _ [Piece.text " FROM "]]
  exact ((((hselect.append hbase).append (.flatMap Sql.loose_join _)).append hwhere).append
    horder).append hlimits |>.2

namespace Operation

/-- The pieces that an operation is written in, by its kind. -/
inductive Written (op : Operation) : List Piece → Prop where
  | insert (kind : op.kind = .insert) : Written op op.insertPieces
  | change (key : Assignment) (kind : op.kind = .update ∨ op.kind = .patch ∨ op.kind = .detach)
      (hkey : op.key = some key) :
    Written op ([.text "UPDATE ", .name op.table, .text " SET "] ++
      Sql.commaSeparated (op.assignments.map fun a =>
        [Piece.name a.column, .text " = ", .parameter a.value]) ++
      [.text " WHERE ", .name key.column, .text " = ", .parameter key.value])
  | delete (key : Assignment) (kind : op.kind = .delete) (hkey : op.key = some key) :
    Written op [.text "DELETE FROM ", .name op.table, .text " WHERE ", .name key.column,
      .text " = ", .parameter key.value]

theorem keyPieces_eq_ok_iff {op : Operation} {ps : List Piece} :
    op.keyPieces = .ok ps ↔ ∃ key, op.key = some key ∧
      ps = [.text " WHERE ", .name key.column, .text " = ", .parameter key.value] := by
  cases h : op.key <;> simp [keyPieces, h, eq_comm]

theorem written_of_pieces {op : Operation} {ps : List Piece} (h : op.pieces = .ok ps) :
    op.Written ps := by
  have hchange (hps : op.updatePieces = .ok ps)
      (kind : op.kind = .update ∨ op.kind = .patch ∨ op.kind = .detach) : op.Written ps := by
    unfold updatePieces at hps
    split at hps
    · cases hps
    · obtain ⟨qs, hqs, hps⟩ := Except.bind_eq_ok_iff.mp hps
      obtain ⟨key, hkey, rfl⟩ := keyPieces_eq_ok_iff.mp hqs
      cases hps
      exact .change key kind hkey
  unfold pieces at h
  split at h
  case h_1 hkind =>
    cases h
    exact .insert hkind
  case h_2 hkind => exact hchange h (.inl hkind)
  case h_3 hkind => exact hchange h (.inr (.inl hkind))
  case h_4 hkind => exact hchange h (.inr (.inr hkind))
  case h_5 hkind =>
    obtain ⟨qs, hqs, hps⟩ := Except.bind_eq_ok_iff.mp h
    obtain ⟨key, hkey, rfl⟩ := keyPieces_eq_ok_iff.mp hqs
    cases hps
    exact .delete key hkind hkey

theorem spaced_insertPieces (op : Operation) : Spaced op.insertPieces := by
  have hrow : Loose (if op.assignments.isEmpty then [.text " DEFAULT VALUES"]
      else [.text " ("] ++ Sql.commaSeparated (op.assignments.map fun a => [.name a.column]) ++
        [.text ") VALUES ("] ++
        Sql.commaSeparated (op.assignments.map fun a => [.parameter a.value]) ++ [.text ")"]) := by
    split
    · exact .one (by decide)
    · have hcolumns : Loose ([.text " ("] ++
          Sql.commaSeparated (op.assignments.map fun a => [.name a.column])) :=
        Loose.text.mpr ⟨by decide, Sql.spaced_commaSeparated (by simp) _⟩
      have hvalues : Loose ([.text ") VALUES ("] ++
          Sql.commaSeparated (op.assignments.map fun a => [.parameter a.value])) :=
        Loose.text.mpr ⟨by decide, Sql.spaced_commaSeparated (by simp) _⟩
      rw [List.append_assoc _ [Piece.text ") VALUES ("]]
      exact (hcolumns.append hvalues).append (.one (by decide))
  have htable : Spaced [.text "INSERT INTO ", .name op.table] :=
    Spaced.text.mpr ⟨by decide, by simp⟩
  unfold insertPieces
  refine (htable.append hrow).append ?_
  split
  · exact Loose.text.mpr ⟨by decide, by simp⟩
  · exact .nil

theorem Written.spaced {op : Operation} {ps : List Piece} (h : op.Written ps) : Spaced ps := by
  have hkey (key : Assignment) :
      Loose [.text " WHERE ", .name key.column, .text " = ", .parameter key.value] :=
    Loose.text.mpr ⟨by decide, Spaced.name.mpr (Loose.text.mpr ⟨by decide, by simp⟩)⟩
  cases h with
  | insert kind => exact op.spaced_insertPieces
  | change key kind hk =>
    have hsets : Spaced (Sql.commaSeparated (op.assignments.map fun a =>
        [.name a.column, .text " = ", .parameter a.value])) :=
      Sql.spaced_commaSeparated (fun a => Spaced.name.mpr (Loose.text.mpr ⟨by decide, by simp⟩)) _
    exact Spaced.text.mpr ⟨by decide, Spaced.name.mpr
      (Loose.text.mpr ⟨by decide, hsets.append (hkey key)⟩)⟩
  | delete key kind hk =>
    exact Spaced.text.mpr ⟨by decide, Spaced.name.mpr (hkey key)⟩

end Operation

/-! ## Names and parameters -/

namespace Sql

theorem marks_intercalate (separator : String) (parts : List (List Piece)) :
    ([.text separator].intercalate parts).flatMap Piece.marks =
      parts.flatMap (·.flatMap Piece.marks) := by
  induction parts with
  | nil => rfl
  | cons p parts ih =>
    cases parts with
    | nil => simp
    | cons q parts =>
      rw [List.intercalate_cons_cons, List.flatMap_append, List.flatMap_append, ih]
      simp [Piece.marks]

theorem marks_commaSeparated {α : Type} (f : α → List Piece) (l : List α) :
    (commaSeparated (l.map f)).flatMap Piece.marks =
      l.flatMap fun a => (f a).flatMap Piece.marks := by
  rw [commaSeparated, marks_intercalate, List.flatMap_map]

theorem marks_clause {word separator : String} (parts : List (List Piece)) :
    (clause word separator parts).flatMap Piece.marks = parts.flatMap (·.flatMap Piece.marks) := by
  unfold clause
  split
  case isTrue h => simp [List.isEmpty_iff.mp h]
  case isFalse => simp [Piece.marks, marks_intercalate]

theorem marks_condition (c : BoundFilter) :
    (condition c).flatMap Piece.marks = (BoundFilter.expression c).marks := by
  refine condition_induction (P := fun ps e => ps.flatMap Piece.marks = e.marks)
    ?column ?literal ?nullTest ?binary c
  case column => exact fun c => rfl
  case literal => exact fun v => rfl
  case nullTest =>
    intro negated ps e hps
    simp [Piece.marks, Expression.marks, hps]
  case binary =>
    intro op ls l rs r hl hr
    simp [Piece.marks, Expression.marks, hl, hr]

theorem marks_restriction (r : KeyRestriction) :
    (restriction r).flatMap Piece.marks = r.expression.marks := by
  unfold restriction KeyRestriction.expression
  split
  · rfl
  · simp [marks_commaSeparated, Piece.marks, Expression.marks, nodeColumn, column,
      ← List.map_eq_flatMap]

theorem marks_selected (c : NodeColumn) :
    (selected c).flatMap Piece.marks = .name c.column :: (c.label.map .name).toList := by
  unfold selected
  split
  case h_1 label h => simp [h, nodeColumn, column, Piece.marks]
  case h_2 h => simp [h, nodeColumn, column, Piece.marks]

theorem holes_marks (e : Expression) : e.marks.filterMap Lexeme.hole? = e.literals := by
  induction e with
  | column node name => rfl
  | literal v => rfl
  | constant word => rfl
  | binary op left right ihl ihr =>
    rw [Expression.marks, Expression.literals, List.filterMap_append, ihl, ihr]
  | nullTest negated operand ih => rw [Expression.marks, Expression.literals, ih]
  | isIn operand values ih =>
    rw [Expression.marks, Expression.literals, List.filterMap_append, ih]
    simp [List.filterMap_map, Function.comp_def, Lexeme.hole?]

end Sql

theorem Plan.marks_conditions (p : Plan) :
    (Sql.conditions p).flatMap (·.flatMap Piece.marks) = p.conditions.flatMap Expression.marks := by
  cases hf : p.filter <;> cases hr : p.keyRestriction <;>
    simp [Sql.conditions, conditions, hf, hr, Sql.marks_condition, Sql.marks_restriction]

theorem Plan.marks_pieces (style : LimitStyle) (p : Plan) :
    (p.pieces style).flatMap Piece.marks = p.marks := by
  have hjoins : (p.joins.flatMap Sql.join).flatMap Piece.marks =
      p.joins.flatMap fun j => [.name j.table, .name j.nodeColumn, .name j.sourceColumn] := by
    rw [List.flatMap_assoc]
    rfl
  have horder : (p.orderBy.map Sql.orderTerm).flatMap (·.flatMap Piece.marks) =
      p.orderBy.map fun term => .name term.column.column := by
    rw [List.flatMap_map, List.map_eq_flatMap]
    rfl
  have hlimits : ((Sql.limits style p.modifiers).map
      fun text => Piece.text (" " ++ text)).toList.flatMap Piece.marks = [] := by
    cases Sql.limits style p.modifiers <;> rfl
  unfold pieces marks
  simp only [List.flatMap_append, Sql.marks_commaSeparated, Sql.marks_clause, Sql.marks_selected,
    hjoins, p.marks_conditions, horder, hlimits]
  simp [Sql.tableAs, Piece.marks]

theorem Plan.holes_conditions (p : Plan) :
    (p.conditions.flatMap Expression.marks).filterMap Lexeme.hole? = p.parameters := by
  have hrestriction (r : KeyRestriction) : r.expression.literals = r.keys := by
    unfold KeyRestriction.expression
    split
    case isTrue h => exact (List.isEmpty_iff.mp h).symm
    case isFalse => rfl
  unfold parameters
  cases hf : p.filter <;> cases hr : p.keyRestriction <;>
    simp [conditions, hf, hr, Sql.holes_marks, hrestriction]

theorem Plan.holes_marks (p : Plan) : p.marks.filterMap Lexeme.hole? = p.parameters := by
  have hselect : (p.select.flatMap fun c =>
      (Lexeme.name c.column : Lexeme Value) :: (c.label.map .name).toList).filterMap
        Lexeme.hole? = [] := by
    rw [List.filterMap_flatMap, List.flatMap_eq_nil_iff]
    intro c _
    cases c.label <;> rfl
  have hjoins : (p.joins.flatMap fun j => [(Lexeme.name j.table : Lexeme Value),
      .name j.nodeColumn, .name j.sourceColumn]).filterMap Lexeme.hole? = [] := by
    rw [List.filterMap_flatMap, List.flatMap_eq_nil_iff]
    exact fun j _ => rfl
  have horder : (p.orderBy.map fun term =>
      (Lexeme.name term.column.column : Lexeme Value)).filterMap Lexeme.hole? = [] := by
    rw [List.filterMap_map, List.filterMap_eq_nil_iff]
    exact fun term _ => rfl
  unfold marks
  simp only [List.filterMap_append, hselect, hjoins, horder, p.holes_conditions]
  simp [List.filterMap_cons, Lexeme.hole?]

theorem Plan.parameters_pieces (style : LimitStyle) (p : Plan) :
    (Statement.ofPieces (p.pieces style)).parameters = p.parameters := by
  rw [Statement.parameters_ofPieces, p.marks_pieces style, p.holes_marks]

namespace Operation

theorem marks_insertPieces (op : Operation) :
    op.insertPieces.flatMap Piece.marks = [.name op.table] ++
      op.assignments.map (fun a => .name a.column) ++
      op.assignments.map (fun a => .hole a.value) ++ op.returning.toList.map .name := by
  by_cases h : op.assignments = [] <;> cases hr : op.returning <;>
    simp [insertPieces, h, hr, Sql.marks_commaSeparated, Piece.marks, ← List.map_eq_flatMap]

theorem Written.marks {op : Operation} {ps : List Piece} (h : op.Written ps) :
    ps.flatMap Piece.marks = op.marks := by
  cases h with
  | insert kind =>
    rw [marks_insertPieces, Operation.marks, kind]
  | change key kind hk =>
    obtain kind | kind | kind := kind <;>
      simp [Operation.marks, kind, hk, Sql.marks_commaSeparated, Piece.marks]
  | delete key kind hk => simp [Operation.marks, kind, hk, Piece.marks]

theorem Written.holes {op : Operation} {ps : List Piece} (h : op.Written ps) :
    op.marks.filterMap Lexeme.hole? = op.parameters := by
  have hcolumns : (op.assignments.map fun a =>
      (Lexeme.name a.column : Lexeme Value)).filterMap Lexeme.hole? = [] := by
    rw [List.filterMap_map, List.filterMap_eq_nil_iff]
    exact fun a _ => rfl
  have hvalues : (op.assignments.map fun a => Lexeme.hole a.value).filterMap Lexeme.hole? =
      op.assignments.map (·.value) := by
    simp [List.filterMap_map, Function.comp_def, Lexeme.hole?]
  have hsets : (op.assignments.flatMap fun a =>
      [Lexeme.name a.column, .hole a.value]).filterMap Lexeme.hole? =
        op.assignments.map (·.value) := by
    rw [List.filterMap_flatMap, List.map_eq_flatMap]
    rfl
  have hreturning : (op.returning.toList.map
      (Lexeme.name : String → Lexeme Value)).filterMap Lexeme.hole? = [] := by
    cases op.returning <;> rfl
  cases h with
  | insert kind =>
    simp [Operation.marks, parameters, kind, hcolumns, hvalues, hreturning, List.filterMap_cons,
      Lexeme.hole?]
  | change key kind hk =>
    obtain kind | kind | kind := kind <;>
      simp [Operation.marks, parameters, kind, hk, hsets, List.filterMap_cons, Lexeme.hole?]
  | delete key kind hk =>
    simp [Operation.marks, parameters, kind, hk, List.filterMap_cons, Lexeme.hole?]

theorem statement_eq_ok {op : Operation} {s : Statement} (h : op.statement = .ok s) :
    ∃ ps, op.Written ps ∧ s = .ofPieces ps := by
  obtain ⟨ps, hps, rfl⟩ := Except.map_eq_ok_iff.mp h
  exact ⟨ps, written_of_pieces hps, rfl⟩

theorem parameters_statement {op : Operation} {s : Statement} (h : op.statement = .ok s) :
    s.parameters = op.parameters := by
  obtain ⟨ps, hwritten, rfl⟩ := statement_eq_ok h
  rw [Statement.parameters_ofPieces, hwritten.marks, hwritten.holes]

end Operation

/-- Every statement that is written, of a plan or of an operation, shows the names and
parameters of its clauses, whatever characters the names have. -/
theorem statements_aligned :
    (∀ (style : LimitStyle) (p : Plan) (s : Statement), p.statement style = .ok s →
      s.Shows p.marks ∧ s.parameters = p.parameters) ∧
    (∀ (op : Operation) (s : Statement), op.statement = .ok s →
      s.Shows op.marks ∧ s.parameters = op.parameters) := by
  constructor
  · intro style p s h
    unfold Plan.statement at h
    split at h
    · cases h
    · cases h
      have hshows := Statement.shows_ofPieces (p.spaced_pieces style)
      rw [p.marks_pieces style] at hshows
      exact ⟨hshows, p.parameters_pieces style⟩
  · intro op s h
    have hparameters := Operation.parameters_statement h
    obtain ⟨ps, hwritten, rfl⟩ := Operation.statement_eq_ok h
    have hshows := Statement.shows_ofPieces hwritten.spaced
    rw [hwritten.marks] at hshows
    exact ⟨hshows, hparameters⟩

/-- A query on a table whose names are made of the marks that statements are read by. -/
def markedPlan : Plan :=
  let name : NodeColumn := { node := 0, member := "Name", column := "na\"me = ?", label := none }
  { target := 0
    select := [{ name with label := some "Who\"?" }]
    filter := some (.binary .and (.compare name .notEq .null) (.compare name .like (.text "?")))
    keyRestriction := some { column := name, keys := [.text "\"", .null] }
    orderBy := [{ column := name, direction := .asc }]
    targetKey := name
    base := { node := 0, entity := "Person", table := "\"people" }
    joins := []
    invertedNodes := [] }

/-- A change in the same table. -/
def markedChange : Operation :=
  { kind := .patch
    entity := "Person"
    table := "\"people"
    assignments := [{ column := "na\"me = ?", value := .text "?" }]
    key := some { column := "?", value := .text "\"" } }

theorem marked_statements_aligned :
    (∃ s, markedPlan.statement .limitOffset = .ok s ∧
      s.Shows markedPlan.marks ∧ s.parameters = markedPlan.parameters) ∧
    (∃ s, markedChange.statement = .ok s ∧
      s.Shows markedChange.marks ∧ s.parameters = markedChange.parameters) :=
  ⟨⟨_, rfl, statements_aligned.1 .limitOffset markedPlan _ rfl⟩,
    ⟨_, rfl, statements_aligned.2 markedChange _ rfl⟩⟩

end EntityMap
