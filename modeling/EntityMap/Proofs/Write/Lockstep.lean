import EntityMap.Proofs.Write.KeyQuery
import EntityMap.Proofs.Write.Reports
import EntityMap.Proofs.Write.Transaction

/-!
# Two cascades in lockstep

Two computations that write, each on a connection of its own that are in
one state: as long as they ask the same, they are answered the same
(`Executor.Oblivious`). They are in lockstep when each event of the one
is alike to that of the other (`Event.Alike`), up to the end of both. Or
one of the two fails, since a value has no storage form, and then its
events are alike to the first ones of the other (`Abreast`).

`Saving.Lockstep` says so of the steps of two computations, from wherever
both cascades may be by then, and `Saving.Lockstep.run` of their runs.
There is one rule for each way to put computations together; for what
comes behind a computation that may fail alone, the rule asks what it
sends, since the other run goes on with it.
-/

namespace EntityMap

/-! ## Connections and events -/

/-- A connection that answers by the text of a statement, whatever its parameters are. -/
structure Executor.Oblivious (σ : Type) [Executor σ] : Prop where
  query : ∀ {s s' : Statement}, s'.sql = s.sql → ∀ connection : σ,
    Executor.query s' connection = Executor.query s connection
  scalar : ∀ {s s' : Statement}, s'.sql = s.sql → ∀ connection : σ,
    Executor.scalar s' connection = Executor.scalar s connection
  execute : ∀ {s s' : Statement}, s'.sql = s.sql → ∀ connection : σ,
    Executor.execute s' connection = Executor.execute s connection

/-- A script is read in its order. -/
theorem Script.oblivious : Executor.Oblivious Script where
  query {s s'} hsql connection := by
    simp only [Executor.query, hsql]
  scalar _ _ := rfl
  execute _ _ := rfl

/-- Operations of one kind on one table, which write the same columns, of rows whose keys are the
same or are related by `own`. -/
structure Operation.Alike (own : OperationKind → String → Value → Value → Prop)
    (op op' : Operation) : Prop where
  kind : op'.kind = op.kind
  entity : op'.entity = op.entity
  table : op'.table = op.table
  columns : op'.assignments.map (·.column) = op.assignments.map (·.column)
  key : Option.Rel (fun a a' => a'.column = a.column ∧
    (a'.value = a.value ∨ own op.kind op.entity a.value a'.value)) op.key op'.key
  returning : op'.returning = op.returning

theorem Sql.map_commaSeparated (parts : List (List Piece)) :
    (commaSeparated parts).map (·.sql) = [", "].intercalate (parts.map (·.map (·.sql))) := by
  unfold commaSeparated
  induction parts with
  | nil => rfl
  | cons part rest ih =>
      cases rest with
      | nil => simp
      | cons next rest =>
          simp only [List.map_cons, List.intercalate_cons_cons, List.map_append, List.map_nil,
            Piece.sql] at ih ⊢
          rw [ih]

namespace Operation.Alike

variable {own : OperationKind → String → Value → Value → Prop} {op op' : Operation}

theorem refl (op : Operation) : op.Alike own op where
  kind := rfl
  entity := rfl
  table := rfl
  columns := rfl
  key := by
    cases op.key with
    | none => exact .none
    | some a => exact .some ⟨rfl, .inl rfl⟩
  returning := rfl

/-- The text of a list of assignments depends on their columns. -/
theorem map_assignments {f : Assignment → List Sql.Piece} {g : String → List String}
    (h : op.Alike own op') (hf : ∀ a, (f a).map (·.sql) = g a.column) :
    (Sql.commaSeparated (op'.assignments.map f)).map (·.sql) =
      (Sql.commaSeparated (op.assignments.map f)).map (·.sql) := by
  have hmap : ∀ assignments : List Assignment,
      (assignments.map f).map (·.map (·.sql)) = (assignments.map (·.column)).map g := by
    intro assignments
    simp only [List.map_map, Function.comp_def, hf]
  rw [Sql.map_commaSeparated, Sql.map_commaSeparated, hmap, hmap, h.columns]

theorem isEmpty_assignments (h : op.Alike own op') :
    op'.assignments.isEmpty = op.assignments.isEmpty := by
  rw [← List.isEmpty_map (f := (·.column)), h.columns, List.isEmpty_map]

theorem keyPieces (h : op.Alike own op') :
    Except.Alike (fun _ => False) (fun pieces pieces' => pieces'.map (·.sql) = pieces.map (·.sql))
      op.keyPieces op'.keyPieces := by
  have hkey := h.key
  unfold Operation.keyPieces
  generalize op.key = key at hkey ⊢
  generalize op'.key = key' at hkey ⊢
  cases hkey with
  | none => exact .error
  | some hrow =>
      refine .ok ?_
      simp only [List.map_cons, List.map_nil, Sql.Piece.sql, hrow.1]

theorem pieces (h : op.Alike own op') :
    Except.Alike (fun _ => False) (fun pieces pieces' => pieces'.map (·.sql) = pieces.map (·.sql))
      op.pieces op'.pieces := by
  unfold Operation.pieces
  rw [h.kind]
  cases op.kind with
  | insert =>
      refine .ok ?_
      unfold insertPieces
      have hcolumns := h.map_assignments (f := fun a => [.name a.column])
        (g := fun column => [Sql.quote column]) fun _ => rfl
      have hvalues := h.map_assignments (f := fun a => [.parameter a.value]) (g := fun _ => ["?"])
        fun _ => rfl
      rw [h.isEmpty_assignments, h.table, h.returning]
      dsimp only
      split <;> simp only [List.map_append, hcolumns, hvalues]
  | delete =>
      unfold deletePieces
      rw [h.table]
      refine h.keyPieces.bind fun key key' hkey => .ok ?_
      rw [List.map_append, List.map_append, hkey]
  | update | patch | detach =>
      dsimp only
      unfold updatePieces
      rw [h.isEmpty_assignments, h.table]
      split
      · exact .error
      · refine h.keyPieces.bind fun key key' hkey => .ok ?_
        have hsets := h.map_assignments
          (f := fun a => [.name a.column, .text " = ", .parameter a.value])
          (g := fun column => [Sql.quote column, " = ", "?"]) fun _ => rfl
        simp only [List.map_append, hsets, hkey]

/-- Operations that are alike have one text. -/
theorem statement (h : op.Alike own op') :
    Except.Alike (fun _ => False) (fun s s' => s'.sql = s.sql) op.statement op'.statement :=
  h.pieces.map fun _ _ hpieces => congrArg String.join hpieces

end Operation.Alike

/-- Events of one kind, with one text and one answer. Sweeps release the same keys, and none that
stands for a kept one. -/
inductive Event.Alike (same : String → Value → Value → Prop)
    (own : OperationKind → String → Value → Value → Prop) : Event → Event → Prop
  | asked {entity : String} {filter filter' : Filter} {s s' : Statement}
      {answer : Except ExecutionError RecordSet} (hsql : s'.sql = s.sql) :
      Alike same own (.asked entity filter s answer) (.asked entity filter' s' answer)
  | swept {o : Ownership} {parentKey parentKey' : Value} {kept kept' : List Value}
      {s s' : Statement} {answer : Except ExecutionError RecordSet} (hsql : s'.sql = s.sql)
      (horphans : ∀ records, answer = .ok records → records.orphans kept' = records.orphans kept)
      (hspared : ∀ records child key, answer = .ok records → child ∈ records.orphans kept →
        key ∈ kept ∨ key ∈ kept' → ¬same o.child.entity child key) :
      Alike same own (.swept o parentKey kept s answer) (.swept o parentKey' kept' s' answer)
  | executed {op op' : Operation} {s s' : Statement} {answer : Except ExecutionError Nat}
      (hsql : s'.sql = s.sql) (hop : op.Alike own op') :
      Alike same own (.executed op s answer) (.executed op' s' answer)
  | generated {op op' : Operation} {s s' : Statement} {answer : Except ExecutionError Value}
      (hsql : s'.sql = s.sql) (hop : op.Alike own op') :
      Alike same own (.generated op s answer) (.generated op' s' answer)

/-! ## Runs side by side -/

variable {σ : Type}

/-- Cascades on connections in one state, which have inserted keys that are related by `same`, and
in which computations beside each other go on in one order. -/
structure Cascade.Twin (held : σ → Prop) (same : String → Value → Value → Prop)
    (c c' : Cascade σ) : Prop where
  held : held c.work.connection
  connection : c'.work.connection = c.work.connection
  isOpen : c'.work.isOpen = c.work.isOpen
  inserted : List.Forall₂ (fun row row' => row'.1 = row.1 ∧ same row.1 row.2 row'.2)
    c.inserted c'.inserted
  schedules : c'.schedules = c.schedules

/-- How two runs end beside each other, by what they answer, their events and the cascades that
they leave: both go on, with answers related by `R`, or both stop, or one of the two stops because
a value has no storage form. -/
inductive Abreast {γ : Type} (twin : Cascade σ → Cascade σ → Prop) (alike : Event → Event → Prop)
    (failure? : γ → Option WriteError) (R : γ → γ → Prop) :
    γ × Cascade σ → List Event → γ × Cascade σ → List Event → Prop
  | both {a a' : γ} {c c' : Cascade σ} {es es' : List Event} (hes : List.Forall₂ alike es es')
      (ha : failure? a = none) (ha' : failure? a' = none) (hR : R a a') (htwin : twin c c') :
      Abreast twin alike failure? R (a, c) es (a', c') es'
  | neither {a a' : γ} {c c' : Cascade σ} {es es' : List Event} {e e' : WriteError}
      (hes : List.Forall₂ alike es es') (ha : failure? a = some e) (ha' : failure? a' = some e') :
      Abreast twin alike failure? R (a, c) es (a', c') es'
  | left {a a' : γ} {c c' : Cascade σ} {es before rest : List Event} {e : WriteError}
      (hes : List.Forall₂ alike es before) (ha : failure? a = some e)
      (hconversion : e.isConversion) :
      Abreast twin alike failure? R (a, c) es (a', c') (before ++ rest)
  | right {a a' : γ} {c c' : Cascade σ} {es' before rest : List Event} {e : WriteError}
      (hes : List.Forall₂ alike before es') (ha' : failure? a' = some e)
      (hconversion : e.isConversion) :
      Abreast twin alike failure? R (a, c) (before ++ rest) (a', c') es'

namespace Abreast

variable {γ : Type} {twin : Cascade σ → Cascade σ → Prop} {alike : Event → Event → Prop}
  {failure? : γ → Option WriteError} {R : γ → γ → Prop} {x x' : γ × Cascade σ}
  {es es' : List Event}

theorem mono {R' : γ → γ → Prop} (h : Abreast twin alike failure? R x es x' es')
    (himp : ∀ a a', R a a' → R' a a') : Abreast twin alike failure? R' x es x' es' := by
  cases h with
  | both hes ha ha' hR htwin => exact .both hes ha ha' (himp _ _ hR) htwin
  | neither hes ha ha' => exact .neither hes ha ha'
  | left hes ha hconversion => exact .left hes ha hconversion
  | right hes ha' hconversion => exact .right hes ha' hconversion

/-- What both have done before. -/
theorem after {before before' : List Event} (hbefore : List.Forall₂ alike before before')
    (h : Abreast twin alike failure? R x es x' es') :
    Abreast twin alike failure? R x (before ++ es) x' (before' ++ es') := by
  cases h with
  | both hes ha ha' hR htwin => exact .both (List.rel_append hbefore hes) ha ha' hR htwin
  | neither hes ha ha' => exact .neither (List.rel_append hbefore hes) ha ha'
  | left hes ha hconversion =>
      rw [← List.append_assoc]
      exact .left (List.rel_append hbefore hes) ha hconversion
  | right hes ha' hconversion =>
      rw [← List.append_assoc]
      exact .right (List.rel_append hbefore hes) ha' hconversion

end Abreast

variable [Executor σ] {γ δ α β : Type}

/-- Two computations take alike steps from twin cascades, up to the end of both or of one that fails
because a value has no storage form. Then the other goes on by itself. -/
inductive Saving.Lockstep (rules : CascadeRules) (twin : Cascade σ → Cascade σ → Prop)
    (alike : Event → Event → Prop) (failure? : γ → Option WriteError) :
    Saving σ γ → Saving σ γ → (γ → γ → Prop) → Prop
  | both {a a' : γ} {R : γ → γ → Prop} (ha : failure? a = none) (ha' : failure? a' = none)
      (hR : R a a') : Lockstep rules twin alike failure? (done a) (done a') R
  | neither {a a' : γ} {R : γ → γ → Prop} {e e' : WriteError} (ha : failure? a = some e)
      (ha' : failure? a' = some e') : Lockstep rules twin alike failure? (done a) (done a') R
  | left {a : γ} {m' : Saving σ γ} {R : γ → γ → Prop} {e : WriteError} (ha : failure? a = some e)
      (hconversion : e.isConversion) (hsends' : Sends rules m') :
      Lockstep rules twin alike failure? (done a) m' R
  | right {m : Saving σ γ} {a' : γ} {R : γ → γ → Prop} {e : WriteError} (hsends : Sends rules m)
      (ha' : failure? a' = some e) (hconversion : e.isConversion) :
      Lockstep rules twin alike failure? m (done a') R
  | step {after after' : Cascade σ → Cascade σ} {rest rest' : Cascade σ → Saving σ γ}
      {R : γ → γ → Prop}
      (hstep : ∀ c c', twin c c' → ∃ es es', UnitOfWork.Sends rules c.work es (after c).work ∧
        UnitOfWork.Sends rules c'.work es' (after' c').work ∧ List.Forall₂ alike es es' ∧
        twin (after c) (after' c'))
      (hrest : ∀ c c', twin c c' → Lockstep rules twin alike failure? (rest c) (rest' c') R) :
      Lockstep rules twin alike failure? (step after rest) (step after' rest') R

/-- From twin cascades, two computations run beside each other. -/
def Saving.RunsAbreast (rules : CascadeRules) (twin : Cascade σ → Cascade σ → Prop)
    (alike : Event → Event → Prop) (failure? : γ → Option WriteError)
    (m m' : Saving σ γ) (R : γ → γ → Prop) : Prop :=
  ∀ c c', twin c c' → ∃ es es',
    UnitOfWork.Sends rules c.work es (m.run c).2.work ∧
    UnitOfWork.Sends rules c'.work es' (m'.run c').2.work ∧
    Abreast twin alike failure? R (m.run c) es (m'.run c') es'

section

variable {rules : CascadeRules} {twin : Cascade σ → Cascade σ → Prop}
  {alike : Event → Event → Prop}

namespace Saving.Lockstep

variable {failure? : γ → Option WriteError} {m m' : Saving σ γ} {R : γ → γ → Prop}

theorem pure {a a' : γ} (ha : failure? a = none) (ha' : failure? a' = none) (h : R a a') :
    Lockstep rules twin alike failure? (pure a) (pure a') R :=
  .both ha ha' h

theorem fail {a a' : γ} {e e' : WriteError} (ha : failure? a = some e)
    (ha' : failure? a' = some e') :
    Lockstep rules twin alike failure? (Pure.pure a) (Pure.pure a') R :=
  .neither ha ha'

theorem mono {R' : γ → γ → Prop} (h : Lockstep rules twin alike failure? m m' R)
    (himp : ∀ a a', R a a' → R' a a') : Lockstep rules twin alike failure? m m' R' := by
  induction h with
  | both ha ha' hR => exact .both ha ha' (himp _ _ hR)
  | neither ha ha' => exact .neither ha ha'
  | left ha hconversion hsends' => exact .left ha hconversion hsends'
  | right hsends ha' hconversion => exact .right hsends ha' hconversion
  | step hstep _ ih => exact .step hstep fun c c' htwin => ih c c' htwin himp

/-- Runs without a break are among those that are spoken of. -/
theorem run (h : Lockstep rules twin alike failure? m m' R) :
    RunsAbreast rules twin alike failure? m m' R := by
  induction h with
  | both ha ha' hR =>
      exact fun c c' htwin => ⟨[], [], .done c.work, .done c'.work, .both .nil ha ha' hR htwin⟩
  | neither ha ha' =>
      exact fun c c' _ => ⟨[], [], .done c.work, .done c'.work, .neither .nil ha ha'⟩
  | left ha hconversion hsends' =>
      intro c c' _
      obtain ⟨es', hsent', -⟩ := hsends'.run c'
      exact ⟨[], es', .done c.work, hsent', .left .nil ha hconversion⟩
  | right hsends ha' hconversion =>
      intro c c' _
      obtain ⟨es, hsent, -⟩ := hsends.run c
      exact ⟨es, [], hsent, .done c'.work, .right .nil ha' hconversion⟩
  | step hstep _ ih =>
      intro c c' htwin
      obtain ⟨es, es', hsent, hsent', hes, hafter⟩ := hstep c c' htwin
      obtain ⟨fs, fs', hrest, hrest', habreast⟩ := ih c c' htwin _ _ hafter
      exact ⟨es ++ fs, es' ++ fs', hsent.trans hrest, hsent'.trans hrest', habreast.after hes⟩

/-- What comes behind a computation hands its failure on. -/
def HandsOn (failure? : γ → Option WriteError) (failure?' : δ → Option WriteError)
    (f : γ → Saving σ δ) : Prop :=
  ∀ a e, failure? a = some e → ∃ b, f a = Pure.pure b ∧ failure?' b = some e

theorem bind {failure?' : δ → Option WriteError} {f f' : γ → Saving σ δ}
    {S : δ → δ → Prop} (hm : Lockstep rules twin alike failure? m m' R)
    (hfail : HandsOn failure? failure?' f) (hfail' : HandsOn failure? failure?' f')
    (hsends : ∀ a, Sends rules (f a)) (hsends' : ∀ a, Sends rules (f' a))
    (hf : ∀ a a', failure? a = none → failure? a' = none → R a a' →
      Lockstep rules twin alike failure?' (f a) (f' a') S) :
    Lockstep rules twin alike failure?' (m >>= f) (m' >>= f') S := by
  induction hm with
  | @both a a' _ ha ha' hR => exact hf a a' ha ha' hR
  | @neither a a' _ e e' ha ha' =>
      obtain ⟨b, hb, hbfail⟩ := hfail a e ha
      obtain ⟨b', hb', hbfail'⟩ := hfail' a' e' ha'
      show Lockstep rules twin alike failure?' (f a) (f' a') S
      rw [hb, hb']
      exact .neither hbfail hbfail'
  | @left a m' _ e ha hconversion hm' =>
      obtain ⟨b, hb, hbfail⟩ := hfail a e ha
      show Lockstep rules twin alike failure?' (f a) (m' >>= f') S
      rw [hb]
      exact .left hbfail hconversion (hm'.bind fun a _ _ => hsends' a)
  | @right m a' _ e hm ha' hconversion =>
      obtain ⟨b', hb', hbfail'⟩ := hfail' a' e ha'
      show Lockstep rules twin alike failure?' (m >>= f) (f' a') S
      rw [hb']
      exact .right (hm.bind fun a _ _ => hsends a) hbfail' hconversion
  | step hstep _ ih => exact .step hstep fun c c' htwin => ih c c' htwin hf

/-- What only rearranges the answer of a computation. -/
theorem bind_pure {failure?' : δ → Option WriteError} {f g : γ → δ} {S : δ → δ → Prop}
    (hm : Lockstep rules twin alike failure? m m' R) (hf : ∀ a, failure?' (f a) = failure? a)
    (hg : ∀ a, failure?' (g a) = failure? a)
    (hS : ∀ a a', failure? a = none → failure? a' = none → R a a' → S (f a) (g a')) :
    Lockstep rules twin alike failure?' (m >>= fun a => Pure.pure (f a))
      (m' >>= fun a => Pure.pure (g a)) S := by
  refine hm.bind (fun a e he => ⟨f a, rfl, (hf a).trans he⟩)
    (fun a e he => ⟨g a, rfl, (hg a).trans he⟩) (fun _ => Saving.Does.pure trivial)
    (fun _ => Saving.Does.pure trivial) fun a a' ha ha' hR => ?_
  exact pure ((hf a).trans ha) ((hg a').trans ha') (hS a a' ha ha' hR)

end Saving.Lockstep

theorem Saving.Sends.bind {m : Writing σ α} {f : α → Writing σ β} (hm : Saving.Sends rules m.run)
    (hf : ∀ a, Saving.Sends rules (f a).run) : Saving.Sends rules (m >>= f).run := by
  have hm : Writing.Does rules m fun _ _ => True := hm
  exact hm.bind (R := fun _ _ => True) (fun _ _ _ => trivial) fun a _ _ => hf a

theorem Saving.Sends.forM {f : α → Writing σ Unit} (h : ∀ a, Saving.Sends rules (f a).run)
    (l : List α) : Saving.Sends rules (l.forM f).run := by
  induction l with
  | nil => exact Saving.Does.pure trivial
  | cons a rest ih => exact (h a).bind fun _ => ih

theorem Writing.Quiet.sends {m : Writing σ α} (h : Writing.Quiet rules m) :
    Saving.Sends rules m.run :=
  Writing.Does.mono h fun _ _ _ => trivial

/-- The error of a computation that writes. -/
def Writing.failure? : Except WriteError α → Option WriteError
  | .ok _ => none
  | .error e => some e

theorem Writing.failure?_map (answer : Except WriteError α) (f : α → β) :
    failure? (answer.map f) = failure? answer := by
  cases answer <;> rfl

theorem Writing.eq_ok_of_failure? {answer : Except WriteError α} (h : failure? answer = none) :
    ∃ a, answer = .ok a := by
  cases answer with
  | ok a => exact ⟨a, rfl⟩
  | error e => cases h

theorem Writing.eq_error_of_failure? {answer : Except WriteError α} {e : WriteError}
    (h : failure? answer = some e) : answer = .error e := by
  cases answer with
  | ok a => cases h
  | error e' =>
      cases h
      rfl

omit [Executor σ] in
theorem Writing.handsOn_bindCont (f : α → Writing σ β) :
    Saving.Lockstep.HandsOn failure? failure?
      (ExceptT.bindCont f : Except WriteError α → Saving σ (Except WriteError β)) := by
  intro answer e he
  cases answer with
  | ok a => cases he
  | error e' => exact ⟨.error e', rfl, he⟩

/-- Two computations that write go in lockstep, to answers that are related by `R`. -/
def Writing.Lockstep (rules : CascadeRules) (twin : Cascade σ → Cascade σ → Prop)
    (alike : Event → Event → Prop) (m m' : Writing σ α) (R : α → α → Prop) : Prop :=
  Saving.Lockstep rules twin alike failure? m.run m'.run fun answer answer' =>
    ∀ a a', answer = .ok a → answer' = .ok a' → R a a'

namespace Writing.Lockstep

variable {m m' : Writing σ α} {R : α → α → Prop} {S : β → β → Prop}

theorem pure {a a' : α} (h : R a a') :
    Lockstep rules twin alike (Pure.pure a : Writing σ α) (Pure.pure a') R := by
  refine Saving.Lockstep.pure rfl rfl fun b b' hb hb' => ?_
  cases hb
  cases hb'
  exact h

theorem throw {e e' : WriteError} :
    Lockstep rules twin alike (throw e : Writing σ α) (throw e') R :=
  Saving.Lockstep.fail rfl rfl

theorem mono {R' : α → α → Prop} (h : Lockstep rules twin alike m m' R)
    (himp : ∀ a a', R a a' → R' a a') : Lockstep rules twin alike m m' R' :=
  Saving.Lockstep.mono h fun _ _ hR a a' ha ha' => himp a a' (hR a a' ha ha')

/-- A value that has no storage form stops one of the two. -/
theorem ofExcept {answer answer' : Except WriteError α} (h : StoredAlike R answer answer') :
    Lockstep rules twin alike (Writing.ofExcept answer : Writing σ α) (Writing.ofExcept answer')
      R := by
  cases h with
  | ok h => exact pure h
  | error => exact throw
  | left hconversion => exact .left rfl hconversion (Saving.Does.pure trivial)
  | right hconversion => exact .right (Saving.Does.pure trivial) rfl hconversion

/-- Where neither has asked for anything, the other run goes on as it will. -/
theorem ofExcept_bind_alike {answer answer' : Except WriteError α} {f f' : α → Writing σ β}
    (h : StoredAlike R answer answer')
    (hsends : Saving.Sends rules (Writing.ofExcept answer >>= f).run)
    (hsends' : Saving.Sends rules (Writing.ofExcept answer' >>= f').run)
    (hf : ∀ a a', answer = .ok a → answer' = .ok a' → R a a' →
      Lockstep rules twin alike (f a) (f' a') S) :
    Lockstep rules twin alike (Writing.ofExcept answer >>= f) (Writing.ofExcept answer' >>= f')
      S := by
  cases h with
  | ok h => exact hf _ _ rfl rfl h
  | error => exact throw
  | left hconversion => exact .left rfl hconversion hsends'
  | right hconversion => exact .right hsends rfl hconversion

/-- Nothing that concerns values is answered. -/
theorem mapError_bind {ε : Type} {answer answer' : Except ε α} {g : ε → WriteError}
    {f f' : α → Writing σ β} (h : Except.Alike (fun _ => False) R answer answer')
    (hf : ∀ a a', answer = .ok a → answer' = .ok a' → R a a' →
      Lockstep rules twin alike (f a) (f' a') S) :
    Lockstep rules twin alike (Writing.ofExcept (answer.mapError g) >>= f)
      (Writing.ofExcept (answer'.mapError g) >>= f') S := by
  cases h with
  | ok h => exact hf _ _ rfl rfl h
  | error => exact throw
  | left h => exact h.elim
  | right h => exact h.elim

theorem bind {f f' : α → Writing σ β} (hm : Lockstep rules twin alike m m' R)
    (hsends : ∀ a, Saving.Sends rules (f a).run) (hsends' : ∀ a, Saving.Sends rules (f' a).run)
    (hf : ∀ a a', R a a' → Lockstep rules twin alike (f a) (f' a') S) :
    Lockstep rules twin alike (m >>= f) (m' >>= f') S := by
  have hcont : ∀ f : α → Writing σ β, (∀ a, Saving.Sends rules (f a).run) → ∀ answer,
      Saving.Sends rules (ExceptT.bindCont f answer : Saving σ _) := by
    intro f hsends answer
    cases answer with
    | ok a => exact hsends a
    | error e => exact Saving.Does.pure trivial
  refine Saving.Lockstep.bind hm (handsOn_bindCont f) (handsOn_bindCont f') (hcont f hsends)
    (hcont f' hsends') ?_
  intro answer answer' ha ha' hR
  cases answer with
  | error e => cases ha
  | ok a =>
      cases answer' with
      | error e => cases ha'
      | ok a' => exact hf a a' (hR a a' rfl rfl)

/-- What only rearranges the answer of a computation. -/
theorem bind_pure {f g : α → β} (hm : Lockstep rules twin alike m m' R)
    (hS : ∀ a a', R a a' → S (f a) (g a')) :
    Lockstep rules twin alike (m >>= fun a => Pure.pure (f a))
      (m' >>= fun a => Pure.pure (g a)) S :=
  hm.bind (fun _ => Saving.Does.pure trivial) (fun _ => Saving.Does.pure trivial) fun a a' hR =>
    pure (hS a a' hR)

/-- What both are answered without asking does not stop one of them alone. -/
theorem ofExcept_bind {answer : Except WriteError α} {f f' : α → Writing σ β}
    (hf : ∀ a, answer = .ok a → Lockstep rules twin alike (f a) (f' a) S) :
    Lockstep rules twin alike (Writing.ofExcept answer >>= f)
      (Writing.ofExcept answer >>= f') S := by
  cases answer with
  | ok a => exact hf a rfl
  | error e => exact throw

theorem get_bind {f f' : Cascade σ → Writing σ β}
    (h : ∀ c c', twin c c' → Lockstep rules twin alike (f c) (f' c') S) :
    Lockstep rules twin alike (get >>= f) (get >>= f') S :=
  .step (fun c c' htwin => ⟨[], [], .done c.work, .done c'.work, .nil, htwin⟩) h

theorem working {m m' : Working σ UnitOfWorkError α}
    (hstep : ∀ c c', twin c c' → ∃ es es', UnitOfWork.Sends rules c.work es (m.run c.work).2 ∧
      UnitOfWork.Sends rules c'.work es' (m'.run c'.work).2 ∧ List.Forall₂ alike es es' ∧
      twin { c with work := (m.run c.work).2 } { c' with work := (m'.run c'.work).2 })
    (hanswer : ∀ c c', twin c c' → Lockstep rules twin alike
      (Writing.ofExcept ((m.run c.work).1.mapError .unitOfWork) : Writing σ α)
      (Writing.ofExcept ((m'.run c'.work).1.mapError .unitOfWork)) R) :
    Lockstep rules twin alike (Writing.inWork m) (Writing.inWork m') R :=
  .step hstep hanswer

theorem modify {g g' : Cascade σ → Cascade σ} (hwork : ∀ c, (g c).work = c.work)
    (hwork' : ∀ c, (g' c).work = c.work) (h : ∀ c c', twin c c' → twin (g c) (g' c')) :
    Lockstep rules twin alike (modify g : Writing σ PUnit) (modify g') fun _ _ => True := by
  refine .step (fun c c' htwin => ?_) fun _ _ _ => pure trivial
  refine ⟨[], [], ?_, ?_, .nil, h c c' htwin⟩
  · show UnitOfWork.Sends rules c.work [] (g c).work
    rw [hwork]
    exact .done c.work
  · show UnitOfWork.Sends rules c'.work [] (g' c').work
    rw [hwork']
    exact .done c'.work

theorem forM {l : List α} {f f' : α → Writing σ Unit} (hsends : ∀ a, Saving.Sends rules (f a).run)
    (hsends' : ∀ a, Saving.Sends rules (f' a).run)
    (h : ∀ a ∈ l, Lockstep rules twin alike (f a) (f' a) fun _ _ => True) :
    Lockstep rules twin alike (l.forM f) (l.forM f') fun _ _ => True := by
  induction l with
  | nil => exact pure trivial
  | cons a rest ih =>
      show Lockstep rules twin alike (f a >>= fun _ => rest.forM f)
        (f' a >>= fun _ => rest.forM f') _
      refine (h a (List.mem_cons_self ..)).bind (fun _ => ?_) (fun _ => ?_) fun _ _ _ =>
        ih fun b hb => h b (List.mem_cons_of_mem _ hb)
      · exact Saving.Sends.forM hsends rest
      · exact Saving.Sends.forM hsends' rest

end Writing.Lockstep

end

/-! ## Statements side by side -/

namespace Writing.Lockstep

variable {rules : CascadeRules} {held : σ → Prop} {same : String → Value → Value → Prop}
  {own : OperationKind → String → Value → Value → Prop}

theorem send {s s' : Statement} {call call' : Call}
    {answer answer' : σ → Except ExecutionError α × σ} (e e' : Except ExecutionError α → Event)
    (hcall : ∀ a, (e a).call = call) (hcall' : ∀ a, (e' a).call = call')
    (hgenuine : ∀ a, (e a).Genuine rules) (hgenuine' : ∀ a, (e' a).Genuine rules)
    (hanswered : ∀ connection, (e (answer connection).1).Answered connection (answer connection).2)
    (hanswered' : ∀ connection,
      (e' (answer' connection).1).Answered connection (answer' connection).2)
    (hanswer : ∀ connection, answer' connection = answer connection)
    (hheld : ∀ connection, held connection → held (answer connection).2)
    (halike : ∀ connection, held connection →
      Event.Alike same own (e (answer connection).1) (e' (answer connection).1)) :
    Lockstep rules (Cascade.Twin held same) (Event.Alike same own)
      (inWork (UnitOfWork.send s call answer))
      (inWork (UnitOfWork.send s' call' answer')) fun a a' =>
        a' = a ∧ ∃ connection, held connection ∧ (answer connection).1 = .ok a := by
  refine working (fun c c' htwin => ?_) fun c c' htwin => ?_
  · rw [UnitOfWork.run_send, UnitOfWork.run_send]
    by_cases hopen : c.work.isOpen = true
    · have hopen' : c'.work.isOpen = true := htwin.isOpen.trans hopen
      have hanswered' := hanswered' c'.work.connection
      rw [hanswer, htwin.connection] at hanswered'
      rw [if_pos hopen, if_pos hopen', htwin.connection, hanswer,
        ← hcall (answer c.work.connection).1, ← hcall' (answer c.work.connection).1]
      refine ⟨[e (answer c.work.connection).1], [e' (answer c.work.connection).1],
        .event hopen (hgenuine _) (hanswered _) (.done _),
        .event hopen' (hgenuine' _) (by rwa [htwin.connection]) (.done _),
        .cons (halike c.work.connection htwin.held) .nil, ?_⟩
      exact ⟨hheld c.work.connection htwin.held, rfl, htwin.isOpen, htwin.inserted,
        htwin.schedules⟩
    · have hopen' : ¬c'.work.isOpen = true := htwin.isOpen ▸ hopen
      rw [if_neg hopen, if_neg hopen']
      exact ⟨[], [], .done c.work, .done c'.work, .nil, htwin⟩
  · rw [UnitOfWork.run_send, UnitOfWork.run_send]
    by_cases hopen : c.work.isOpen = true
    · have hopen' : c'.work.isOpen = true := htwin.isOpen.trans hopen
      rw [if_pos hopen, if_pos hopen', htwin.connection, hanswer]
      cases hanswer : (answer c.work.connection).1 with
      | ok a => exact pure ⟨rfl, c.work.connection, htwin.held, hanswer⟩
      | error source => exact throw
    · have hopen' : ¬c'.work.isOpen = true := htwin.isOpen ▸ hopen
      rw [if_neg hopen, if_neg hopen']
      exact throw

/-- Key queries that compare a member with two values, both null or neither. -/
theorem selectKeys (hoblivious : Executor.Oblivious σ) (hclosed : Executor.Closed held)
    {entity path : String} {op : Operator} {v w : Value} (hnull : w.isNull = v.isNull)
    (e e' : Statement → Except ExecutionError RecordSet → Event)
    (hcall : ∀ s a, (e s a).call = .query s) (hcall' : ∀ s a, (e' s a).call = .query s)
    (hgenuine : ∀ s a, rules.keyQuery entity (.compare path op v) = .ok s → (e s a).Genuine rules)
    (hgenuine' : ∀ s a, rules.keyQuery entity (.compare path op w) = .ok s →
      (e' s a).Genuine rules)
    (hanswered : ∀ s (connection : σ), (e s (Executor.query s connection).1).Answered connection
      (Executor.query s connection).2)
    (hanswered' : ∀ s (connection : σ), (e' s (Executor.query s connection).1).Answered connection
      (Executor.query s connection).2)
    (halike : ∀ s s' (connection : σ), rules.keyQuery entity (.compare path op v) = .ok s →
      s'.sql = s.sql → held connection →
      Event.Alike same own (e s (Executor.query s connection).1)
        (e' s' (Executor.query s connection).1)) :
    Lockstep rules (Cascade.Twin held same) (Event.Alike same own)
      (Cascade.selectKeys rules entity (.compare path op v))
      (Cascade.selectKeys rules entity (.compare path op w)) fun keys keys' =>
        keys' = keys ∧ ∃ connection s records, held connection ∧
          rules.keyQuery entity (.compare path op v) = .ok s ∧
          (Executor.query s connection).1 = .ok records ∧ keys = records.storedKeys := by
  have hsends : ∀ filter, Saving.Sends rules
      (Cascade.selectKeys rules entity filter : Writing σ (List Value)).run :=
    fun filter => (Cascade.selectKeys_asks entity filter).quiet.sends
  refine ofExcept_bind_alike (rules.keyQuery_alike entity path op hnull) (hsends _) (hsends _) ?_
  intro s s' hs hs' hsql
  have hsend : Lockstep rules (Cascade.Twin held same) (Event.Alike same own)
      (inWork (UnitOfWork.query s)) (inWork (UnitOfWork.query s')) fun records records' =>
        records' = records ∧ ∃ connection, held connection ∧
          (Executor.query s connection).1 = .ok records :=
    send (e s) (e' s') (hcall s) (hcall' s') (fun a => hgenuine s a hs)
      (fun a => hgenuine' s' a hs') (hanswered s) (hanswered' s') (hoblivious.query hsql)
      (fun connection hheld => hclosed.query hheld s)
      fun connection hheld => halike s s' connection hs hsql hheld
  refine hsend.bind_pure ?_
  rintro _ records ⟨rfl, connection, hheld, hanswer⟩
  exact ⟨rfl, connection, s, records, hheld, hs, hanswer, records.distinctValues?_getD⟩

theorem executeKeyed (hoblivious : Executor.Oblivious σ) (hclosed : Executor.Closed held)
    {t : Table} {op op' : Operation} {key key' : Value} (hop : op.Alike own op') :
    Lockstep rules (Cascade.Twin held same) (Event.Alike same own)
      (Cascade.executeKeyed t op key) (Cascade.executeKeyed t op' key') fun _ _ => True := by
  unfold Cascade.executeKeyed
  refine mapError_bind hop.statement fun s s' hs hs' hsql => ?_
  have hsend : Lockstep rules (Cascade.Twin held same) (Event.Alike same own)
      (inWork (UnitOfWork.execute s)) (inWork (UnitOfWork.execute s')) fun n n' =>
        n' = n ∧ ∃ connection, held connection ∧ (Executor.execute s connection).1 = .ok n :=
    send (.executed op s) (.executed op' s') (fun _ => rfl) (fun _ => rfl) (fun _ => hs)
      (fun _ => hs') (fun _ => rfl) (fun _ => rfl) (hoblivious.execute hsql)
      (fun connection hheld => hclosed.execute hheld s) fun _ _ => .executed hsql hop
  refine hsend.bind ?_ ?_ ?_
  · intro n
    split
    · exact Saving.Does.pure trivial
    · exact Saving.Does.pure trivial
  · intro n
    split
    · exact Saving.Does.pure trivial
    · exact Saving.Does.pure trivial
  · rintro n _ ⟨rfl, -⟩
    split
    · exact throw
    · exact pure trivial

end Writing.Lockstep

end EntityMap
