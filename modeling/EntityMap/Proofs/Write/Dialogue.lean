import EntityMap.Proofs.Except
import EntityMap.Proofs.Execution.Answers
import EntityMap.Proofs.Execution.Protocol
import EntityMap.Write.Save

/-!
# What a cascade says to its connection

A computation that writes changes its unit of work only by what it asks
of the connection. `Event` is one such call with what it means and what
is answered; `UnitOfWork.Sends` says that a list of events leads from one
unit of work to another, and then the calls between the two are those of
the events (`UnitOfWork.Sends.calls_eq`).

`Saving.Does` is what a computation answers together with its events,
whatever the connection answers, and whatever has become of the cascade
between two of its steps: so it also holds where others go on beside it.
There is one rule for each way to put computations together, so that a
fact about the events of a cascade follows its text. `Writing.Halts` adds
that the first event that fails is the last, and that its error is
answered.
-/

namespace EntityMap

def Table.deletion (t : Table) (keyColumn : Column) (key : Value) : Operation :=
  { kind := .delete, entity := t.entity, table := t.table, key := some ⟨keyColumn.column, key⟩ }

namespace Ownership

/-- The operation that empties the foreign key of a child row. -/
def detachment (o : Ownership) (key : Value) : Operation :=
  { kind := .detach, entity := o.child.entity, table := o.child.table
    assignments := [⟨o.foreignKey.column, .null⟩], key := some ⟨o.childKey.column, key⟩ }

/-- The children of a parent row: those whose foreign key is its key. -/
def childrenOf (o : Ownership) (parentKey : Value) : Filter :=
  .compare o.foreignKey.member .eq parentKey

end Ownership

inductive Event where
  /-- The keys of the rows that pass a filter are queried for a record's own sake. -/
  | asked (entity : String) (filter : Filter) (s : Statement)
      (answer : Except ExecutionError RecordSet)
  /-- The keys of the children of a row are queried, to release all but `kept`. -/
  | swept (o : Ownership) (parentKey : Value) (kept : List Value) (s : Statement)
      (answer : Except ExecutionError RecordSet)
  /-- An operation is executed, which answers the number of its rows. -/
  | executed (op : Operation) (s : Statement) (answer : Except ExecutionError Nat)
  /-- An insert is executed that answers the generated key. -/
  | generated (op : Operation) (s : Statement) (answer : Except ExecutionError Value)

namespace Event

def call : Event → Call
  | asked _ _ s _ => .query s
  | swept _ _ _ s _ => .query s
  | executed _ s _ => .execute s
  | generated _ s _ => .scalar s

/-- The statement of an event is that of what it means. -/
def Genuine (rules : CascadeRules) : Event → Prop
  | asked entity filter s _ => rules.keyQuery entity filter = .ok s
  | swept o parentKey _ s _ => rules.keyQuery o.child.entity (o.childrenOf parentKey) = .ok s
  | executed op s _ => op.statement = .ok s
  | generated op s _ => op.statement = .ok s

/-- The error that a failed statement is reported by. -/
def statementFailure? {α : Type} (s : Statement) : Except ExecutionError α → Option WriteError
  | .ok _ => none
  | .error source => some (.unitOfWork (.statement s.sql source))

/-- The error by which an event ends its computation, if it does: the connection fails, an
operation on the row of a key finds no row, or an insert answers no key. -/
def failure? : Event → Option WriteError
  | asked _ _ s answer => statementFailure? s answer
  | swept _ _ _ s answer => statementFailure? s answer
  | executed op _ (.ok 0) => op.key.map fun key => .rowNotFound op.entity key.value
  | executed _ s answer => statementFailure? s answer
  | generated op _ (.ok .null) => some (.missingGeneratedKey op.entity)
  | generated _ s answer => statementFailure? s answer

/-- The answer of an event is that of the connection, which it changes. -/
def Answered {σ : Type} [Executor σ] (connection connection' : σ) : Event → Prop
  | asked _ _ s answer => Executor.query s connection = (answer, connection')
  | swept _ _ _ s answer => Executor.query s connection = (answer, connection')
  | executed _ s answer => Executor.execute s connection = (answer, connection')
  | generated _ s answer => Executor.scalar s connection = (answer, connection')

end Event

section Runs

variable {σ ε α β : Type}

namespace Saving

theorem bind_done (m : Saving σ α) : m.bind done = m := by
  induction m with
  | done a => rfl
  | step after rest ih => exact congrArg (step after) (funext ih)

theorem bind_bind {γ : Type} (m : Saving σ α) (f : α → Saving σ β) (g : β → Saving σ γ) :
    (m.bind f).bind g = m.bind fun a => (f a).bind g := by
  induction m with
  | done a => rfl
  | step after rest ih => exact congrArg (step after) (funext ih)

instance : LawfulMonad (Saving σ) :=
  LawfulMonad.mk' (Saving σ) (fun m => bind_done m) (fun _ _ => rfl) bind_bind

theorem run_bind (m : Saving σ α) (f : α → Saving σ β) (c : Cascade σ) :
    (m >>= f).run c = (f (m.run c).1).run (m.run c).2 := by
  induction m generalizing c with
  | done a => rfl
  | step after rest ih => exact ih c (after c)

theorem run_map (f : α → β) (m : Saving σ α) (c : Cascade σ) :
    (f <$> m).run c = (f (m.run c).1, (m.run c).2) :=
  run_bind m (fun a => pure (f a)) c

theorem run_bind_eq_iff {m : Saving σ α} {f : α → Saving σ β} {c : Cascade σ}
    {result : β × Cascade σ} :
    (m >>= f).run c = result ↔ ∃ a c₁, m.run c = (a, c₁) ∧ (f a).run c₁ = result := by
  rw [run_bind]
  constructor
  · exact fun h => ⟨_, _, rfl, h⟩
  · rintro ⟨a, c₁, hm, h⟩
    rwa [hm]

end Saving

theorem Writing.run_bind (m : Writing σ α) (f : α → Writing σ β) (c : Cascade σ) :
    (m >>= f).run c = match m.run c with
      | (.ok a, c') => (f a).run c'
      | (.error e, c') => (.error e, c') := by
  rw [ExceptT.run_bind, Saving.run_bind]
  rcases m.run c with ⟨_ | _, _⟩ <;> rfl

theorem Writing.run_inWork (m : Working σ UnitOfWorkError α) (c : Cascade σ) :
    (Writing.inWork m).run c =
      ((m.run c.work).1.mapError .unitOfWork, { c with work := (m.run c.work).2 }) :=
  rfl

end Runs

variable {σ : Type} [Executor σ] {α β : Type} {rules : CascadeRules}

namespace UnitOfWork

/-- Events that lead from one unit of work to another. -/
inductive Sends (rules : CascadeRules) : UnitOfWork σ → List Event → UnitOfWork σ → Prop
  | done (u : UnitOfWork σ) : Sends rules u [] u
  | event {u u' : UnitOfWork σ} {connection : σ} {e : Event} {es : List Event}
      (hopen : u.isOpen) (hgenuine : e.Genuine rules)
      (hanswered : e.Answered u.connection connection)
      (hrest : Sends rules { u with connection, calls := u.calls ++ [e.call] } es u') :
      Sends rules u (e :: es) u'

namespace Sends

variable {u u' u'' : UnitOfWork σ} {es es' : List Event}

theorem trans (h : Sends rules u es u') (h' : Sends rules u' es' u'') :
    Sends rules u (es ++ es') u'' := by
  induction h with
  | done => exact h'
  | event hopen hgenuine hanswered _ ih => exact .event hopen hgenuine hanswered (ih h')

/-- The calls between two units of work are those of the events between them. -/
theorem calls_eq (h : Sends rules u es u') : u'.calls = u.calls ++ es.map Event.call := by
  induction h with
  | done => simp
  | event _ _ _ _ ih => rw [ih, List.append_assoc]; rfl

theorem genuine (h : Sends rules u es u') : ∀ e ∈ es, e.Genuine rules := by
  induction h with
  | done => simp
  | event _ hgenuine _ _ ih => exact List.forall_mem_cons.mpr ⟨hgenuine, ih⟩

end Sends

end UnitOfWork

/-- The answer and the events of a computation satisfy `P`, in whatever states the cascade is at its
steps. -/
def Saving.Does (rules : CascadeRules) : Saving σ α → (α → List Event → Prop) → Prop
  | done a, P => P a []
  | step after rest, P => ∀ c : Cascade σ, ∃ es, UnitOfWork.Sends rules c.work es (after c).work ∧
      (rest c).Does rules fun a es' => P a (es ++ es')

namespace Saving.Does

variable {m : Saving σ α} {P : α → List Event → Prop} {R : β → List Event → Prop}

theorem pure {a : α} (h : P a []) : Does rules (pure a : Saving σ α) P :=
  h

theorem mono {P' : α → List Event → Prop} (h : Does rules m P)
    (himp : ∀ a es, P a es → P' a es) : Does rules m P' := by
  induction m generalizing P P' with
  | done a => exact himp a [] h
  | step after rest ih =>
      intro c
      obtain ⟨es, hsends, hrest⟩ := h c
      exact ⟨es, hsends, ih c hrest fun a es' => himp a (es ++ es')⟩

theorem bind {f : α → Saving σ β} (hm : Does rules m P)
    (hf : ∀ a es, P a es → Does rules (f a) fun b es' => R b (es ++ es')) :
    Does rules (m >>= f) R := by
  induction m generalizing P R with
  | done a => exact hf a [] hm
  | step after rest ih =>
      intro c
      obtain ⟨es, hsends, hrest⟩ := hm c
      refine ⟨es, hsends, ih c hrest fun a es' hP => ?_⟩
      exact (hf a (es ++ es') hP).mono fun b es'' hR => List.append_assoc es es' es'' ▸ hR

theorem genuine (h : Does rules m P) :
    Does rules m fun a es => P a es ∧ ∀ e ∈ es, e.Genuine rules := by
  induction m generalizing P with
  | done a => exact ⟨h, by simp⟩
  | step after rest ih =>
      intro c
      obtain ⟨es, hsends, hrest⟩ := h c
      exact ⟨es, hsends, (ih c hrest).mono fun a es' ⟨hP, hgenuine⟩ =>
        ⟨hP, List.forall_mem_append.mpr ⟨hsends.genuine, hgenuine⟩⟩⟩

/-- What is done in one step sends its events from wherever the cascade is by then. -/
theorem atomic {act : Cascade σ → α × Cascade σ}
    (h : ∀ c, ∃ es, UnitOfWork.Sends rules c.work es (act c).2.work ∧ P (act c).1 es) :
    Does rules (atomic act) P := by
  intro c
  obtain ⟨es, hsends, hP⟩ := h c
  refine ⟨es, hsends, ?_⟩
  show P (act c).1 (es ++ [])
  rwa [List.append_nil]

/-- A run without a break is one of those that are spoken of. -/
theorem run (h : Does rules m P) (c : Cascade σ) :
    ∃ es, UnitOfWork.Sends rules c.work es (m.run c).2.work ∧ P (m.run c).1 es := by
  induction m generalizing P c with
  | done a => exact ⟨[], .done c.work, h⟩
  | step after rest ih =>
      obtain ⟨es, hsends, hrest⟩ := h c
      obtain ⟨es', hsends', hP⟩ := ih c hrest (after c)
      exact ⟨es ++ es', hsends.trans hsends', hP⟩

end Saving.Does

/-- The same of a computation that may fail. -/
def Writing.Does (rules : CascadeRules) (m : Writing σ α)
    (P : Except WriteError α → List Event → Prop) : Prop :=
  Saving.Does rules m.run P

namespace Writing

namespace Does

variable {m : Writing σ α} {P : Except WriteError α → List Event → Prop}
  {R : Except WriteError β → List Event → Prop}

theorem ofExcept {answer : Except WriteError α} (h : P answer []) :
    Does rules (Writing.ofExcept answer : Writing σ α) P :=
  h

theorem pure {a : α} (h : P (.ok a) []) : Does rules (pure a : Writing σ α) P :=
  h

theorem throw {e : WriteError} (h : P (.error e) []) : Does rules (throw e : Writing σ α) P :=
  h

theorem throw_bind {e : WriteError} {f : α → Writing σ β} (h : R (.error e) []) :
    Does rules (MonadExcept.throw e >>= f) R :=
  h

theorem mono {P' : Except WriteError α → List Event → Prop} (h : Does rules m P)
    (himp : ∀ result es, P result es → P' result es) : Does rules m P' :=
  Saving.Does.mono h himp

theorem genuine (h : Does rules m P) :
    Does rules m fun result es => P result es ∧ ∀ e ∈ es, e.Genuine rules :=
  Saving.Does.genuine h

theorem run (h : Does rules m P) (c : Cascade σ) :
    ∃ es, UnitOfWork.Sends rules c.work es (m.run c).2.work ∧ P (m.run c).1 es :=
  Saving.Does.run h c

/-- A failure ends the computation; after a success the rest goes on. -/
theorem bind {f : α → Writing σ β} (hm : Does rules m P)
    (hfail : ∀ e es, P (.error e) es → R (.error e) es)
    (hf : ∀ a es, P (.ok a) es → Does rules (f a) fun result es' => R result (es ++ es')) :
    Does rules (m >>= f) R := by
  refine Saving.Does.bind hm fun result es hP => ?_
  cases result with
  | error e =>
      show R (.error e) (es ++ [])
      rw [List.append_nil]
      exact hfail e es hP
  | ok a => exact hf a es hP

theorem ofExcept_bind {answer : Except WriteError α} {f : α → Writing σ β}
    (hfail : ∀ e, answer = .error e → R (.error e) [])
    (hf : ∀ a, answer = .ok a → Does rules (f a) R) :
    Does rules (Writing.ofExcept answer >>= f) R := by
  refine bind (P := fun result es => result = answer ∧ es = []) (ofExcept ⟨rfl, rfl⟩) ?_ ?_
  · rintro e es ⟨heq, rfl⟩
    exact hfail e heq.symm
  · rintro a es ⟨heq, rfl⟩
    exact hf a heq.symm

theorem get_bind {f : Cascade σ → Writing σ β} (h : ∀ c, Does rules (f c) R) :
    Does rules (get >>= f) R :=
  fun c => ⟨[], .done c.work, h c⟩

/-- What is changed beside the unit of work is no event. -/
theorem modify {g : Cascade σ → Cascade σ} {P : Except WriteError PUnit → List Event → Prop}
    (hwork : ∀ c, (g c).work = c.work) (h : P (.ok ()) []) :
    Does rules (modify g : Writing σ PUnit) P := by
  intro c
  refine ⟨[], ?_, h⟩
  show UnitOfWork.Sends rules c.work [] (g c).work
  rw [hwork]
  exact .done c.work

end Does

end Writing

namespace Writing

/-! ## Failures -/

/-- How a computation ends behind its events: none of them fails, or the last one does, and then
its error is answered. -/
def Ends (result : Except WriteError α) (es : List Event) : Prop :=
  match result with
  | .ok _ => ∀ e ∈ es, e.failure? = none
  | .error error => (∀ e ∈ es, e.failure? = none) ∨
      ∃ before last, es = before ++ [last] ∧ (∀ e ∈ before, e.failure? = none) ∧
        last.failure? = some error

/-- Nothing that fails comes before what ends a computation. -/
theorem Ends.append {a : α} {result : Except WriteError β} {es es' : List Event}
    (h : Ends (.ok a) es) (h' : Ends result es') : Ends result (es ++ es') := by
  cases result with
  | ok b => exact List.forall_mem_append.mpr ⟨h, h'⟩
  | error error =>
      rcases h' with h' | ⟨before, last, rfl, hbefore, hlast⟩
      · exact .inl (List.forall_mem_append.mpr ⟨h, h'⟩)
      · exact .inr ⟨es ++ before, last, (List.append_assoc ..).symm,
          List.forall_mem_append.mpr ⟨h, hbefore⟩, hlast⟩

theorem Ends.nil {result : Except WriteError α} : Ends result [] := by
  cases result with
  | ok a => exact fun _ he => (by cases he)
  | error error => exact .inl fun _ he => (by cases he)

theorem Ends.failed {error : WriteError} {e : Event} (h : e.failure? = some error) :
    Ends (.error error : Except WriteError α) [e] :=
  .inr ⟨[], e, rfl, fun _ he => (by cases he), h⟩

/-- From every cascade, the events of a computation satisfy `P`, and it ends as they say. -/
def Halts (rules : CascadeRules) (m : Writing σ α) (P : Except WriteError α → List Event → Prop) :
    Prop :=
  Does rules m fun result es => P result es ∧ Ends result es

/-! ## Calls -/

/-- How a call ends in an error: the unit of work is closed, or the connection answers it. -/
def Unsent (s : Statement) (e : Except ExecutionError α → Event) (error : WriteError)
    (es : List Event) : Prop :=
  error = .unitOfWork .closed ∧ es = [] ∨
    ∃ source, error = .unitOfWork (.statement s.sql source) ∧ es = [e (.error source)]

/-- How a call ends: with its event, or with none when the unit of work is closed. -/
def Sent (s : Statement) (e : Except ExecutionError α → Event) :
    Except WriteError α → List Event → Prop
  | .ok a, es => es = [e (.ok a)]
  | .error error, es => Unsent s e error es

theorem send_does {s : Statement} {call : Call} {answer : σ → Except ExecutionError α × σ}
    (e : Except ExecutionError α → Event) (hcall : ∀ a, (e a).call = call)
    (hgenuine : ∀ a, (e a).Genuine rules)
    (hanswered : ∀ connection,
      (e (answer connection).1).Answered connection (answer connection).2) :
    Does rules (inWork (UnitOfWork.send s call answer)) (Sent s e) := by
  refine Saving.Does.atomic fun c => ?_
  show ∃ es, UnitOfWork.Sends rules c.work es ((UnitOfWork.send s call answer).run c.work).2 ∧
    Sent s e (((UnitOfWork.send s call answer).run c.work).1.mapError .unitOfWork) es
  rw [UnitOfWork.run_send]
  split
  · rename_i hopen
    refine ⟨[e (answer c.work.connection).1],
      .event hopen (hgenuine _) (hanswered c.work.connection) (hcall _ ▸ .done _), ?_⟩
    cases (answer c.work.connection).1 with
    | ok a => rfl
    | error source => exact .inr ⟨source, rfl, rfl⟩
  · exact ⟨[], .done c.work, .inl ⟨rfl, rfl⟩⟩

theorem query_does {s : Statement} (e : Except ExecutionError RecordSet → Event)
    (hcall : ∀ a, (e a).call = .query s) (hgenuine : ∀ a, (e a).Genuine rules)
    (hanswered : ∀ connection : σ,
      (e (Executor.query s connection).1).Answered connection (Executor.query s connection).2) :
    Does rules (inWork (UnitOfWork.query s) : Writing σ RecordSet) (Sent s e) :=
  send_does e hcall hgenuine hanswered

theorem execute_does {op : Operation} {s : Statement} (hs : op.statement = .ok s) :
    Does rules (inWork (UnitOfWork.execute s) : Writing σ Nat) (Sent s (.executed op s)) :=
  send_does (.executed op s) (fun _ => rfl) (fun _ => hs) fun _ => rfl

theorem scalar_does {op : Operation} {s : Statement} (hs : op.statement = .ok s) :
    Does rules (inWork (UnitOfWork.scalar s) : Writing σ Value) (Sent s (.generated op s)) :=
  send_does (.generated op s) (fun _ => rfl) (fun _ => hs) fun _ => rfl

/-- From every cascade, every event of a computation satisfies `Q`. -/
def Only (rules : CascadeRules) (m : Writing σ α) (Q : Event → Prop) : Prop :=
  Does rules m fun _ es => ∀ e ∈ es, Q e

namespace Only

variable {m : Writing σ α} {Q : Event → Prop}

theorem ofExcept {answer : Except WriteError α} :
    Only rules (Writing.ofExcept answer : Writing σ α) Q :=
  Does.ofExcept (by simp)

theorem pure {a : α} : Only rules (pure a : Writing σ α) Q :=
  Does.pure (by simp)

theorem throw {e : WriteError} : Only rules (throw e : Writing σ α) Q :=
  Does.throw (by simp)

theorem throw_bind {e : WriteError} {f : α → Writing σ β} :
    Only rules (MonadExcept.throw e >>= f : Writing σ β) Q :=
  Does.throw_bind (by simp)

theorem bind {f : α → Writing σ β} (hm : Only rules m Q) (hf : ∀ a, Only rules (f a) Q) :
    Only rules (m >>= f) Q :=
  Does.bind hm (fun _ _ h => h) fun a _ h => (hf a).mono fun _ _ h' =>
    List.forall_mem_append.mpr ⟨h, h'⟩

theorem ofExcept_bind {answer : Except WriteError α} {f : α → Writing σ β}
    (hf : ∀ a, answer = .ok a → Only rules (f a) Q) :
    Only rules (Writing.ofExcept answer >>= f) Q :=
  Does.ofExcept_bind (by simp) hf

theorem of_sent {s : Statement} {e : Except ExecutionError α → Event} (h : Does rules m (Sent s e))
    (he : ∀ answer, Q (e answer)) : Only rules m Q := by
  refine h.mono fun result es hsent => ?_
  cases result with
  | ok a => exact hsent ▸ List.forall_mem_singleton.mpr (he _)
  | error error =>
      rcases hsent with ⟨-, rfl⟩ | ⟨source, -, rfl⟩
      · simp
      · exact List.forall_mem_singleton.mpr (he _)

end Only

def SentKeys (s : Statement) (e : Except ExecutionError RecordSet → Event) :
    Except WriteError (List Value) → List Event → Prop
  | .ok keys, es => ∃ records, es = [e (.ok records)] ∧ keys = records.storedKeys
  | .error error, es => Unsent s e error es

end Writing

namespace Cascade

open Writing

/-- A key query that can be stated is one statement. -/
theorem selectKeys_eq {entity : String} {filter : Filter} {s : Statement}
    (hs : rules.keyQuery entity filter = .ok s) :
    (selectKeys rules entity filter : Writing σ (List Value)) = (do
      let records ← inWork (UnitOfWork.query s)
      return records.storedKeys) := by
  unfold selectKeys
  rw [hs]
  simp only [RecordSet.distinctValues?_getD]
  rfl

theorem selectKeys_does {entity : String} {filter : Filter}
    (e : Statement → Except ExecutionError RecordSet → Event)
    (hcall : ∀ s a, (e s a).call = .query s)
    (hgenuine : ∀ s a, rules.keyQuery entity filter = .ok s → (e s a).Genuine rules)
    (hanswered : ∀ s (connection : σ),
      (e s (Executor.query s connection).1).Answered connection (Executor.query s connection).2) :
    Does rules (selectKeys rules entity filter : Writing σ (List Value)) fun result es =>
      (∃ error, rules.keyQuery entity filter = .error error ∧ result = .error error ∧ es = []) ∨
        ∃ s, rules.keyQuery entity filter = .ok s ∧ SentKeys s (e s) result es := by
  unfold selectKeys
  refine Does.ofExcept_bind (fun error herror => .inl ⟨error, herror, rfl, rfl⟩) fun s hs => ?_
  refine (query_does (e s) (hcall s) (fun a => hgenuine s a hs) (hanswered s)).bind ?_ ?_
  · intro error es hsent
    exact .inr ⟨s, hs, hsent⟩
  · intro records es hsent
    refine Does.pure (.inr ⟨s, hs, records, ?_, records.distinctValues?_getD⟩)
    rw [hsent, List.append_nil]

end Cascade

/-- How an operation on a row of its own ends: executed on some row, not sent, or executed in
vain. -/
inductive Keyed (op : Operation) : Except WriteError Unit → List Event → Prop
  | done {s : Statement} {n : Nat} (hn : n ≠ 0) : Keyed op (.ok ()) [.executed op s (.ok n)]
  | unwritten {error : StatementError} (h : op.statement = .error error) :
      Keyed op (.error (.statement error)) []
  | closed : Keyed op (.error (.unitOfWork .closed)) []
  | failed {s : Statement} {answer : Except ExecutionError Nat} {error : WriteError}
      (h : (Event.executed op s answer).failure? = some error) :
      Keyed op (.error error) [.executed op s answer]

namespace Keyed

variable {op : Operation} {result : Except WriteError Unit} {es : List Event}

theorem ends (h : Keyed op result es) : Writing.Ends result es := by
  cases h with
  | @done s n hn =>
      intro e he
      cases List.mem_singleton.mp he
      cases n with
      | zero => exact absurd rfl hn
      | succ n => rfl
  | unwritten _ => exact .nil
  | closed => exact .nil
  | failed h => exact .failed h

theorem eq_executed (h : Keyed op result es) {e : Event} (he : e ∈ es) :
    ∃ s answer, e = .executed op s answer := by
  cases h with
  | done _ => exact ⟨_, _, List.mem_singleton.mp he⟩
  | unwritten _ => cases he
  | closed => cases he
  | failed _ => exact ⟨_, _, List.mem_singleton.mp he⟩

end Keyed

namespace Cascade

open Writing

theorem executeKeyed_does {t : Table} (op : Operation) {key : Value} {keyColumn : String}
    (hentity : op.entity = t.entity) (hkey : op.key = some ⟨keyColumn, key⟩) :
    Does rules (executeKeyed t op key : Writing σ Unit) (Keyed op) := by
  unfold executeKeyed
  refine Does.ofExcept_bind (fun error herror => ?_) fun s hs => ?_
  · obtain ⟨source, hsource, rfl⟩ := Except.mapError_eq_error_iff.mp herror
    exact .unwritten hsource
  have hs := Except.mapError_eq_ok_iff.mp hs
  refine (execute_does hs).bind ?_ ?_
  · rintro error es (⟨rfl, rfl⟩ | ⟨source, rfl, rfl⟩)
    · exact .closed
    · exact .failed rfl
  · rintro n es rfl
    split
    · rename_i hn
      refine Does.throw (.failed ?_)
      rw [hn, Event.failure?, hkey, hentity]
      rfl
    · rename_i hn
      exact Does.pure (.done hn)

theorem executeKeyed_only {t : Table} {op : Operation} {key : Value} {keyColumn : String}
    (hentity : op.entity = t.entity) (hkey : op.key = some ⟨keyColumn, key⟩) {Q : Event → Prop}
    (hQ : ∀ s answer, (Event.executed op s answer).Genuine rules → Q (.executed op s answer)) :
    Only rules (executeKeyed t op key : Writing σ Unit) Q := by
  refine (executeKeyed_does op hentity hkey).genuine.mono fun result es ⟨hkeyed, hgenuine⟩ => ?_
  intro e he
  obtain ⟨s, answer, rfl⟩ := hkeyed.eq_executed he
  exact hQ s answer (hgenuine _ he)

end Cascade

end EntityMap
