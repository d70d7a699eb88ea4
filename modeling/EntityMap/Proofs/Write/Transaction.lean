import EntityMap.Proofs.Write.Tree
import EntityMap.Write.Repository

/-!
# Transactions

Each call of a repository is one transaction. It begins, its cascade
sends statements and nothing else (`UnitOfWork.Sends.isStatement`), and
it ends once: committed, or rolled back after the cascade or the commit
has failed (`Transacted`). Only what is committed reaches the caller, so
that a call is all or nothing (`Repository.calls_atomic`).
-/

namespace EntityMap

def Call.isStatement : Call → Bool
  | query _ | scalar _ | execute _ => true
  | timeout _ | begin | commit | rollback => false

theorem Event.isStatement_call (e : Event) : e.call.isStatement := by
  cases e <;> rfl

section Runs

variable {σ : Type} [Executor σ] {α β : Type}

namespace UnitOfWork

/-- A transaction that has begun, and no statement is sent yet. -/
def begun (timeout : Nat) (connection : σ) : UnitOfWork σ :=
  { connection, calls := [.timeout timeout, .begin] }

end UnitOfWork

namespace Repository

/-- The calls by which a transaction begins. -/
def opening (repository : Repository) : List Call :=
  [.timeout repository.settings.commandTimeoutMs, .begin]

/-- The cascade of a transaction that has begun. -/
def start (repository : Repository) (connection : σ) : Cascade σ :=
  { work := .begun repository.settings.commandTimeoutMs connection
    schedules := repository.schedules }

end Repository

/-- The transaction begins, and its cascade sends `statements` and ends with `result`, when the
connection is at `ended`. -/
inductive CascadeRun (repository : Repository) (connection : σ)
    (cascade : Saving σ (Except WriteError α × β)) :
    Except WriteError α × β → List Call → σ → Prop
  | intro {start : σ} {c : Cascade σ} {result : Except WriteError α × β} {statements : List Call}
      (hbegin : Executor.begin connection = (.ok (), start))
      (hrun : cascade.run (repository.start start) = (result, c))
      (hcalls : c.work.calls = repository.opening ++ statements)
      (hstatements : ∀ call ∈ statements, call.isStatement) :
      CascadeRun repository connection cascade result statements c.work.connection

/-- How a cascade runs as a transaction: what the caller gets, beside the value that it handed in,
and all that is asked of the connection. The cascade works on a copy of that value. -/
inductive Transacted (repository : Repository) (connection : σ) (before : β)
    (cascade : Saving σ (Except WriteError α × β)) :
    Except WriteError α × β → List Call → Prop
  /-- It cannot begin. -/
  | unbegun {source : ExecutionError} {after : σ}
      (hbegin : Executor.begin connection = (.error source, after)) :
      Transacted repository connection before cascade
        (.error (.unitOfWork (.begin source)), before) repository.opening
  | committed {a : α} {copy : β} {statements : List Call} {ended after : σ}
      (hrun : CascadeRun repository connection cascade (.ok a, copy) statements ended)
      (hcommit : Executor.commit ended = (.ok (), after)) :
      Transacted repository connection before cascade (.ok a, copy)
        (repository.opening ++ statements ++ [.commit])
  /-- The commit fails, so it is rolled back. -/
  | uncommitted {a : α} {copy : β} {statements : List Call} {ended after : σ}
      {source : ExecutionError}
      (hrun : CascadeRun repository connection cascade (.ok a, copy) statements ended)
      (hcommit : Executor.commit ended = (.error source, after)) :
      Transacted repository connection before cascade
        (.error (.unitOfWork (.commit source)), before)
        (repository.opening ++ statements ++ [.commit, .rollback])
  /-- The cascade fails, so it is rolled back, whatever that answers. -/
  | failed {e : WriteError} {copy : β} {statements : List Call} {ended : σ}
      (hrun : CascadeRun repository connection cascade (.error e, copy) statements ended) :
      Transacted repository connection before cascade (.error e, before)
        (repository.opening ++ statements ++ [.rollback])

/-- A call that is one transaction, and succeeds just when its cascade and the commit do. -/
structure Atomic (repository : Repository) (connection : σ) (before : β)
    (cascade : Saving σ (Except WriteError α × β)) (answer : Except WriteError α × β)
    (calls : List Call) : Prop where
  transacted : Transacted repository connection before cascade answer calls
  isOk_iff : answer.1.isOk ↔ ∃ a copy statements ended after,
    CascadeRun repository connection cascade (.ok a, copy) statements ended ∧
      Executor.commit ended = (.ok (), after)

variable {repository : Repository} {connection : σ} {before : β}
  {cascade : Saving σ (Except WriteError α × β)}
  {answer result result' : Except WriteError α × β} {calls statements statements' : List Call}
  {ended ended' : σ}

theorem CascadeRun.unique (h : CascadeRun repository connection cascade result statements ended)
    (h' : CascadeRun repository connection cascade result' statements' ended') :
    result = result' ∧ ended = ended' := by
  obtain ⟨hbegin, hrun, -, -⟩ := h
  obtain ⟨hbegin', hrun', -, -⟩ := h'
  have hstart := (Prod.mk.inj (hbegin.symm.trans hbegin')).2
  rw [← hstart] at hrun'
  obtain ⟨hresult, hc⟩ := Prod.mk.inj (hrun.symm.trans hrun')
  exact ⟨hresult, by rw [hc]⟩

theorem Transacted.atomic (h : Transacted repository connection before cascade answer calls) :
    Atomic repository connection before cascade answer calls := by
  refine ⟨h, ?_⟩
  cases h with
  | unbegun hbegin =>
      refine ⟨fun hok => (by cases hok), ?_⟩
      rintro ⟨_, _, _, _, _, ⟨hstart, -, -, -⟩, -⟩
      rw [hbegin] at hstart
      cases hstart
  | committed hrun hcommit => exact ⟨fun _ => ⟨_, _, _, _, _, hrun, hcommit⟩, fun _ => rfl⟩
  | uncommitted hrun hcommit =>
      refine ⟨fun hok => (by cases hok), ?_⟩
      rintro ⟨_, _, _, _, _, hrun', hcommit'⟩
      rw [← (hrun.unique hrun').2, hcommit] at hcommit'
      cases hcommit'
  | failed hrun =>
      refine ⟨fun hok => (by cases hok), ?_⟩
      rintro ⟨_, _, _, _, _, hrun', -⟩
      cases (hrun.unique hrun').1

end Runs

variable {σ : Type} [Executor σ] {α β : Type} {rules : CascadeRules}

/-! ## Cascades send statements -/

namespace UnitOfWork

variable {u u' : UnitOfWork σ} {es : List Event}

theorem Sends.isOpen_eq (h : Sends rules u es u') : u'.isOpen = u.isOpen := by
  induction h with
  | done => rfl
  | event _ _ _ _ ih => exact ih

theorem Sends.state_eq (h : Sends rules u es u') : u'.state = u.state := by
  induction h with
  | done => rfl
  | event _ _ _ _ ih => exact ih

end UnitOfWork

/-- From every cascade, whatever the connection answers, a computation only sends statements. -/
def Saving.Sends (rules : CascadeRules) (m : Saving σ α) : Prop :=
  Saving.Does rules m fun _ _ => True

theorem Saving.Sends.map {m : Saving σ α} {f : α → β} (h : Saving.Sends rules m) :
    Saving.Sends rules (f <$> m) :=
  h.bind fun _ _ _ => .pure trivial

namespace Cascade

open Writing

theorem save_sends (rules : CascadeRules) (r : Record) :
    Saving.Sends rules (save rules r : Saving σ _) :=
  (saveRecord_does { entity := r.entity } r).mono fun _ _ _ => trivial

theorem delete_sends (rules : CascadeRules) (r : Record) :
    Saving.Sends rules (delete rules r : Writing σ Unit).run := by
  have hdelete : Does rules (delete rules r : Writing σ Unit) fun _ _ => True := by
    unfold delete
    refine Does.ofExcept_bind (fun _ _ => trivial) fun _ _ => ?_
    exact (deleteRow_halts rules.depth r.entity _).mono fun _ _ _ => trivial
  exact hdelete

theorem patch_sends (rules : CascadeRules) (entity : String) (key : Value)
    (changes : Named Value) :
    Saving.Sends rules (patch rules entity key changes : Writing σ Unit).run := by
  have hpatch : Does rules (patch rules entity key changes : Writing σ Unit) fun _ _ => True :=
    (patch_quiet entity key changes).mono fun _ _ _ => trivial
  exact hpatch

end Cascade

/-! ## How a transaction ends -/

namespace Repository

variable {u : UnitOfWork σ}

/-- After a success: the answer is that of the commit, and a failed one is rolled back. -/
theorem finish_ok (hopen : u.isOpen) (hactive : u.state = .active) (a : α) :
    ((finish (.ok a) u).1, (finish (.ok a) u).2.calls) =
      match (Executor.commit u.connection).1 with
      | .ok () => (.ok a, u.calls ++ [.commit])
      | .error source =>
        (.error (.unitOfWork (.commit source)), u.calls ++ [.commit, .rollback]) := by
  unfold finish
  rw [UnitOfWork.run_commit hopen hactive]
  rcases hcommit : Executor.commit u.connection with ⟨_ | _, after⟩
  · simp [UnitOfWork.close, UnitOfWork.call, hopen, Except.mapError, Except.map]
  · simp [UnitOfWork.close, Except.mapError, Except.map]

/-- After a failure: one rollback, and the error stays. -/
theorem finish_error (hopen : u.isOpen) (hactive : u.state = .active) (e : WriteError) :
    ((finish (.error e : Except WriteError α) u).1,
        (finish (.error e : Except WriteError α) u).2.calls) =
      (.error e, u.calls ++ [.rollback]) := by
  unfold finish
  rw [UnitOfWork.run_rollback hopen hactive]
  simp [UnitOfWork.close]

theorem transact_eq (repository : Repository) (connection : σ)
    (m : Saving σ (Except WriteError α)) :
    repository.transact connection m =
      match Executor.begin connection with
      | (.error source, after) =>
        (.error (.unitOfWork (.begin source)), (repository.start after).work)
      | (.ok (), after) =>
        let ended := m.run (repository.start after)
        finish ended.1 ended.2.work := by
  unfold transact UnitOfWork.begin UnitOfWork.call
  rcases hbegin : Executor.begin connection with ⟨_ | _, start⟩
  · simp only [hbegin]
    rfl
  · simp only [hbegin]
    rfl

/-- What the caller gets of an answer: the copy after a success, else what it handed in. -/
def handedBack (before : β) : Except WriteError (α × β) → Except WriteError α × β
  | .ok (a, copy) => (.ok a, copy)
  | .error e => (.error e, before)

/-- A cascade that has run is ended as a transaction, also when its answer and its copy are given
in another form. -/
theorem finish_transacted {γ : Type} {repository : Repository} {connection : σ} {before copy : β}
    {cascade : Saving σ (Except WriteError α × β)} {statements : List Call}
    {given : Except WriteError γ} {result : Except WriteError α} {view : γ → α × β}
    (hrun : CascadeRun repository connection cascade (result, copy) statements u.connection)
    (hopen : u.isOpen) (hactive : u.state = .active)
    (hcalls : u.calls = repository.opening ++ statements)
    (hview : given.map view = result.map (·, copy)) :
    Transacted repository connection before cascade
      (handedBack before ((finish given u).1.map view)) (finish given u).2.calls := by
  cases given with
  | error e =>
      cases result with
      | ok a => cases hview
      | error e' =>
          cases hview
          obtain ⟨hanswer, hlast⟩ := Prod.mk.inj (finish_error (α := γ) hopen hactive e)
          rw [hanswer, hlast, hcalls]
          exact .failed hrun
  | ok g =>
      cases result with
      | error e => cases hview
      | ok a =>
          have hg : view g = (a, copy) := Except.ok.inj hview
          have hfinish := finish_ok hopen hactive g
          rcases hcommit : Executor.commit u.connection with ⟨source | _, after⟩
          · rw [hcommit] at hfinish
            obtain ⟨hanswer, hlast⟩ := Prod.mk.inj hfinish
            rw [hanswer, hlast, hcalls]
            exact .uncommitted hrun hcommit
          · rw [hcommit] at hfinish
            obtain ⟨hanswer, hlast⟩ := Prod.mk.inj hfinish
            rw [hanswer, hlast, hcalls, Except.map, hg]
            exact .committed hrun hcommit

/-- A cascade that only sends statements runs as a transaction. -/
theorem transact_transacted {γ : Type} {cascade : Saving σ (Except WriteError α × β)}
    {m : Saving σ (Except WriteError γ)} (view : γ → α × β) (repository : Repository)
    (connection : σ) (before : β) (hsends : Saving.Sends repository.rules cascade)
    (hview : ∀ c, (m.run c).2 = (cascade.run c).2 ∧
      (m.run c).1.map view = (cascade.run c).1.1.map (·, (cascade.run c).1.2)) :
    Transacted repository connection before cascade
      (handedBack before ((repository.transact connection m).1.map view))
      (repository.transact connection m).2.calls := by
  rw [transact_eq]
  rcases hbegin : Executor.begin connection with ⟨source | _, after⟩
  · exact .unbegun hbegin
  · let first : Cascade σ := repository.start after
    obtain ⟨es, hes, -⟩ := hsends.run first
    obtain ⟨hstate, hanswer⟩ := hview first
    have hrun : CascadeRun repository connection cascade
        (cascade.run first).1 (es.map Event.call) (cascade.run first).2.work.connection := by
      refine .intro hbegin rfl hes.calls_eq fun call hcall => ?_
      obtain ⟨e, -, rfl⟩ := List.mem_map.mp hcall
      exact e.isStatement_call
    show Transacted _ connection before cascade
      (handedBack before ((finish (m.run first).1 (m.run first).2.work).1.map view))
      (finish (m.run first).1 (m.run first).2.work).2.calls
    rw [hstate]
    exact finish_transacted hrun hes.isOpen_eq hes.state_eq hes.calls_eq hanswer

/-- A save is a transaction that answers the key with the record, which is handed back as it was
unless that succeeds. -/
theorem save_eq (repository : Repository) (connection : σ) (r : Record) :
    let paired : Saving σ (Except WriteError (Value × Record)) :=
      (fun ran => ran.1.map fun key => (key, ran.2)) <$> Cascade.save repository.rules r
    repository.save connection r =
      (handedBack r (repository.transact connection paired).1,
        (repository.transact connection paired).2) := by
  intro paired
  unfold save
  dsimp only
  split
  · rename_i heq
    have hpaired : repository.transact connection paired = _ := heq
    rw [hpaired]
    rfl
  · rename_i heq
    have hpaired : repository.transact connection paired = _ := heq
    rw [hpaired]
    rfl

theorem save_transacted (repository : Repository) (connection : σ) (r : Record) :
    Transacted repository connection r (Cascade.save repository.rules r)
      (repository.save connection r).1 (repository.save connection r).2.calls := by
  let paired : Saving σ (Except WriteError (Value × Record)) :=
    (fun ran => ran.1.map fun key => (key, ran.2)) <$> Cascade.save repository.rules r
  have hsaved := transact_transacted (m := paired) id repository connection r
    (Cascade.save_sends repository.rules r) fun c => by
      rw [Saving.run_map, Except.map_id]
      exact ⟨rfl, rfl⟩
  rw [Except.map_id] at hsaved
  rw [save_eq]
  exact hsaved

theorem transact_unit_transacted {m : Writing σ Unit} (repository : Repository) (connection : σ)
    (hsends : Saving.Sends repository.rules m.run) :
    Transacted repository connection () ((·, ()) <$> m.run)
      ((repository.transact connection m.run).1, ())
      (repository.transact connection m.run).2.calls := by
  have hunit : ∀ answer : Except WriteError Unit,
      handedBack () (answer.map (·, ())) = (answer, ()) := fun answer => by cases answer <;> rfl
  rw [← hunit]
  refine transact_transacted (·, ()) repository connection () hsends.map fun c => ?_
  rw [Saving.run_map]
  exact ⟨rfl, rfl⟩

/-- Whatever is saved, deleted or changed, and whatever the connection answers: each call of a
repository is one transaction that succeeds just when its cascade and the commit do, and a record
changes only with a save that succeeds. -/
theorem calls_atomic (repository : Repository) (connection : σ) :
    (∀ r : Record,
      Atomic repository connection r (Cascade.save repository.rules r)
        (repository.save connection r).1 (repository.save connection r).2.calls) ∧
    (∀ r : Record,
      Atomic repository connection ()
        ((·, ()) <$> (Cascade.delete repository.rules r).run)
        ((repository.delete connection r).1, ()) (repository.delete connection r).2.calls) ∧
    ∀ (entity : String) (key : Value) (changes : Named Value),
      Atomic repository connection ()
        ((·, ()) <$> (Cascade.patch repository.rules entity key changes).run)
        ((repository.patch connection entity key changes).1, ())
        (repository.patch connection entity key changes).2.calls := by
  refine ⟨fun r => ?_, fun r => ?_, fun entity key changes => ?_⟩
  · exact (save_transacted repository connection r).atomic
  · have hsends := Cascade.delete_sends (σ := σ) repository.rules r
    exact (transact_unit_transacted repository connection hsends).atomic
  · have hsends := Cascade.patch_sends (σ := σ) repository.rules entity key changes
    exact (transact_unit_transacted repository connection hsends).atomic

end Repository

end EntityMap
