import EntityMap.Execution.Script

/-!
# The protocol of a transaction

Callers may commit, roll back and send statements in any order, and the
connection may fail at any of them. Two states follow what happens: the
callers' `state`, and whether the writer `isFinished`. `Kept` is the one
invariant that ties both to the calls of the connection and to which of
them succeeded (`replay`). Each step keeps it (`Kept.perform`), and is
either sent or answered without the connection (`Step.Sent`,
`Step.Spared`). So a transaction is ended once, whatever was done to it,
and by the first step that callers can take for its end
(`transaction_protocol`).
-/

namespace EntityMap

namespace UnitOfWork

/-! ## Runs -/

section Runs

variable {σ ε α β : Type}

theorem run_get_bind (k : UnitOfWork σ → Working σ ε β) (u : UnitOfWork σ) :
    (get >>= k).run u = (k u).run u :=
  rfl

theorem run_modify_bind (f : UnitOfWork σ → UnitOfWork σ) (k : PUnit → Working σ ε β)
    (u : UnitOfWork σ) : (modify f >>= k).run u = (k ()).run (f u) :=
  rfl

theorem run_modifyGet_bind (f : UnitOfWork σ → α × UnitOfWork σ)
    (k : α → Working σ ε β) (u : UnitOfWork σ) :
    (modifyGet f >>= k).run u = (k (f u).1).run (f u).2 :=
  rfl

/-- What follows a call runs on its answer, where the call is kept. -/
theorem run_call_bind (c : Call) (answer : σ → α × σ) (k : α → Working σ ε β)
    (u : UnitOfWork σ) : (modifyGet (call c answer) >>= k).run u =
      (k (answer u.connection).1).run
        { u with connection := (answer u.connection).2, calls := u.calls ++ [c] } :=
  rfl

/-- A statement is sent only in an open unit of work, and its call is kept. -/
theorem run_send (s : Statement) (c : Call) (answer : σ → Except ExecutionError α × σ)
    (u : UnitOfWork σ) : (send s c answer).run u =
      if u.isOpen then
        ((answer u.connection).1.mapError (.statement s.sql),
          { u with connection := (answer u.connection).2, calls := u.calls ++ [c] })
      else (.error .closed, u) := by
  rw [send, run_get_bind]
  split
  · rw [run_call_bind]
    cases (answer u.connection).1 with
    | ok a => rfl
    | error source => rfl
  · rfl

variable [Executor σ] {u : UnitOfWork σ}

theorem run_commit (hopen : u.isOpen) (hactive : u.state = .active) :
    (commit : Working σ UnitOfWorkError Unit).run u =
      match Executor.commit u.connection with
      | (.ok (), connection) =>
        (.ok (), { u with
          connection, state := .committed, isFinished := true, calls := u.calls ++ [.commit] })
      | (.error source, connection) =>
        (.error (.commit source),
          { u with connection, isFinished := false, calls := u.calls ++ [.commit] }) := by
  obtain ⟨connection, state, isFinished, isOpen, calls⟩ := u
  obtain rfl : state = .active := hactive
  obtain rfl : isOpen = true := hopen
  rw [commit, run_get_bind]
  dsimp only
  rw [run_get_bind, if_pos rfl, run_modifyGet_bind, writeCommit, call]
  dsimp only
  rcases Executor.commit connection with ⟨_ | _, after⟩
  · rfl
  · rfl

/-- Rolling back sends one call and ends the transaction, also when it fails. -/
theorem run_rollback (hopen : u.isOpen) (hactive : u.state = .active) :
    (rollback : Working σ UnitOfWorkError Unit).run u =
      ((Executor.rollback u.connection).1.mapError .rollback, { u with
        connection := (Executor.rollback u.connection).2, state := .rolledBack
        isFinished := true, calls := u.calls ++ [.rollback] }) := by
  obtain ⟨connection, state, isFinished, isOpen, calls⟩ := u
  obtain rfl : state = .active := hactive
  obtain rfl : isOpen = true := hopen
  rw [rollback, run_get_bind]
  dsimp only
  rw [run_modify_bind, run_get_bind, if_pos rfl, run_modifyGet_bind, writeRollback, call]
  dsimp only
  rcases Executor.rollback connection with ⟨_ | _, after⟩
  · rfl
  · rfl

/-- Once a transaction has ended, ending it again asks nothing of the connection. -/
theorem run_commit_of_committed (hstate : u.state = .committed) :
    (commit : Working σ UnitOfWorkError Unit).run u = (.ok (), u) := by
  rw [commit, run_get_bind, hstate]
  rfl

theorem run_commit_of_rolledBack (hstate : u.state = .rolledBack) :
    (commit : Working σ UnitOfWorkError Unit).run u = (.error .rolledBack, u) := by
  rw [commit, run_get_bind, hstate]
  rfl

theorem run_rollback_of_rolledBack (hstate : u.state = .rolledBack) :
    (rollback : Working σ UnitOfWorkError Unit).run u = (.ok (), u) := by
  rw [rollback, run_get_bind, hstate]
  rfl

theorem run_rollback_of_committed (hstate : u.state = .committed) :
    (rollback : Working σ UnitOfWorkError Unit).run u = (.error .committed, u) := by
  rw [rollback, run_get_bind, hstate]
  rfl

end Runs

end UnitOfWork

/-! ## What the connection makes of its calls -/

variable {σ : Type} [Executor σ]

/-- Whether a connection answers a call without an error, and the connection after it. -/
def Call.reply : Call → σ → Bool × σ
  | timeout _, connection => (true, connection)
  | begin, connection => ((Executor.begin connection).1.isOk, (Executor.begin connection).2)
  | commit, connection => ((Executor.commit connection).1.isOk, (Executor.commit connection).2)
  | rollback, connection =>
    ((Executor.rollback connection).1.isOk, (Executor.rollback connection).2)
  | query s, connection => ((Executor.query s connection).1.isOk, (Executor.query s connection).2)
  | scalar s, connection =>
    ((Executor.scalar s connection).1.isOk, (Executor.scalar s connection).2)
  | execute s, connection =>
    ((Executor.execute s connection).1.isOk, (Executor.execute s connection).2)

/-- Calls of a connection one after the other, each with whether it succeeds, and the connection
after the last. -/
def replay : List Call → σ → List (Call × Bool) × σ
  | [], connection => ([], connection)
  | c :: rest, connection =>
    let (ok, after) := c.reply connection
    let (replies, last) := replay rest after
    ((c, ok) :: replies, last)

theorem replay_concat (calls : List Call) (c : Call) (connection : σ) :
    replay (calls ++ [c]) connection =
      ((replay calls connection).1 ++ [(c, (c.reply (replay calls connection).2).1)],
        (c.reply (replay calls connection).2).2) := by
  induction calls generalizing connection with
  | nil => rfl
  | cons first rest ih => simp only [List.cons_append, replay, ih]

namespace UnitOfWork

/-! ## Steps -/

/-- What callers do with a transaction that has begun. -/
inductive Step where
  | commit
  | rollback
  | query (s : Statement)
  | scalar (s : Statement)
  | execute (s : Statement)
  deriving DecidableEq, Repr

/-- The unit of work after a step, whatever is answered. -/
def Step.perform : Step → UnitOfWork σ → UnitOfWork σ
  | commit, u => ((UnitOfWork.commit : Working σ UnitOfWorkError Unit).run u).2
  | rollback, u => ((UnitOfWork.rollback : Working σ UnitOfWorkError Unit).run u).2
  | query s, u => ((UnitOfWork.query s : Working σ UnitOfWorkError RecordSet).run u).2
  | scalar s, u => ((UnitOfWork.scalar s : Working σ UnitOfWorkError Value).run u).2
  | execute s, u => ((UnitOfWork.execute s : Working σ UnitOfWorkError Nat).run u).2

/-- What callers are answered, but for the rows and values of a statement. -/
def Step.answer : Step → UnitOfWork σ → Except UnitOfWorkError Unit
  | commit, u => ((UnitOfWork.commit : Working σ UnitOfWorkError Unit).run u).1
  | rollback, u => ((UnitOfWork.rollback : Working σ UnitOfWorkError Unit).run u).1
  | query s, u =>
    ((UnitOfWork.query s : Working σ UnitOfWorkError RecordSet).run u).1.map fun _ => ()
  | scalar s, u =>
    ((UnitOfWork.scalar s : Working σ UnitOfWorkError Value).run u).1.map fun _ => ()
  | execute s, u => ((UnitOfWork.execute s : Working σ UnitOfWorkError Nat).run u).1.map fun _ => ()

/-- The call that a step makes when it reaches the connection. -/
def Step.call : Step → Call
  | commit => .commit
  | rollback => .rollback
  | query s => .query s
  | scalar s => .scalar s
  | execute s => .execute s

/-- A step is one call, and fails just if the connection does. -/
structure Step.Sent (step : Step) (u : UnitOfWork σ) : Prop where
  calls_eq : (step.perform u).calls = u.calls ++ [step.call]
  isOk_eq : (step.answer u).isOk = (step.call.reply u.connection).1

/-- A step is answered without the connection, and changes nothing. -/
structure Step.Spared (step : Step) (u : UnitOfWork σ) (answer : Except UnitOfWorkError Unit) :
    Prop where
  perform_eq : step.perform u = u
  answer_eq : step.answer u = answer

/-- What sends a statement in an open unit of work is sent. -/
theorem Step.Sent.of_send {α : Type} {step : Step} {u : UnitOfWork σ} {s : Statement}
    (hopen : u.isOpen) (answer : σ → Except ExecutionError α × σ)
    (hperform : step.perform u = ((send s step.call answer).run u).2)
    (hanswer : step.answer u = ((send s step.call answer).run u).1.map fun _ => ())
    (hreply : (step.call.reply u.connection).1 = (answer u.connection).1.isOk) : step.Sent u := by
  rw [run_send, if_pos hopen] at hperform hanswer
  refine ⟨by rw [hperform], ?_⟩
  rw [hanswer, hreply]
  cases (answer u.connection).1 <;> rfl

/-- A closed unit of work sends nothing. -/
theorem Step.Spared.of_send {α : Type} {step : Step} {u : UnitOfWork σ} {s : Statement}
    (hclosed : u.isOpen = false) (answer : σ → Except ExecutionError α × σ)
    (hperform : step.perform u = ((send s step.call answer).run u).2)
    (hanswer : step.answer u = ((send s step.call answer).run u).1.map fun _ => ()) :
    step.Spared u (.error .closed) := by
  rw [run_send, if_neg (by simp [hclosed])] at hperform hanswer
  exact ⟨hperform, hanswer⟩

/-- A failed step does not keep callers from the next. -/
def performAll (steps : List Step) (u : UnitOfWork σ) : UnitOfWork σ :=
  steps.foldl (fun u step => step.perform u) u

/-- In the eyes of its callers, no step has ended the transaction: no commit has succeeded, and
there was no rollback. -/
def Unended (u : UnitOfWork σ) (steps : List Step) : Prop :=
  .rollback ∉ steps ∧ ∀ before later, steps = before ++ .commit :: later →
    (Step.commit.answer (performAll before u)).isOk = false

/-- An open transaction of a connection, and what has become of it: it is committed by the one
commit that succeeded and rolled back by the one rollback that was tried, and these are what the
writer has finished with. -/
structure Kept (timeout : Nat) (connection : σ) (u : UnitOfWork σ) : Prop where
  isOpen : u.isOpen
  begins : ∃ rest, u.calls = .timeout timeout :: .begin :: rest ∧ .begin ∉ rest
  connection_eq : u.connection = (replay u.calls connection).2
  isFinished_iff : u.isFinished ↔ u.state ≠ .active
  commits : (replay u.calls connection).1.count (.commit, true) =
    if u.state = .committed then 1 else 0
  rollbacks : u.calls.count .rollback = if u.state = .rolledBack then 1 else 0

namespace Kept

variable {timeout : Nat} {connection : σ} {u : UnitOfWork σ}

theorem of_begin (hbegin : UnitOfWork.begin timeout connection = (.ok (), u)) :
    Kept timeout connection u := by
  unfold UnitOfWork.begin UnitOfWork.call at hbegin
  obtain ⟨hanswer, rfl⟩ := Prod.mk.inj hbegin
  exact ⟨rfl, ⟨[], rfl, List.not_mem_nil⟩, rfl, by simp, rfl, rfl⟩

theorem state_of_begin (hbegin : UnitOfWork.begin timeout connection = (.ok (), u)) :
    u.state = .active := by
  unfold UnitOfWork.begin UnitOfWork.call at hbegin
  obtain ⟨-, rfl⟩ := Prod.mk.inj hbegin
  rfl

/-- A further call keeps the invariant when it moves both states as its answer says. -/
theorem further (h : Kept timeout connection u) (c : Call) (state : TransactionState)
    (isFinished : Bool) (hbegin : c ≠ .begin) (hfinished : isFinished ↔ state ≠ .active)
    (hcommits : (if u.state = .committed then 1 else 0) +
      (if (c, (c.reply u.connection).1) = (.commit, true) then 1 else 0) =
        if state = .committed then 1 else 0)
    (hrollbacks : (if u.state = .rolledBack then 1 else 0) + (if c = .rollback then 1 else 0) =
      if state = .rolledBack then 1 else 0) :
    Kept timeout connection
      { u with
        connection := (c.reply u.connection).2, state, isFinished, calls := u.calls ++ [c] } where
  isOpen := h.isOpen
  begins := by
    obtain ⟨rest, hcalls, hrest⟩ := h.begins
    refine ⟨rest ++ [c], by simp [hcalls], ?_⟩
    simpa using ⟨hrest, fun heq => hbegin heq.symm⟩
  connection_eq := by
    rw [replay_concat, h.connection_eq]
  isFinished_iff := hfinished
  commits := by
    rw [replay_concat, List.count_append, h.commits, ← h.connection_eq, ← hcommits,
      List.count_singleton]
    simp only [beq_iff_eq]
  rollbacks := by
    rw [List.count_append, h.rollbacks, ← hrollbacks, List.count_singleton]
    simp only [beq_iff_eq]

/-- Statements end nothing. -/
theorem statement (h : Kept timeout connection u) (c : Call) (hbegin : c ≠ .begin)
    (hcommit : c ≠ .commit) (hrollback : c ≠ .rollback) :
    Kept timeout connection
      { u with connection := (c.reply u.connection).2, calls := u.calls ++ [c] } := by
  refine h.further c u.state u.isFinished hbegin h.isFinished_iff ?_ ?_
  · rw [if_neg fun heq => hcommit (Prod.mk.inj heq).1, Nat.add_zero]
  · rw [if_neg hrollback, Nat.add_zero]

theorem commit (h : Kept timeout connection u) :
    Kept timeout connection ((UnitOfWork.commit : Working σ UnitOfWorkError Unit).run u).2 := by
  cases hstate : u.state with
  | committed => rwa [run_commit_of_committed hstate]
  | rolledBack => rwa [run_commit_of_rolledBack hstate]
  | active =>
      rw [run_commit h.isOpen hstate]
      rcases hcommit : Executor.commit u.connection with ⟨source | _, after⟩
      · have hreply : Call.commit.reply u.connection = (false, after) := by
          simp only [Call.reply, hcommit]
          rfl
        -- The failed commit leaves both sides open.
        have hkept := h.further .commit u.state false nofun
          (by simp [hstate]) (by simp [hstate, hreply]) (by simp [hstate])
        rwa [hreply] at hkept
      · have hreply : Call.commit.reply u.connection = (true, after) := by
          simp only [Call.reply, hcommit]
          rfl
        have hkept := h.further .commit .committed true nofun
          (by simp) (by simp [hstate, hreply]) (by simp [hstate])
        rwa [hreply] at hkept

theorem rollback (h : Kept timeout connection u) :
    Kept timeout connection ((UnitOfWork.rollback : Working σ UnitOfWorkError Unit).run u).2 := by
  cases hstate : u.state with
  | committed => rwa [run_rollback_of_committed hstate]
  | rolledBack => rwa [run_rollback_of_rolledBack hstate]
  | active =>
      rw [run_rollback h.isOpen hstate]
      exact h.further .rollback .rolledBack true nofun (by simp) (by simp [hstate])
        (by simp [hstate])

theorem perform (h : Kept timeout connection u) (step : Step) :
    Kept timeout connection (step.perform u) := by
  cases step with
  | commit => exact h.commit
  | rollback => exact h.rollback
  | query s =>
      rw [Step.perform, UnitOfWork.query, run_send, if_pos h.isOpen]
      exact h.statement (.query s) nofun nofun nofun
  | scalar s =>
      rw [Step.perform, UnitOfWork.scalar, run_send, if_pos h.isOpen]
      exact h.statement (.scalar s) nofun nofun nofun
  | execute s =>
      rw [Step.perform, UnitOfWork.execute, run_send, if_pos h.isOpen]
      exact h.statement (.execute s) nofun nofun nofun

theorem performAll (h : Kept timeout connection u) (steps : List Step) :
    Kept timeout connection (UnitOfWork.performAll steps u) := by
  induction steps generalizing u with
  | nil => exact h
  | cons step rest ih => exact ih (h.perform step)

/-- Statements reach the connection in any state of the transaction, and what would end it while it
is active. -/
theorem sent (h : Kept timeout connection u) {step : Step}
    (hactive : step = .commit ∨ step = .rollback → u.state = .active) : step.Sent u := by
  cases step with
  | commit =>
      have hrun := run_commit h.isOpen (hactive (.inl rfl))
      rcases hcommit : Executor.commit u.connection with ⟨_ | _, after⟩ <;> rw [hcommit] at hrun
      · exact ⟨by rw [Step.perform, hrun, Step.call],
          by rw [Step.answer, hrun, Step.call, Call.reply, hcommit]; rfl⟩
      · exact ⟨by rw [Step.perform, hrun, Step.call],
          by rw [Step.answer, hrun, Step.call, Call.reply, hcommit]; rfl⟩
  | rollback =>
      have hrun := run_rollback h.isOpen (hactive (.inr rfl))
      refine ⟨by rw [Step.perform, hrun, Step.call], ?_⟩
      rw [Step.answer, hrun, Step.call, Call.reply]
      cases (Executor.rollback u.connection).1 <;> rfl
  | query s => exact .of_send h.isOpen (Executor.query s) rfl rfl rfl
  | scalar s => exact .of_send h.isOpen (Executor.scalar s) rfl rfl rfl
  | execute s => exact .of_send h.isOpen (Executor.execute s) rfl rfl rfl

/-- What a step makes of an active transaction: a commit that succeeds commits it, and a rollback
rolls it back. -/
theorem state_perform (h : Kept timeout connection u) (hactive : u.state = .active)
    (step : Step) :
    (step.perform u).state =
      if step = .rollback then .rolledBack
      else if step = .commit ∧ (step.answer u).isOk then .committed
      else .active := by
  cases step with
  | commit =>
      have hrun := run_commit h.isOpen hactive
      rcases hcommit : Executor.commit u.connection with ⟨_ | _, after⟩ <;> rw [hcommit] at hrun
      · simp [Step.perform, Step.answer, hrun, hactive, Except.isOk, Except.toBool]
      · simp [Step.perform, Step.answer, hrun, Except.isOk, Except.toBool]
  | rollback => simp [Step.perform, run_rollback h.isOpen hactive]
  | query s => simp [Step.perform, UnitOfWork.query, run_send, h.isOpen, hactive]
  | scalar s => simp [Step.perform, UnitOfWork.scalar, run_send, h.isOpen, hactive]
  | execute s => simp [Step.perform, UnitOfWork.execute, run_send, h.isOpen, hactive]

/-- A transaction that has ended stays as it is. -/
theorem state_performAll (h : Kept timeout connection u) (hended : u.state ≠ .active)
    (steps : List Step) : (UnitOfWork.performAll steps u).state = u.state := by
  induction steps generalizing u with
  | nil => rfl
  | cons step rest ih =>
      have hstate : (step.perform u).state = u.state := by
        cases step with
        | commit =>
            cases hstate : u.state with
            | active => exact absurd hstate hended
            | committed => rw [Step.perform, run_commit_of_committed hstate, hstate]
            | rolledBack => rw [Step.perform, run_commit_of_rolledBack hstate, hstate]
        | rollback =>
            cases hstate : u.state with
            | active => exact absurd hstate hended
            | committed => rw [Step.perform, run_rollback_of_committed hstate, hstate]
            | rolledBack => rw [Step.perform, run_rollback_of_rolledBack hstate, hstate]
        | query s => simp [Step.perform, UnitOfWork.query, run_send, h.isOpen]
        | scalar s => simp [Step.perform, UnitOfWork.scalar, run_send, h.isOpen]
        | execute s => simp [Step.perform, UnitOfWork.execute, run_send, h.isOpen]
      exact (ih (h.perform step) (hstate ▸ hended)).trans hstate

/-- The transaction is active as long as no step has ended it. -/
theorem active_of_unended (h : Kept timeout connection u) (hactive : u.state = .active)
    {steps : List Step} (hunended : Unended u steps) :
    (UnitOfWork.performAll steps u).state = .active := by
  induction steps generalizing u with
  | nil => exact hactive
  | cons step rest ih =>
      obtain ⟨hrollback, hcommit⟩ := hunended
      have hfirst := h.state_perform hactive step
      have hstep : step ≠ .rollback := fun heq => hrollback (heq ▸ List.mem_cons_self ..)
      rw [if_neg hstep, if_neg] at hfirst
      · refine ih (h.perform step) hfirst ⟨fun hmem => hrollback (List.mem_cons_of_mem _ hmem), ?_⟩
        intro before later hrest
        exact hcommit (step :: before) later (by rw [hrest, List.cons_append])
      · rintro ⟨rfl, hanswer⟩
        rw [show (Step.commit.answer u).isOk = false from hcommit [] rest rfl] at hanswer
        cases hanswer

/-- A commit that succeeds leaves the transaction committed, also if it was so before. -/
theorem committed_of_answer (h : Kept timeout connection u)
    (hanswer : (Step.commit.answer u).isOk = true) :
    (Step.commit.perform u).state = .committed := by
  cases hstate : u.state with
  | active =>
      rw [h.state_perform hstate, if_neg nofun, if_pos ⟨rfl, hanswer⟩]
  | committed => rw [Step.perform, run_commit_of_committed hstate, hstate]
  | rolledBack =>
      rw [Step.answer, run_commit_of_rolledBack hstate] at hanswer
      cases hanswer

theorem state_of_committed (h : Kept timeout connection u)
    (hcommit : (.commit, true) ∈ (replay u.calls connection).1) : u.state = .committed := by
  refine Decidable.byContradiction fun hstate => ?_
  have hnone := h.commits
  rw [if_neg hstate] at hnone
  exact List.count_eq_zero.mp hnone hcommit

/-- Closing a transaction that nothing has ended is one more rollback. -/
theorem close_of_active (h : Kept timeout connection u) (hactive : u.state = .active) :
    u.close = { u with
      connection := (Call.rollback.reply u.connection).2, isOpen := false
      calls := u.calls ++ [.rollback] } := by
  have hunfinished : u.isFinished = false := by simpa [hactive] using h.isFinished_iff
  have hopen := h.isOpen
  simp [UnitOfWork.close, UnitOfWork.call, Call.reply, hopen, hunfinished]

/-- Closing a transaction that has ended asks nothing. -/
theorem close_of_ended (h : Kept timeout connection u) (hended : u.state ≠ .active) :
    u.close = { u with isOpen := false } := by
  have hfinished := h.isFinished_iff.mpr hended
  simp [UnitOfWork.close, hfinished]

end Kept

/-! ## The protocol -/

/-- What a connection is asked by a transaction that was begun with it and is closed after `u`. -/
structure EndedOnce (timeout : Nat) (connection : σ) (u : UnitOfWork σ) : Prop where
  /-- The calls are all that happens to the connection. -/
  connection_eq : u.close.connection = (replay u.close.calls connection).2
  begins : ∃ rest, u.close.calls = .timeout timeout :: .begin :: rest ∧ .begin ∉ rest
  commit_once : (replay u.close.calls connection).1.count (.commit, true) ≤ 1
  committed : (.commit, true) ∈ (replay u.close.calls connection).1 → .rollback ∉ u.close.calls
  uncommitted : (.commit, true) ∉ (replay u.close.calls connection).1 →
    u.close.calls.count .rollback = 1

/-- How a transaction goes that was begun with `connection` and that is closed after some steps:
what the connection is asked, and what the callers are answered to each step. -/
structure ProtocolKept (timeout : Nat) (connection : σ) (begun : UnitOfWork σ)
    (steps : List Step) : Prop extends
    EndedOnce timeout connection (performAll steps begun) where
  /-- Statements are sent, and as long as nothing has ended the transaction, so are commits and
  rollbacks. -/
  sent : ∀ before step later, steps = before ++ step :: later →
    (step = .commit ∨ step = .rollback → Unended begun before) →
    step.Sent (performAll before begun)
  /-- Behind a commit that succeeded. -/
  after_commit : ∀ before later, steps = before ++ .commit :: later →
    (Step.commit.answer (performAll before begun)).isOk = true →
    Step.commit.Spared (performAll steps begun) (.ok ()) ∧
      Step.rollback.Spared (performAll steps begun) (.error .committed)
  /-- Behind the rollback that ended the transaction, also if it failed. -/
  after_rollback : ∀ before later, steps = before ++ .rollback :: later → Unended begun before →
    Step.rollback.Spared (performAll steps begun) (.ok ()) ∧
      Step.commit.Spared (performAll steps begun) (.error .rolledBack)
  after_close : ∀ s : Statement,
    Step.Spared (.query s) (performAll steps begun).close (.error .closed) ∧
      Step.Spared (.scalar s) (performAll steps begun).close (.error .closed) ∧
      Step.Spared (.execute s) (performAll steps begun).close (.error .closed)

/-- Committed once and for all: neither a commit nor a rollback reaches the connection. -/
theorem spared_of_committed {u : UnitOfWork σ} (hstate : u.state = .committed) :
    Step.commit.Spared u (.ok ()) ∧ Step.rollback.Spared u (.error .committed) :=
  ⟨⟨by rw [Step.perform, run_commit_of_committed hstate],
      by rw [Step.answer, run_commit_of_committed hstate]⟩,
    ⟨by rw [Step.perform, run_rollback_of_committed hstate],
      by rw [Step.answer, run_rollback_of_committed hstate]⟩⟩

theorem spared_of_rolledBack {u : UnitOfWork σ} (hstate : u.state = .rolledBack) :
    Step.rollback.Spared u (.ok ()) ∧ Step.commit.Spared u (.error .rolledBack) :=
  ⟨⟨by rw [Step.perform, run_rollback_of_rolledBack hstate],
      by rw [Step.answer, run_rollback_of_rolledBack hstate]⟩,
    ⟨by rw [Step.perform, run_commit_of_rolledBack hstate],
      by rw [Step.answer, run_commit_of_rolledBack hstate]⟩⟩

theorem performAll_append (before later : List Step) (u : UnitOfWork σ) :
    performAll (before ++ later) u = performAll later (performAll before u) :=
  List.foldl_append

namespace Kept

variable {timeout : Nat} {connection : σ} {begun : UnitOfWork σ}

/-- A step that ends the transaction decides what comes of it, whatever follows. -/
theorem state_of_ending (h : Kept timeout connection begun) {before later : List Step}
    {step : Step} {state : TransactionState} (hended : state ≠ .active)
    (hstate : (step.perform (UnitOfWork.performAll before begun)).state = state) :
    (UnitOfWork.performAll (before ++ step :: later) begun).state = state := by
  rw [performAll_append]
  have hkept := (h.performAll before).perform step
  exact (hkept.state_performAll (hstate ▸ hended) later).trans hstate

end Kept

theorem Kept.endedOnce {timeout : Nat} {connection : σ} {u : UnitOfWork σ}
    (h : Kept timeout connection u) : EndedOnce timeout connection u := by
  obtain ⟨rest, hcalls, hrest⟩ := h.begins
  by_cases hactive : u.state = .active
  · have hclose := h.close_of_active hactive
    have hreplay : replay u.close.calls connection =
        ((replay u.calls connection).1 ++ [(.rollback, (Call.rollback.reply u.connection).1)],
          u.close.connection) := by
      rw [hclose, replay_concat, h.connection_eq]
    have hcommits : (replay u.close.calls connection).1.count (.commit, true) = 0 := by
      rw [hreplay, List.count_append, h.commits, hactive]
      rfl
    exact
      { connection_eq := by rw [hreplay]
        begins := ⟨rest ++ [.rollback], by simp [hclose, hcalls], by simp [hrest]⟩
        commit_once := by omega
        committed := fun hcommit => absurd hcommit (List.count_eq_zero.mp hcommits)
        uncommitted := fun _ => by rw [hclose, List.count_append, h.rollbacks, hactive]; rfl }
  · have hclose := h.close_of_ended hactive
    have hsame : u.close.calls = u.calls := by rw [hclose]
    have hcommits := h.commits
    have hrollbacks := h.rollbacks
    exact
      { connection_eq := by rw [hsame, hclose, h.connection_eq]
        begins := ⟨rest, by rw [hsame, hcalls], hrest⟩
        commit_once := by rw [hsame, hcommits]; split <;> decide
        committed := fun hcommit => by
          rw [hsame] at hcommit ⊢
          rw [h.state_of_committed hcommit] at hrollbacks
          exact List.count_eq_zero.mp hrollbacks
        uncommitted := fun hcommit => by
          rw [hsame] at hcommit ⊢
          rw [List.count_eq_zero.mpr hcommit] at hcommits
          cases hstate : u.state with
          | active => exact absurd hstate hactive
          | committed => rw [hstate] at hcommits; cases hcommits
          | rolledBack => rw [hrollbacks, hstate]; rfl }

/-- Whatever callers do with a transaction that has begun, and wherever its connection fails: the
transaction is committed at most once, and rolled back once if it is not. -/
theorem transaction_protocol {timeout : Nat} {connection : σ} {begun : UnitOfWork σ}
    (hbegin : UnitOfWork.begin timeout connection = (.ok (), begun)) (steps : List Step) :
    ProtocolKept timeout connection begun steps := by
  have h := Kept.of_begin hbegin
  have hactive := Kept.state_of_begin hbegin
  refine ⟨(h.performAll steps).endedOnce, ?_, ?_, ?_, ?_⟩
  · intro before step later _ hunended
    exact (h.performAll before).sent fun hends => h.active_of_unended hactive (hunended hends)
  · rintro before later rfl hanswer
    have hcommitted := (h.performAll before).committed_of_answer hanswer
    exact spared_of_committed (h.state_of_ending nofun hcommitted)
  · rintro before later rfl hunended
    have hrolledBack := (h.performAll before).state_perform
      (h.active_of_unended hactive hunended) .rollback
    exact spared_of_rolledBack (h.state_of_ending nofun hrolledBack)
  · exact fun s => ⟨.of_send rfl (Executor.query s) rfl rfl,
      .of_send rfl (Executor.scalar s) rfl rfl, .of_send rfl (Executor.execute s) rfl rfl⟩

/-- A connection whose first commit and first rollback fail. -/
def stubborn : Script where
  commits := [.error (.driver "busy")]
  rollbacks := [.error (.driver "busy")]

/-- A commit that fails, a statement, a rollback that fails, and a commit that is too late. -/
def stubbornSteps : List Step :=
  [.commit, .execute ⟨"DELETE FROM t", []⟩, .rollback, .commit]

/-- Neither the failed commit nor the failed rollback is answered by a second rollback, and the
late commit is refused. -/
theorem protocolKept_stubborn :
    UnitOfWork.begin 30000 stubborn =
        (.ok (), { connection := stubborn, calls := [.timeout 30000, .begin] }) ∧
      (performAll stubbornSteps
        { connection := stubborn, calls := [.timeout 30000, .begin] }).close.calls =
          [.timeout 30000, .begin, .commit, .execute ⟨"DELETE FROM t", []⟩, .rollback] ∧
      Step.commit.answer (performAll (stubbornSteps.take 3)
        { connection := stubborn, calls := [.timeout 30000, .begin] }) = .error .rolledBack ∧
      ProtocolKept 30000 stubborn { connection := stubborn, calls := [.timeout 30000, .begin] }
        stubbornSteps :=
  ⟨rfl, by decide +kernel, rfl, transaction_protocol rfl _⟩

end UnitOfWork

end EntityMap
