import EntityMap.Execution.UnitOfWork
import EntityMap.Write.Error

/-!
# Computations in steps

What a cascade computes goes in steps: a step asks the connection once,
or looks at what the cascade keeps. Between two steps of one computation
others that share the cascade may go on, so that what comes behind a
step is there for every state in which the cascade may be by then
(`Saving`). `Saving.run` lets a computation go to its end without a break.
-/

namespace EntityMap

/-- The unit of work of a cascade, and the keys that it has inserted. -/
structure Cascade (σ : Type) where
  work : UnitOfWork σ
  inserted : List (String × Value) := []
  /-- Which computation goes on next, wherever several do beside each other: a list of choices
  for each such place, in the order in which they come up. -/
  schedules : List (List Nat) := []
  deriving Repr

/-- A computation of a cascade, which has ended or takes a step. -/
inductive Saving (σ α : Type) where
  | done (a : α)
  /-- The step changes the cascade by `after`, and `rest` is what comes behind it. -/
  | step (after : Cascade σ → Cascade σ) (rest : Cascade σ → Saving σ α)

namespace Saving

variable {σ α β : Type}

def bind : Saving σ α → (α → Saving σ β) → Saving σ β
  | done a, f => f a
  | step after rest, f => step after fun c => (rest c).bind f

instance : Monad (Saving σ) where
  pure := done
  bind := bind

/-- What is done in one step. -/
def atomic (act : Cascade σ → α × Cascade σ) : Saving σ α :=
  step (fun c => (act c).2) fun c => done (act c).1

instance : MonadStateOf (Cascade σ) (Saving σ) where
  get := atomic fun c => (c, c)
  set c := atomic fun _ => ((), c)
  modifyGet := atomic

/-- What a computation answers and leaves when nothing comes between its steps. -/
def run : Saving σ α → Cascade σ → α × Cascade σ
  | done a, c => (a, c)
  | step after rest, c => (rest c).run (after c)

instance : CoeFun (Saving σ α) fun _ => Cascade σ → α × Cascade σ :=
  ⟨run⟩

end Saving

/-- A computation that writes. -/
abbrev Writing (σ α : Type) := ExceptT WriteError (Saving σ) α

namespace Writing

variable {σ α : Type}

def ofExcept (answer : Except WriteError α) : Writing σ α :=
  ExceptT.mk (return answer)

/-- Runs a computation in the unit of work of the cascade, as one step. -/
def inWork (computation : Working σ UnitOfWorkError α) : Writing σ α :=
  ExceptT.mk (Saving.atomic fun c =>
    let (answer, work) := computation.run c.work
    (answer.mapError .unitOfWork, { c with work }))

end Writing

end EntityMap
