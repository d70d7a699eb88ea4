import EntityMap.Write.Steps

/-!
# Computations beside each other

Several computations of one cascade, each about an item of its own, go on
beside each other: no more than a given number are under way at a time,
and they begin in their order. Which of them takes its next step is not
for the cascade to say, so it is read from a schedule (`interleave`); when
that has come to its end, they go on one after the other.

A computation that fails ends all others, but not before it is looked at
again: what the others have sent by then has been sent. They come no
further, and what they leave is what they would have left if the unit of
work had been closed to them (`Strand.left`).
-/

namespace EntityMap

/-- How far a computation has come. -/
inductive Phase where
  | waiting
  | running
  | ended
  deriving DecidableEq, Repr

/-- One of several computations beside each other. It answers how it went, and what has become of
its item. -/
inductive Strand (σ β : Type) where
  | waiting (item : β) (todo : Saving σ (Except WriteError Unit × β))
  /-- It is under way, and its last step has left the cascade `c`. -/
  | running (c : Cascade σ) (todo : Saving σ (Except WriteError Unit × β))
  | ended (item : β)

/-- The cascade when its unit of work is closed. -/
def Cascade.closed {σ : Type} (c : Cascade σ) : Cascade σ :=
  { c with work := { c.work with isOpen := false } }

namespace Strand

variable {σ β : Type}

def phase : Strand σ β → Phase
  | waiting _ _ => .waiting
  | running _ _ => .running
  | ended _ => .ended

/-- What is left of the item when the computation comes no further. -/
def left : Strand σ β → β
  | waiting item _ => item
  | running c todo => (todo.run c.closed).1.2
  | ended item => item

end Strand

/-- The places of the computations that may go on: those that are under way and, as long as these
are fewer than `n`, the first that is waiting. -/
def candidates (n : Nat) (phases : List Phase) : List Nat :=
  let running := (List.range phases.length).filter fun i => phases[i]? = some .running
  if running.length < n then running ++ (phases.findIdx? (· = .waiting)).toList else running

/-- The place of the computation that goes on by a choice, if any may. -/
def chosen? (n choice : Nat) (phases : List Phase) : Option Nat :=
  let places := candidates n phases
  places[choice % places.length]?

namespace Saving

variable {σ β : Type}

/-- Lets computations go on one after the other, up to the first error. -/
def inTurn : List (Strand σ β) → Saving σ (Except WriteError Unit × List β)
  | [] => return (.ok (), [])
  | .ended item :: rest => do
    let (result, items) ← inTurn rest
    return (result, item :: items)
  | .waiting _ todo :: rest | .running _ todo :: rest => do
    match ← todo with
    | (.error e, item) => return (.error e, item :: rest.map Strand.left)
    | (.ok (), item) =>
      let (result, items) ← inTurn rest
      return (result, item :: items)

/-- Lets computations go on beside each other, no more than `n` at a time, as a schedule says. -/
def interleave (n : Nat) : List Nat → List (Strand σ β) → Saving σ (Except WriteError Unit × List β)
  | [], strands => inTurn strands
  | choice :: schedule, strands =>
    match chosen? n choice (strands.map Strand.phase) with
    | none => inTurn strands
    | some i =>
      match strands[i]? with
      | some (.waiting _ todo) =>
        step id fun c => interleave n schedule (strands.set i (.running c todo))
      | some (.running _ (.step after rest)) =>
        step after fun c => interleave n schedule (strands.set i (.running (after c) (rest c)))
      | some (.running _ (.done (.ok (), item))) =>
        interleave n schedule (strands.set i (.ended item))
      | some (.running _ (.done (.error e, item))) =>
        return (.error e, (strands.set i (.ended item)).map Strand.left)
      | _ => inTurn strands

/-- Takes the choices for the next place where computations go on beside each other. -/
def nextSchedule : Saving σ (List Nat) :=
  atomic fun c =>
    match c.schedules with
    | [] => ([], c)
    | schedule :: later => (schedule, { c with schedules := later })

/-- Lets computations go on, no more than `n` at a time. -/
def together (n : Nat) (strands : List (Strand σ β)) :
    Saving σ (Except WriteError Unit × List β) :=
  if n ≤ 1 || strands.length ≤ 1 then inTurn strands
  else do interleave n (← nextSchedule) strands

end Saving

end EntityMap
