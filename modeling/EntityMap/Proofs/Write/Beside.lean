import EntityMap.Execution.Script
import EntityMap.Proofs.Write.Dialogue
import EntityMap.Write.Together

/-!
# Computations beside each other

When computations go on beside each other, the events of all of them are
those of each, run into each other (`Shuffle`), whatever the schedule. A
schedule may let any of them go on that can (`exists_chosen?_iff`), so
that all schedules are all orders in which they may take their steps.
What holds of each computation at every state of the cascade still holds
of its own events, wherever the others have taken their steps between
(`Saving.together_does`). A computation that another one ends by its error
has been under way or not (`Strand.Meets`): what it has sent by then are
the events of a computation that ended by itself, when the unit of work
had been closed to it.
-/

namespace EntityMap

/-! ## Events beside each other -/

/-- A list made of the elements of two others, each in its own order. -/
inductive Shuffle {α : Type} : List α → List α → List α → Prop
  | nil : Shuffle [] [] []
  | left {a : α} {l l' m : List α} (h : Shuffle l l' m) : Shuffle (a :: l) l' (a :: m)
  | right {a : α} {l l' m : List α} (h : Shuffle l l' m) : Shuffle l (a :: l') (a :: m)

namespace Shuffle

variable {α : Type} {l l' m : List α}

theorem append_left (h : Shuffle l l' m) (before : List α) :
    Shuffle (before ++ l) l' (before ++ m) := by
  induction before with
  | nil => exact h
  | cons a before ih => exact .left ih

theorem append_right (h : Shuffle l l' m) (before : List α) :
    Shuffle l (before ++ l') (before ++ m) := by
  induction before with
  | nil => exact h
  | cons a before ih => exact .right ih

theorem append (l l' : List α) : Shuffle l l' (l ++ l') := by
  have hright : Shuffle [] (l' ++ []) (l' ++ []) := nil.append_right l'
  rw [List.append_nil] at hright
  have hleft := hright.append_left l
  rwa [List.append_nil] at hleft

theorem mem_iff (h : Shuffle l l' m) {a : α} : a ∈ m ↔ a ∈ l ∨ a ∈ l' := by
  induction h with
  | nil => simp
  | left _ ih => rw [List.mem_cons, List.mem_cons, ih, or_assoc]
  | right _ ih => rw [List.mem_cons, List.mem_cons, ih, or_left_comm]

end Shuffle

/-- Events of which no more than `n` computations are under way at a time: of one they are one
behind the other. -/
inductive Beside (n : Nat) (es es' : List Event) : List Event → Prop
  | behind : Beside n es es' (es ++ es')
  | shuffled {w : List Event} (hn : 1 < n) (h : Shuffle es es' w) : Beside n es es' w

namespace Beside

variable {n : Nat} {es es' w : List Event}

theorem mem_iff (h : Beside n es es' w) {e : Event} : e ∈ w ↔ e ∈ es ∨ e ∈ es' := by
  cases h with
  | behind => exact List.mem_append
  | shuffled _ h => exact h.mem_iff

theorem eq_append (h : Beside n es es' w) (hn : n ≤ 1) : w = es ++ es' := by
  cases h with
  | behind => rfl
  | shuffled hmany _ => exact absurd hmany (Nat.not_lt.mpr hn)

theorem shuffle (h : Beside n es es' w) : Shuffle es es' w := by
  cases h with
  | behind => exact .append es es'
  | shuffled _ h => exact h

end Beside

variable {σ : Type} [Executor σ] {β : Type} {rules : CascadeRules}

/-- What is demanded of a computation about an item: how it went, if it has begun, what has become
of the item, and its events. -/
abbrev Demand (β : Type) := Option (Except WriteError Unit) × β → List Event → Prop

namespace Demand

/-- What is left to be demanded behind some events. -/
def behind (Q : Demand β) (es : List Event) : Demand β :=
  fun answer es' => Q answer (es ++ es')

end Demand

/-- A computation meets a demand from wherever it is. -/
def Strand.Meets (rules : CascadeRules) (Q : Demand β) : Strand σ β → Prop
  | .waiting item todo => Q (none, item) [] ∧
      Saving.Does rules todo fun answer es => Q (some answer.1, answer.2) es
  | .running _ todo => Saving.Does rules todo fun answer es => Q (some answer.1, answer.2) es
  | .ended item => Q (some (.ok ()), item) []

/-- Several computations meet their demands, and their events are one list. -/
inductive Joined (n : Nat) : List (Demand β) → List (Option (Except WriteError Unit)) → List β →
    List Event → Prop
  | nil : Joined n [] [] [] []
  | cons {Q : Demand β} {Qs : List (Demand β)} {result : Option (Except WriteError Unit)}
      {results : List (Option (Except WriteError Unit))} {item : β} {items : List β}
      {es es' w : List Event} (h : Q (result, item) es) (hrest : Joined n Qs results items es')
      (hbeside : Beside n es es' w) : Joined n (Q :: Qs) (result :: results) (item :: items) w

/-- All have come to a good end, or one has failed and its error is answered. -/
def Settled (results : List (Option (Except WriteError Unit))) : Except WriteError Unit → Prop
  | .ok () => ∀ result ∈ results, result = some (.ok ())
  | .error e => some (.error e) ∈ results

/-- What several computations are said to do beside each other. -/
def Together (n : Nat) (Qs : List (Demand β)) (answer : Except WriteError Unit × List β)
    (es : List Event) : Prop :=
  ∃ results, Joined n Qs results answer.2 es ∧ Settled results answer.1

theorem Settled.cons {result : Except WriteError Unit}
    {results : List (Option (Except WriteError Unit))} (h : Settled results result) :
    Settled (some (.ok ()) :: results) result := by
  cases result with
  | ok => exact List.forall_mem_cons.mpr ⟨rfl, h⟩
  | error e => exact List.mem_cons_of_mem _ h

/-- The events of one computation may come before all others. -/
theorem Joined.behind {n : Nat} (hn : 1 < n) {Qs : List (Demand β)} {i : Nat} {Q : Demand β}
    (hQ : Qs[i]? = some Q) {es es' : List Event} {items : List β}
    {results : List (Option (Except WriteError Unit))}
    (h : Joined n (Qs.set i (Q.behind es)) results items es') :
    Joined n Qs results items (es ++ es') := by
  induction Qs generalizing i es' results items with
  | nil => cases hQ
  | cons Q' Qs ih =>
      cases i with
      | zero =>
          cases Option.some.inj hQ
          cases h with
          | cons h hrest hbeside =>
              exact .cons h hrest (.shuffled hn (hbeside.shuffle.append_left es))
      | succ i =>
          cases h with
          | cons h hrest hbeside =>
              exact .cons h (ih hQ hrest) (.shuffled hn (hbeside.shuffle.append_right es))

/-- A unit of work that is closed sends nothing. -/
theorem UnitOfWork.Sends.eq_nil {u u' : UnitOfWork σ} {es : List Event} (h : Sends rules u es u')
    (hclosed : u.isOpen = false) : es = [] := by
  cases h with
  | done => rfl
  | event hopen => rw [hclosed] at hopen; cases hopen

/-- A computation that comes no further has met its demand by the events that it has sent. -/
theorem Strand.Meets.left {Q : Demand β} {strand : Strand σ β} (h : strand.Meets rules Q) :
    ∃ result, Q (result, strand.left) [] := by
  cases strand with
  | waiting item todo => exact ⟨none, h.1⟩
  | running c todo =>
      obtain ⟨es, hsends, hQ⟩ := Saving.Does.run h c.closed
      cases hsends.eq_nil rfl
      exact ⟨_, hQ⟩
  | ended item => exact ⟨_, h⟩

theorem joined_left {n : Nat} {Qs : List (Demand β)} {strands : List (Strand σ β)}
    (h : List.Forall₂ (Strand.Meets rules) Qs strands) :
    ∃ results, Joined n Qs results (strands.map Strand.left) [] := by
  induction h with
  | nil => exact ⟨[], .nil⟩
  | cons hstrand _ ih =>
      obtain ⟨result, hresult⟩ := hstrand.left
      obtain ⟨results, hrest⟩ := ih
      exact ⟨result :: results, .cons hresult hrest .behind⟩

/-- What a list has already at a place is not changed there. -/
theorem set_of_getElem? {α : Type} {l : List α} {i : Nat} {a : α} (h : l[i]? = some a) :
    l.set i a = l := by
  obtain ⟨hi, rfl⟩ := List.getElem?_eq_some_iff.mp h
  exact List.set_getElem_self hi

/-- What is related to an element of a list, and that both may be replaced. -/
theorem forall₂_getElem? {α γ : Type} {R : α → γ → Prop} {l : List α} {l' : List γ} {i : Nat}
    {b : γ} (h : List.Forall₂ R l l') (hb : l'[i]? = some b) :
    ∃ a, l[i]? = some a ∧ R a b ∧
      ∀ a' b', R a' b' → List.Forall₂ R (l.set i a') (l'.set i b') := by
  induction h generalizing i with
  | nil => cases hb
  | @cons a b' l l' hR hrest ih =>
      cases i with
      | zero =>
          cases Option.some.inj hb
          exact ⟨a, rfl, hR, fun a' b' h => .cons h hrest⟩
      | succ i =>
          obtain ⟨a', ha', hR', hset⟩ := ih hb
          exact ⟨a', ha', hR', fun a'' b'' h => .cons hR (hset a'' b'' h)⟩

/-- When one of the computations has failed, the others have met their demands as well. -/
theorem joined_failed {n i : Nat} {Qs : List (Demand β)} {strands : List (Strand σ β)}
    {Q : Demand β} {e : WriteError} {item : β}
    (h : List.Forall₂ (Strand.Meets rules) Qs strands) (hQ : Qs[i]? = some Q)
    (hfailed : Q (some (.error e), item) []) :
    ∃ results, Joined n Qs results ((strands.set i (.ended item)).map Strand.left) [] ∧
      some (.error e) ∈ results := by
  induction h generalizing i with
  | nil => cases hQ
  | cons hstrand hrest ih =>
      cases i with
      | zero =>
          cases Option.some.inj hQ
          obtain ⟨results, hleft⟩ := joined_left hrest
          exact ⟨some (.error e) :: results, .cons hfailed hleft .behind, List.mem_cons_self ..⟩
      | succ i =>
          obtain ⟨result, hresult⟩ := hstrand.left
          obtain ⟨results, hjoined, hmem⟩ := ih hQ
          exact ⟨result :: results, .cons hresult hjoined .behind, List.mem_cons_of_mem _ hmem⟩

/-! ## What comes behind a computation -/

namespace Saving

variable {α γ δ : Type}

omit [Executor σ]

/-- Goes on behind a computation. When that has failed, its error is handed on, with what there is
by then. -/
def onward (stop : δ) (go : α → Saving σ (Except WriteError γ × δ)) :
    Except WriteError α → Saving σ (Except WriteError γ × δ)
  | .error e => return (.error e, stop)
  | .ok a => go a

/-- Goes on behind a save, which leaves something as it ends. -/
def onwardWith (stop : β → δ) (go : β → α → Saving σ (Except WriteError γ × δ))
    (saved : Except WriteError α × β) : Saving σ (Except WriteError γ × δ) :=
  onward (stop saved.2) (go saved.2) saved.1

/-- Goes on with the others behind a computation that has come to a good end. -/
def goOn (rest : List (Strand σ β)) (item : β) (_done : Unit) :
    Saving σ (Except WriteError Unit × List β) := do
  let (result, items) ← inTurn rest
  return (result, item :: items)

theorem inTurn_waiting (item : β) (todo : Saving σ (Except WriteError Unit × β))
    (rest : List (Strand σ β)) :
    inTurn (.waiting item todo :: rest) =
      todo >>= onwardWith (fun item => item :: rest.map Strand.left) (goOn rest) := by
  rw [inTurn]
  congr 1
  funext saved
  obtain ⟨e | ⟨⟩, item⟩ := saved
  · rfl
  · rfl

theorem inTurn_running (c : Cascade σ) (todo : Saving σ (Except WriteError Unit × β))
    (rest : List (Strand σ β)) :
    inTurn (.running c todo :: rest) =
      todo >>= onwardWith (fun item => item :: rest.map Strand.left) (goOn rest) := by
  rw [inTurn]
  congr 1
  funext saved
  obtain ⟨e | ⟨⟩, item⟩ := saved
  · rfl
  · rfl

end Saving

/-! ## What a choice does -/

theorem countP_range_getElem? (phases : List Phase) (phase : Phase) :
    (List.range phases.length).countP (fun i => phases[i]? = some phase) = phases.count phase := by
  induction phases with
  | nil => rfl
  | cons first rest ih =>
      have hrest : List.countP ((fun i => decide ((first :: rest)[i]? = some phase)) ∘ Nat.succ)
          (List.range rest.length) = rest.count phase := ih
      rw [List.length_cons, List.range_succ_eq_map, List.countP_cons, List.countP_map, hrest,
        List.count_cons]
      simp

/-- A computation may go on if it is under way, or if it is the first that waits and there is room
for one more. -/
theorem mem_candidates_iff {n i : Nat} {phases : List Phase} :
    i ∈ candidates n phases ↔ phases[i]? = some .running ∨
      phases.count .running < n ∧ phases.findIdx? (· = .waiting) = some i := by
  have hrunning : i ∈ (List.range phases.length).filter (fun i => phases[i]? = some .running) ↔
      phases[i]? = some .running := by
    rw [List.mem_filter, List.mem_range, decide_eq_true_iff]
    exact and_iff_right_of_imp fun h => (List.getElem?_eq_some_iff.mp h).1
  unfold candidates
  dsimp only
  rw [← List.countP_eq_length_filter, countP_range_getElem?]
  split
  · rename_i hroom
    rw [List.mem_append, hrunning, Option.mem_toList, and_iff_right hroom]
  · rename_i hroom
    rw [hrunning]
    exact (or_iff_left fun h => hroom h.1).symm

/-- Whichever computation may go on, some choice lets it go on. -/
theorem exists_chosen?_iff {n i : Nat} {phases : List Phase} :
    (∃ choice, chosen? n choice phases = some i) ↔ i ∈ candidates n phases := by
  constructor
  · rintro ⟨choice, h⟩
    exact List.mem_of_getElem? h
  · intro h
    obtain ⟨choice, hchoice, heq⟩ := List.getElem_of_mem h
    refine ⟨choice, ?_⟩
    rw [chosen?, Nat.mod_eq_of_lt hchoice, List.getElem?_eq_getElem hchoice, heq]

namespace Saving

variable {n choice i : Nat} {schedule : List Nat} {strands : List (Strand σ β)}

omit [Executor σ]

theorem interleave_none (hi : chosen? n choice (strands.map Strand.phase) = none) :
    interleave n (choice :: schedule) strands = inTurn strands := by
  rw [interleave, hi]

theorem interleave_absent (hi : chosen? n choice (strands.map Strand.phase) = some i)
    (h : strands[i]? = none) : interleave n (choice :: schedule) strands = inTurn strands := by
  rw [interleave, hi]
  dsimp only
  rw [h]

theorem interleave_ended {item : β}
    (hi : chosen? n choice (strands.map Strand.phase) = some i)
    (h : strands[i]? = some (.ended item)) :
    interleave n (choice :: schedule) strands = inTurn strands := by
  rw [interleave, hi]
  dsimp only
  rw [h]

theorem interleave_waiting {item : β} {todo : Saving σ (Except WriteError Unit × β)}
    (hi : chosen? n choice (strands.map Strand.phase) = some i)
    (h : strands[i]? = some (.waiting item todo)) :
    interleave n (choice :: schedule) strands =
      step id fun c => interleave n schedule (strands.set i (.running c todo)) := by
  rw [interleave, hi]
  dsimp only
  rw [h]

theorem interleave_step {c₀ : Cascade σ} {after : Cascade σ → Cascade σ}
    {rest : Cascade σ → Saving σ (Except WriteError Unit × β)}
    (hi : chosen? n choice (strands.map Strand.phase) = some i)
    (h : strands[i]? = some (.running c₀ (.step after rest))) :
    interleave n (choice :: schedule) strands =
      step after fun c => interleave n schedule (strands.set i (.running (after c) (rest c))) := by
  rw [interleave, hi]
  dsimp only
  rw [h]

theorem interleave_done {c₀ : Cascade σ} {item : β}
    (hi : chosen? n choice (strands.map Strand.phase) = some i)
    (h : strands[i]? = some (.running c₀ (.done (.ok (), item)))) :
    interleave n (choice :: schedule) strands =
      interleave n schedule (strands.set i (.ended item)) := by
  rw [interleave, hi]
  dsimp only
  rw [h]

theorem interleave_failed {c₀ : Cascade σ} {e : WriteError} {item : β}
    (hi : chosen? n choice (strands.map Strand.phase) = some i)
    (h : strands[i]? = some (.running c₀ (.done (.error e, item)))) :
    interleave n (choice :: schedule) strands =
      pure (.error e, (strands.set i (.ended item)).map Strand.left) := by
  rw [interleave, hi]
  dsimp only
  rw [h]

theorem nextSchedule_eq : (nextSchedule : Saving σ (List Nat)) =
    step (fun c => { c with schedules := c.schedules.tail }) fun c =>
      done (c.schedules.headD []) := by
  refine congrArg atomic (funext ?_ : _ = fun c : Cascade σ =>
    (c.schedules.headD [], { c with schedules := c.schedules.tail }))
  rintro ⟨work, inserted, _ | ⟨schedule, later⟩⟩ <;> rfl

theorem together_of_few (h : ¬(1 < n ∧ 1 < strands.length)) :
    together n strands = inTurn strands := by
  unfold together
  rw [if_pos]
  simp only [Bool.or_eq_true, decide_eq_true_eq]
  omega

theorem together_of_many (h : 1 < n ∧ 1 < strands.length) :
    together n strands = nextSchedule >>= fun schedule => interleave n schedule strands := by
  unfold together
  rw [if_neg]
  simp only [Bool.or_eq_true, decide_eq_true_eq]
  omega

end Saving

/-! ## What they do -/

namespace Saving

/-- Behind a computation that has met its demand, the others meet theirs. -/
theorem goOn_does {n : Nat} {Q : Demand β} {Qs : List (Demand β)} {rest : List (Strand σ β)}
    {item : β} {es : List Event} (hQ : Q (some (.ok ()), item) es)
    (h : Does rules (inTurn rest) (Together n Qs)) :
    Does rules (goOn rest item ()) fun answer es' => Together n (Q :: Qs) answer (es ++ es') := by
  refine Does.bind h ?_
  rintro ⟨result, items⟩ es' ⟨results, hjoined, hsettled⟩
  refine .pure ⟨some (.ok ()) :: results, .cons hQ hjoined ?_, hsettled.cons⟩
  rw [List.append_nil]
  exact .behind

theorem inTurn_does {n : Nat} {Qs : List (Demand β)} {strands : List (Strand σ β)}
    (h : List.Forall₂ (Strand.Meets rules) Qs strands) :
    Does rules (inTurn strands) (Together n Qs) := by
  induction h with
  | nil => exact .pure ⟨[], .nil, by simp [Settled]⟩
  | @cons Q strand Qs strands hstrand hrest ih =>
      have hgo : ∀ todo : Saving σ (Except WriteError Unit × β),
          Does rules todo (fun answer es => Q (some answer.1, answer.2) es) →
          Does rules (todo >>=
            onwardWith (fun item => item :: strands.map Strand.left) (goOn strands))
              (Together n (Q :: Qs)) := by
        intro todo htodo
        refine htodo.bind ?_
        rintro ⟨e | ⟨⟩, item⟩ es hQ
        · obtain ⟨results, hleft⟩ := joined_left hrest
          refine Does.pure ⟨some (.error e) :: results, .cons hQ hleft ?_, List.mem_cons_self ..⟩
          exact .behind
        · exact goOn_does hQ ih
      cases strand with
      | waiting item todo =>
          rw [inTurn_waiting]
          exact hgo todo hstrand.2
      | running c todo =>
          rw [inTurn_running]
          exact hgo todo hstrand
      | ended item => exact goOn_does hstrand ih

/-- The computation that is chosen takes its step before all that comes behind. -/
theorem interleave_does {n : Nat} (hn : 1 < n) (schedule : List Nat) {Qs : List (Demand β)}
    {strands : List (Strand σ β)} (h : List.Forall₂ (Strand.Meets rules) Qs strands) :
    Does rules (interleave n schedule strands) (Together n Qs) := by
  induction schedule generalizing Qs strands with
  | nil => exact inTurn_does h
  | cons choice schedule ih =>
      rw [interleave]
      split
      · exact inTurn_does h
      · rename_i i _
        split
        · rename_i item todo hstrand
          obtain ⟨Q, hQ, hmeets, hset⟩ := forall₂_getElem? h hstrand
          intro c
          refine ⟨[], .done c.work, ih ?_⟩
          have hrunning := hset Q (.running c todo) hmeets.2
          rwa [set_of_getElem? hQ] at hrunning
        · rename_i c₀ after rest hstrand
          obtain ⟨Q, hQ, hmeets, hset⟩ := forall₂_getElem? h hstrand
          intro c
          obtain ⟨es, hsends, hrest⟩ := hmeets c
          refine ⟨es, hsends, (ih (hset (Q.behind es) (.running (after c) (rest c)) hrest)).mono ?_⟩
          rintro ⟨result, items⟩ es' ⟨results, hjoined, hsettled⟩
          exact ⟨results, hjoined.behind hn hQ, hsettled⟩
        · rename_i c₀ item hstrand
          obtain ⟨Q, hQ, hmeets, hset⟩ := forall₂_getElem? h hstrand
          have hended := hset Q (.ended item) hmeets
          rw [set_of_getElem? hQ] at hended
          exact ih hended
        · rename_i c₀ e item hstrand
          obtain ⟨Q, hQ, hmeets, -⟩ := forall₂_getElem? h hstrand
          obtain ⟨results, hjoined, hmem⟩ := joined_failed h hQ hmeets
          exact .pure ⟨results, hjoined, hmem⟩
        · exact inTurn_does h

/-- Whatever the schedule and whatever the connection answers: computations beside each other do
what each of them is said to do by itself, and all of them end well or an error is answered. -/
theorem together_does {n : Nat} {Qs : List (Demand β)} {strands : List (Strand σ β)}
    (h : List.Forall₂ (Strand.Meets rules) Qs strands) :
    Does rules (together n strands) (Together n Qs) := by
  by_cases hmany : 1 < n ∧ 1 < strands.length
  · rw [together_of_many hmany, nextSchedule_eq]
    exact fun c => ⟨[], .done c.work, interleave_does hmany.1 _ h⟩
  · rw [together_of_few hmany]
    exact inTurn_does h

/-- Two computations take turns, and each sends its first statement before the other its second. -/
example :
    let twice (name : String) : Saving Script (Except WriteError Unit × String) := do
      let first ← (Writing.inWork (UnitOfWork.execute ⟨name, []⟩)).run
      let second ← (Writing.inWork (UnitOfWork.execute ⟨name, []⟩)).run
      return (first.bind fun _ => second.map fun _ => (), name)
    ((together 2 [.waiting "a" (twice "a"), .waiting "b" (twice "b")]).run
      { work := { connection := {} }, schedules := [[0, 1, 0, 1, 0, 0]] }).2.work.calls =
        [.execute ⟨"a", []⟩, .execute ⟨"b", []⟩, .execute ⟨"a", []⟩, .execute ⟨"b", []⟩] := by
  decide +kernel

end Saving

end EntityMap
