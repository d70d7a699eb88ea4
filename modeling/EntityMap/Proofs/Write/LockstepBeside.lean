import EntityMap.Proofs.Write.Beside
import EntityMap.Proofs.Write.SaveSteps

/-!
# Computations beside each other in lockstep

Two lists of computations, of which each goes in lockstep with its
counterpart (`Strand.Lockstep`): where they go on beside each other by one
schedule, the same ones are chosen at each step, so that the whole goes in
lockstep as well (`Saving.together_lockstep`).
-/

namespace EntityMap

open Writing

variable {σ : Type} [Executor σ] {β : Type} {rules : CascadeRules}
  {twin : Cascade σ → Cascade σ → Prop} {alike : Event → Event → Prop}

/-- Two computations have come equally far, and go on in lockstep. -/
inductive Strand.Lockstep (rules : CascadeRules) (twin : Cascade σ → Cascade σ → Prop)
    (alike : Event → Event → Prop) : Strand σ β → Strand σ β → Prop
  | waiting {item item' : β} {todo todo' : Saving σ (Except WriteError Unit × β)}
      (hsends : Saving.Sends rules todo) (hsends' : Saving.Sends rules todo')
      (h : Saving.Lockstep rules twin alike (fun saved => failure? saved.1) todo todo'
        fun _ _ => True) :
      Lockstep rules twin alike (.waiting item todo) (.waiting item' todo')
  | running {c c' : Cascade σ} {todo todo' : Saving σ (Except WriteError Unit × β)}
      (hsends : Saving.Sends rules todo) (hsends' : Saving.Sends rules todo')
      (h : Saving.Lockstep rules twin alike (fun saved => failure? saved.1) todo todo'
        fun _ _ => True) :
      Lockstep rules twin alike (.running c todo) (.running c' todo')
  | ended {item item' : β} : Lockstep rules twin alike (.ended item) (.ended item')

namespace Strand.Lockstep

variable {strand strand' : Strand σ β} {strands strands' : List (Strand σ β)}

theorem phase_eq (h : strand.Lockstep rules twin alike strand') :
    strand'.phase = strand.phase := by
  cases h <;> rfl

theorem phases_eq (h : List.Forall₂ (Strand.Lockstep rules twin alike) strands strands') :
    strands'.map Strand.phase = strands.map Strand.phase := by
  induction h with
  | nil => rfl
  | cons hstrand _ ih => rw [List.map_cons, List.map_cons, hstrand.phase_eq, ih]

theorem meets (h : strand.Lockstep rules twin alike strand') :
    strand.Meets rules (fun _ _ => True) ∧ strand'.Meets rules fun _ _ => True := by
  cases h with
  | waiting hsends hsends' _ => exact ⟨⟨trivial, hsends⟩, trivial, hsends'⟩
  | running hsends hsends' _ => exact ⟨hsends, hsends'⟩
  | ended => exact ⟨trivial, trivial⟩

theorem meets_left (h : List.Forall₂ (Strand.Lockstep rules twin alike) strands strands') :
    List.Forall₂ (Strand.Meets rules) (strands.map fun _ => fun _ _ => True) strands := by
  induction h with
  | nil => exact .nil
  | cons hstrand _ ih => exact .cons hstrand.meets.1 ih

theorem meets_right (h : List.Forall₂ (Strand.Lockstep rules twin alike) strands strands') :
    List.Forall₂ (Strand.Meets rules) (strands'.map fun _ => fun _ _ => True) strands' := by
  induction h with
  | nil => exact .nil
  | cons hstrand _ ih => exact .cons hstrand.meets.2 ih

end Strand.Lockstep

namespace Saving

/-- What several computations send by a schedule when each of them sends. -/
theorem interleave_sends {n : Nat} (hn : 1 < n) {Qs : List (Demand β)} {strands : List (Strand σ β)}
    (h : List.Forall₂ (Strand.Meets rules) Qs strands) (schedule : List Nat) :
    Sends rules (interleave n schedule strands) :=
  (interleave_does hn schedule h).mono fun _ _ _ => trivial

theorem inTurn_sends {Qs : List (Demand β)} {strands : List (Strand σ β)}
    (h : List.Forall₂ (Strand.Meets rules) Qs strands) : Sends rules (inTurn strands) :=
  (inTurn_does (n := 1) h).mono fun _ _ _ => trivial

theorem goOn_sends {Qs : List (Demand β)} {rest : List (Strand σ β)}
    (h : List.Forall₂ (Strand.Meets rules) Qs rest) (item : β) (done : Unit) :
    Sends rules (goOn rest item done) :=
  Does.bind (inTurn_sends h) fun _ _ _ => Does.pure trivial

variable {strands strands' : List (Strand σ β)}

/-- Several computations beside each other go in lockstep with as many others. -/
abbrev AllLockstep (rules : CascadeRules) (twin : Cascade σ → Cascade σ → Prop)
    (alike : Event → Event → Prop) (m m' : Saving σ (Except WriteError Unit × List β)) : Prop :=
  Lockstep rules twin alike (fun saved => failure? saved.1) m m' fun _ _ => True

theorem goOn_lockstep (h : AllLockstep rules twin alike (inTurn strands) (inTurn strands'))
    (item item' : β) :
    AllLockstep rules twin alike (goOn strands item ()) (goOn strands' item' ()) :=
  h.bind_pure (f := fun saved => (saved.1, item :: saved.2))
    (g := fun saved => (saved.1, item' :: saved.2)) (fun _ => rfl) (fun _ => rfl)
    fun _ _ _ _ _ => trivial

theorem inTurn_lockstep (h : List.Forall₂ (Strand.Lockstep rules twin alike) strands strands') :
    AllLockstep rules twin alike (inTurn strands) (inTurn strands') := by
  induction h with
  | nil => exact .pure rfl rfl trivial
  | @cons strand strand' strands strands' hstrand hrest ih =>
      have hsends := goOn_sends (Strand.Lockstep.meets_left hrest)
      have hsends' := goOn_sends (Strand.Lockstep.meets_right hrest)
      cases hstrand with
      | waiting _ _ h =>
          rw [inTurn_waiting, inTurn_waiting]
          exact h.onwardWith hsends hsends' fun _ item _ item' _ => goOn_lockstep ih item item'
      | running _ _ h =>
          rw [inTurn_running, inTurn_running]
          exact h.onwardWith hsends hsends' fun _ item _ item' _ => goOn_lockstep ih item item'
      | @ended item item' => exact goOn_lockstep ih item item'

/-- The same computation is chosen on both sides; when one of the two has failed alone, the other
side goes on by itself. -/
theorem interleave_lockstep {n : Nat} (hn : 1 < n) (schedule : List Nat)
    (h : List.Forall₂ (Strand.Lockstep rules twin alike) strands strands') :
    AllLockstep rules twin alike (interleave n schedule strands)
      (interleave n schedule strands') := by
  induction schedule generalizing strands strands' with
  | nil => exact inTurn_lockstep h
  | cons choice schedule ih =>
      cases hi : chosen? n choice (strands.map Strand.phase) with
      | none =>
          have hi' := (Strand.Lockstep.phases_eq h).symm ▸ hi
          rw [interleave_none hi, interleave_none hi']
          exact inTurn_lockstep h
      | some i =>
          have hi' := (Strand.Lockstep.phases_eq h).symm ▸ hi
          cases hstrand' : strands'[i]? with
          | none =>
              have hstrand : strands[i]? = none := by
                rw [List.getElem?_eq_none_iff] at hstrand' ⊢
                rwa [h.length_eq]
              rw [interleave_absent hi hstrand, interleave_absent hi' hstrand']
              exact inTurn_lockstep h
          | some strand' =>
              obtain ⟨strand, hstrand, hpair, hset⟩ := forall₂_getElem? h hstrand'
              cases hpair with
              | waiting hsends hsends' hlock =>
                  rw [interleave_waiting hi hstrand, interleave_waiting hi' hstrand']
                  exact .step (fun c c' htwin => ⟨[], [], .done c.work, .done c'.work, .nil, htwin⟩)
                    fun c c' _ => ih (hset _ _ (.running hsends hsends' hlock))
              | running hsends hsends' hlock =>
                  cases hlock with
                  | @both saved saved' _ ha ha' _ =>
                      obtain ⟨result, item⟩ := saved
                      obtain ⟨result', item'⟩ := saved'
                      obtain ⟨⟨⟩, rfl⟩ := eq_ok_of_failure? ha
                      obtain ⟨⟨⟩, rfl⟩ := eq_ok_of_failure? ha'
                      rw [interleave_done hi hstrand, interleave_done hi' hstrand']
                      exact ih (hset _ _ .ended)
                  | @neither saved saved' _ e e' ha ha' =>
                      obtain ⟨result, item⟩ := saved
                      obtain ⟨result', item'⟩ := saved'
                      obtain rfl := eq_error_of_failure? ha
                      obtain rfl := eq_error_of_failure? ha'
                      rw [interleave_failed hi hstrand, interleave_failed hi' hstrand']
                      exact .neither rfl rfl
                  | @left saved _ _ e ha hconversion _ =>
                      obtain ⟨result, item⟩ := saved
                      obtain rfl := eq_error_of_failure? ha
                      rw [interleave_failed hi hstrand]
                      exact .left rfl hconversion
                        (interleave_sends hn (Strand.Lockstep.meets_right h) _)
                  | @right _ saved' _ e _ ha' hconversion =>
                      obtain ⟨result', item'⟩ := saved'
                      obtain rfl := eq_error_of_failure? ha'
                      rw [interleave_failed hi' hstrand']
                      exact .right (interleave_sends hn (Strand.Lockstep.meets_left h) _) rfl
                        hconversion
                  | step hstep hrest =>
                      rw [interleave_step hi hstrand, interleave_step hi' hstrand']
                      refine .step hstep fun c c' htwin => ih (hset _ _ ?_)
                      obtain ⟨_, -, hrestSends⟩ := hsends c
                      obtain ⟨_, -, hrestSends'⟩ := hsends' c'
                      exact .running hrestSends hrestSends' (hrest c c' htwin)
              | ended =>
                  rw [interleave_ended hi hstrand, interleave_ended hi' hstrand']
                  exact inTurn_lockstep h

/-- By one schedule, computations beside each other go in lockstep with others when each of them
does. -/
theorem together_lockstep {held : σ → Prop} {same : String → Value → Value → Prop} (n : Nat)
    (h : List.Forall₂ (Strand.Lockstep rules (Cascade.Twin held same) alike) strands strands') :
    AllLockstep rules (Cascade.Twin held same) alike (together n strands)
      (together n strands') := by
  by_cases hmany : 1 < n ∧ 1 < strands.length
  · have hmany' : 1 < n ∧ 1 < strands'.length := h.length_eq ▸ hmany
    rw [together_of_many hmany, together_of_many hmany', nextSchedule_eq]
    refine .step (fun c c' htwin => ⟨[], [], .done c.work, .done c'.work, .nil, ?_⟩)
      fun c c' htwin => ?_
    · exact ⟨htwin.held, htwin.connection, htwin.isOpen, htwin.inserted,
        congrArg List.tail htwin.schedules⟩
    · show AllLockstep rules _ alike (interleave n (c.schedules.headD []) strands)
        (interleave n (c'.schedules.headD []) strands')
      rw [htwin.schedules]
      exact interleave_lockstep hmany.1 _ h
  · have hmany' : ¬(1 < n ∧ 1 < strands'.length) := h.length_eq ▸ hmany
    rw [together_of_few hmany, together_of_few hmany']
    exact inTurn_lockstep h

end Saving

end EntityMap
