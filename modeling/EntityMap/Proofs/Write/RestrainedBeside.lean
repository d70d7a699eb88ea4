import EntityMap.Proofs.Write.LockstepBeside
import EntityMap.Proofs.Write.Restrained

/-!
# Permitted rows beside each other

Where computations go on beside each other, one that is refused an
operation under some rules stays where it is until it is looked at again.
By then another may have failed: so all that these rules have in common
with those that permit everything is the error (`Saving.Agree`). Else they
choose the same computations at each step, up to the refusal
(`Saving.together_follow`).
-/

namespace EntityMap

open Writing

variable {σ : Type} [Executor σ] {β : Type} {base : CascadeRules} {S : CascadeRules → Prop}

/-- Under all rules in `S`, a computation has come as far as `free`, and follows it. -/
inductive Strand.Follow (base : CascadeRules) (S : CascadeRules → Prop) :
    Strand σ β → (CascadeRules → Strand σ β) → Prop
  | waiting {item : β} {free : Saving σ (Except WriteError Unit × β)}
      {m : CascadeRules → Saving σ (Except WriteError Unit × β)} {f : CascadeRules → Strand σ β}
      (hf : ∀ rules, S rules → f rules = .waiting item (m rules))
      (h : Saving.Follow base (fun saved => failure? saved.1) S free m) :
      Follow base S (.waiting item free) f
  | running {c : Cascade σ} {free : Saving σ (Except WriteError Unit × β)}
      {m : CascadeRules → Saving σ (Except WriteError Unit × β)} {f : CascadeRules → Strand σ β}
      (hf : ∀ rules, S rules → f rules = .running c (m rules))
      (h : Saving.Follow base (fun saved => failure? saved.1) S free m) :
      Follow base S (.running c free) f
  | ended {item : β} {f : CascadeRules → Strand σ β}
      (hf : ∀ rules, S rules → f rules = .ended item) : Follow base S (.ended item) f

namespace Strand.Follow

variable {free : Strand σ β} {f : CascadeRules → Strand σ β} {frees : List (Strand σ β)}
  {fs : List (CascadeRules → Strand σ β)}

theorem mono {S' : CascadeRules → Prop} (h : Follow base S free f)
    (himp : ∀ rules, S' rules → S rules) : Follow base S' free f := by
  cases h with
  | waiting hf h => exact .waiting (fun rules hS => hf rules (himp rules hS)) (h.mono himp)
  | running hf h => exact .running (fun rules hS => hf rules (himp rules hS)) (h.mono himp)
  | ended hf => exact .ended fun rules hS => hf rules (himp rules hS)

theorem phase_eq (h : Follow base S free f) {rules : CascadeRules} (hS : S rules) :
    (f rules).phase = free.phase := by
  cases h with
  | waiting hf _ => rw [hf rules hS]; rfl
  | running hf _ => rw [hf rules hS]; rfl
  | ended hf => rw [hf rules hS]

theorem phases_eq (h : List.Forall₂ (Follow base S) frees fs) {rules : CascadeRules}
    (hS : S rules) :
    (fs.map fun f => f rules).map Strand.phase = frees.map Strand.phase := by
  induction h with
  | nil => rfl
  | cons hfollow _ ih =>
      rw [List.map_cons, List.map_cons, List.map_cons, hfollow.phase_eq hS, ih]

end Strand.Follow

namespace Saving

variable {frees : List (Strand σ β)} {fs : List (CascadeRules → Strand σ β)}

/-- Several computations beside each other follow as many others. -/
abbrev AllFollow (base : CascadeRules) (S : CascadeRules → Prop)
    (free : Saving σ (Except WriteError Unit × List β))
    (m : CascadeRules → Saving σ (Except WriteError Unit × List β)) : Prop :=
  Follow base (fun saved => failure? saved.1) S free m

theorem goOn_follow
    (h : AllFollow base S (inTurn frees) fun rules => inTurn (fs.map fun f => f rules))
    (item : β) (done : Unit) :
    AllFollow base S (goOn frees item done) fun rules => goOn (fs.map fun f => f rules) item done :=
  h.map (f := fun saved => (saved.1, item :: saved.2)) fun _ => rfl

/-- Those that come behind `free` go on when it has come to a good end, and are left when not. -/
theorem behind_follow {free : Saving σ (Except WriteError Unit × β)}
    {m : CascadeRules → Saving σ (Except WriteError Unit × β)}
    (hm : Follow base (fun saved => failure? saved.1) S free m)
    (h : AllFollow base S (inTurn frees) fun rules => inTurn (fs.map fun f => f rules)) :
    AllFollow base S
      (free >>= onwardWith (fun item => item :: frees.map Strand.left) (goOn frees)) fun rules =>
      m rules >>= onwardWith (fun item => item :: (fs.map fun f => f rules).map Strand.left)
        (goOn (fs.map fun f => f rules)) :=
  hm.onwardWith (goOn_follow h)

theorem inTurn_follow (h : List.Forall₂ (Strand.Follow base S) frees fs) :
    AllFollow base S (inTurn frees) fun rules => inTurn (fs.map fun f => f rules) := by
  induction h with
  | nil => exact .done fun _ _ => ⟨_, rfl, .inl rfl⟩
  | @cons free f frees fs hfollow _ ih =>
      cases hfollow with
      | waiting hf h =>
          rw [inTurn_waiting]
          refine (behind_follow h ih).congr fun rules hS => ?_
          rw [List.map_cons, hf rules hS, inTurn_waiting]
      | running hf h =>
          rw [inTurn_running]
          refine (behind_follow h ih).congr fun rules hS => ?_
          rw [List.map_cons, hf rules hS, inTurn_running]
      | ended hf =>
          refine Follow.congr (goOn_follow ih _ ()) fun rules hS => ?_
          rw [List.map_cons, hf rules hS]
          rfl

section

variable {n choice i : Nat} {schedule : List Nat} {c₀ : Cascade σ}
  {free : Saving σ (Except WriteError Unit × β)}
  {m : CascadeRules → Saving σ (Except WriteError Unit × β)} {f : CascadeRules → Strand σ β}

/-- The computation that is chosen is under way. Rules under which it has been refused an operation
come to see so now. -/
theorem interleave_running_follow
    (ih : ∀ {S : CascadeRules → Prop} {frees : List (Strand σ β)}
      {fs : List (CascadeRules → Strand σ β)}, List.Forall₂ (Strand.Follow base S) frees fs →
      AllFollow base S (interleave n schedule frees) fun rules =>
        interleave n schedule (fs.map fun f => f rules))
    (hchosen : Follow base (fun saved => failure? saved.1) S free m)
    (h : List.Forall₂ (Strand.Follow base S) frees fs)
    (hi : chosen? n choice (frees.map Strand.phase) = some i)
    (hfree : frees[i]? = some (.running c₀ free)) (hf : fs[i]? = some f)
    (hm : ∀ rules, S rules → f rules = .running c₀ (m rules)) :
    AllFollow base S (interleave n (choice :: schedule) frees) fun rules =>
      interleave n (choice :: schedule) (fs.map fun f => f rules) := by
  have hat : ∀ rules, (fs.map fun f => f rules)[i]? = some (f rules) := fun rules => by
    rw [List.getElem?_map, hf]
    rfl
  induction hchosen with
  | @done S saved m hdone =>
      obtain ⟨-, -, -, hset⟩ := forall₂_getElem? h hf
      obtain ⟨result, item⟩ := saved
      have hi' : ∀ rules, S rules →
          chosen? n choice ((fs.map fun f => f rules).map Strand.phase) = some i :=
        fun rules hS => (Strand.Follow.phases_eq h hS).symm ▸ hi
      cases result with
      | ok =>
          rw [interleave_done hi hfree]
          refine (ih (hset _ (fun _ => .ended item) (.ended fun _ _ => rfl))).congr
            fun rules hS => ?_
          obtain ⟨_, hrun, rfl | ⟨_, he, -⟩⟩ := hdone rules hS
          · have hstrand := hat rules
            rw [hm rules hS, hrun] at hstrand
            rw [interleave_done (hi' rules hS) hstrand, List.map_set]
          · cases he
      | error e =>
          rw [interleave_failed hi hfree]
          refine .done fun rules hS => ?_
          obtain ⟨⟨result, item'⟩, hrun, hagree⟩ := hdone rules hS
          have hresult : failure? result = some e := by
            obtain heq | ⟨e', he, he'⟩ := hagree
            · cases heq
              rfl
            · exact he'.trans he.symm
          obtain rfl := eq_error_of_failure? hresult
          have hstrand := hat rules
          rw [hm rules hS, hrun] at hstrand
          exact ⟨_, interleave_failed (hi' rules hS) hstrand, .inr ⟨e, rfl, rfl⟩⟩
  | @step S after free m rest hstep hsends hrest _ =>
      obtain ⟨-, -, -, hset⟩ := forall₂_getElem? h hf
      rw [interleave_step hi hfree]
      have hlater : ∀ c, AllFollow base S
          (interleave n schedule (frees.set i (.running (after c) (free c)))) fun rules =>
            interleave n schedule
              ((fs.set i fun rules => .running (after c) (rest rules c)).map fun f => f rules) :=
        fun c => ih (hset _ _ (.running (fun _ _ => rfl) (hrest c)))
      refine .step (fun rules hS => ?_) hsends hlater
      have hstrand := hat rules
      rw [hm rules hS, hstep rules hS] at hstrand
      rw [interleave_step ((Strand.Follow.phases_eq h hS).symm ▸ hi) hstrand]
      simp only [List.map_set]
  | @refused S P free m hrefused _ ihchosen =>
      have hmono : List.Forall₂ (Strand.Follow base fun rules => S rules ∧ P rules) frees fs :=
        h.imp fun _ _ hfollow => hfollow.mono fun _ hS => hS.1
      refine .refused (P := P) (fun rules hS hP => ?_)
        (ihchosen hmono hfree fun rules hS => hm rules hS.1)
      obtain ⟨⟨result, item⟩, e, hrun, he, hrefuses⟩ := hrefused rules hS hP
      obtain rfl := eq_error_of_failure? he
      have hstrand := hat rules
      rw [hm rules hS, hrun] at hstrand
      exact ⟨_, e, interleave_failed ((Strand.Follow.phases_eq h hS).symm ▸ hi) hstrand, rfl,
        hrefuses⟩

end

theorem interleave_follow (n : Nat) (schedule : List Nat)
    (h : List.Forall₂ (Strand.Follow base S) frees fs) :
    AllFollow base S (interleave n schedule frees) fun rules =>
      interleave n schedule (fs.map fun f => f rules) := by
  induction schedule generalizing S frees fs with
  | nil => exact inTurn_follow h
  | cons choice schedule ih =>
      have hchosen : ∀ {answer}, chosen? n choice (frees.map Strand.phase) = answer →
          ∀ rules, S rules →
            chosen? n choice ((fs.map fun f => f rules).map Strand.phase) = answer :=
        fun hi rules hS => (Strand.Follow.phases_eq h hS).symm ▸ hi
      cases hi : chosen? n choice (frees.map Strand.phase) with
      | none =>
          rw [interleave_none hi]
          exact (inTurn_follow h).congr fun rules hS => interleave_none (hchosen hi rules hS)
      | some i =>
          have hat : ∀ rules, (fs.map fun f => f rules)[i]? = fs[i]?.map fun f => f rules :=
            fun rules => List.getElem?_map
          cases hf : fs[i]? with
          | none =>
              have hfree : frees[i]? = none := by
                rw [List.getElem?_eq_none_iff] at hf ⊢
                rwa [h.length_eq]
              rw [interleave_absent hi hfree]
              refine (inTurn_follow h).congr fun rules hS => ?_
              exact interleave_absent (hchosen hi rules hS) (by rw [hat, hf]; rfl)
          | some f =>
              obtain ⟨free, hfree, hfollow, hset⟩ := forall₂_getElem? h hf
              cases hfollow with
              | @waiting item free m f hm hfollow =>
                  rw [interleave_waiting hi hfree]
                  have hlater : ∀ c, AllFollow base S
                      (interleave n schedule (frees.set i (.running c free))) fun rules =>
                        interleave n schedule
                          ((fs.set i fun rules => .running c (m rules)).map fun f => f rules) :=
                    fun c => ih (hset _ _ (.running (fun _ _ => rfl) hfollow))
                  refine .step (fun rules hS => ?_) (fun c => ⟨[], .done c.work, by simp⟩) hlater
                  have hstrand := hat rules
                  rw [hf, Option.map_some, hm rules hS] at hstrand
                  rw [interleave_waiting (hchosen hi rules hS) hstrand]
                  simp only [List.map_set]
              | running hm hfollow =>
                  exact interleave_running_follow ih hfollow h hi hfree hf hm
              | ended hm =>
                  rw [interleave_ended hi hfree]
                  refine (inTurn_follow h).congr fun rules hS => ?_
                  have hstrand := hat rules
                  rw [hf, Option.map_some, hm rules hS] at hstrand
                  exact interleave_ended (hchosen hi rules hS) hstrand

/-- By one schedule, computations beside each other follow others when each of them does. -/
theorem together_follow (n : Nat) (h : List.Forall₂ (Strand.Follow base S) frees fs) :
    AllFollow base S (together n frees) fun rules => together n (fs.map fun f => f rules) := by
  have hlength : ∀ rules, (fs.map fun f => f rules).length = frees.length := fun rules => by
    rw [List.length_map, h.length_eq]
  by_cases hmany : 1 < n ∧ 1 < frees.length
  · rw [together_of_many hmany, nextSchedule_eq]
    have hrest : ∀ c : Cascade σ, AllFollow base S (interleave n (c.schedules.headD []) frees)
        fun rules => interleave n (c.schedules.headD []) (fs.map fun f => f rules) :=
      fun c => interleave_follow n _ h
    refine .step (fun rules _ => ?_) (fun c => ⟨[], .done c.work, by simp⟩) hrest
    rw [together_of_many (by rwa [hlength]), nextSchedule_eq]
    rfl
  · rw [together_of_few hmany]
    exact (inTurn_follow h).congr fun rules _ => together_of_few (by rwa [hlength])

end Saving

end EntityMap
