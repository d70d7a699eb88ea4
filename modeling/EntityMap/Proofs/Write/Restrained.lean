import EntityMap.Proofs.Write.Unrestricted

/-!
# Permitted rows

What a cascade needs is what it sends where everything is permitted. Under
rules that permit less it sends the first of these events, all of them
permitted, and then it is refused an operation; or all that it needs is
permitted, and it does the same (`Saving.Keeps`).

One list of events says what is needed, whatever is permitted. So
`Saving.Follow` is about a computation under all rules of a set at once:
under each of them it takes the steps of the computation where everything
is permitted, from wherever the cascade may be by then, up to where it is
refused. There is one rule for each way to put computations together, and
the places where a table is asked for its permission are met one by one:
here those of single rows, and of rows that are released or deleted with
others.
-/

namespace EntityMap

namespace CascadeRules

/-- The mapping permits an operation on the entity of its table. -/
def Permits (rules : CascadeRules) (op : Operation) : Prop :=
  ∃ t, rules.catalog.table op.entity = .ok t ∧ op.table = t.table ∧
    t.permissions.allows op.kind = true

/-- The error says that the mapping does not permit an operation, and so it is. -/
def Refuses (rules : CascadeRules) : WriteError → Prop
  | .notPermitted entity kind =>
    ∃ t, rules.catalog.table entity = .ok t ∧ t.permissions.allows kind = false
  | _ => False

end CascadeRules

/-- An event asks for keys, or executes an operation that is permitted. -/
def Event.Permitted (rules : CascadeRules) : Event → Prop
  | .asked .. | .swept .. => True
  | .executed op _ _ | .generated op _ _ => rules.Permits op

/-- All peers of `base` in `S` permit an event. -/
def Event.PermittedBy (base : CascadeRules) (S : CascadeRules → Prop) (e : Event) : Prop :=
  ∀ rules : CascadeRules, rules.Peer base → S rules → e.Permitted rules

variable {σ : Type} [Executor σ] {γ δ α β : Type} {base : CascadeRules}
  {S : CascadeRules → Prop}

theorem Event.permittedBy_asked (entity : String) (filter : Filter) (s : Statement)
    (answer : Except ExecutionError RecordSet) :
    (Event.asked entity filter s answer).PermittedBy base S :=
  fun _ _ _ => trivial

/-- Two answers are the same, or they fail by the same error. -/
def Saving.Agree (failure? : γ → Option WriteError) (a a' : γ) : Prop :=
  a' = a ∨ ∃ e, failure? a = some e ∧ failure? a' = some e

/-- How a run from `c` keeps to what its rules permit, beside the run where everything is permitted,
which sends `needed`. -/
inductive Saving.Keeps (rules : CascadeRules) (failure? : γ → Option WriteError) (c : Cascade σ)
    (needed : List Event) (free run : γ × Cascade σ) : Prop
  | same (hanswer : Agree failure? free.1 run.1) (hcascade : run.2 = free.2)
      (hpermitted : ∀ e ∈ needed, e.Permitted rules)
  | refused {es rest : List Event} {e : WriteError} (hneeded : es ++ rest = needed)
      (hsends : UnitOfWork.Sends rules c.work es run.2.work)
      (hpermitted : ∀ e ∈ es, e.Permitted rules) (he : failure? run.1 = some e)
      (hrefused : rules.Refuses e)

/-- Under all rules in `S`, a computation takes the steps of `free`, and each of them permits what
is sent, up to where some of them refuse an operation. Behind that place `P` are the rules that
permit it. -/
inductive Saving.Follow (base : CascadeRules) (failure? : γ → Option WriteError) :
    (CascadeRules → Prop) → Saving σ γ → (CascadeRules → Saving σ γ) → Prop
  | done {S : CascadeRules → Prop} {a : γ} {m : CascadeRules → Saving σ γ}
      (hm : ∀ rules, S rules → ∃ a', m rules = done a' ∧ Agree failure? a a') :
      Follow base failure? S (done a) m
  | step {S : CascadeRules → Prop} {after : Cascade σ → Cascade σ}
      {free : Cascade σ → Saving σ γ} {m : CascadeRules → Saving σ γ}
      {rest : CascadeRules → Cascade σ → Saving σ γ}
      (hm : ∀ rules, S rules → m rules = step after (rest rules))
      (hstep : ∀ c, ∃ es, UnitOfWork.Sends base c.work es (after c).work ∧
        ∀ e ∈ es, ∀ rules, S rules → e.Permitted rules)
      (hrest : ∀ c, Follow base failure? S (free c) fun rules => rest rules c) :
      Follow base failure? S (step after free) m
  | refused {S P : CascadeRules → Prop} {free : Saving σ γ} {m : CascadeRules → Saving σ γ}
      (hrefused : ∀ rules, S rules → ¬P rules →
        ∃ a e, m rules = Saving.done a ∧ failure? a = some e ∧ rules.Refuses e)
      (h : Follow base failure? (fun rules => S rules ∧ P rules) free m) :
      Follow base failure? S free m

namespace Saving.Follow

variable {failure? : γ → Option WriteError} {failure?' : δ → Option WriteError}
  {free : Saving σ γ} {m m' : CascadeRules → Saving σ γ}

theorem mono {S' : CascadeRules → Prop} (h : Follow base failure? S free m)
    (himp : ∀ rules, S' rules → S rules) : Follow base failure? S' free m := by
  induction h generalizing S' with
  | done hm => exact .done fun rules hS => hm rules (himp rules hS)
  | step hm hstep _ ih =>
      refine .step (fun rules hS => hm rules (himp rules hS)) (fun c => ?_) fun c => ih c himp
      obtain ⟨es, hsends, hpermitted⟩ := hstep c
      exact ⟨es, hsends, fun e he rules hS => hpermitted e he rules (himp rules hS)⟩
  | refused hrefused _ ih =>
      exact .refused (fun rules hS hP => hrefused rules (himp rules hS) hP)
        (ih fun rules hS => ⟨himp rules hS.1, hS.2⟩)

theorem congr (h : Follow base failure? S free m') (hm : ∀ rules, S rules → m rules = m' rules) :
    Follow base failure? S free m := by
  induction h generalizing m with
  | done hm' =>
      refine .done fun rules hS => ?_
      rw [hm rules hS]
      exact hm' rules hS
  | step hm' hstep hrest _ =>
      exact .step (fun rules hS => (hm rules hS).trans (hm' rules hS)) hstep hrest
  | refused hrefused _ ih =>
      refine .refused (fun rules hS hP => ?_) (ih fun rules hS => hm rules hS.1)
      rw [hm rules hS]
      exact hrefused rules hS hP

/-- What is the same under all rules. -/
theorem of_does (h : Saving.Does base free fun _ es => ∀ e ∈ es, ∀ rules, S rules →
    e.Permitted rules) (hm : ∀ rules, S rules → m rules = free) :
    Follow base failure? S free m := by
  induction free generalizing m with
  | done a => exact .done fun rules hS => ⟨a, hm rules hS, .inl rfl⟩
  | step after free ih =>
      have hrest : ∀ c, Follow base failure? S (free c) fun _ => free c := fun c => by
        obtain ⟨es, -, hrest⟩ := h c
        exact ih c (hrest.mono fun _ es' hpermitted e he =>
          hpermitted e (List.mem_append_right es he)) fun _ _ => rfl
      refine .step hm (fun c => ?_) hrest
      obtain ⟨es, hsends, hlater⟩ := h c
      obtain ⟨es', -, hpermitted⟩ := hlater.run (after c)
      exact ⟨es, hsends, fun e he => hpermitted e (List.mem_append_left es' he)⟩

/-- A refusal is handed on, and so is any other failure; else the rest is met with the same
answer. -/
theorem bind {freeRest : γ → Saving σ δ} {f : CascadeRules → γ → Saving σ δ}
    (hm : Follow base failure? S free m) (hfree : Lockstep.HandsOn failure? failure?' freeRest)
    (hfail : ∀ rules, Lockstep.HandsOn failure? failure?' (f rules))
    (hf : ∀ a, Follow base failure?' S (freeRest a) fun rules => f rules a) :
    Follow base failure?' S (free >>= freeRest) fun rules => m rules >>= f rules := by
  induction hm with
  | @done S a m hm =>
      show Follow base failure?' S (freeRest a) _
      cases ha : failure? a with
      | none =>
          refine (hf a).congr fun rules hS => ?_
          obtain ⟨a', hrun, rfl | ⟨e, he, -⟩⟩ := hm rules hS
          · rw [hrun]
            rfl
          · rw [ha] at he
            cases he
      | some e =>
          obtain ⟨b, hb, hbfail⟩ := hfree a e ha
          rw [hb]
          refine .done fun rules hS => ?_
          obtain ⟨a', hrun, hagree⟩ := hm rules hS
          have ha' : failure? a' = some e := by
            obtain rfl | ⟨e', he, he'⟩ := hagree
            · exact ha
            · rw [he'.trans (he.symm.trans ha)]
          obtain ⟨b', hb', hbfail'⟩ := hfail rules a' e ha'
          exact ⟨b', by rw [hrun]; exact hb', .inr ⟨e, hbfail, hbfail'⟩⟩
  | @step S after free m rest hm hstep _ ih =>
      have hrest : ∀ c, Follow base failure?' S (free c >>= freeRest)
          fun rules => rest rules c >>= f rules := fun c => ih c hf
      refine .step (fun rules hS => ?_) hstep hrest
      rw [hm rules hS]
      rfl
  | @refused S P free m hrefused _ ih =>
      refine .refused (P := P) (fun rules hS hP => ?_) (ih fun a => (hf a).mono fun _ hS => hS.1)
      obtain ⟨a, e, hrun, he, hrefuses⟩ := hrefused rules hS hP
      obtain ⟨b, hb, hbfail⟩ := hfail rules a e he
      exact ⟨b, e, by rw [hrun]; exact hb, hbfail, hrefuses⟩

/-- What only rearranges the answer of a computation. -/
theorem map {f : γ → δ} (hm : Follow base failure? S free m)
    (hf : ∀ a, failure?' (f a) = failure? a) :
    Follow base failure?' S (free >>= fun a => Pure.pure (f a)) fun rules =>
      m rules >>= fun a => Pure.pure (f a) :=
  hm.bind (fun a _ he => ⟨f a, rfl, (hf a).trans he⟩)
    (fun _ a _ he => ⟨f a, rfl, (hf a).trans he⟩)
    fun a => .done fun _ _ => ⟨f a, rfl, .inl rfl⟩

/-- Behind a computation that leaves something as it ends. -/
theorem onwardWith {free : Saving σ (Except WriteError α × γ)}
    {m : CascadeRules → Saving σ (Except WriteError α × γ)} {stop : γ → δ}
    {stops : CascadeRules → γ → δ} {go : γ → α → Saving σ (Except WriteError β × δ)}
    {gos : CascadeRules → γ → α → Saving σ (Except WriteError β × δ)}
    (hm : Follow base (fun saved => Writing.failure? saved.1) S free m)
    (hgo : ∀ b a, Follow base (fun saved => Writing.failure? saved.1) S (go b a) fun rules =>
      gos rules b a) :
    Follow base (fun saved => Writing.failure? saved.1) S (free >>= onwardWith stop go) fun rules =>
      m rules >>= Saving.onwardWith (stops rules) (gos rules) := by
  refine hm.bind (fun saved e he => exists_onward_eq (stop saved.2) (go saved.2) he)
    (fun rules saved e he => exists_onward_eq (stops rules saved.2) (gos rules saved.2) he) ?_
  rintro ⟨e | a, b⟩
  · exact .done fun _ _ => ⟨_, rfl, .inr ⟨e, rfl, rfl⟩⟩
  · exact hgo b a

/-- Runs without a break are among those that are spoken of. -/
theorem run (h : Follow base failure? S free m) (hS : ∀ rules, S rules → rules.Peer base)
    (c : Cascade σ) : ∃ needed, UnitOfWork.Sends base c.work needed (free.run c).2.work ∧
      ∀ rules, S rules → Keeps rules failure? c needed (free.run c) ((m rules).run c) := by
  induction h generalizing c with
  | @done S a m hm =>
      refine ⟨[], .done c.work, fun rules hrules => ?_⟩
      obtain ⟨a', hrun, hagree⟩ := hm rules hrules
      rw [hrun]
      exact .same hagree rfl (by simp)
  | @step S after free m rest hm hstep _ ih =>
      obtain ⟨es, hsends, hpermitted⟩ := hstep c
      obtain ⟨needed, hneeded, hkeeps⟩ := ih c hS (after c)
      refine ⟨es ++ needed, hsends.trans hneeded, fun rules hrules => ?_⟩
      have hpermitted : ∀ e ∈ es, e.Permitted rules := fun e he => hpermitted e he rules hrules
      rw [hm rules hrules]
      cases hkeeps rules hrules with
      | same hanswer hcascade hpermitted' =>
          exact .same hanswer hcascade (List.forall_mem_append.mpr ⟨hpermitted, hpermitted'⟩)
      | @refused es' rest e hfirst hsends' hpermitted' he hrefused =>
          have hfirst : (es ++ es') ++ rest = es ++ needed := by
            rw [List.append_assoc, hfirst]
          exact .refused hfirst ((hsends.of_peer (hS rules hrules)).trans hsends')
            (List.forall_mem_append.mpr ⟨hpermitted, hpermitted'⟩) he hrefused
  | @refused S P free m hrefused _ ih =>
      obtain ⟨needed, hsends, hkeeps⟩ := ih (fun rules hrules => hS rules hrules.1) c
      refine ⟨needed, hsends, fun rules hrules => ?_⟩
      by_cases hP : P rules
      · exact hkeeps rules ⟨hrules, hP⟩
      · obtain ⟨a, e, hrun, he, hrefuses⟩ := hrefused rules hrules hP
        rw [hrun]
        exact .refused (List.nil_append needed) (.done c.work) (by simp) he hrefuses

end Saving.Follow

/-- All peers of `base` in `S` follow the computation where everything is permitted. -/
def Saving.Restrained (base : CascadeRules) (S : CascadeRules → Prop)
    (failure? : γ → Option WriteError) (m : CascadeRules → Saving σ γ) : Prop :=
  Follow base failure? (fun rules => rules.Peer base ∧ S rules) (m base.unrestricted) m

namespace Saving.Restrained

variable {failure? : γ → Option WriteError} {failure?' : δ → Option WriteError}
  {m m' : CascadeRules → Saving σ γ}

/-- From every cascade, what a computation needs is one list of events under all peers of `base`,
and those in `S` keep to what they permit. -/
theorem run (h : Restrained base S failure? m) (c : Cascade σ) : ∃ needed,
    UnitOfWork.Sends base c.work needed ((m base.unrestricted).run c).2.work ∧
    ∀ rules : CascadeRules, rules.Peer base → S rules →
      Keeps rules failure? c needed ((m base.unrestricted).run c) ((m rules).run c) := by
  obtain ⟨needed, hsends, hkeeps⟩ := Follow.run h (fun _ hS => hS.1) c
  exact ⟨needed, hsends, fun rules hpeer hS => hkeeps rules ⟨hpeer, hS⟩⟩

theorem congr (h : Restrained base S failure? m')
    (hm : ∀ rules : CascadeRules, rules.Peer base → m rules = m' rules) :
    Restrained base S failure? m := by
  unfold Restrained
  rw [hm _ .of_unrestricted]
  exact Follow.congr h fun rules hS => hm rules hS.1

/-- What does not ask what is permitted. -/
theorem same (hm : ∀ rules : CascadeRules, m rules.unrestricted = m rules)
    (h : Saving.Does base (m base) fun _ es => ∀ e ∈ es, e.PermittedBy base S) :
    Restrained base S failure? m := by
  unfold Restrained
  rw [hm]
  refine Follow.of_does (h.mono fun _ es hpermitted e he rules hS =>
    hpermitted e he rules hS.1 hS.2) fun rules hS => ?_
  rw [← hm rules, hS.1, hm]

theorem pure (a : γ) : Restrained base S failure? fun _ => (pure a : Saving σ γ) :=
  .same (fun _ => rfl) (.pure (by simp))

/-- Answers that fail by one error. -/
theorem fail {a : CascadeRules → γ} {e : WriteError} (ha : ∀ rules, failure? (a rules) = some e) :
    Restrained base S failure? fun rules => (Pure.pure (a rules) : Saving σ γ) :=
  Follow.done fun rules _ => ⟨a rules, rfl, .inr ⟨e, ha _, ha rules⟩⟩

theorem bind {f : CascadeRules → γ → Saving σ δ} (hm : Restrained base S failure? m)
    (hfail : ∀ rules, Lockstep.HandsOn failure? failure?' (f rules))
    (hf : ∀ a, Restrained base S failure?' fun rules => f rules a) :
    Restrained base S failure?' fun rules => m rules >>= f rules :=
  Follow.bind hm (hfail _) hfail hf

/-- What only rearranges the answer of a computation. -/
theorem map {f : γ → δ} (hm : Restrained base S failure? m)
    (hf : ∀ a, failure?' (f a) = failure? a) :
    Restrained base S failure?' fun rules => m rules >>= fun a => Pure.pure (f a) :=
  Follow.map hm hf

/-- Behind a step of a row. -/
theorem onward {m : CascadeRules → Saving σ (Except WriteError α)} {stop : CascadeRules → δ}
    {go : CascadeRules → α → Saving σ (Except WriteError β × δ)}
    (hm : Restrained base S Writing.failure? m)
    (hgo : ∀ a, Restrained base S (fun saved => Writing.failure? saved.1) fun rules =>
      go rules a) :
    Restrained base S (fun saved => Writing.failure? saved.1) fun rules =>
      m rules >>= onward (stop rules) (go rules) := by
  refine hm.bind (fun rules answer e he => exists_onward_eq (stop rules) (go rules) he) ?_
  rintro (e | a)
  · exact .fail fun _ => rfl
  · exact hgo a

/-- Behind a step of a record. -/
theorem onwardWith {m : CascadeRules → Saving σ (Except WriteError α × γ)}
    {stop : CascadeRules → γ → δ} {go : CascadeRules → γ → α → Saving σ (Except WriteError β × δ)}
    (hm : Restrained base S (fun saved => Writing.failure? saved.1) m)
    (hgo : ∀ b a, Restrained base S (fun saved => Writing.failure? saved.1) fun rules =>
      go rules b a) :
    Restrained base S (fun saved => Writing.failure? saved.1) fun rules =>
      m rules >>= onwardWith (stop rules) (go rules) :=
  Follow.onwardWith hm hgo

end Saving.Restrained

/-- The same of a computation that writes. -/
def Writing.Restrained (base : CascadeRules) (S : CascadeRules → Prop)
    (m : CascadeRules → Writing σ α) : Prop :=
  Saving.Restrained base S failure? fun rules => (m rules).run

namespace Writing.Restrained

variable {m : CascadeRules → Writing σ α}

theorem same (hm : ∀ rules : CascadeRules, m rules.unrestricted = m rules)
    (h : Only base (m base) (·.PermittedBy base S)) : Restrained base S m :=
  Saving.Restrained.same hm h

theorem pure (a : α) : Restrained base S fun _ => (pure a : Writing σ α) :=
  .same (fun _ => rfl) .pure

theorem throw (e : WriteError) : Restrained base S fun _ => (throw e : Writing σ α) :=
  .same (fun _ => rfl) .throw

theorem throw_bind {e : WriteError} {f : CascadeRules → α → Writing σ β} :
    Restrained base S fun rules => (MonadExcept.throw e >>= f rules : Writing σ β) :=
  throw e

theorem bind {f : CascadeRules → α → Writing σ β} (hm : Restrained base S m)
    (hf : ∀ a, Restrained base S fun rules => f rules a) :
    Restrained base S fun rules => m rules >>= f rules := by
  have hcont : ∀ answer, Saving.Restrained base S failure? fun rules =>
      (ExceptT.bindCont (f rules) answer : Saving σ (Except WriteError β)) := by
    rintro (e | a)
    · exact .pure _
    · exact hf a
  exact Saving.Restrained.bind hm (fun rules => handsOn_bindCont (f rules)) hcont

theorem get_bind {f : CascadeRules → Cascade σ → Writing σ α}
    (h : ∀ c, Restrained base S fun rules => f rules c) :
    Restrained base S fun rules => get >>= f rules :=
  Saving.Follow.step (fun _ _ => rfl) (fun c => ⟨[], .done c.work, by simp⟩) h

/-- A choice that peers make alike. -/
theorem ite {p : CascadeRules → Bool} {m' : CascadeRules → Writing σ α}
    (hp : ∀ rules : CascadeRules, rules.Peer base → p rules = p base)
    (hm : Restrained base S m) (hm' : Restrained base S m') :
    Restrained base S fun rules => if p rules then m rules else m' rules := by
  cases hchoice : p base with
  | true => exact Saving.Restrained.congr hm fun rules hpeer => by simp [hp rules hpeer, hchoice]
  | false => exact Saving.Restrained.congr hm' fun rules hpeer => by simp [hp rules hpeer, hchoice]

theorem forM {f : CascadeRules → α → Writing σ Unit}
    (h : ∀ a, Restrained base S fun rules => f rules a) (l : List α) :
    Restrained base S fun rules => l.forM (f rules) := by
  induction l with
  | nil => exact .pure ()
  | cons a rest ih => exact (h a).bind fun _ => ih

/-- What peers are answered alike without asking. -/
theorem ofExcept_bind {answer : CascadeRules → Except WriteError β} {answered : Except WriteError γ}
    {view : CascadeRules → γ → β} {f : CascadeRules → β → Writing σ α}
    (hanswer : ∀ rules : CascadeRules, rules.Peer base →
      answer rules = answered.map (view rules))
    (hf : ∀ a, answered = .ok a → Restrained base S fun rules => f rules (view rules a)) :
    Restrained base S fun rules => Writing.ofExcept (answer rules) >>= f rules := by
  cases answered with
  | error e =>
      have hthrow : Restrained base S fun _ => (MonadExcept.throw e : Writing σ α) := throw e
      refine Saving.Restrained.congr hthrow fun rules hpeer => ?_
      dsimp only
      rw [hanswer rules hpeer]
      rfl
  | ok a =>
      refine Saving.Restrained.congr (hf a rfl) fun rules hpeer => ?_
      dsimp only
      rw [hanswer rules hpeer]
      rfl

/-- The place where a table is asked for its permission. -/
theorem permit_bind {t : Table} {kind : OperationKind} {f : CascadeRules → Unit → Writing σ α}
    (ht : base.catalog.table t.entity = .ok t)
    (hf : Restrained base (fun rules => S rules ∧ (rules.grants t.entity).allows kind = true)
      fun rules => f rules ()) :
    Restrained base S fun rules =>
      Writing.ofExcept ((rules.restrict t).permit kind) >>= f rules := by
  have hfree : (base.unrestricted.restrict t).permit kind = .ok () := by
    rw [CascadeRules.restrict_of_unrestricted, Table.permit_unrestricted]
  unfold Restrained Saving.Restrained
  dsimp only
  rw [hfree]
  refine Saving.Follow.refused (P := fun rules => (rules.grants t.entity).allows kind = true)
    (fun rules hS hP => ?_) ?_
  · have htable : rules.catalog.table t.entity = .ok (rules.restrict t) := hS.1.table_eq_ok ht
    rw [Bool.not_eq_true] at hP
    have hdenied : (rules.restrict t).permit kind = .error (.notPermitted t.entity kind) := by
      rw [Table.permit_eq]
      exact if_neg (by rw [Bool.not_eq_true]; exact hP)
    rw [hdenied]
    exact ⟨_, _, rfl, rfl, rules.restrict t, htable, hP⟩
  · refine (Saving.Follow.mono hf fun rules hS => ⟨hS.1.1, hS.1.2, hS.2⟩).congr fun rules hS => ?_
    have hallowed : (rules.restrict t).permit kind = .ok () := by
      rw [Table.permit_eq]
      exact if_pos hS.2
    dsimp only
    rw [hallowed]
    rfl

end Writing.Restrained

namespace Cascade

open Writing

/-! ## Rows -/

/-- An operation that is permitted on its table. -/
theorem permits_restrict {t : Table} {op : Operation} {rules : CascadeRules}
    (ht : base.catalog.table t.entity = .ok t) (hpeer : rules.Peer base)
    (hallowed : (rules.grants t.entity).allows op.kind = true) (hentity : op.entity = t.entity)
    (htable : op.table = t.table) : rules.Permits op :=
  ⟨rules.restrict t, hentity ▸ hpeer.table_eq_ok ht, htable, hallowed⟩

theorem executeKeyed_restrained {t : Table} {op : Operation} {key : Value} {keyColumn : String}
    (ht : base.catalog.table t.entity = .ok t) (hentity : op.entity = t.entity)
    (htable : op.table = t.table) (hkey : op.key = some ⟨keyColumn, key⟩)
    (hallowed : ∀ rules, S rules → (rules.grants t.entity).allows op.kind = true) :
    Restrained base S fun rules => (executeKeyed (rules.restrict t) op key : Writing σ Unit) :=
  .same (fun _ => rfl) (executeKeyed_only hentity hkey fun _ _ _ rules hpeer hS =>
    permits_restrict ht hpeer (hallowed rules hS) hentity htable)

section

variable {t : Table} (ht : base.catalog.table t.entity = .ok t)

include ht

theorem updateRow_restrained (keyColumn : Column) (key : Value) (values aside : Named Value) :
    Restrained base S fun rules =>
      (updateRow rules (rules.restrict t) keyColumn key values aside : Writing σ Value) := by
  simp only [updateRow_eq]
  refine .permit_bind ht (.same (fun rules => ?_) ?_)
  · simp only [CascadeRules.restrict_of_unrestricted, updateAssignment_unrestricted,
      changeRow_unrestricted]
    rfl
  · refine (collectAssignments_asks (updateAssignment_asks _ values aside) _).only_bind
      Event.permittedBy_asked fun assignments _ _ => changeRow_only Event.permittedBy_asked ?_
    exact fun _ _ _ rules hpeer hS => permits_restrict ht hpeer hS.2 rfl rfl

theorem insertRow_restrained (keyColumn : Column) (key : Value) (values aside : Named Value) :
    Restrained base S fun rules =>
      (insertRow rules (rules.restrict t) keyColumn key values aside : Writing σ Value) := by
  simp only [insertRow_eq]
  refine .permit_bind ht (.same (fun rules => ?_) ?_)
  · simp only [CascadeRules.restrict_of_unrestricted, insertAssignment_unrestricted]
    rfl
  · split
    · exact .throw_bind
    · refine (collectAssignments_asks (insertAssignment_asks _ values aside) _).only_bind
        Event.permittedBy_asked fun assignments _ _ => addRow_only ?_ ?_
      · exact fun _ _ _ _ rules hpeer hS => permits_restrict ht hpeer hS.2 rfl rfl
      · exact fun _ _ _ _ rules hpeer hS => permits_restrict ht hpeer hS.2 rfl rfl

theorem writeRow_restrained (keyColumn : Column) (values aside : Named Value) :
    Restrained base S fun rules =>
      (writeRow rules (rules.restrict t) keyColumn values aside : Writing σ (Value × Bool)) := by
  unfold writeRow
  refine .get_bind fun c => .ite (fun rules hpeer => ?_) ?_ ?_
  · unfold routesToInsert
    rw [hpeer.identityInsert_eq]
    rfl
  · exact (insertRow_restrained ht keyColumn _ values aside).bind fun _ => .pure _
  · exact (updateRow_restrained ht keyColumn _ values aside).bind fun _ => .pure _

end

theorem patch_restrained (entity : String) (key : Value) (changes : Named Value) :
    Restrained base S fun rules => (patch rules entity key changes : Writing σ Unit) := by
  unfold patch
  refine .ofExcept_bind (fun rules hpeer => hpeer.keyedTable_eq entity) fun ⟨t, keyColumn⟩ ht => ?_
  have ht := CascadeRules.table_entity_of_keyedTable ht
  refine .permit_bind ht (.same (fun rules => ?_) ?_)
  · simp only [CascadeRules.restrict_of_unrestricted, patchAssignment_unrestricted]
    rfl
  · dsimp only
    split
    · exact .throw_bind
    · split
      · refine (Asks.mapM (fun _ => patchAssignment_asks _ _ _) changes).only_bind
          Event.permittedBy_asked fun assignments _ _ => executeKeyed_only rfl rfl ?_
        exact fun _ _ _ rules hpeer hS => permits_restrict ht hpeer hS.2 rfl rfl
      · exact .pure

/-! ## Released rows -/

theorem selectKeys_restrained (entity : String) (filter : Filter) :
    Restrained base S fun rules => (selectKeys rules entity filter : Writing σ (List Value)) :=
  .same (fun rules => by rw [selectKeys_unrestricted])
    ((selectKeys_asks entity filter).only Event.permittedBy_asked)

section

variable {delete : CascadeRules → String → Value → Writing σ Unit}
  (hdelete : ∀ entity key, Restrained base S fun rules => delete rules entity key)

include hdelete

theorem release_restrained {o : Ownership} (ho : base.catalog.table o.child.entity = .ok o.child)
    (key : Value) :
    Restrained base S fun rules => release (rules.restrictChild o) (delete rules) key := by
  have hrelease : ∀ rules : CascadeRules, release (rules.restrictChild o) (delete rules) key =
      if !o.foreignKey.nullable then delete rules o.child.entity key
      else Writing.ofExcept ((rules.restrict o.child).permit .detach) >>= fun _ =>
        executeKeyed (rules.restrict o.child) (o.detachment key) key :=
    fun _ => rfl
  simp only [hrelease]
  split
  · exact hdelete o.child.entity key
  · exact .permit_bind ho (executeKeyed_restrained ho rfl rfl rfl fun _ hS => hS.2)

theorem releaseOrphansBy_restrained {o : Ownership}
    (ho : base.catalog.table o.child.entity = .ok o.child) (parentKey : Value)
    (kept : List Value) :
    Restrained base S fun rules =>
      releaseOrphansBy rules (delete rules) (rules.restrictChild o) parentKey kept :=
  .bind (selectKeys_restrained o.child.entity (o.childrenOf parentKey)) fun stored =>
    .forM (release_restrained hdelete ho) (stored.filter fun key => !kept.contains key)

theorem releaseChildren_restrained (t : Table) (key : Value) (r : Relationship) :
    Restrained base S fun rules =>
      releaseChildren rules (delete rules) (rules.restrict t) key r := by
  simp only [releaseChildren_eq]
  refine .ofExcept_bind (fun rules hpeer => hpeer.ownership_eq r) fun o ho => ?_
  exact releaseOrphansBy_restrained hdelete
    (CascadeRules.table_entity_of_keyedTable (CascadeRules.keyedTable_child ho)) key
    (o.selfKey t key)

end

theorem deleteBy_restrained {delete : CascadeRules → String → Value → Writing σ Unit}
    (hdelete : ∀ S entity key, Restrained base S fun rules => delete rules entity key)
    (entity : String) (key : Value) :
    Restrained base S fun rules => deleteBy rules (delete rules) entity key := by
  unfold deleteBy
  refine .ofExcept_bind (fun rules hpeer => hpeer.keyedTable_eq entity) fun ⟨t, keyColumn⟩ ht => ?_
  have ht := CascadeRules.table_entity_of_keyedTable ht
  refine .permit_bind ht ?_
  dsimp only
  split
  · exact .throw_bind
  · refine .bind (.forM (releaseChildren_restrained (hdelete _) t key) _) fun _ => ?_
    exact executeKeyed_restrained ht rfl rfl rfl fun _ hS => hS.2

/-- Deletions are restrained, however deep they are nested. -/
theorem deleteRow_restrained (depth : Nat) (entity : String) (key : Value) :
    Restrained base S fun rules => (deleteRow rules depth entity key : Writing σ Unit) := by
  induction depth generalizing S entity key with
  | zero => exact .throw _
  | succ depth ih =>
      simp only [deleteRow_succ]
      exact deleteBy_restrained (fun _ entity key => ih entity key) entity key

/-- Peers nest deletions equally deep. -/
theorem restrained_of_depth {m : CascadeRules → Nat → Writing σ α}
    (h : Restrained base S fun rules => m rules base.depth) :
    Restrained base S fun rules => m rules rules.depth :=
  Saving.Restrained.congr h fun rules hpeer => by
    dsimp only
    rw [hpeer.depth_eq]

theorem delete_restrained (r : Record) :
    Restrained base S fun rules => (delete rules r : Writing σ Unit) := by
  unfold delete
  refine .ofExcept_bind (fun rules hpeer => hpeer.keyedTable_eq r.entity) fun ⟨_, keyColumn⟩ _ => ?_
  exact restrained_of_depth (m := fun rules depth => deleteRow rules depth r.entity _)
    (deleteRow_restrained base.depth r.entity _)

theorem reconcile_restrained {o : Ownership}
    (ho : base.catalog.table o.child.entity = .ok o.child) (parentKey : Value) (isNew : Bool)
    (kept : List Value) :
    Saving.Restrained base S failure? fun rules =>
      (reconcile rules (rules.restrictChild o) parentKey isNew kept : Saving σ _) := by
  cases isNew with
  | true => exact .pure _
  | false =>
      exact restrained_of_depth (m := fun rules depth =>
          releaseOrphansBy rules (deleteRow rules depth) (rules.restrictChild o) parentKey kept)
        (releaseOrphansBy_restrained (deleteRow_restrained base.depth) ho parentKey kept)

end Cascade

end EntityMap
