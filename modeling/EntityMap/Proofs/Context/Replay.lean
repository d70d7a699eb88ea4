import EntityMap.Proofs.Context.Drawn

/-!
# Computations that repeat themselves

Run once more in the context that it has left, a growing computation
comes to the same answer or the same error, and adds nothing
(`Growing.Repeats`). To show so of a computation by its parts, more is
needed: a part that has answered has to answer the same in every context
that the later parts lead to, while the last part, which may have failed,
is only run where it has left off (`Growing.Replays`).

A walk that has come to its end finds all nodes, and one that has failed
finds them up to the member that the catalog does not have
(`Context.Sound.run_addSegments_of_error`).
-/

namespace EntityMap

namespace Growing

variable {ε ε' α β : Type}

/-- Once more, a computation comes to the same result and leaves the context as it is. -/
def Repeats (m : Growing ε α) (ctx : Context) : Prop :=
  m.run (m.run ctx).2 = m.run ctx

/-- What a computation has answered it answers in each context that has grown from the one that it
has left, and an error once more in that one. -/
structure Replays (m : Growing ε α) (ctx : Context) : Prop where
  grows : ctx.Grows (m.run ctx).2
  sound : (m.run ctx).2.Sound
  ok : ∀ {a ctx'}, m.run ctx = (.ok a, ctx') → ∀ {ctx''}, ctx'.Grows ctx'' →
    m.run ctx'' = (.ok a, ctx'')
  error : ∀ {e ctx'}, m.run ctx = (.error e, ctx') → m.run ctx' = (.error e, ctx')

namespace Replays

variable {ctx : Context} {m : Growing ε α} {Q : α → Context → Prop}

theorem repeats (h : m.Replays ctx) : m.Repeats ctx := by
  unfold Repeats
  rcases hrun : m.run ctx with ⟨e | a, ctx'⟩
  · exact h.error hrun
  · exact h.ok hrun (Context.Grows.refl ctx')

theorem pure (hsound : ctx.Sound) (a : α) : Replays (pure a : Growing ε α) ctx where
  grows := Context.Grows.refl ctx
  sound := hsound
  ok hrun := by
    cases hrun
    exact fun _ => rfl
  error hrun := by cases hrun

theorem throw (hsound : ctx.Sound) (e : ε) : Replays (throw e : Growing ε α) ctx where
  grows := Context.Grows.refl ctx
  sound := hsound
  ok hrun := by cases hrun
  error hrun := by
    cases hrun
    rfl

/-- What is seen in a context has to be seen in those that grow from it. -/
theorem look {f : Context → Except ε α} (hsound : ctx.Sound)
    (h : ∀ a, f ctx = .ok a → ∀ ctx', ctx.Grows ctx' → f ctx' = .ok a) :
    Replays (Growing.look f) ctx where
  grows := Context.Grows.refl ctx
  sound := hsound
  ok hrun _ hgrows := by
    obtain ⟨hok, rfl⟩ := Prod.mk.inj hrun
    rw [run_look, h _ hok _ hgrows]
  error hrun := by
    obtain ⟨-, rfl⟩ := Prod.mk.inj hrun
    exact hrun

/-- A computation that fails, and where it has failed fails once more. -/
theorem of_error {ctx' : Context} {e : ε} (hrun : m.run ctx = (.error e, ctx'))
    (hgrows : ctx.Grows ctx') (hsound : ctx'.Sound) (hagain : m.run ctx' = (.error e, ctx')) :
    m.Replays ctx := by
  refine ⟨by rwa [hrun], by rwa [hrun], fun h => ?_, fun h => ?_⟩
  · cases hrun.symm.trans h
  · cases hrun.symm.trans h
    exact hagain

/-- A computation that goes on as another one, now and later. -/
theorem of_later {m' : Growing ε α} {ctx₁ : Context} (h : m'.Replays ctx₁)
    (hgrows : ctx.Grows ctx₁) (hrun : m.run ctx = m'.run ctx₁)
    (hlater : ∀ ctx', ctx₁.Grows ctx' → m.run ctx' = m'.run ctx') : m.Replays ctx where
  grows := by
    rw [hrun]
    exact hgrows.trans h.grows
  sound := by
    rw [hrun]
    exact h.sound
  ok {a ctx'} hok ctx'' hgrows' := by
    rw [hrun] at hok
    have hbetween := h.grows
    rw [hok] at hbetween
    rw [hlater _ (hbetween.trans hgrows')]
    exact h.ok hok hgrows'
  error {e ctx'} herror := by
    rw [hrun] at herror
    have hbetween := h.grows
    rw [herror] at hbetween
    rw [hlater _ hbetween]
    exact h.error herror

/-- What follows starts in the context that is left, and knows what has led there. -/
theorem bind_of {f : α → Growing ε β} (hm : m.Replays ctx) (hleads : m.Leads ctx Q)
    (hf : ∀ a ctx', ctx.Grows ctx' → ctx'.Sound → Q a ctx' → (f a).Replays ctx') :
    (m >>= f).Replays ctx := by
  obtain ⟨hgrows, hsound, hok, herror⟩ := hm
  have hanswer := hleads.answer
  rcases hrun : m.run ctx with ⟨e | a, ctx₁⟩
  · rw [hrun] at hgrows hsound
    exact of_error (by rw [run_bind, hrun]) hgrows hsound (by rw [run_bind, herror hrun])
  · rw [hrun] at hgrows hsound hanswer
    refine (hf a ctx₁ hgrows hsound (hanswer a rfl)).of_later hgrows (by rw [run_bind, hrun]) ?_
    intro ctx' hlater
    rw [run_bind, hok hrun hlater]

theorem bind {f : α → Growing ε β} (hm : m.Replays ctx)
    (hf : ∀ a ctx', ctx.Grows ctx' → ctx'.Sound → (f a).Replays ctx') : (m >>= f).Replays ctx :=
  hm.bind_of (Q := fun _ _ => True) ⟨hm.grows, fun _ _ => trivial⟩
    fun a ctx' hgrows hsound _ => hf a ctx' hgrows hsound

/-- Of what is only seen, no more has to last than what is made of it. -/
theorem look_bind {f : Context → Except ε α} {g : α → Growing ε β} (hsound : ctx.Sound)
    (hlast : ∀ a, f ctx = .ok a → ∀ ctx', ctx.Grows ctx' → ∃ a', f ctx' = .ok a' ∧ g a' = g a)
    (hg : ∀ a, f ctx = .ok a → (g a).Replays ctx) : (Growing.look f >>= g).Replays ctx := by
  cases hf : f ctx with
  | error e =>
      have hbind : (Growing.look f >>= g).run ctx = (.error e, ctx) := by
        rw [run_look_bind, hf]
      exact of_error hbind (Context.Grows.refl ctx) hsound hbind
  | ok a =>
      have hlater : ∀ ctx', ctx.Grows ctx' →
          (Growing.look f >>= g).run ctx' = (g a).run ctx' := by
        intro ctx' hgrows
        obtain ⟨a', ha', hsame⟩ := hlast a hf ctx' hgrows
        rw [run_look_bind, ha', ← hsame]
      have hrefl := Context.Grows.refl ctx
      exact (hg a hf).of_later hrefl (hlater ctx hrefl) hlater

theorem get_bind {g : Context → Growing ε β} (hlast : ∀ ctx', ctx.Grows ctx' → g ctx' = g ctx)
    (h : (g ctx).Replays ctx) : (MonadState.get >>= g).Replays ctx :=
  h.of_later (Context.Grows.refl ctx) rfl fun ctx' hgrows => by
    rw [run_get_bind, hlast ctx' hgrows]

theorem adapt {g : ε → ε'} (h : m.Replays ctx) : Replays (ExceptT.adapt g m) ctx := by
  obtain ⟨hgrows, hsound, hok, herror⟩ := h
  have hrunAdapt := run_adapt g m ctx
  rcases hrun : m.run ctx with ⟨e | a, ctx₁⟩
  · rw [hrun] at hgrows hsound hrunAdapt
    refine of_error hrunAdapt hgrows hsound ?_
    rw [run_adapt, herror hrun]
    rfl
  · rw [hrun] at hgrows hsound hrunAdapt
    refine (Replays.pure hsound a).of_later hgrows hrunAdapt fun ctx' hlater => ?_
    rw [run_adapt, hok hrun hlater]
    rfl

theorem map {f : α → β} (h : m.Replays ctx) : (f <$> m).Replays ctx := by
  rw [map_eq_pure_bind]
  exact h.bind fun a _ _ hsound => Replays.pure hsound (f a)

theorem foldlM {f : β → α → Growing ε β} {b : β} {l : List α} (hsound : ctx.Sound)
    (hstep : ∀ b a ctx', a ∈ l → ctx.Grows ctx' → ctx'.Sound → (f b a).Replays ctx') :
    (l.foldlM f b).Replays ctx := by
  induction l generalizing b ctx with
  | nil => exact Replays.pure hsound b
  | cons a rest ih =>
      rw [List.foldlM_cons]
      refine (hstep b a ctx (List.mem_cons_self ..) (Context.Grows.refl ctx) hsound).bind ?_
      exact fun b' ctx' hgrows hsound' => ih hsound' fun b a ctx'' ha hgrows' =>
        hstep b a ctx'' (List.mem_cons_of_mem _ ha) (hgrows.trans hgrows')

theorem mapM {f : α → Growing ε β} {l : List α} (hsound : ctx.Sound)
    (hstep : ∀ a ctx', a ∈ l → ctx.Grows ctx' → ctx'.Sound → (f a).Replays ctx') :
    (l.mapM f).Replays ctx := by
  induction l generalizing ctx with
  | nil => exact Replays.pure hsound []
  | cons a rest ih =>
      rw [List.mapM_cons]
      refine (hstep a ctx (List.mem_cons_self ..) (Context.Grows.refl ctx) hsound).bind ?_
      intro b ctx' hgrows hsound'
      refine (ih hsound' fun a ctx'' ha hgrows' =>
        hstep a ctx'' (List.mem_cons_of_mem _ ha) (hgrows.trans hgrows')).bind ?_
      exact fun bs ctx'' _ hsound'' => Replays.pure hsound'' (b :: bs)

end Replays

end Growing

/-! ## Along a path -/

namespace Context

open Growing

variable {ctx ctx' : Context} {i k start : Nat} {path : String} {segments : List String}
  {keys : List ChildKey} {n : Node} {e : ContextError}

/-- A walk that ends at a node starts at one. -/
theorem exists_node_of_descend? (hk : ctx.descend? start keys = some k)
    (hn : ∃ n, ctx.nodes[k]? = some n) : ∃ n, ctx.nodes[start]? = some n := by
  cases keys with
  | nil =>
      obtain rfl := Option.some.inj hk
      exact hn
  | cons key rest =>
      rw [descend?_cons] at hk
      obtain ⟨next, hnext, -⟩ := Option.bind_eq_some_iff.mp hk
      obtain ⟨n, hn, -⟩ := Option.bind_eq_some_iff.mp hnext
      exact ⟨n, hn⟩

/-- A walk over nodes that are there adds nothing. -/
theorem run_addSegments_of_descend? (hk : ctx.descend? i (segments.map .navigation) = some k) :
    (addSegments path i segments).run ctx = (.ok k, ctx) := by
  induction segments generalizing i with
  | nil =>
      obtain rfl := Option.some.inj hk
      rfl
  | cons member rest ih =>
      rw [List.map_cons, descend?_cons] at hk
      obtain ⟨next, hnext, hk⟩ := Option.bind_eq_some_iff.mp hk
      rw [Sound.run_addSegments_cons, hnext]
      exact ih hk

theorem run_addPath_of_reaches (hstart : ∃ n, ctx.nodes[start]? = some n)
    (h : ctx.Reaches start path i) : (addPath start path).run ctx = (.ok i, ctx) := by
  obtain ⟨n, hn⟩ := hstart
  obtain ⟨segments, hsegments, hi⟩ := h
  rw [run_addPath path hn, hsegments]
  exact run_addSegments_of_descend? hi

theorem run_addPath_of_none (path : String) (hn : ctx.nodes[start]? = none) :
    (addPath start path).run ctx = (.error (.nodeOutOfRange start), ctx) := by
  have hnode : ctx.node start = .error (.nodeOutOfRange start) := by
    rw [node, hn]
  unfold addPath
  rw [run_look_bind, hnode]

/-- A walk that has failed fails at the same member once more, behind the nodes that it has
added. -/
theorem Sound.run_addSegments_of_error (h : ctx.Sound) (hn : ctx.nodes[i]? = some n)
    (hrun : (addSegments path i segments).run ctx = (.error e, ctx')) :
    (addSegments path i segments).run ctx' = (.error e, ctx') := by
  induction segments generalizing ctx i n with
  | nil => cases hrun
  | cons member rest ih =>
      obtain ⟨t, ht, -⟩ := h.arena.table hn
      cases hr : t.relationship? member with
      | none =>
          have hunknown := h.run_addSegments_unknown path rest hn ht hr
          cases hunknown.symm.trans hrun
          exact hunknown
      | some r =>
          obtain ⟨next, ctx₁, hwalks⟩ := h.exists_walks hn ht hr
          obtain ⟨m, hm, -⟩ := hwalks.node
          rw [hwalks.run] at hrun
          have hleads : (addSegments path next rest).Leads ctx₁ _ := addSegments_leads next
          have hgrows := hleads.grows
          rw [hrun] at hgrows
          rw [run_addSegments_cons, hgrows.child? hwalks.child]
          exact ih hwalks.sound hm hrun

/-- A path is walked once more to where it has led, or to where it has failed. -/
theorem addPath_replays (hsound : ctx.Sound) (start : Nat) (path : String) :
    (addPath start path).Replays ctx := by
  have hleads : (addPath start path).Leads ctx _ := addPath_leads start path
  refine ⟨hleads.grows, addPath_keeps_sound start path ctx hsound, fun hrun _ hlater => ?_,
    fun {e ctx'} hrun => ?_⟩
  · have hgrows := hleads.grows
    obtain ⟨segments, hsegments, hi⟩ := hleads.answer _ (congrArg (·.1) hrun)
    rw [hrun] at hgrows hi
    have hstart : ∃ n, ctx.nodes[start]? = some n := by
      cases hn : ctx.nodes[start]? with
      | some n => exact ⟨n, rfl⟩
      | none => cases (run_addPath_of_none path hn).symm.trans hrun
    obtain ⟨n, hn⟩ := hstart
    obtain ⟨n', hn', -⟩ := (hgrows.trans hlater).node hn
    exact run_addPath_of_reaches ⟨n', hn'⟩ ⟨segments, hsegments, hlater.descend? hi⟩
  · cases hn : ctx.nodes[start]? with
    | none =>
        have hnone := run_addPath_of_none path hn
        cases hnone.symm.trans hrun
        exact hnone
    | some n =>
        have hgrows := hleads.grows
        rw [hrun] at hgrows
        obtain ⟨n', hn', -⟩ := hgrows.node hn
        rw [run_addPath path hn] at hrun
        rw [run_addPath path hn']
        cases hsegments : pathSegments path with
        | error fault =>
            rw [hsegments] at hrun
            cases hrun
            rfl
        | ok segments =>
            rw [hsegments] at hrun
            exact hsound.run_addSegments_of_error hn hrun

end Context

end EntityMap
