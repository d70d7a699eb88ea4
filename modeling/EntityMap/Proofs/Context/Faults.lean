import EntityMap.Proofs.Context.Drawn

/-!
# How growing computations fail

`Growing.Fails` bounds the errors of a computation from a context, with
one rule for each way to put computations together. What follows a
computation runs in the context that it leaves, so the rules also take
what it leads to (`Growing.Leads`).

Walks and the columns at their ends never fail with an index: all nodes
that they come to are there (`Context.addPath_fails`,
`Context.resolvePath_fails`).
-/

namespace EntityMap

namespace Growing

variable {ε ε' α β : Type}

/-- From a context, a computation fails with errors of one kind only. -/
def Fails (m : Growing ε α) (ctx : Context) (E : ε → Prop) : Prop :=
  ∀ e, (m.run ctx).1 = .error e → E e

namespace Fails

variable {ctx : Context} {m : Growing ε α} {E : ε → Prop} {Q : α → Context → Prop}

theorem pure (a : α) : Fails (pure a : Growing ε α) ctx E :=
  fun _ h => by cases h

theorem throw {e : ε} (h : E e) : Fails (throw e : Growing ε α) ctx E :=
  fun _ he => by cases he; exact h

theorem look {f : Context → Except ε α} (h : ∀ e, f ctx = .error e → E e) :
    Fails (Growing.look f) ctx E := h

theorem bind {f : α → Growing ε β} (hm : m.Fails ctx E) (hleads : m.Leads ctx Q)
    (hf : ∀ a ctx', ctx.Grows ctx' → Q a ctx' → (f a).Fails ctx' E) : (m >>= f).Fails ctx E := by
  intro e he
  rcases eq_error_of_run_bind he with he | ⟨a, ctx', hrun, he⟩
  · exact hm e he
  · obtain ⟨hgrows, hanswer⟩ := hleads
    rw [hrun] at hgrows hanswer
    exact hf a ctx' hgrows (hanswer a rfl) e he

theorem look_bind {f : Context → Except ε α} {g : α → Growing ε β}
    (h : ∀ e, f ctx = .error e → E e) (hg : ∀ a, f ctx = .ok a → (g a).Fails ctx E) :
    (Growing.look f >>= g).Fails ctx E := by
  intro e he
  rcases eq_error_of_run_bind he with he | ⟨a, ctx', hrun, he⟩
  · exact h e he
  · rw [run_look] at hrun
    obtain ⟨hok, rfl⟩ := Prod.mk.inj hrun
    exact hg a hok e he

theorem get_bind {g : Context → Growing ε β} (h : (g ctx).Fails ctx E) :
    (MonadState.get >>= g).Fails ctx E := h

theorem adapt {g : ε → ε'} {E : ε' → Prop} (h : m.Fails ctx fun e => E (g e)) :
    Fails (ExceptT.adapt g m) ctx E := by
  intro e he
  rw [run_adapt] at he
  obtain ⟨cause, hcause, rfl⟩ := Except.mapError_eq_error_iff.mp he
  exact h cause hcause

theorem map {f : α → β} (h : m.Fails ctx E) : (f <$> m).Fails ctx E := by
  rw [map_eq_pure_bind]
  intro e he
  rcases eq_error_of_run_bind he with he | ⟨a, ctx', -, he⟩
  · exact h e he
  · cases he

/-- Each step of a fold starts in a context that satisfies what the steps keep. -/
theorem foldlM {P : Context → Prop} {f : β → α → Growing ε β} {b : β} {l : List α} (hctx : P ctx)
    (hkeeps : ∀ b, ∀ a ∈ l, (f b a).Keeps P) (honly : ∀ b a ctx', a ∈ l → (f b a).Only ctx')
    (hstep : ∀ b a ctx', a ∈ l → ctx.Grows ctx' → P ctx' → (f b a).Fails ctx' E) :
    (l.foldlM f b).Fails ctx E := by
  induction l generalizing b ctx with
  | nil => exact Fails.pure b
  | cons a rest ih =>
      rw [List.foldlM_cons]
      have ha := List.mem_cons_self (a := a) (l := rest)
      refine (hstep b a ctx ha (Context.Grows.refl ctx) hctx).bind
        ((honly b a ctx ha).kept (hkeeps b a ha) hctx) fun b' ctx' hgrows ⟨_, hctx'⟩ => ?_
      exact ih hctx' (fun b a h => hkeeps b a (List.mem_cons_of_mem _ h))
        (fun b a ctx h => honly b a ctx (List.mem_cons_of_mem _ h))
        fun b a ctx'' h hgrows' =>
          hstep b a ctx'' (List.mem_cons_of_mem _ h) (hgrows.trans hgrows')

theorem mapM {P : Context → Prop} {f : α → Growing ε β} {l : List α} (hctx : P ctx)
    (hkeeps : ∀ a ∈ l, (f a).Keeps P) (honly : ∀ a ctx', a ∈ l → (f a).Only ctx')
    (hstep : ∀ a ctx', a ∈ l → ctx.Grows ctx' → P ctx' → (f a).Fails ctx' E) :
    (l.mapM f).Fails ctx E := by
  induction l generalizing ctx with
  | nil => exact Fails.pure []
  | cons a rest ih =>
      rw [List.mapM_cons]
      have ha := List.mem_cons_self (a := a) (l := rest)
      refine (hstep a ctx ha (Context.Grows.refl ctx) hctx).bind
        ((honly a ctx ha).kept (hkeeps a ha) hctx) fun b ctx' hgrows ⟨_, hctx'⟩ => ?_
      have hrest : (rest.mapM f).Fails ctx' E :=
        ih hctx' (fun a h => hkeeps a (List.mem_cons_of_mem _ h))
          (fun a ctx h => honly a ctx (List.mem_cons_of_mem _ h))
          fun a ctx'' h hgrows' => hstep a ctx'' (List.mem_cons_of_mem _ h) (hgrows.trans hgrows')
      rw [← map_eq_pure_bind]
      exact hrest.map

end Fails

end Growing

/-! ## Internal errors -/

/-- An error that tells of the nodes of a context, and of nothing that was asked for. -/
def ContextError.isInternal : ContextError → Bool
  | .nodeOutOfRange _ => true
  | _ => false

namespace Context

open Growing

variable {ctx : Context} {i boundary start : Nat} {member path entity : String} {e : ContextError}

/-! ## At a node that is there -/

theorem Grows.size_le {ctx' : Context} (h : ctx.Grows ctx') : ctx.nodes.size ≤ ctx'.nodes.size := by
  by_contra hlt
  have hn := Array.getElem?_eq_getElem (Nat.lt_of_not_le hlt)
  obtain ⟨n, hn, -⟩ := h.node hn
  exact absurd (Array.getElem?_eq_some_iff.mp hn).1 (Nat.lt_irrefl _)

/-- A node that is there has a table. -/
theorem Arena.exists_table (harena : ctx.Arena) (hi : i < ctx.nodes.size) :
    ∃ n t, ctx.nodes[i]? = some n ∧ ctx.catalog.table n.entity = .ok t ∧ ctx.table i = .ok t := by
  have hn := Array.getElem?_eq_getElem hi
  obtain ⟨t, ht, -⟩ := harena.table hn
  exact ⟨_, t, hn, ht, table_eq_ok_iff.mpr ⟨_, hn, ht⟩⟩

theorem exists_of_entityTable_eq_error (h : ctx.entityTable entity = .error e) :
    ∃ fault, e = .catalog fault := by
  obtain ⟨fault, -, rfl⟩ := Except.mapError_eq_error_iff.mp h
  exact ⟨fault, rfl⟩

theorem node_eq_error_iff :
    ctx.node i = .error e ↔ ctx.nodes[i]? = none ∧ e = .nodeOutOfRange i := by
  unfold node
  cases ctx.nodes[i]? <;> simp [eq_comm]

theorem column_eq_error (h : ctx.column i member = .error e) :
    (∃ fault, e = .catalog fault) ∨ ctx.nodes[i]? = none ∧ e = .nodeOutOfRange i := by
  unfold Context.column Context.table at h
  rcases Except.bind_eq_error_iff.mp h with h | ⟨_, -, h⟩
  · rcases Except.bind_eq_error_iff.mp h with h | ⟨_, -, h⟩
    · exact .inr (node_eq_error_iff.mp h)
    · exact .inl (exists_of_entityTable_eq_error h)
  · obtain ⟨fault, -, rfl⟩ := Except.mapError_eq_error_iff.mp h
    exact .inl ⟨fault, rfl⟩

/-- What stands behind a member is not found for a fault of the catalog, for the kind of the
member, or for want of the node or its origin. -/
theorem resolveMember_eq_error (h : ctx.resolveMember i member boundary = .error e) :
    (∃ fault, e = .catalog fault) ∨ (∃ entity, e = .unresolvableMember entity member) ∨
      ∃ j, (j = i ∨ ctx.origin? i = some j) ∧ ctx.nodes[j]? = none ∧ e = .nodeOutOfRange j := by
  unfold resolveMember at h
  rcases Except.bind_eq_error_iff.mp h with h | ⟨n, -, h⟩
  · exact .inr (.inr ⟨i, .inl rfl, node_eq_error_iff.mp h⟩)
  rcases Except.bind_eq_error_iff.mp h with h | ⟨t, -, h⟩
  · exact .inl (exists_of_entityTable_eq_error h)
  split at h
  · -- no column
    split at h
    · exact .inr (.inl ⟨n.entity, (Except.error.inj h).symm⟩)
    · exact .inl ⟨_, (Except.error.inj h).symm⟩
  · split at h
    · -- a lookup
      split at h
      · exact .inr (.inl ⟨n.entity, (Except.error.inj h).symm⟩)
      · rcases Except.bind_eq_error_iff.mp h with h | ⟨_, -, h⟩
        · exact .inl (exists_of_entityTable_eq_error h)
        rcases Except.bind_eq_error_iff.mp h with h | ⟨_, -, h⟩
        · obtain ⟨fault, -, rfl⟩ := Except.mapError_eq_error_iff.mp h
          exact .inl ⟨fault, rfl⟩
        · cases h
    · split at h
      · -- a key on the origin
        rename_i link hlink
        have hlink : ctx.link? i = some link :=
          (Option.filter_eq_some_iff.mp (Option.ite_none_right_eq_some.mp hlink).2).1
        rcases Except.bind_eq_error_iff.mp h with h | ⟨_, -, h⟩
        · refine (column_eq_error h).imp_right fun h => .inr ⟨link.origin, .inr ?_, h⟩
          rw [origin?, hlink, Option.map_some]
        · cases h
      · cases h

/-- What stands behind a member is never out of range. -/
theorem Arena.resolveMember_fails (harena : ctx.Arena) (hi : i < ctx.nodes.size)
    (h : ctx.resolveMember i member boundary = .error e) : e.isInternal = false := by
  rcases resolveMember_eq_error h with ⟨_, rfl⟩ | ⟨_, rfl⟩ | ⟨j, hj, hnone, -⟩
  · rfl
  · rfl
  · have hlt : j < ctx.nodes.size := by
      rcases hj with rfl | ho
      · exact hi
      · exact Nat.lt_trans (harena.origin_lt ho) hi
    cases hnone.symm.trans (Array.getElem?_eq_getElem hlt)

/-! ## Along a path -/

theorem addPath_fails (hsound : ctx.Sound) (hstart : start < ctx.nodes.size) :
    (addPath start path).Fails ctx (·.isInternal = false) := by
  intro e he
  rcases hsound.addPath_fails hstart he with ⟨rfl, -⟩ | ⟨entity, member, t, rfl, -⟩
  · rfl
  · rfl

theorem resolvePath_fails (hsound : ctx.Sound) (hstart : start < ctx.nodes.size) :
    (resolvePath start path).Fails ctx (·.isInternal = false) := by
  unfold resolvePath
  split
  · exact Fails.throw rfl
  · refine (addPath_fails hsound hstart).bind (addPath_leads_sound hsound start _) ?_
    exact fun i ctx' _ ⟨hi, hsound'⟩ =>
      Fails.look fun e he => hsound'.arena.resolveMember_fails hi he

end Context

end EntityMap
