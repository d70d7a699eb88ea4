import EntityMap.Proofs.Query.LastingPlans

/-!
# The order of joined nodes does not matter

A node whose origin is not joined yet is joined on a child, and the child
is searched for among the nodes that are joined already. In whatever
order these are searched (`Context.joinsOver`), the same child is found:
all joined nodes but one have their origin among them
(`Context.HasTop`), so a node that is not joined has at most one child
that is. Hence plans do not depend on that order
(`Context.planOver_eq`).
-/

namespace EntityMap

namespace Context

/-- The joins of the remaining nodes, as `Context.joins` has them, but with the joined nodes
searched in another order. -/
def joinsOver (order : List (Nat × JoinKind) → List (Nat × JoinKind)) (ctx : Context)
    (forced : List Nat) (joined : List (Nat × JoinKind)) (remaining : List Nat) :
    Except PlanError (List Join) :=
  match _h : pick? (ctx.edge? (order joined)) remaining with
  | some (i, edge, others) => do
    let join ← ctx.join forced joined i edge
    return join :: (← ctx.joinsOver order forced (joined ++ [(i, join.kind)]) others)
  | none => if remaining.isEmpty then .ok [] else .error (.unsupported .disconnected)
termination_by remaining.length
decreasing_by
  have := length_of_pick? _h
  omega

/-- The plan of a draft, with the joined nodes searched in another order. -/
def planOver (order : List (Nat × JoinKind) → List (Nat × JoinKind)) (ctx : Context) (d : Draft) :
    Except PlanError Plan := do
  let targetKey ← ctx.keyColumn d.target
  let closure ← ctx.closure d
  let joins ← ctx.joinsOver order (ctx.basePath d closure ++ closure.forced)
    [(base d closure, .inner)] (closure.nodes.erase (base d closure))
  let node ← (ctx.node (base d closure)).mapError .context
  return { d with
    targetKey
    base := { node := base d closure, entity := node.entity, table := node.table }
    joins
    invertedNodes := closure.nodes.filter fun i => i ≠ d.target && ctx.isInverse i }

variable {ctx : Context} {i k : Nat} {joined joined' : List (Nat × JoinKind)} {kind : JoinKind}
  {remaining forced : List Nat} {order : List (Nat × JoinKind) → List (Nat × JoinKind)} {d : Draft}

/-- All joined nodes but one have their origin among them. -/
def HasTop (ctx : Context) (joined : List (Nat × JoinKind)) : Prop :=
  ∃ top, ∀ j ∈ joined.map (·.1), j ≠ top → ∃ o ∈ joined.map (·.1), ctx.origin? j = some o

theorem hasTop_singleton : ctx.HasTop [(i, kind)] :=
  ⟨i, fun j hj hne => absurd (by simpa using hj) hne⟩

/-- A node that is not joined has one joined child at most. -/
theorem HasTop.eq_of_origin? (h : ctx.HasTop joined) (hi : i ∉ joined.map (·.1)) {j j' : Nat}
    (hj : j ∈ joined.map (·.1)) (hj' : j' ∈ joined.map (·.1)) (ho : ctx.origin? j = some i)
    (ho' : ctx.origin? j' = some i) : j = j' := by
  obtain ⟨top, htop⟩ := h
  have hboth : ∀ {j}, j ∈ joined.map (·.1) → ctx.origin? j = some i → j = top := by
    intro j hj ho
    by_contra hne
    obtain ⟨o, hmem, horigin⟩ := htop j hj hne
    cases horigin.symm.trans ho
    exact hi hmem
  exact (hboth hj ho).trans (hboth hj' ho').symm

/-- A node that is joined next is below a joined one, or becomes the top. -/
theorem HasTop.step {edge : Edge} (h : ctx.HasTop joined) (hi : i ∉ joined.map (·.1))
    (hedge : ctx.edge? joined i = some edge) : ctx.HasTop (joined ++ [(i, kind)]) := by
  obtain ⟨top, htop⟩ := h
  have hmap : (joined ++ [(i, kind)]).map (·.1) = joined.map (·.1) ++ [i] := by simp
  unfold HasTop
  rw [hmap]
  have hmore : ∀ {j}, j ∈ joined.map (·.1) → j ≠ top →
      ∃ o ∈ joined.map (·.1) ++ [i], ctx.origin? j = some o := by
    intro j hj hne
    obtain ⟨o, ho, horigin⟩ := htop j hj hne
    exact ⟨o, List.mem_append_left _ ho, horigin⟩
  cases edge with
  | fromOrigin o =>
      obtain ⟨horigin, ho⟩ := edge?_eq_fromOrigin hedge
      refine ⟨top, fun j hj hne => ?_⟩
      rcases List.mem_append.mp hj with hj | hj
      · exact hmore hj hne
      · obtain rfl := List.mem_singleton.mp hj
        exact ⟨o, List.mem_append_left _ ho, horigin⟩
  | fromChild k =>
      obtain ⟨horigin, hk, -⟩ := edge?_eq_fromChild hedge
      obtain rfl : k = top := by
        by_contra hne
        obtain ⟨o, ho, horigin'⟩ := htop k hk hne
        cases horigin.symm.trans horigin'
        exact hi ho
      refine ⟨i, fun j hj hne => ?_⟩
      rcases List.mem_append.mp hj with hj | hj
      · by_cases htopmost : j = k
        · exact ⟨i, List.mem_append_right _ (List.mem_singleton_self i), htopmost ▸ horigin⟩
        · exact hmore hj htopmost
      · exact absurd (List.mem_singleton.mp hj) hne

/-- The same edge is found, whichever order the joined nodes are searched in. -/
theorem HasTop.edge?_perm (h : ctx.HasTop joined) (hperm : joined'.Perm joined)
    (hi : i ∉ joined.map (·.1)) : ctx.edge? joined' i = ctx.edge? joined i := by
  have hnodes : (joined'.map (·.1)).Perm (joined.map (·.1)) := hperm.map _
  have hone : {j ∈ joined'.map (·.1) | decide (ctx.origin? j = some i)}.Subsingleton :=
    fun j hj j' hj' => h.eq_of_origin? hi (hnodes.mem_iff.mp hj.1) (hnodes.mem_iff.mp hj'.1)
      (of_decide_eq_true hj.2) (of_decide_eq_true hj'.2)
  simp only [edge?_eq_or, hnodes.mem_iff, List.find?_eq_find?_of_perm hnodes hone]

/-- From a connected start, the same joins are made. -/
theorem joinsOver_eq (horder : ∀ l, (order l).Perm l) (h : ctx.HasTop joined)
    (hnodup : remaining.Nodup) (hapart : ∀ i ∈ remaining, i ∉ joined.map (·.1)) :
    ctx.joinsOver order forced joined remaining = ctx.joins forced joined remaining := by
  induction hlength : remaining.length using Nat.strongRecOn generalizing joined remaining with
  | ind length ih =>
      have hpick : pick? (ctx.edge? (order joined)) remaining =
          pick? (ctx.edge? joined) remaining :=
        pick?_congr fun i hi => h.edge?_perm (horder joined) (hapart i hi)
      rw [joinsOver]
      split
      · rename_i i edge others hover
        rw [hpick] at hover
        obtain ⟨hedge, hperm⟩ := pick?_eq_some hover
        have hthere := hperm.mem_iff.mpr (List.mem_cons_self ..)
        obtain ⟨hnew, hothers⟩ := List.nodup_cons.mp (hperm.nodup_iff.mp hnodup)
        have hlt : others.length < length := by
          have := length_of_pick? hover
          omega
        rw [joins_of_pick?_eq_some hover]
        refine congrArg _ (funext fun j => ?_)
        rw [ih _ hlt (h.step (hapart i hthere) hedge) hothers ?_ rfl]
        intro k hk hmem
        rw [List.map_append, List.mem_append] at hmem
        rcases hmem with hmem | hmem
        · exact hapart k (hperm.mem_iff.mpr (List.mem_cons_of_mem _ hk)) hmem
        · obtain rfl : k = i := by simpa using hmem
          exact hnew hk
      · rename_i hover
        rw [hpick] at hover
        rw [joins_of_pick?_eq_none hover]

/-- The plan of a draft does not depend on the order in which the joined nodes are searched. -/
theorem planOver_eq (horder : ∀ l, (order l).Perm l) (ctx : Context) (d : Draft) :
    ctx.planOver order d = ctx.plan d := by
  unfold planOver plan
  refine congrArg _ (funext fun key => ?_)
  cases hc : ctx.closure d with
  | error e => rfl
  | ok c =>
      have hnodup := nodup_closure hc
      have hapart : ∀ i ∈ c.nodes.erase (base d c), i ∉ [(base d c, JoinKind.inner)].map (·.1) := by
        intro i hi hmem
        obtain rfl : i = base d c := by simpa using hmem
        exact hnodup.not_mem_erase hi
      have hjoins : ctx.joinsOver order (ctx.basePath d c ++ c.forced) [(base d c, .inner)]
          (c.nodes.erase (base d c)) = _ :=
        joinsOver_eq horder hasTop_singleton (hnodup.erase _) hapart
      show (ctx.joinsOver order _ _ _ >>= _) = _
      rw [hjoins]
      rfl

end Context

end EntityMap
