import EntityMap.Proofs.Query.Planned

/-!
# Strategies

The plans of a strategy are made in the context that the call leaves,
for one draft of the target with the modifiers of the request
(`Request.strategy_eq_ok`): a single one, which has no inverted node if
some modifier limits it (`Context.strategy_eq_direct`), or those of the
two phases (`Context.strategy_eq_twoPhase`).

An inverted node is any node but the target of which a row above may
have many (`Context.mem_invertedNodes`). There is none where nothing is
asked of a collection, or from below one (`Context.invertedNodes_eq_nil`).
-/

namespace EntityMap

open Growing

variable {ctx ctx' : Context} {d : Draft} {p keys rows : Plan} {target : Nat}

theorem Request.strategy_eq_ok {r : Request} {s : Strategy}
    (h : (r.strategy target).run ctx = (.ok s, ctx')) :
    ctx.Grows ctx' ∧ ∃ d : Draft, d.target = target ∧ d.modifiers = r.modifiers ∧
      d.keyRestriction = none ∧ ctx'.strategy d = .ok s := by
  have hleads : (r.strategy target).Leads ctx fun s ctx' => ∃ d : Draft, d.target = target ∧
      d.modifiers = r.modifiers ∧ d.keyRestriction = none ∧ ctx'.strategy d = .ok s := by
    unfold Request.strategy
    refine (r.checkedDraft_leads target .outer).bind fun d _ _ hd => Leads.look fun s hs => ?_
    exact ⟨d, hd.target, hd.modifiers, hd.keyRestriction, hs⟩
  have hgrows := hleads.grows
  have hanswer := hleads.answer s (congrArg (·.1) h)
  rw [h] at hgrows hanswer
  exact ⟨hgrows, hanswer⟩

namespace Context

theorem keyColumn_eq_ok_iff {i : Nat} {key : NodeColumn} :
    ctx.keyColumn i = .ok key ↔ ∃ t column, ctx.table i = .ok t ∧ t.key = .ok column ∧
      key = { node := i, member := column.member, column := column.column } := by
  unfold keyColumn
  constructor
  · intro h
    obtain ⟨t, ht, h⟩ := Except.bind_eq_ok_iff.mp h
    obtain ⟨column, hcolumn, h⟩ := Except.bind_eq_ok_iff.mp h
    cases h
    exact ⟨t, column, Except.mapError_eq_ok_iff.mp ht, Except.mapError_eq_ok_iff.mp hcolumn, rfl⟩
  · rintro ⟨t, column, ht, hcolumn, rfl⟩
    refine Except.bind_eq_ok_iff.mpr ⟨t, Except.mapError_eq_ok_iff.mpr ht, ?_⟩
    exact Except.bind_eq_ok_iff.mpr ⟨column, Except.mapError_eq_ok_iff.mpr hcolumn, rfl⟩

theorem targetKey_of_plan (h : ctx.plan d = .ok p) : ctx.keyColumn d.target = .ok p.targetKey := by
  obtain ⟨key, c, js, n, hkey, -, -, -, rfl⟩ := plan_eq_ok_iff.mp h
  exact hkey

theorem strategy_eq_direct (h : ctx.strategy d = .ok (.direct p)) :
    ctx.plan d = .ok p ∧ p.requiresTwoPhase = false := by
  unfold Context.strategy at h
  obtain ⟨direct, hdirect, h⟩ := Except.bind_eq_ok_iff.mp h
  split at h
  · obtain ⟨keys, -, h⟩ := Except.bind_eq_ok_iff.mp h
    obtain ⟨rows, -, h⟩ := Except.bind_eq_ok_iff.mp h
    cases h
  · rename_i hsingle
    cases h
    exact ⟨hdirect, by simpa using hsingle⟩

theorem strategy_eq_twoPhase (h : ctx.strategy d = .ok (.twoPhase keys rows)) :
    ∃ key, ctx.keyColumn d.target = .ok key ∧ ctx.plan (d.keysPhase key) = .ok keys ∧
      ctx.plan (d.rowsPhase key) = .ok rows := by
  unfold Context.strategy at h
  obtain ⟨direct, hdirect, h⟩ := Except.bind_eq_ok_iff.mp h
  split at h
  · obtain ⟨keys', hkeys, h⟩ := Except.bind_eq_ok_iff.mp h
    obtain ⟨rows', hrows, h⟩ := Except.bind_eq_ok_iff.mp h
    cases h
    exact ⟨direct.targetKey, targetKey_of_plan hdirect, hkeys, hrows⟩
  · cases h

/-! ## Collections -/

theorem mem_invertedNodes (harena : ctx.Arena) (h : ctx.plan d = .ok p) {i : Nat} :
    i ∈ p.invertedNodes ↔ i ∈ p.nodes ∧ i ≠ p.target ∧ ctx.isInverse i := by
  obtain ⟨c, hc, hperm⟩ := nodes_perm_of_plan harena h
  unfold plan at h
  obtain ⟨targetKey, -, h⟩ := Except.bind_eq_ok_iff.mp h
  obtain ⟨c', hc', h⟩ := Except.bind_eq_ok_iff.mp h
  obtain ⟨joins, -, h⟩ := Except.bind_eq_ok_iff.mp h
  obtain ⟨n, -, h⟩ := Except.bind_eq_ok_iff.mp h
  obtain rfl : c = c' := Except.ok.inj (hc.symm.trans hc')
  cases h
  rw [hperm.mem_iff]
  simp

/-- Whether a node is a collection below the target, or lies below one. -/
def isBelowCollection (ctx : Context) (target i : Nat) : Bool :=
  (ctx.way target i).any fun j => j ≠ target && ctx.isInverse j

theorem not_isBelowCollection_target : ctx.isBelowCollection target target = false := by
  simp [isBelowCollection, way]

theorem isBelowCollection_eq (harena : ctx.Arena) {i o : Nat} (hne : i ≠ target)
    (ho : ctx.origin? i = some o) :
    ctx.isBelowCollection target i = (ctx.isInverse i || ctx.isBelowCollection target o) := by
  rw [isBelowCollection, harena.way_eq hne ho, List.any_append, Bool.or_comm]
  by_cases hstop : o = target
  · simp [hstop, hne, not_isBelowCollection_target]
  · simp [hstop, hne, isBelowCollection]

/-- What is needed for nodes that do not lie below collections does not either. -/
theorem not_isBelowCollection_of_needs (harena : ctx.Arena)
    (hvisited : ∀ i ∈ ctx.visited d, ctx.isBelowCollection d.target i = false) {i : Nat}
    (hi : d.Needs ctx i) : ctx.isBelowCollection d.target i = false := by
  refine of_needs hi hvisited ?_
  intro i o hi hne ho
  rw [isBelowCollection_eq harena hne ho, Bool.or_eq_false_iff] at hi
  exact hi.2

theorem invertedNodes_eq_nil (harena : ctx.Arena) (h : ctx.plan d = .ok p)
    (hvisited : ∀ i ∈ ctx.visited d, ctx.isBelowCollection d.target i = false) :
    p.invertedNodes = [] := by
  rw [List.eq_nil_iff_forall_not_mem]
  intro i hi
  have htree := isJoinTree_of_plan harena h
  obtain ⟨hnode, hne, hinverse⟩ := (mem_invertedNodes harena h).mp hi
  obtain ⟨c, hc, rfl, -⟩ := plan_eq_ok h
  have hneeds := (htree.nodes i).mp hnode
  obtain ⟨o, ho⟩ :=
    exists_origin_of_isAncestorOrSelf (isAncestorOrSelf_of_needs harena hc hneeds) hne
  have hnot := not_isBelowCollection_of_needs harena hvisited hneeds
  rw [isBelowCollection_eq harena hne ho, hinverse] at hnot
  cases hnot

end Context

end EntityMap
