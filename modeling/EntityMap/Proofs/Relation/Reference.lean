import EntityMap.Proofs.Query.Planned
import EntityMap.Proofs.Relation.Condition

/-!
# Reference plans

The reference of a plan reads the same nodes in the plainest way: it
starts at the target and joins every other node as left on its origin
(`Context.reference`). Every plan that is made has one
(`Context.exists_reference`).

A join of a plan is the reference join of its node, but for its kind.
Only when the plan does not start at the target, the target is joined
on the base, by the reference join of the base turned round
(`Context.joins_of_plan`).
-/

namespace EntityMap

def Join.asLeft (j : Join) : Join :=
  { j with kind := .left }

/-- A join of the source on the node, the source being of the given table. -/
def Join.turned (j : Join) (table : String) : Join :=
  { node := j.source, table, nodeColumn := j.sourceColumn
    source := j.node, sourceColumn := j.nodeColumn, kind := .left }

namespace Context

/-- A node as a left join on its origin. -/
def referenceJoin (ctx : Context) (i : Nat) : Except PlanError Join := do
  let link ← ctx.link i
  return {
    node := i, table := ((ctx.nodes[i]?).map (·.table)).getD ""
    nodeColumn := ← ctx.columnName i link.nodeMember
    source := link.origin
    sourceColumn := ← ctx.columnName link.origin link.originMember
    kind := .left }

/-- The plan that starts at the target and joins every other node of a plan as left
on its origin, origins before what hangs on them. -/
def reference (ctx : Context) (p : Plan) : Except PlanError Plan := do
  let target ← (ctx.node p.target).mapError .context
  let joins ← (p.nodes.erase p.target).mergeSort.mapM ctx.referenceJoin
  return { p with
    base := { node := p.target, entity := target.entity, table := target.table }
    joins }

variable {ctx ctx' : Context} {d : Draft} {p r : Plan}

theorem referenceJoin_eq_ok_iff {i : Nat} {j : Join} :
    ctx.referenceJoin i = .ok j ↔ ∃ link, ctx.link? i = some link ∧ j.node = i ∧
      j.table = ((ctx.nodes[i]?).map (·.table)).getD "" ∧
      ctx.columnName i link.nodeMember = .ok j.nodeColumn ∧ j.source = link.origin ∧
      ctx.columnName link.origin link.originMember = .ok j.sourceColumn ∧ j.kind = .left := by
  unfold referenceJoin
  constructor
  · intro h
    obtain ⟨link, hlink, h⟩ := Except.bind_eq_ok_iff.mp h
    obtain ⟨nodeColumn, hnode, h⟩ := Except.bind_eq_ok_iff.mp h
    obtain ⟨sourceColumn, hsource, h⟩ := Except.bind_eq_ok_iff.mp h
    cases h
    exact ⟨link, link_eq_ok_iff.mp hlink, rfl, rfl, hnode, rfl, hsource, rfl⟩
  · rintro ⟨link, hlink, rfl, htable, hnode, hsource, hsourceColumn, hkind⟩
    refine Except.bind_eq_ok_iff.mpr ⟨link, link_eq_ok_iff.mpr hlink, ?_⟩
    refine Except.bind_eq_ok_iff.mpr ⟨_, hnode, Except.bind_eq_ok_iff.mpr ⟨_, hsourceColumn, ?_⟩⟩
    rw [← htable, ← hsource, ← hkind]
    rfl

theorem origin?_of_referenceJoin {i : Nat} {j : Join} (h : ctx.referenceJoin i = .ok j) :
    ctx.origin? i = some j.source := by
  obtain ⟨link, hlink, -, -, -, hsource, -⟩ := referenceJoin_eq_ok_iff.mp h
  rw [origin?, hlink, hsource]
  rfl

theorem mapM_referenceJoin_eq_ok_iff {l : List Nat} {joins : List Join} :
    l.mapM ctx.referenceJoin = .ok joins ↔
      joins.map (·.node) = l ∧ ∀ j ∈ joins, ctx.referenceJoin j.node = .ok j := by
  rw [Except.mapM_eq_ok_iff]
  constructor
  · intro h
    induction h with
    | nil => simp
    | @cons i j rest joins hj _ ih =>
        obtain ⟨link, -, hnode, -⟩ := referenceJoin_eq_ok_iff.mp hj
        exact ⟨by rw [List.map_cons, hnode, ih.1],
          List.forall_mem_cons.mpr ⟨hnode.symm ▸ hj, ih.2⟩⟩
  · rintro ⟨rfl, h⟩
    rw [List.forall₂_map_left_iff, List.forall₂_same]
    exact h

/-- A reference starts at the target and has the reference joins of the other nodes,
by index. -/
theorem reference_eq_ok_iff : ctx.reference p = .ok r ↔
    ∃ n joins, ctx.nodes[p.target]? = some n ∧
      joins.map (·.node) = (p.nodes.erase p.target).mergeSort ∧
      (∀ j ∈ joins, ctx.referenceJoin j.node = .ok j) ∧
      r = { p with base := { node := p.target, entity := n.entity, table := n.table }, joins } := by
  unfold reference
  constructor
  · intro h
    obtain ⟨n, hn, h⟩ := Except.bind_eq_ok_iff.mp h
    obtain ⟨joins, hjoins, h⟩ := Except.bind_eq_ok_iff.mp h
    cases h
    obtain ⟨hnodes, hjoins⟩ := mapM_referenceJoin_eq_ok_iff.mp hjoins
    exact ⟨n, joins, node_eq_ok_iff.mp (Except.mapError_eq_ok_iff.mp hn), hnodes, hjoins, rfl⟩
  · rintro ⟨n, joins, hn, hnodes, hjoins, rfl⟩
    refine Except.bind_eq_ok_iff.mpr
      ⟨n, Except.mapError_eq_ok_iff.mpr (node_eq_ok_iff.mpr hn), ?_⟩
    exact Except.bind_eq_ok_iff.mpr
      ⟨joins, mapM_referenceJoin_eq_ok_iff.mpr ⟨hnodes, hjoins⟩, rfl⟩

/-! ## References are kept while the context grows -/

theorem referenceJoin_grows {i : Nat} {j : Join} (hgrows : ctx.Grows ctx')
    (h : ctx.referenceJoin i = .ok j) : ctx'.referenceJoin i = .ok j := by
  obtain ⟨link, hlink, hnode, htable, hcolumn, hsource, hsourceColumn, hkind⟩ :=
    referenceJoin_eq_ok_iff.mp h
  obtain ⟨n, hn, -⟩ := Option.bind_eq_some_iff.mp hlink
  obtain ⟨n', hn', more, rfl⟩ := hgrows.node hn
  refine referenceJoin_eq_ok_iff.mpr ⟨link, hgrows.link? hlink, hnode, ?_,
    columnName_grows hgrows hcolumn, hsource, columnName_grows hgrows hsourceColumn, hkind⟩
  rw [htable, hn, hn']
  rfl

theorem reference_grows (hgrows : ctx.Grows ctx') (h : ctx.reference p = .ok r) :
    ctx'.reference p = .ok r := by
  obtain ⟨n, joins, hn, hnodes, hjoins, rfl⟩ := reference_eq_ok_iff.mp h
  obtain ⟨n', hn', more, rfl⟩ := hgrows.node hn
  exact reference_eq_ok_iff.mpr
    ⟨_, joins, hn', hnodes, fun j hj => referenceJoin_grows hgrows (hjoins j hj), rfl⟩

/-! ## The joins of a plan are reference joins -/

/-- A join is the reference join of its node, or joins the target on the base by the
reference join of the base. -/
def JoinsAsReference (ctx : Context) (p : Plan) (j : Join) : Prop :=
  ctx.referenceJoin j.node = .ok j.asLeft ∨
    p.base.node ≠ p.target ∧ j.node = p.target ∧ j.kind = .inner ∧
      j.table = ((ctx.nodes[p.target]?).map (·.table)).getD "" ∧
      ctx.referenceJoin p.base.node = .ok (j.turned p.base.table)

theorem referenceJoin_of_join {forced : List Nat} {joined : List (Nat × JoinKind)} {i o : Nat}
    {j : Join} (hedge : ctx.edge? joined i = some (.fromOrigin o))
    (h : ctx.join forced joined i (.fromOrigin o) = .ok j) :
    ctx.referenceJoin j.node = .ok j.asLeft := by
  obtain ⟨hnode, hsource, htable⟩ := join_eq_ok h
  unfold Context.join at h
  obtain ⟨link, hlink, h⟩ := Except.bind_eq_ok_iff.mp h
  obtain ⟨nodeColumn, hcolumn, h⟩ := Except.bind_eq_ok_iff.mp h
  obtain ⟨sourceColumn, hsourceColumn, h⟩ := Except.bind_eq_ok_iff.mp h
  cases h
  have hlink := link_eq_ok_iff.mp hlink
  have horigin : o = link.origin := by
    have ho := (edge?_eq_fromOrigin hedge).1
    rw [origin?, hlink] at ho
    exact (Option.some.inj ho).symm
  exact referenceJoin_eq_ok_iff.mpr
    ⟨link, hlink, rfl, rfl, hcolumn, horigin, horigin ▸ hsourceColumn, rfl⟩

theorem turned_of_join {forced : List Nat} {joined : List (Nat × JoinKind)} {i child : Nat}
    {j : Join} {n : Node} (hedge : ctx.edge? joined i = some (.fromChild child))
    (h : ctx.join forced joined i (.fromChild child) = .ok j)
    (hn : ctx.nodes[child]? = some n) :
    j.kind = .inner ∧ ctx.referenceJoin child = .ok (j.turned n.table) := by
  unfold Context.join at h
  obtain ⟨link, hlink, h⟩ := Except.bind_eq_ok_iff.mp h
  obtain ⟨nodeColumn, hcolumn, h⟩ := Except.bind_eq_ok_iff.mp h
  obtain ⟨sourceColumn, hsourceColumn, h⟩ := Except.bind_eq_ok_iff.mp h
  cases h
  have hlink := link_eq_ok_iff.mp hlink
  have horigin : i = link.origin := by
    have ho := (edge?_eq_fromChild hedge).1
    rw [origin?, hlink] at ho
    exact (Option.some.inj ho).symm
  exact ⟨rfl, referenceJoin_eq_ok_iff.mpr ⟨link, hlink, rfl, by simp [Join.turned, hn],
    hsourceColumn, horigin, horigin ▸ hcolumn, rfl⟩⟩

/-! ## Walking outwards -/

/-- An edge over which a node is joined on its origin, or the target on the base. -/
def Walked (base target i : Nat) (edge : Edge) : Prop :=
  (∃ o, edge = .fromOrigin o) ∨ base ≠ target ∧ edge = .fromChild base ∧ i = target

/-- The joined nodes of a run: the base, the target, and nodes with a joined origin. -/
def Outward (ctx : Context) (base target : Nat) (joined : List (Nat × JoinKind)) : Prop :=
  ∀ k ∈ joined.map (·.1), k = base ∨ k = target ∨
    ∃ o, ctx.origin? k = some o ∧ o ∈ joined.map (·.1)

theorem not_below_of_origin {target o : Nat} (harena : ctx.Arena)
    (ho : ctx.origin? target = some o) : ¬ ctx.isAncestorOrSelf target o := by
  intro hbelow
  have hlt := harena.origin_lt ho
  by_cases heq : o = target
  · omega
  · have := level_lt_of_below harena hbelow heq
    have := harena.level_eq ho
    omega

/-- One step: away from the base, unless it leads from the base to the target. -/
theorem walked_of_edge? {base target i : Nat} {joined : List (Nat × JoinKind)} {edge : Edge}
    (harena : ctx.Arena) (hbase : base = target ∨ ctx.origin? base = some target)
    (hout : ctx.Outward base target joined) (hbelow : ctx.isAncestorOrSelf target i)
    (hfree : i ∉ joined.map (·.1)) (hedge : ctx.edge? joined i = some edge) :
    Walked base target i edge := by
  cases edge with
  | fromOrigin o => exact .inl ⟨o, rfl⟩
  | fromChild child =>
      obtain ⟨horigin, hchild, -⟩ := edge?_eq_fromChild hedge
      have hne : child ≠ target := fun h => not_below_of_origin harena (h ▸ horigin) hbelow
      rcases hout child hchild with rfl | rfl | ⟨o, ho, hmem⟩
      · have hbase := hbase.resolve_left hne
        exact .inr ⟨hne, rfl, Option.some.inj (horigin.symm.trans hbase)⟩
      · exact absurd rfl hne
      · obtain rfl : o = i := Option.some.inj (ho.symm.trans horigin)
        exact absurd hmem hfree

theorem Outward.step {base target i : Nat} {joined : List (Nat × JoinKind)} {edge : Edge}
    {kind : JoinKind} (hout : ctx.Outward base target joined)
    (hedge : ctx.edge? joined i = some edge) (hwalked : Walked base target i edge) :
    ctx.Outward base target (joined ++ [(i, kind)]) := by
  intro k hk
  rw [List.map_append, List.mem_append] at hk
  rcases hk with hk | hk
  · rcases hout k hk with h | h | ⟨o, ho, hmem⟩
    · exact .inl h
    · exact .inr (.inl h)
    · exact .inr (.inr ⟨o, ho, by simp [hmem]⟩)
  · obtain rfl := List.mem_singleton.mp hk
    rcases hwalked with ⟨o, rfl⟩ | ⟨-, -, h⟩
    · obtain ⟨ho, hmem⟩ := edge?_eq_fromOrigin hedge
      exact .inr (.inr ⟨o, ho, by rw [List.map_append]; exact List.mem_append_left _ hmem⟩)
    · exact .inr (.inl h)

/-- What each step shows of its join while it keeps an invariant of the joined nodes
holds of all joins of a run. -/
theorem JoinRun.forall_of_step {base target : Nat} {forced remaining : List Nat}
    {joined : List (Nat × JoinKind)} {js : List Join} {Q : List (Nat × JoinKind) → Prop}
    {R : Join → Prop} (harena : ctx.Arena)
    (hbase : base = target ∨ ctx.origin? base = some target)
    (hstep : ∀ {joined i edge j}, Q joined → ctx.edge? joined i = some edge →
      ctx.join forced joined i edge = .ok j → Walked base target i edge →
      R j ∧ Q (joined ++ [(i, j.kind)]))
    (hrun : ctx.JoinRun forced joined remaining js) (hout : ctx.Outward base target joined)
    (hbelow : ∀ k ∈ remaining, ctx.isAncestorOrSelf target k)
    (hnodup : (joined.map (·.1) ++ remaining).Nodup) (hQ : Q joined) : ∀ j ∈ js, R j := by
  induction hrun with
  | done => simp
  | @step joined remaining others i edge j js hperm hedge hjoin _ ih =>
      have hmem : ∀ {k}, k ∈ i :: others → k ∈ remaining := fun h => hperm.mem_iff.mpr h
      have hnodup : (joined.map (·.1) ++ i :: others).Nodup :=
        (hperm.append_left _).nodup_iff.mp hnodup
      have hfree : i ∉ joined.map (·.1) := fun h =>
        (List.nodup_append.mp hnodup).2.2 i h i (List.mem_cons_self ..) rfl
      have hwalked := walked_of_edge? harena hbase hout
        (hbelow i (hmem (List.mem_cons_self ..))) hfree hedge
      obtain ⟨hR, hQ'⟩ := hstep hQ hedge hjoin hwalked
      have hrest := ih (hout.step hedge hwalked)
        (fun k hk => hbelow k (hmem (List.mem_cons_of_mem _ hk))) (by simpa using hnodup) hQ'
      intro j' hj'
      rcases List.mem_cons.mp hj' with rfl | hj'
      · exact hR
      · exact hrest j' hj'

/-- The first node of a closure is the target, or a filter bound node that hangs on it. -/
theorem base_of_closure {c : Closure} (harena : ctx.Arena) (hc : ctx.closure d = .ok c) :
    base d c = d.target ∨
      ctx.origin? (base d c) = some d.target ∧ ctx.FilterBound d (base d c) := by
  obtain ⟨x, rest, hnodes, hx⟩ := exists_closure_eq_cons harena hc
  obtain rfl : base d c = x := by simp [base, hnodes]
  exact hx

/-- What a plan joins as inner whatever its link is, is the target or filter bound. -/
theorem filterBound_of_forced {c : Closure} {k : Nat} (harena : ctx.Arena)
    (hc : ctx.closure d = .ok c) (hk : k ∈ ctx.basePath d c ++ c.forced) :
    k = d.target ∨ ctx.FilterBound d k := by
  rcases List.mem_append.mp hk with hk | hk
  · unfold basePath at hk
    split at hk
    · cases hk
    · rename_i hne
      rcases List.mem_cons.mp hk with rfl | hk
      · exact .inl rfl
      · obtain ⟨-, hbound⟩ := (base_of_closure harena hc).resolve_left hne
        have hbelow := isAncestorOrSelf_of_needs harena hc
          ((mem_closure_iff harena hc).mp (base_mem harena hc))
        exact .inr (filterBound_of_mem_ancestorsUntil harena (filterOnly_below hc) hbound
          hbelow hne hk)
  · exact .inr (forced_closure harena hc k hk)

/-- A plan starts at the target, or at a filter bound node that hangs on it. -/
theorem base_of_plan (harena : ctx.Arena) (h : ctx.plan d = .ok p) :
    p.base.node = d.target ∨
      ctx.origin? p.base.node = some d.target ∧ ctx.FilterBound d p.base.node := by
  obtain ⟨c, hc, -, hbase, -⟩ := plan_eq_ok h
  exact hbase ▸ base_of_closure harena hc

/-- The same of a plan, where what is forced is the target or filter bound. -/
theorem forall_joins_of_plan {Q : List (Nat × JoinKind) → Prop} {R : Join → Prop}
    (harena : ctx.Arena) (h : ctx.plan d = .ok p) (hstart : Q [(p.base.node, .inner)])
    (hstep : ∀ {forced joined i edge j}, (∀ k ∈ forced, k = d.target ∨ ctx.FilterBound d k) →
      Q joined → ctx.edge? joined i = some edge → ctx.join forced joined i edge = .ok j →
      Walked p.base.node d.target i edge → R j ∧ Q (joined ++ [(i, j.kind)])) :
    ∀ j ∈ p.joins, R j := by
  have hx := base_of_plan harena h
  obtain ⟨c, hc, -, hbase, hrun, -⟩ := plan_eq_ok h
  rw [← hbase] at hrun
  have hperm := List.perm_cons_erase (base_mem harena hc)
  rw [← hbase] at hperm
  refine hrun.forall_of_step harena (hx.imp_right (·.1))
    (hstep fun _ => filterBound_of_forced harena hc) ?_ ?_ ?_ hstart
  · intro k hk
    exact .inl (List.mem_singleton.mp hk)
  · intro k hk
    have hmem := hperm.mem_iff.mpr (List.mem_cons_of_mem _ hk)
    exact isAncestorOrSelf_of_needs harena hc ((mem_closure_iff harena hc).mp hmem)
  · exact hperm.nodup_iff.mp (nodup_closure hc)

/-- The joins of a plan are reference joins, but for their kinds and for the way from
the base to the target. -/
theorem joins_of_plan (harena : ctx.Arena) (h : ctx.plan d = .ok p) :
    ∀ j ∈ p.joins, ctx.JoinsAsReference p j := by
  obtain ⟨c, -, rfl, -, -, n, hn, htable⟩ := plan_eq_ok h
  refine forall_joins_of_plan (Q := fun _ => True) harena h trivial ?_
  intro forced joined i edge j _ _ hedge hjoin hwalked
  refine ⟨?_, trivial⟩
  rcases hwalked with ⟨o, rfl⟩ | ⟨hne, rfl, rfl⟩
  · exact .inl (referenceJoin_of_join hedge hjoin)
  · obtain ⟨hnode, -, hjtable⟩ := join_eq_ok hjoin
    obtain ⟨hkind, hturned⟩ := turned_of_join hedge hjoin hn
    exact .inr ⟨hne, hnode, hkind, hjtable, htable ▸ hturned⟩

/-- The target is joined on the base if the plan does not start there. -/
theorem exists_join_of_target (harena : ctx.Arena) (h : ctx.plan d = .ok p)
    (hne : p.base.node ≠ p.target) :
    ∃ j ∈ p.joins, j.node = p.target ∧ j.kind = .inner ∧
      j.table = ((ctx.nodes[p.target]?).map (·.table)).getD "" ∧
      ctx.referenceJoin p.base.node = .ok (j.turned p.base.table) := by
  have htree := isJoinTree_of_plan harena h
  have htarget : p.target ∈ p.nodes := (htree.nodes _).mpr .target
  rcases List.mem_cons.mp htarget with heq | hmem
  · exact absurd heq.symm hne
  · obtain ⟨j, hj, hnode⟩ := List.mem_map.mp hmem
    refine ⟨j, hj, hnode, ?_⟩
    rcases joins_of_plan harena h j hj with href | ⟨-, -, hkind, htable, hturned⟩
    · -- the source of this join would be needed, and lie above the target
      have horigin : ctx.origin? p.target = some j.source :=
        hnode ▸ origin?_of_referenceJoin (j := j.asLeft) href
      obtain ⟨pre, post, hsplit⟩ := List.append_of_mem hj
      have hsrc : j.source ∈ p.nodes := by
        rcases List.mem_cons.mp (htree.source pre j post hsplit) with hbase | hpre
        · rw [hbase]
          exact List.mem_cons_self ..
        · refine List.mem_cons_of_mem _ ?_
          rw [hsplit, List.map_append]
          exact List.mem_append_left _ hpre
      obtain ⟨c, hc, rfl, -⟩ := plan_eq_ok h
      exact absurd (isAncestorOrSelf_of_needs harena hc ((htree.nodes _).mp hsrc))
        (not_below_of_origin harena horigin)
    · exact ⟨hkind, htable, hturned⟩

theorem exists_referenceJoin (harena : ctx.Arena) (h : ctx.plan d = .ok p) {i : Nat}
    (hi : i ∈ p.nodes) (hne : i ≠ p.target) : ∃ j, ctx.referenceJoin i = .ok j := by
  rcases List.mem_cons.mp hi with rfl | hmem
  · obtain ⟨j, -, -, -, -, hturned⟩ := exists_join_of_target harena h hne
    exact ⟨_, hturned⟩
  · obtain ⟨j, hj, rfl⟩ := List.mem_map.mp hmem
    rcases joins_of_plan harena h j hj with href | ⟨-, hnode, -⟩
    · exact ⟨_, href⟩
    · exact absurd hnode hne

theorem exists_reference (harena : ctx.Arena) (h : ctx.plan d = .ok p) :
    ∃ r, ctx.reference p = .ok r := by
  have htree := isJoinTree_of_plan harena h
  obtain ⟨c, -, rfl, -⟩ := plan_eq_ok h
  obtain ⟨n, hn⟩ := exists_node_of_needs harena h .target
  obtain ⟨joins, hjoins⟩ := Except.exists_mapM_eq_ok (f := ctx.referenceJoin)
    (l := (p.nodes.erase p.target).mergeSort) fun i hi => by
      have hi : i ∈ p.nodes.erase p.target := by simpa using hi
      rw [htree.nodup.mem_erase_iff] at hi
      exact exists_referenceJoin harena h hi.2 hi.1
  obtain ⟨hnodes, hjoins⟩ := mapM_referenceJoin_eq_ok_iff.mp hjoins
  exact ⟨_, reference_eq_ok_iff.mpr ⟨n, joins, hn, hnodes, hjoins, rfl⟩⟩

end Context

end EntityMap
