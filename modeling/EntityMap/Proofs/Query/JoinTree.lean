import EntityMap.Proofs.Query.Closure

/-!
# Join trees

The joins of a plan as a run (`Context.JoinRun`): each step picks a
remaining node that hangs on a joined one, and joins it over the edge
between the two. What a step does (`Context.edge?_eq_some`,
`Context.followsEdge_of_join`) gives what a run does: the joined nodes
are the remaining ones, each once, and every source is joined before.

Together with the closure of the draft this makes every plan a join tree
(`Plan.IsJoinTree`, `Context.isJoinTree_of_plan`).
-/

namespace EntityMap

/-- One element with an answer is picked out of a list. -/
theorem pick?_eq_some {α β : Type} {f : α → Option β} :
    ∀ {l : List α} {a : α} {b : β} {others : List α}, pick? f l = some (a, b, others) →
      f a = some b ∧ l.Perm (a :: others)
  | [], _, _, _, h => by simp [pick?] at h
  | x :: rest, a, b, others, h => by
      unfold pick? at h
      split at h
      · rename_i b' hx
        simp only [Option.some.injEq, Prod.mk.injEq] at h
        obtain ⟨rfl, rfl, rfl⟩ := h
        exact ⟨hx, List.Perm.refl _⟩
      · obtain ⟨⟨a', b', left⟩, hrest, heq⟩ := Option.map_eq_some_iff.mp h
        simp only [Prod.mk.injEq] at heq
        obtain ⟨rfl, rfl, rfl⟩ := heq
        obtain ⟨ha, hperm⟩ := pick?_eq_some hrest
        exact ⟨ha, (hperm.cons x).trans (List.Perm.swap ..)⟩

namespace Edge

def source : Edge → Nat
  | fromOrigin origin => origin
  | fromChild child => child

end Edge

namespace Context

/-- A join follows a link: from the origin to the node that hangs on it, or from
that node back to its origin. Its columns are those of the link, at either end. -/
inductive FollowsEdge (ctx : Context) (j : Join) : Prop
  | down {link : Link} (hlink : ctx.link? j.node = some link) (hsource : j.source = link.origin)
      (hnodeColumn : ctx.columnName j.node link.nodeMember = .ok j.nodeColumn)
      (hsourceColumn : ctx.columnName j.source link.originMember = .ok j.sourceColumn) :
      FollowsEdge ctx j
  | up {link : Link} (hlink : ctx.link? j.source = some link) (hnode : j.node = link.origin)
      (hnodeColumn : ctx.columnName j.node link.originMember = .ok j.nodeColumn)
      (hsourceColumn : ctx.columnName j.source link.nodeMember = .ok j.sourceColumn) :
      FollowsEdge ctx j

variable {ctx ctx' : Context} {forced : List Nat} {joined : List (Nat × JoinKind)}

/-- Of the joined nodes only which they are counts, not how they are joined. -/
theorem edge?_eq_or {i : Nat} : ctx.edge? joined i =
    (((ctx.origin? i).filter (· ∈ joined.map (·.1))).map Edge.fromOrigin).or
      (((joined.map (·.1)).find? fun j => ctx.origin? j = some i).map Edge.fromChild) := by
  have hany : (fun o => decide (o ∈ joined.map (·.1))) = fun o => joined.any (·.1 = o) :=
    funext fun o => Bool.eq_iff_iff.mpr (by simp)
  rw [hany, List.find?_map, Option.map_map]
  unfold edge?
  cases (ctx.origin? i).filter fun o => joined.any (·.1 = o) <;> rfl

theorem edge?_eq_fromOrigin {i o : Nat} (h : ctx.edge? joined i = some (.fromOrigin o)) :
    ctx.origin? i = some o ∧ o ∈ joined.map (·.1) := by
  rw [edge?_eq_or] at h
  rcases Option.or_eq_some_iff.mp h with h | ⟨-, h⟩
  · obtain ⟨o', ho, heq⟩ := Option.map_eq_some_iff.mp h
    cases heq
    obtain ⟨horigin, hjoined⟩ := Option.filter_eq_some_iff.mp ho
    exact ⟨horigin, of_decide_eq_true hjoined⟩
  · obtain ⟨c, -, heq⟩ := Option.map_eq_some_iff.mp h
    cases heq

/-- A node is joined on a child only while its origin is not joined. -/
theorem edge?_eq_fromChild {i c : Nat} (h : ctx.edge? joined i = some (.fromChild c)) :
    ctx.origin? c = some i ∧ c ∈ joined.map (·.1) ∧
      ∀ o, ctx.origin? i = some o → o ∉ joined.map (·.1) := by
  rw [edge?_eq_or] at h
  rcases Option.or_eq_some_iff.mp h with h | ⟨hnone, h⟩
  · obtain ⟨o, -, heq⟩ := Option.map_eq_some_iff.mp h
    cases heq
  · obtain ⟨c', hfind, heq⟩ := Option.map_eq_some_iff.mp h
    cases heq
    have hchild := List.find?_some hfind
    refine ⟨of_decide_eq_true hchild, List.mem_of_find?_eq_some hfind, ?_⟩
    intro o ho hmem
    rw [ho, Option.filter_some, if_pos (decide_eq_true hmem)] at hnone
    cases hnone

theorem source_mem_of_edge? {i : Nat} {edge : Edge} (h : ctx.edge? joined i = some edge) :
    edge.source ∈ joined.map (·.1) := by
  cases edge with
  | fromOrigin o => exact (edge?_eq_fromOrigin h).2
  | fromChild c => exact (edge?_eq_fromChild h).2.1

theorem link_eq_ok_iff {i : Nat} {link : Link} :
    ctx.link i = .ok link ↔ ctx.link? i = some link := by
  unfold Context.link
  cases ctx.link? i <;> simp

theorem columnName_eq_ok_iff {i : Nat} {member name : String} :
    ctx.columnName i member = .ok name ↔
      ∃ t c, ctx.table i = .ok t ∧ t.column member = .ok c ∧ c.column = name := by
  unfold columnName
  constructor
  · intro h
    obtain ⟨t, ht, h⟩ := Except.bind_eq_ok_iff.mp h
    obtain ⟨c, hc, h⟩ := Except.bind_eq_ok_iff.mp h
    cases h
    exact ⟨t, c, Except.mapError_eq_ok_iff.mp ht, Except.mapError_eq_ok_iff.mp hc, rfl⟩
  · rintro ⟨t, c, ht, hc, rfl⟩
    simp only [ht, hc, Except.mapError, bind, Except.bind]
    rfl

theorem columnName_grows {i : Nat} {member name : String} (hgrows : ctx.Grows ctx')
    (h : ctx.columnName i member = .ok name) : ctx'.columnName i member = .ok name := by
  obtain ⟨t, c, ht, hc, rfl⟩ := columnName_eq_ok_iff.mp h
  exact columnName_eq_ok_iff.mpr ⟨t, c, hgrows.table_eq ht, hc, rfl⟩

theorem join_eq_ok {i : Nat} {edge : Edge} {j : Join}
    (h : ctx.join forced joined i edge = .ok j) :
    j.node = i ∧ j.source = edge.source ∧ j.table = ((ctx.nodes[i]?).map (·.table)).getD "" := by
  unfold Context.join at h
  cases edge with
  | fromOrigin o =>
      obtain ⟨link, -, h⟩ := Except.bind_eq_ok_iff.mp h
      obtain ⟨nodeColumn, -, h⟩ := Except.bind_eq_ok_iff.mp h
      obtain ⟨sourceColumn, -, h⟩ := Except.bind_eq_ok_iff.mp h
      cases h
      exact ⟨rfl, rfl, rfl⟩
  | fromChild c =>
      obtain ⟨link, -, h⟩ := Except.bind_eq_ok_iff.mp h
      obtain ⟨nodeColumn, -, h⟩ := Except.bind_eq_ok_iff.mp h
      obtain ⟨sourceColumn, -, h⟩ := Except.bind_eq_ok_iff.mp h
      cases h
      exact ⟨rfl, rfl, rfl⟩

/-- A node is joined on its origin as inner if it is forced, or if its origin is not
joined as left and its link is closed. -/
theorem forced_or_closed_of_join {i o : Nat} {j : Join}
    (h : ctx.join forced joined i (.fromOrigin o) = .ok j) (hkind : j.kind = .inner) :
    i ∈ forced ∨ joined.lookup o ≠ some .left ∧
      ∃ link, ctx.link? i = some link ∧ link.isOpen = false := by
  unfold Context.join at h
  obtain ⟨link, hlink, h⟩ := Except.bind_eq_ok_iff.mp h
  obtain ⟨nodeColumn, -, h⟩ := Except.bind_eq_ok_iff.mp h
  obtain ⟨sourceColumn, -, h⟩ := Except.bind_eq_ok_iff.mp h
  cases h
  dsimp only at hkind
  split at hkind
  · rename_i hforced
    exact .inl (List.contains_iff_mem.mp hforced)
  · split at hkind
    · cases hkind
    · rename_i hclosed
      simp only [Bool.or_eq_true, decide_eq_true_eq, not_or, Bool.not_eq_true] at hclosed
      exact .inr ⟨hclosed.1, link, link_eq_ok_iff.mp hlink, hclosed.2⟩

/-- A forced node is joined as inner, as every node is that is joined on its child. -/
theorem kind_of_forced {i : Nat} {edge : Edge} {j : Join}
    (h : ctx.join forced joined i edge = .ok j) (hi : i ∈ forced) : j.kind = .inner := by
  unfold Context.join at h
  cases edge with
  | fromOrigin o =>
      obtain ⟨link, -, h⟩ := Except.bind_eq_ok_iff.mp h
      obtain ⟨nodeColumn, -, h⟩ := Except.bind_eq_ok_iff.mp h
      obtain ⟨sourceColumn, -, h⟩ := Except.bind_eq_ok_iff.mp h
      cases h
      exact if_pos (List.contains_iff_mem.mpr hi)
  | fromChild c =>
      obtain ⟨link, -, h⟩ := Except.bind_eq_ok_iff.mp h
      obtain ⟨nodeColumn, -, h⟩ := Except.bind_eq_ok_iff.mp h
      obtain ⟨sourceColumn, -, h⟩ := Except.bind_eq_ok_iff.mp h
      cases h
      rfl

theorem followsEdge_of_join {i : Nat} {edge : Edge} {j : Join}
    (hedge : ctx.edge? joined i = some edge) (h : ctx.join forced joined i edge = .ok j) :
    ctx.FollowsEdge j := by
  unfold Context.join at h
  cases edge with
  | fromOrigin o =>
      obtain ⟨link, hlink, h⟩ := Except.bind_eq_ok_iff.mp h
      obtain ⟨nodeColumn, hnode, h⟩ := Except.bind_eq_ok_iff.mp h
      obtain ⟨sourceColumn, hsource, h⟩ := Except.bind_eq_ok_iff.mp h
      cases h
      have hlink := link_eq_ok_iff.mp hlink
      have horigin : o = link.origin := by
        have ho := (edge?_eq_fromOrigin hedge).1
        rw [origin?, hlink] at ho
        exact (Option.some.inj ho).symm
      exact .down hlink horigin hnode hsource
  | fromChild c =>
      obtain ⟨link, hlink, h⟩ := Except.bind_eq_ok_iff.mp h
      obtain ⟨nodeColumn, hnode, h⟩ := Except.bind_eq_ok_iff.mp h
      obtain ⟨sourceColumn, hsource, h⟩ := Except.bind_eq_ok_iff.mp h
      cases h
      have hlink := link_eq_ok_iff.mp hlink
      have horigin : i = link.origin := by
        have ho := (edge?_eq_fromChild hedge).1
        rw [origin?, hlink] at ho
        exact (Option.some.inj ho).symm
      exact .up hlink horigin hnode hsource

theorem FollowsEdge.grows {j : Join} (h : ctx.FollowsEdge j) (hgrows : ctx.Grows ctx') :
    ctx'.FollowsEdge j := by
  cases h with
  | down hlink hsource hnode hcol =>
      exact .down (hgrows.link? hlink) hsource (columnName_grows hgrows hnode)
        (columnName_grows hgrows hcol)
  | up hlink hnode hcol hsource =>
      exact .up (hgrows.link? hlink) hnode (columnName_grows hgrows hcol)
        (columnName_grows hgrows hsource)

/-! ## Runs of joins -/

/-- The joins that are made from joined nodes for remaining ones, step by step. -/
inductive JoinRun (ctx : Context) (forced : List Nat) :
    List (Nat × JoinKind) → List Nat → List Join → Prop
  | done (joined : List (Nat × JoinKind)) : JoinRun ctx forced joined [] []
  | step {joined : List (Nat × JoinKind)} {remaining others : List Nat} {i : Nat} {edge : Edge}
      {j : Join} {js : List Join} (hperm : remaining.Perm (i :: others))
      (hedge : ctx.edge? joined i = some edge) (hjoin : ctx.join forced joined i edge = .ok j)
      (hrest : JoinRun ctx forced (joined ++ [(i, j.kind)]) others js) :
      JoinRun ctx forced joined remaining (j :: js)

theorem joins_of_pick?_eq_some {remaining others : List Nat} {i : Nat} {edge : Edge}
    (h : pick? (ctx.edge? joined) remaining = some (i, edge, others)) :
    ctx.joins forced joined remaining = (do
      let join ← ctx.join forced joined i edge
      return join :: (← ctx.joins forced (joined ++ [(i, join.kind)]) others)) := by
  rw [joins]
  split
  · rename_i hsome
    cases h.symm.trans hsome
    rfl
  · rename_i hnone
    cases h.symm.trans hnone

theorem joins_of_pick?_eq_none {remaining : List Nat}
    (h : pick? (ctx.edge? joined) remaining = none) :
    ctx.joins forced joined remaining =
      if remaining.isEmpty then .ok [] else .error (.unsupported .disconnected) := by
  rw [joins]
  split
  · rename_i hsome
    cases h.symm.trans hsome
  · rfl

theorem joinRun_of_joins {remaining : List Nat} {js : List Join}
    (h : ctx.joins forced joined remaining = .ok js) : ctx.JoinRun forced joined remaining js := by
  induction hn : remaining.length using Nat.strongRecOn generalizing joined remaining js with
  | ind n ih =>
      cases hpick : pick? (ctx.edge? joined) remaining with
      | some picked =>
          obtain ⟨i, edge, others⟩ := picked
          rw [joins_of_pick?_eq_some hpick] at h
          obtain ⟨hedge, hperm⟩ := pick?_eq_some hpick
          obtain ⟨j, hjoin, h⟩ := Except.bind_eq_ok_iff.mp h
          obtain ⟨js', hrest, h⟩ := Except.bind_eq_ok_iff.mp h
          cases h
          have hlt : others.length < n := by
            have := length_of_pick? hpick
            omega
          exact .step hperm hedge hjoin (ih _ hlt hrest rfl)
      | none =>
          rw [joins_of_pick?_eq_none hpick] at h
          by_cases hnil : remaining = []
          · rw [hnil] at h
            cases h
            exact hnil ▸ .done joined
          · simp [hnil] at h

namespace JoinRun

variable {remaining : List Nat} {js : List Join}

theorem nodes_perm (h : ctx.JoinRun forced joined remaining js) :
    (js.map (·.node)).Perm remaining := by
  induction h with
  | done => exact List.Perm.refl _
  | step hperm _ hjoin _ ih =>
      rw [List.map_cons, (join_eq_ok hjoin).1]
      exact (ih.cons _).trans hperm.symm

theorem source_mem (h : ctx.JoinRun forced joined remaining js) {pre post : List Join} {j : Join}
    (hj : js = pre ++ j :: post) : j.source ∈ joined.map (·.1) ++ pre.map (·.node) := by
  induction h generalizing pre with
  | done => simp at hj
  | @step joined remaining others i edge j₀ js hperm hedge hjoin _ ih =>
      obtain ⟨hnode, hsource, -⟩ := join_eq_ok hjoin
      cases pre with
      | nil =>
          obtain ⟨rfl, -⟩ := List.cons.inj hj
          rw [hsource]
          simpa using source_mem_of_edge? hedge
      | cons j₁ pre =>
          obtain ⟨rfl, hrest⟩ := List.cons.inj hj
          have := ih hrest
          simpa [hnode] using this

theorem followsEdge (h : ctx.JoinRun forced joined remaining js) :
    ∀ j ∈ js, ctx.FollowsEdge j := by
  induction h with
  | done => simp
  | step _ hedge hjoin _ ih =>
      intro j hj
      rcases List.mem_cons.mp hj with rfl | hj
      · exact followsEdge_of_join hedge hjoin
      · exact ih j hj

theorem inner_of_forced (h : ctx.JoinRun forced joined remaining js) :
    ∀ j ∈ js, j.node ∈ forced → j.kind = .inner := by
  induction h with
  | done => simp
  | step _ _ hjoin _ ih =>
      intro j hj hforced
      rcases List.mem_cons.mp hj with rfl | hj
      · exact kind_of_forced hjoin ((join_eq_ok hjoin).1 ▸ hforced)
      · exact ih j hj hforced

end JoinRun

end Context

/-! ## Plans are join trees -/

/-- Every node of a plan is there once, and joined on a node that is there before. -/
structure Plan.Ordered (p : Plan) : Prop where
  nodup : p.nodes.Nodup
  source : ∀ pre j post, p.joins = pre ++ j :: post → j.source ∈ p.base.node :: pre.map (·.node)

/-- What the joins of a plan are in a context: they start at the base, join every
needed node once and each over an edge from a node that is there already. -/
structure Plan.IsJoinTree (ctx : Context) (p : Plan) : Prop extends p.Ordered where
  edge : ∀ j ∈ p.joins, ctx.FollowsEdge j
  nodes : ∀ i, i ∈ p.nodes ↔ p.Needs ctx i

theorem Plan.IsJoinTree.mem_of_filterOnly {ctx : Context} {p : Plan} (h : p.IsJoinTree ctx)
    {f : Nat} (hf : f ∈ p.filterOnlyNodes) : f ≠ p.target ∧ f ∈ p.nodes := by
  obtain ⟨hreferenced, filter, hfilter, c, hc, rfl⟩ := Draft.mem_filterOnlyNodes.mp hf
  refine ⟨fun heq => ?_, (h.nodes _).mpr (.filtered hfilter hc)⟩
  exact hreferenced (Draft.mem_referencedNodes.mpr (.inl heq))

namespace Context

variable {ctx ctx' : Context} {d : Draft} {p : Plan}

def base (d : Draft) (c : Closure) : Nat :=
  c.nodes.headD d.target

/-- The nodes between the base and the target, and the target, if that is not the base. -/
def basePath (ctx : Context) (d : Draft) (c : Closure) : List Nat :=
  if base d c = d.target then [] else d.target :: ctx.ancestorsUntil (base d c) d.target

/-- A plan, by the key of its target, its closure, its joins and the table that they start from. -/
theorem plan_eq_ok_iff :
    ctx.plan d = .ok p ↔ ∃ key c js n, ctx.keyColumn d.target = .ok key ∧ ctx.closure d = .ok c ∧
      ctx.joins (ctx.basePath d c ++ c.forced) [(base d c, .inner)] (c.nodes.erase (base d c)) =
        .ok js ∧
      ctx.nodes[base d c]? = some n ∧
      p = { d with
        targetKey := key
        base := { node := base d c, entity := n.entity, table := n.table }
        joins := js
        invertedNodes := c.nodes.filter fun i => i ≠ d.target && ctx.isInverse i } := by
  unfold plan
  constructor
  · intro h
    obtain ⟨key, hkey, h⟩ := Except.bind_eq_ok_iff.mp h
    obtain ⟨c, hc, h⟩ := Except.bind_eq_ok_iff.mp h
    obtain ⟨js, hjs, h⟩ := Except.bind_eq_ok_iff.mp h
    obtain ⟨n, hn, h⟩ := Except.bind_eq_ok_iff.mp h
    cases h
    exact ⟨key, c, js, n, hkey, hc, hjs, node_eq_ok_iff.mp (Except.mapError_eq_ok_iff.mp hn), rfl⟩
  · rintro ⟨key, c, js, n, hkey, hc, hjs, hn, rfl⟩
    refine Except.bind_eq_ok_iff.mpr ⟨key, hkey, Except.bind_eq_ok_iff.mpr ⟨c, hc, ?_⟩⟩
    refine Except.bind_eq_ok_iff.mpr ⟨js, hjs, Except.bind_eq_ok_iff.mpr ⟨n, ?_, rfl⟩⟩
    exact Except.mapError_eq_ok_iff.mpr (node_eq_ok_iff.mpr hn)

/-- A plan, in terms of the closure of its draft and the run of its joins. -/
theorem plan_eq_ok (h : ctx.plan d = .ok p) :
    ∃ c, ctx.closure d = .ok c ∧ p.toDraft = d ∧ p.base.node = base d c ∧
      ctx.JoinRun (ctx.basePath d c ++ c.forced) [(base d c, .inner)] (c.nodes.erase (base d c))
        p.joins ∧
      ∃ n, ctx.nodes[p.base.node]? = some n ∧ n.table = p.base.table := by
  obtain ⟨key, c, js, n, -, hc, hjs, hn, rfl⟩ := plan_eq_ok_iff.mp h
  exact ⟨c, hc, rfl, rfl, joinRun_of_joins hjs, n, hn, rfl⟩

/-- The base is one of the nodes of the closure, which has the target at least. -/
theorem base_mem (harena : ctx.Arena) {c : Closure} (hc : ctx.closure d = .ok c) :
    base d c ∈ c.nodes := by
  have htarget : d.target ∈ c.nodes := (mem_closure_iff harena hc).mpr .target
  unfold base
  cases hnodes : c.nodes with
  | nil => simp [hnodes] at htarget
  | cons a rest => simp

theorem nodes_perm_of_plan (harena : ctx.Arena) (h : ctx.plan d = .ok p) :
    ∃ c, ctx.closure d = .ok c ∧ p.nodes.Perm c.nodes := by
  obtain ⟨c, hc, hdraft, hbase, hrun, -⟩ := plan_eq_ok h
  refine ⟨c, hc, ?_⟩
  rw [Plan.nodes, hbase]
  exact (hrun.nodes_perm.cons _).trans (List.perm_cons_erase (base_mem harena hc)).symm

theorem isJoinTree_of_plan (harena : ctx.Arena) (h : ctx.plan d = .ok p) : p.IsJoinTree ctx := by
  obtain ⟨c, hc, hperm⟩ := nodes_perm_of_plan harena h
  obtain ⟨c', hc', rfl, hbase, hrun, -⟩ := plan_eq_ok h
  obtain rfl : c = c' := Except.ok.inj (hc.symm.trans hc')
  refine ⟨⟨?nodup, ?source⟩, ?edge, ?nodes⟩
  case nodup => exact hperm.nodup_iff.mpr (nodup_closure hc)
  case source =>
    intro pre j post hj
    simpa [hbase] using hrun.source_mem hj
  case edge => exact hrun.followsEdge
  case nodes => exact fun i => hperm.mem_iff.trans (mem_closure_iff harena hc)

/-- A plan joins the nodes that only its filter refers to as inner. -/
theorem inner_of_filterOnly (h : ctx.plan d = .ok p) :
    ∀ j ∈ p.joins, j.node ∈ d.filterOnlyNodes → j.kind = .inner := by
  obtain ⟨c, hc, -, -, hrun, -⟩ := plan_eq_ok h
  intro j hj hf
  exact hrun.inner_of_forced j hj (List.mem_append_right _ (filterOnly_forced hc _ hf))

/-- What is needed lies below the target. -/
theorem isAncestorOrSelf_of_needs (harena : ctx.Arena) {c : Closure} (hc : ctx.closure d = .ok c)
    {i : Nat} (hi : d.Needs ctx i) : ctx.isAncestorOrSelf d.target i := by
  refine of_needs hi (nodes_closure hc).2 ?_
  exact fun i o ih hne ho => (harena.isAncestorOrSelf_iff ho hne).mp ih

theorem exists_node_of_needs (harena : ctx.Arena) (h : ctx.plan d = .ok p) {i : Nat}
    (hi : d.Needs ctx i) : ∃ n, ctx.nodes[i]? = some n := by
  obtain ⟨c, hc, -⟩ := plan_eq_ok h
  by_cases htarget : i = d.target
  · unfold plan keyColumn at h
    obtain ⟨targetKey, hkey, -⟩ := Except.bind_eq_ok_iff.mp h
    obtain ⟨t, ht, -⟩ := Except.bind_eq_ok_iff.mp hkey
    obtain ⟨n, hn, -⟩ := table_eq_ok_iff.mp (Except.mapError_eq_ok_iff.mp ht)
    exact ⟨n, htarget ▸ hn⟩
  · obtain ⟨o, ho⟩ :=
      exists_origin_of_isAncestorOrSelf (isAncestorOrSelf_of_needs harena hc hi) htarget
    obtain ⟨link, hlink, -⟩ := Option.map_eq_some_iff.mp ho
    obtain ⟨n, hn, -⟩ := Option.bind_eq_some_iff.mp hlink
    exact ⟨n, hn⟩

theorem needs_grows (hgrows : ctx.Grows ctx')
    (hknown : ∀ {i}, d.Needs ctx i → ∃ n, ctx.nodes[i]? = some n) {i : Nat} :
    d.Needs ctx i ↔ d.Needs ctx' i := by
  constructor
  · intro h
    induction h with
    | target => exact .target
    | selected hc => exact .selected hc
    | ordered ht => exact .ordered ht
    | restricted hr => exact .restricted hr
    | filtered hf hc => exact .filtered hf hc
    | origin _ hne ho ih => exact .origin ih hne (hgrows.origin? ho)
  · intro h
    induction h with
    | target => exact .target
    | selected hc => exact .selected hc
    | ordered ht => exact .ordered ht
    | restricted hr => exact .restricted hr
    | filtered hf hc => exact .filtered hf hc
    | @origin j o _ hne ho ih =>
        obtain ⟨n, hn⟩ := hknown ih
        rw [origin?, hgrows.link?_eq hn] at ho
        exact .origin ih hne ho

/-- A plan is a join tree of the context that it is made in, and of every context
that this one grows into. -/
theorem isJoinTree_of_plan_of_grows (harena : ctx.Arena) (h : ctx.plan d = .ok p)
    (hgrows : ctx.Grows ctx') : p.IsJoinTree ctx' := by
  obtain ⟨hordered, hedge, hnodes⟩ := isJoinTree_of_plan harena h
  obtain ⟨c, hc, rfl, -⟩ := plan_eq_ok h
  have hneeds := @needs_grows ctx ctx' p.toDraft hgrows (exists_node_of_needs harena h)
  exact ⟨hordered, fun j hj => (hedge j hj).grows hgrows, fun i => (hnodes i).trans hneeds⟩

end Context

end EntityMap
