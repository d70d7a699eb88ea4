import EntityMap.Proofs.Query.Invariant
import EntityMap.Proofs.Relation.Reference
import Mathlib

/-!
# The kinds of joins

Which nodes of a plan are joined as inner and which as left
(`Plan.JoinsByNeed`). The target and the nodes that the filter forces are
joined as inner: those that nothing but the filter refers to, and those
between them and the target (`Context.Forced`). Any other node hangs on its
origin and is left exactly when its link is open or its origin is left.

The nodes that a closure forces are collected while its list is filled, and
only from nodes that are new in it. The filter's nodes come first, so as
long as only they are visited everything in the list is forced
(`Context.subset_forced_of_foldlM`), and what comes later forces nothing
more: the collected nodes are exactly the forced ones
(`Context.mem_forced_closure_iff`). How a node is joined is then read off
the step that joins it (`Context.JoinRun.step_of_mem`).

The main statement is `Context.Planned.joinsByNeed`.
-/

namespace EntityMap

/-- A node that the filter of a draft refers to and that nothing else in it does. -/
structure Draft.FilterOnly (d : Draft) (i : Nat) : Prop where
  filtered : ∃ filter, d.filter = some filter ∧ ∃ c ∈ filter.members, c.node = i
  target : i ≠ d.target
  select : ∀ c ∈ d.select, c.node ≠ i
  orderBy : ∀ term ∈ d.orderBy, term.column.node ≠ i
  keyRestriction : ∀ r, d.keyRestriction = some r → r.column.node ≠ i

theorem Draft.filterOnly_iff {d : Draft} {i : Nat} : d.FilterOnly i ↔ i ∈ d.filterOnlyNodes := by
  rw [mem_filterOnlyNodes, mem_referencedNodes]
  constructor
  · rintro ⟨hfiltered, htarget, hselect, horder, hkeys⟩
    refine ⟨?_, hfiltered⟩
    rintro (h | ⟨c, hc, h⟩ | ⟨term, hterm, h⟩ | ⟨r, hr, h⟩)
    · exact htarget h
    · exact hselect c hc h
    · exact horder term hterm h
    · exact hkeys r hr h
  · rintro ⟨hreferenced, hfiltered⟩
    refine ⟨hfiltered, fun h => hreferenced (.inl h), fun c hc h => ?_, fun term hterm h => ?_,
      fun r hr h => ?_⟩
    · exact hreferenced (.inr (.inl ⟨c, hc, h⟩))
    · exact hreferenced (.inr (.inr (.inl ⟨term, hterm, h⟩)))
    · exact hreferenced (.inr (.inr (.inr ⟨r, hr, h⟩)))

namespace Context

variable {ctx ctx' : Context} {d : Draft} {c c' : Closure} {p : Plan}

/-- A node that only the filter refers to, or one strictly between such a node and the target. -/
inductive Forced (ctx : Context) (d : Draft) (i : Nat) : Prop
  | only (h : d.FilterOnly i) : Forced ctx d i
  | between {f : Nat} (hf : d.FilterOnly f) (hi : i ∈ ctx.ancestors f)
      (htarget : d.target ∈ ctx.ancestors i) : Forced ctx d i

/-! ## The nodes above a node -/

namespace Arena

theorem exists_origin_of_mem_ancestors (harena : ctx.Arena) {i j : Nat}
    (hj : j ∈ ctx.ancestors i) :
    ∃ o, ctx.origin? i = some o ∧ (j = o ∨ j ∈ ctx.ancestors o) := by
  cases ho : ctx.origin? i with
  | none => simp [ancestors_of_origin?_eq_none ho] at hj
  | some o =>
      rw [harena.ancestors_eq ho] at hj
      exact ⟨o, rfl, List.mem_cons.mp hj⟩

theorem lt_of_mem_ancestors (harena : ctx.Arena) {i j : Nat} (hj : j ∈ ctx.ancestors i) :
    j < i := by
  induction i using Nat.strongRecOn with
  | ind i ih =>
      obtain ⟨o, ho, hj⟩ := harena.exists_origin_of_mem_ancestors hj
      have hlt := harena.origin_lt ho
      rcases hj with rfl | hj
      · exact hlt
      · exact Nat.lt_trans (ih o hlt hj) hlt

theorem mem_ancestors_trans (harena : ctx.Arena) {i j k : Nat} (hj : j ∈ ctx.ancestors i)
    (hk : k ∈ ctx.ancestors j) : k ∈ ctx.ancestors i := by
  induction i using Nat.strongRecOn with
  | ind i ih =>
      obtain ⟨o, ho, hj⟩ := harena.exists_origin_of_mem_ancestors hj
      rw [harena.ancestors_eq ho]
      refine List.mem_cons_of_mem _ ?_
      rcases hj with rfl | hj
      · exact hk
      · exact ih o (harena.origin_lt ho) hj

/-- The walk up to a target passes the nodes strictly between the two. -/
theorem mem_ancestorsUntil_iff (harena : ctx.Arena) {target f i : Nat}
    (hf : ctx.isAncestorOrSelf target f) (hne : f ≠ target) :
    i ∈ ctx.ancestorsUntil f target ↔ i ∈ ctx.ancestors f ∧ target ∈ ctx.ancestors i := by
  revert hne
  refine harena.walk_induction (P := fun f => f ≠ target → (i ∈ ctx.ancestorsUntil f target ↔
    i ∈ ctx.ancestors f ∧ target ∈ ctx.ancestors i)) (fun hne => absurd rfl hne) ?_ hf
  intro f o _ ho hbelow ih _
  rw [harena.ancestorsUntil_eq ho, harena.ancestors_eq ho]
  by_cases hstop : o = target
  · rw [if_pos hstop, List.mem_cons, hstop]
    refine ⟨fun h => absurd h List.not_mem_nil, ?_⟩
    rintro ⟨rfl | hi, htarget⟩
    · exact absurd (harena.lt_of_mem_ancestors htarget) (Nat.lt_irrefl _)
    · have := harena.lt_of_mem_ancestors hi
      have := harena.lt_of_mem_ancestors htarget
      omega
  · rw [if_neg hstop, List.mem_cons, List.mem_cons, ih hstop]
    have hpast : target ∈ ctx.ancestors o := by
      simpa [isAncestorOrSelf, Ne.symm hstop] using hbelow
    constructor
    · rintro (rfl | ⟨hi, htarget⟩)
      · exact ⟨.inl rfl, hpast⟩
      · exact ⟨.inr hi, htarget⟩
    · rintro ⟨rfl | hi, htarget⟩
      · exact .inl rfl
      · exact .inr ⟨hi, htarget⟩

theorem exists_node_of_mem_ancestors (harena : ctx.Arena) {i j : Nat}
    (hj : j ∈ ctx.ancestors i) : ∃ n, ctx.nodes[j]? = some n := by
  induction i using Nat.strongRecOn with
  | ind i ih =>
      obtain ⟨o, ho, hj⟩ := harena.exists_origin_of_mem_ancestors hj
      rcases hj with rfl | hj
      · obtain ⟨link, hlink, rfl⟩ := Option.map_eq_some_iff.mp ho
        obtain ⟨n, origin, -, hangs⟩ := harena.hangs_of_link? hlink
        exact ⟨origin, hangs.origin_eq⟩
      · exact ih o (harena.origin_lt ho) hj

end Arena

/-- What is above a node stays so. -/
theorem Grows.ancestors_eq (hgrows : ctx.Grows ctx') (harena : ctx.Arena) {i : Nat} {n : Node}
    (hn : ctx.nodes[i]? = some n) : ctx'.ancestors i = ctx.ancestors i := by
  induction i using Nat.strongRecOn generalizing n with
  | ind i ih =>
      cases ho : ctx.origin? i with
      | none =>
          have ho' : ctx'.origin? i = none := by
            unfold Context.origin? at ho ⊢
            rw [hgrows.link?_eq hn, ho]
          rw [ancestors_of_origin?_eq_none ho, ancestors_of_origin?_eq_none ho']
      | some o =>
          obtain ⟨link, hlink, rfl⟩ := Option.map_eq_some_iff.mp ho
          obtain ⟨_, origin, -, hangs⟩ := harena.hangs_of_link? hlink
          rw [(harena.grows hgrows).ancestors_eq (hgrows.origin? ho), harena.ancestors_eq ho,
            ih link.origin hangs.lt hangs.origin_eq]

/-! ## What a closure forces -/

theorem forced_iff_filterBound (harena : ctx.Arena) (hc : ctx.closure d = .ok c) {i : Nat} :
    ctx.Forced d i ↔ ctx.FilterBound d i := by
  have hbetween : ∀ {f}, d.FilterOnly f → (i ∈ ctx.ancestorsUntil f d.target ↔
      i ∈ ctx.ancestors f ∧ d.target ∈ ctx.ancestors i) := fun hf =>
    harena.mem_ancestorsUntil_iff (filterOnly_below hc _ (Draft.filterOnly_iff.mp hf)) hf.target
  constructor
  · rintro (h | ⟨hf, hi, htarget⟩)
    · exact ⟨i, Draft.filterOnly_iff.mp h, List.mem_cons_self ..⟩
    · exact ⟨_, Draft.filterOnly_iff.mp hf,
        List.mem_cons_of_mem _ ((hbetween hf).mpr ⟨hi, htarget⟩)⟩
  · rintro ⟨f, hf, hmem⟩
    have hf := Draft.filterOnly_iff.mpr hf
    rcases List.mem_cons.mp hmem with rfl | hmem
    · exact .only hf
    · obtain ⟨hi, htarget⟩ := (hbetween hf).mp hmem
      exact .between hf hi htarget

theorem subset_forced_foldl {i : Nat} {between : List Nat} (hi : i ∈ c.forced)
    (h : ∀ j ∈ c.nodes, j ∈ c.forced) :
    ∀ j ∈ (between.foldl (·.insertAbove i) c).nodes,
      j ∈ (between.foldl (·.insertAbove i) c).forced := by
  induction between generalizing c with
  | nil => exact h
  | cons a rest ih =>
      have hstep : ∀ j ∈ (c.insertAbove i a).nodes, j ∈ (c.insertAbove i a).forced := by
        unfold Closure.insertAbove
        split
        · exact h
        · intro j hj
          simp only [List.contains_iff_mem, hi, if_true]
          rcases List.mem_append.mp hj with hj | hj
          · exact List.mem_append_left _ (h j hj)
          · exact List.mem_append_right _ hj
      have hstays : i ∈ ([a].foldl (·.insertAbove i) c).forced := mem_forced_foldl_insertAbove hi
      exact ih hstays hstep

/-- One step: a forced node adds forced nodes only, and what is forced stays so. -/
theorem subset_forced_close {target i : Nat} (hclose : ctx.close target c i = .ok c')
    (hi : i ∈ c.forced) (h : ∀ j ∈ c.nodes, j ∈ c.forced) : ∀ j ∈ c'.nodes, j ∈ c'.forced := by
  obtain ⟨-, rfl⟩ := close_eq_ok_iff.mp hclose
  generalize (if i = target then [] else (ctx.ancestorsUntil i target).reverse) = between
  have hmem : ∀ j ∈ (between.foldl (·.insertAbove i) c).nodes,
      j ∈ (between.foldl (·.insertAbove i) c).forced := subset_forced_foldl hi h
  intro j hj
  rw [forced_insert]
  unfold Closure.insert at hj
  split at hj
  · exact hmem j hj
  · rcases List.mem_append.mp hj with hj | hj
    · exact hmem j hj
    · obtain rfl := List.mem_singleton.mp hj
      exact mem_forced_foldl_insertAbove hi

theorem mem_forced_close {target i j : Nat} (hclose : ctx.close target c i = .ok c')
    (hj : j ∈ c.forced) : j ∈ c'.forced := by
  obtain ⟨-, rfl⟩ := close_eq_ok_iff.mp hclose
  rw [forced_insert]
  exact mem_forced_foldl_insertAbove hj

theorem mem_forced_foldlM {target j : Nat} {l : List Nat}
    (hfold : l.foldlM (ctx.close target) c = .ok c') (hj : j ∈ c.forced) : j ∈ c'.forced := by
  induction l generalizing c with
  | nil =>
      cases hfold
      exact hj
  | cons i rest ih =>
      rw [List.foldlM_cons] at hfold
      obtain ⟨c₁, hclose, hrest⟩ := Except.bind_eq_ok_iff.mp hfold
      exact ih hrest (mem_forced_close hclose hj)

/-- As long as only forced nodes are visited, everything in the list is forced. -/
theorem subset_forced_of_foldlM {target : Nat} {l : List Nat}
    (hfold : l.foldlM (ctx.close target) c = .ok c') (hl : ∀ i ∈ l, i ∈ c.forced)
    (h : ∀ j ∈ c.nodes, j ∈ c.forced) : ∀ j ∈ c'.nodes, j ∈ c'.forced := by
  induction l generalizing c with
  | nil =>
      cases hfold
      exact h
  | cons i rest ih =>
      rw [List.foldlM_cons] at hfold
      obtain ⟨c₁, hclose, hrest⟩ := Except.bind_eq_ok_iff.mp hfold
      exact ih hrest (fun k hk => mem_forced_close hclose (hl k (List.mem_cons_of_mem _ hk)))
        (subset_forced_close hclose (hl i (List.mem_cons_self ..)) h)

/-- The nodes between the target and a node of the filter alone are forced with it. -/
theorem filterBound_forced (h : ctx.closure d = .ok c) {i : Nat} (hi : ctx.FilterBound d i) :
    i ∈ c.forced := by
  unfold closure at h
  dsimp only at h
  rw [List.foldlM_append] at h
  obtain ⟨c₁, hfilter, hothers⟩ := Except.bind_eq_ok_iff.mp h
  refine mem_forced_foldlM hothers (subset_forced_of_foldlM hfilter (fun _ h => h) (by simp) i ?_)
  obtain ⟨f, hf, hmem⟩ := hi
  rw [(nodes_foldlM_close List.eraseDups_nil.symm hfilter).1, List.mem_eraseDups, List.nil_append,
    List.mem_flatMap]
  refine ⟨f, mem_byLevel.mpr hf, mem_way.mpr ?_⟩
  have hne : f ≠ d.target := (Draft.filterOnly_iff.mpr hf).target
  exact (List.mem_cons.mp hmem).imp_right fun h => ⟨hne, h⟩

theorem mem_forced_closure_iff (harena : ctx.Arena) (h : ctx.closure d = .ok c) {i : Nat} :
    i ∈ c.forced ↔ ctx.Forced d i := by
  rw [forced_iff_filterBound harena h]
  exact ⟨forced_closure harena h i, filterBound_forced h⟩

/-! ## How one node is joined -/

/-- The step that makes a join of a run: what is joined before it is what the run starts with
and what the joins before it join. -/
theorem JoinRun.step_of_mem {forced remaining : List Nat} {joined : List (Nat × JoinKind)}
    {js pre post : List Join} {j : Join} (h : ctx.JoinRun forced joined remaining js)
    (hj : js = pre ++ j :: post) :
    ∃ edge, ctx.edge? (joined ++ pre.map fun j => (j.node, j.kind)) j.node = some edge ∧
      ctx.join forced (joined ++ pre.map fun j => (j.node, j.kind)) j.node edge = .ok j := by
  induction h generalizing pre with
  | done => simp at hj
  | @step joined remaining others i edge j₀ js hperm hedge hjoin _ ih =>
      obtain ⟨rfl, -⟩ := join_eq_ok hjoin
      cases pre with
      | nil =>
          obtain ⟨rfl, -⟩ := List.cons.inj hj
          exact ⟨edge, by simpa using hedge, by simpa using hjoin⟩
      | cons j₁ pre =>
          obtain ⟨rfl, hrest⟩ := List.cons.inj hj
          simpa using ih hrest

/-- A node that is not forced and joined on its origin is left when the origin is or the link is
open. -/
theorem kind_eq_left_iff_of_join {forced : List Nat} {joined : List (Nat × JoinKind)} {i o : Nat}
    {j : Join} {link : Link} (h : ctx.join forced joined i (.fromOrigin o) = .ok j)
    (hlink : ctx.link? i = some link) (hi : i ∉ forced) :
    j.kind = .left ↔ joined.lookup o = some .left ∨ link.isOpen := by
  unfold Context.join at h
  obtain ⟨link', hlink', h⟩ := Except.bind_eq_ok_iff.mp h
  obtain rfl : link = link' := Option.some.inj (hlink.symm.trans (link_eq_ok_iff.mp hlink'))
  obtain ⟨nodeColumn, -, h⟩ := Except.bind_eq_ok_iff.mp h
  obtain ⟨sourceColumn, -, h⟩ := Except.bind_eq_ok_iff.mp h
  cases h
  dsimp only
  rw [if_neg (fun h => hi (List.contains_iff_mem.mp h))]
  split
  · rename_i hopen
    simpa using hopen
  · rename_i hclosed
    simpa using hclosed

end Context

/-! ## The joins of a plan -/

namespace Plan.Ordered

variable {p : Plan} {j j' : Join}

theorem node_ne_base (h : p.Ordered) (hj : j ∈ p.joins) : j.node ≠ p.base.node := fun heq =>
  (List.nodup_cons.mp h.nodup).1 (heq ▸ List.mem_map_of_mem hj)

/-- Each node is joined once. -/
theorem eq_of_node (h : p.Ordered) (hj : j ∈ p.joins) (hj' : j' ∈ p.joins)
    (hnode : j.node = j'.node) : j = j' :=
  List.inj_on_of_nodup_map (List.nodup_cons.mp h.nodup).2 hj hj' hnode

end Plan.Ordered

/-- What decides how the nodes of a plan are joined. -/
structure Plan.JoinsByNeed (ctx : Context) (p : Plan) : Prop where
  /-- The target and the forced nodes are joined as inner. -/
  inner : ∀ j ∈ p.joins, j.node = p.target ∨ ctx.Forced p.toDraft j.node → j.kind = .inner
  /-- Any other node is joined on its origin: as left when one has many rows of it or its foreign
  key may be null, and when the origin is joined as left itself. -/
  left_iff : ∀ j ∈ p.joins, j.node ≠ p.target → ¬ ctx.Forced p.toDraft j.node →
    ∃ link, ctx.link? j.node = some link ∧ j.source = link.origin ∧
      (j.kind = .left ↔ link.traversal = .inverse ∨ link.nullable ∨
        ∃ above ∈ p.joins, above.node = link.origin ∧ above.kind = .left)
  /-- No forced node hangs below a node that is joined as left. -/
  above : ∀ f, ctx.Forced p.toDraft f → ∀ j ∈ p.joins, j.node ∈ ctx.ancestors f → j.kind = .inner
  /-- In a plan on the root the nodes with nothing forced above them are joined as their context
  says. -/
  root : p.target = Context.root → ∀ j ∈ p.joins,
    (∀ i ∈ j.node :: ctx.ancestors j.node, ¬ ctx.Forced p.toDraft i) →
      ∃ n, ctx.nodes[j.node]? = some n ∧ j.kind = n.joinKind

namespace Context

variable {ctx ctx' : Context} {d : Draft} {p : Plan}

/-- What is joined and not the target lies below it. -/
theorem target_mem_ancestors_of_plan (harena : ctx.Arena) (hplan : ctx.plan d = .ok p) {j : Join}
    (hj : j ∈ p.joins) (hne : j.node ≠ d.target) : d.target ∈ ctx.ancestors j.node := by
  have htree := isJoinTree_of_plan harena hplan
  obtain ⟨c, hc, rfl, -⟩ := plan_eq_ok hplan
  have hneeds := (htree.nodes j.node).mp (List.mem_cons_of_mem _ (List.mem_map_of_mem hj))
  simpa [isAncestorOrSelf, Ne.symm hne] using isAncestorOrSelf_of_needs harena hc hneeds

/-- What is joined when a join is made has the kind that the plan gives it. -/
theorem lookup_joined_iff (hordered : p.Ordered) {pre post : List Join} {j : Join} {o : Nat}
    (hsplit : p.joins = pre ++ j :: post) (ho : o ∈ p.base.node :: pre.map (·.node)) :
    ((p.base.node, JoinKind.inner) :: pre.map fun j => (j.node, j.kind)).lookup o = some .left ↔
      ∃ above ∈ p.joins, above.node = o ∧ above.kind = .left := by
  have hnodes : (((p.base.node, JoinKind.inner) :: pre.map fun j => (j.node, j.kind)).map
      (·.1)) = p.base.node :: pre.map (·.node) := by
    simp
  have hprefix : (p.base.node :: pre.map (·.node)).Sublist p.nodes := by
    rw [Plan.nodes, hsplit, List.map_append]
    exact (List.sublist_append_left _ _).cons_cons _
  have hnodup := hprefix.nodup hordered.nodup
  rw [lookup_eq_some_iff_mem (hnodes ▸ hnodup)]
  constructor
  · intro h
    rcases List.mem_cons.mp h with h | h
    · cases (Prod.mk.inj h).2
    · obtain ⟨above, habove, heq⟩ := List.mem_map.mp h
      obtain ⟨hnode, hkind⟩ := Prod.mk.inj heq
      exact ⟨above, hsplit ▸ List.mem_append_left _ habove, hnode, hkind⟩
  · rintro ⟨above, habove, rfl, hkind⟩
    rcases List.mem_cons.mp ho with hbase | hpre
    · exact absurd hbase (hordered.node_ne_base habove)
    · obtain ⟨above', hmem, hnode⟩ := List.mem_map.mp hpre
      obtain rfl := hordered.eq_of_node (hsplit ▸ List.mem_append_left _ hmem) habove hnode
      exact List.mem_cons_of_mem _ (List.mem_map.mpr ⟨above', hmem, hkind ▸ rfl⟩)

/-- The target and what the filter forces is joined as inner. -/
theorem inner_of_plan (harena : ctx.Arena) (hplan : ctx.plan d = .ok p) {j : Join}
    (hj : j ∈ p.joins) (hforced : j.node = d.target ∨ ctx.Forced d j.node) : j.kind = .inner := by
  have htree := isJoinTree_of_plan harena hplan
  obtain ⟨c, hc, -, hbase, hrun, -⟩ := plan_eq_ok hplan
  refine hrun.inner_of_forced j hj (List.mem_append.mpr ?_)
  rcases hforced with htarget | hforced
  · refine .inl ?_
    have hne : base d c ≠ d.target := by
      rw [← hbase, ← htarget]
      exact (htree.node_ne_base hj).symm
    rw [basePath, if_neg hne, htarget]
    exact List.mem_cons_self ..
  · exact .inr ((mem_forced_closure_iff harena hc).mpr hforced)

/-- Any other node is joined on its origin, and inherits its kind unless the link is open. -/
theorem left_iff_of_plan (harena : ctx.Arena) (hplan : ctx.plan d = .ok p) {j : Join}
    (hj : j ∈ p.joins) (hne : j.node ≠ d.target) (hfree : ¬ ctx.Forced d j.node) :
    ∃ link, ctx.link? j.node = some link ∧ j.source = link.origin ∧
      (j.kind = .left ↔ link.traversal = .inverse ∨ link.nullable ∨
        ∃ above ∈ p.joins, above.node = link.origin ∧ above.kind = .left) := by
  have htree := isJoinTree_of_plan harena hplan
  obtain ⟨c, hc, hdraft, hbase, hrun, -⟩ := plan_eq_ok hplan
  obtain ⟨pre, post, hsplit⟩ := List.append_of_mem hj
  obtain ⟨edge, hedge, hjoin⟩ := hrun.step_of_mem hsplit
  rw [List.singleton_append, ← hbase] at hedge hjoin
  have hsource := (join_eq_ok hjoin).2.1
  cases edge with
  | fromChild child =>
      -- only the target is joined on a node that hangs on it
      obtain ⟨hchild, -, -⟩ := edge?_eq_fromChild hedge
      rcases joins_of_plan harena hplan j hj with href | ⟨-, htarget, -⟩
      · have horigin : ctx.origin? j.node = some child := by
          rw [← show j.source = child from hsource]
          exact origin?_of_referenceJoin (j := j.asLeft) href
        have := harena.origin_lt horigin
        have := harena.origin_lt hchild
        omega
      · exact absurd (hdraft ▸ htarget) hne
  | fromOrigin o =>
      obtain ⟨ho, hmem⟩ := edge?_eq_fromOrigin hedge
      obtain ⟨link, hlink, rfl⟩ := Option.map_eq_some_iff.mp ho
      refine ⟨link, hlink, hsource, ?_⟩
      have hnot : j.node ∉ ctx.basePath d c ++ c.forced := fun h =>
        hfree ((forced_iff_filterBound harena hc).mpr
          ((filterBound_of_forced harena hc h).resolve_left hne))
      rw [kind_eq_left_iff_of_join hjoin hlink hnot,
        lookup_joined_iff htree.toOrdered hsplit (by simpa using hmem)]
      simp only [Link.isOpen, Bool.or_eq_true, decide_eq_true_eq]
      rw [or_comm, or_assoc]

/-- No forced node hangs below a left join. -/
theorem inner_above_of_plan (harena : ctx.Arena) (hplan : ctx.plan d = .ok p) {f : Nat} {j : Join}
    (hf : ctx.Forced d f) (hj : j ∈ p.joins) (habove : j.node ∈ ctx.ancestors f) :
    j.kind = .inner := by
  refine inner_of_plan harena hplan hj (Classical.or_iff_not_imp_left.mpr fun hne => ?_)
  have htarget := target_mem_ancestors_of_plan harena hplan hj hne
  cases hf with
  | only hf => exact .between hf habove htarget
  | between hf hi _ => exact .between hf (harena.mem_ancestors_trans hi habove) htarget

/-- Where a plan on the root starts at a node that is not forced, this is the root. -/
theorem joinKind_base_of_plan (harena : ctx.Arena)
    (hroot : ∃ n, ctx.nodes[0]? = some n ∧ n.joinKind = .inner) (hplan : ctx.plan d = .ok p)
    (htarget : d.target = root) (hfree : ¬ ctx.Forced d p.base.node) :
    ∃ n, ctx.nodes[p.base.node]? = some n ∧ n.joinKind = .inner := by
  obtain ⟨c, hc, -⟩ := plan_eq_ok hplan
  rcases base_of_plan harena hplan with hbase | ⟨-, hbound⟩
  · rw [hbase, htarget]
    exact hroot
  · exact absurd ((forced_iff_filterBound harena hc).mpr hbound) hfree

/-- In a plan on the root a node with nothing forced above it is joined as its context says. -/
theorem kind_eq_joinKind_of_plan (harena : ctx.Arena) (hjoined : ctx.Joined)
    (hroot : ∃ n, ctx.nodes[0]? = some n ∧ n.joinKind = .inner) (hplan : ctx.plan d = .ok p)
    (htarget : d.target = root) {j : Join} (hj : j ∈ p.joins)
    (hfree : ∀ i ∈ j.node :: ctx.ancestors j.node, ¬ ctx.Forced d i) :
    ∃ n, ctx.nodes[j.node]? = some n ∧ j.kind = n.joinKind := by
  have htree := isJoinTree_of_plan harena hplan
  obtain ⟨c, hc, hdraft, -⟩ := plan_eq_ok hplan
  induction hi : j.node using Nat.strongRecOn generalizing j with
  | ind i ih =>
      subst hi
      by_cases hne : j.node = d.target
      · obtain ⟨n, hn, hkind⟩ := hroot
        refine ⟨n, by rw [hne, htarget]; exact hn, ?_⟩
        rw [inner_of_plan harena hplan hj (.inl hne), hkind]
      · obtain ⟨link, hlink, -, hleft⟩ :=
          left_iff_of_plan harena hplan hj hne (hfree _ (List.mem_cons_self ..))
        have ho : ctx.origin? j.node = some link.origin :=
          Option.map_eq_some_iff.mpr ⟨link, hlink, rfl⟩
        obtain ⟨n, origin, hn, hangs⟩ := harena.hangs_of_link? hlink
        obtain ⟨origin', horigin', hkind⟩ := hjoined.kind hn (by rwa [link?, hn] at hlink)
        obtain rfl : origin = origin' := Option.some.inj (hangs.origin_eq.symm.trans horigin')
        have hpast : ∀ i ∈ link.origin :: ctx.ancestors link.origin, ¬ ctx.Forced d i := fun i hi =>
          hfree i (List.mem_cons_of_mem _ (harena.ancestors_eq ho ▸ hi))
        -- the origin is joined as its context says, or the plan starts there
        have hinherits : (∃ above ∈ p.joins, above.node = link.origin ∧ above.kind = .left) ↔
            origin.joinKind = .left := by
          have hneeds := (htree.nodes j.node).mp (List.mem_cons_of_mem _ (List.mem_map_of_mem hj))
          rcases List.mem_cons.mp ((htree.nodes _).mpr (.origin hneeds (hdraft ▸ hne) ho)) with
            hbase | hmem
          · obtain ⟨n', hn', hinner⟩ := joinKind_base_of_plan harena hroot hplan htarget
              (hbase ▸ hpast _ (List.mem_cons_self ..))
            rw [← hbase, horigin'] at hn'
            simp only [Option.some.inj hn', hinner, reduceCtorEq, iff_false]
            rintro ⟨above, habove, hnode, -⟩
            exact htree.node_ne_base habove (hnode.trans hbase)
          · obtain ⟨above, habove, hnode⟩ := List.mem_map.mp hmem
            obtain ⟨n', hn', hkind'⟩ := ih link.origin hangs.lt habove (hnode ▸ hpast) hnode
            rw [Option.some.inj (horigin'.symm.trans hn'), ← hkind']
            refine ⟨?_, fun h => ⟨above, habove, hnode, h⟩⟩
            rintro ⟨above', habove', hnode', hleft'⟩
            exact htree.eq_of_node habove habove' (hnode.trans hnode'.symm) ▸ hleft'
        refine ⟨n, hn, JoinKind.eq_of_left_iff (hleft.trans (Iff.trans ?_ hkind.symm))⟩
        rw [hinherits, or_comm (a := origin.joinKind = .left), or_assoc]

/-- The nodes that the filter forces in one context are those that it forces later. -/
theorem forced_grows (harena : ctx.Arena) (hplan : ctx.plan p.toDraft = .ok p)
    (hgrows : ctx.Grows ctx') {i : Nat} : ctx'.Forced p.toDraft i ↔ ctx.Forced p.toDraft i := by
  have hsame : ∀ {f}, p.FilterOnly f → ctx'.ancestors f = ctx.ancestors f := by
    rintro f ⟨⟨filter, hfilter, c, hc, rfl⟩, -⟩
    obtain ⟨n, hn⟩ := exists_node_of_needs harena hplan (.filtered hfilter hc)
    exact hgrows.ancestors_eq harena hn
  have hpast : ∀ {f i}, i ∈ ctx.ancestors f → ctx'.ancestors i = ctx.ancestors i := by
    intro f i hi
    obtain ⟨n, hn⟩ := harena.exists_node_of_mem_ancestors hi
    exact hgrows.ancestors_eq harena hn
  constructor
  · rintro (h | ⟨hf, hi, htarget⟩)
    · exact .only h
    · rw [hsame hf] at hi
      exact .between hf hi (hpast hi ▸ htarget)
  · rintro (h | ⟨hf, hi, htarget⟩)
    · exact .only h
    · exact .between hf (hsame hf ▸ hi) ((hpast hi).symm ▸ htarget)

/-- What decides the joins of a plan stays true while the context grows. -/
theorem joinsByNeed_of_plan (harena : ctx.Arena) (hjoined : ctx.Joined)
    (hroot : ∃ n, ctx.nodes[0]? = some n ∧ n.joinKind = .inner) (hplan : ctx.plan d = .ok p)
    (hgrows : ctx.Grows ctx') : p.JoinsByNeed ctx' := by
  have htree := isJoinTree_of_plan harena hplan
  obtain ⟨c, hc, rfl, -⟩ := plan_eq_ok hplan
  have hforced : ∀ {i}, ctx'.Forced p.toDraft i ↔ ctx.Forced p.toDraft i :=
    forced_grows harena hplan hgrows
  have hnode : ∀ {j}, j ∈ p.joins → ∃ n, ctx.nodes[j.node]? = some n := fun hj =>
    exists_node_of_needs harena hplan
      ((htree.nodes _).mp (List.mem_cons_of_mem _ (List.mem_map_of_mem hj)))
  constructor
  case inner =>
    exact fun j hj h => inner_of_plan harena hplan hj (h.imp_right hforced.mp)
  case left_iff =>
    intro j hj hne hfree
    obtain ⟨link, hlink, h⟩ := left_iff_of_plan harena hplan hj hne (hforced.not.mp hfree)
    exact ⟨link, hgrows.link? hlink, h⟩
  case above =>
    intro f hf j hj habove
    refine inner_above_of_plan harena hplan (hforced.mp hf) hj ?_
    have hknown : ∃ n, ctx.nodes[f]? = some n := by
      cases hforced.mp hf with
      | only h =>
          obtain ⟨⟨filter, hfilter, c, hc, rfl⟩, -⟩ := h
          exact exists_node_of_needs harena hplan (.filtered hfilter hc)
      | between _ hi _ => exact harena.exists_node_of_mem_ancestors hi
    obtain ⟨n, hn⟩ := hknown
    exact hgrows.ancestors_eq harena hn ▸ habove
  case root =>
    intro htarget j hj hfree
    obtain ⟨n, hn⟩ := hnode hj
    rw [hgrows.ancestors_eq harena hn] at hfree
    obtain ⟨n, hn, hkind⟩ := kind_eq_joinKind_of_plan harena hjoined hroot hplan htarget hj
      fun i hi h => hfree i hi (hforced.mpr h)
    obtain ⟨n', hn', more, rfl⟩ := hgrows.node hn
    exact ⟨_, hn', hkind⟩

/-- Whatever is asked of whatever target of a reachable context, in each plan that is answered
the need for a node and its links decide how it is joined. -/
theorem Planned.joinsByNeed (hctx : Reachable ctx) (h : ctx.Planned p ctx') :
    p.JoinsByNeed ctx' := by
  obtain ⟨ctx₁, d, hfrom, hplan, hto⟩ := h.made
  obtain ⟨n, hn, -, hkind⟩ := hctx.exists_root
  obtain ⟨n', hn', more, rfl⟩ := hfrom.node hn
  exact joinsByNeed_of_plan (hctx.arena.grows hfrom) (hctx.joined.grows hfrom) ⟨_, hn', hkind⟩
    hplan hto

/-! ## Tickets in a state, with the states of their parents -/

def ticketsIn (state : String) : Request :=
  { selection := .projection [⟨"Id", "Id"⟩, ⟨"Parent.State", "Above"⟩]
    filter := some (.compare "State" .eq (.text state)) }

def openTickets : Draft where
  target := 0
  select := [⟨0, "Id", "id", some "Id"⟩, ⟨3, "Name", "name", some "Above"⟩]
  filter := some (.compare ⟨1, "Name", "name", none⟩ .eq (.text "open"))

/-- The ticket and its parent, with their states. -/
def parentContext : Context :=
  let state := fun (index level origin : Nat) (joinKind : JoinKind) =>
    { index, entity := "State", table := "states", level, joinKind, children := []
      link := some
        { origin, key := .lookup "State", traversal := .lookup, originMember := "State"
          nodeMember := "Id", nullable := false } : Node }
  { catalog := ⟨deskTables, []⟩
    nodes := #[
      { index := 0, entity := "Ticket", table := "tickets", level := 0, link := none
        joinKind := .inner, children := [(.lookup "State", 1), (.navigation "Parent", 2)] },
      state 1 1 0 .inner,
      { index := 2, entity := "Ticket", table := "tickets", level := 1, joinKind := .left
        children := [(.lookup "State", 3)]
        link := some
          { origin := 0, key := .navigation "Parent", traversal := .forward
            originMember := "ParentId", nodeMember := "Id", nullable := true } },
      state 3 2 2 .left] }

theorem run_ticketsIn : ((ticketsIn "open").checkedDraft 0 .outer).run deskContext =
    (.ok openTickets, parentContext) := rfl

/-- The tickets are read from the states on, and joined as inner. A ticket need not have a parent,
so the parents are joined as left, and so are their states, which no parent lacks. -/
theorem joinsByNeed_ticketsIn : ∃ p, deskContext.Planned p parentContext ∧ p.base.node = 1 ∧
    p.joins.map (fun j => (j.node, j.kind)) = [(0, .inner), (2, .left), (3, .left)] ∧
    p.JoinsByNeed parentContext := by
  have hplan : ((parentContext.plan openTickets).toOption.map
      fun p => (p.base.node, p.joins.map fun j => (j.node, j.kind))) =
        some (1, [(0, .inner), (2, .left), (3, .left)]) := by cbv
  obtain ⟨p, hp, heq⟩ := Option.map_eq_some_iff.mp hplan
  obtain ⟨hbase, hjoins⟩ := Prod.mk.inj heq
  have hrun : ((ticketsIn "open").plan 0 .outer).run deskContext = (.ok p, parentContext) := by
    refine Growing.run_bind_eq_ok_iff.mpr ⟨_, _, run_ticketsIn, ?_⟩
    rw [Growing.run_look, Except.toOption_eq_some_iff.mp hp]
  have hplanned : deskContext.Planned p parentContext := .single hrun
  exact ⟨p, hplanned, hbase, hjoins, hplanned.joinsByNeed reachable_deskContext⟩

end Context

end EntityMap
