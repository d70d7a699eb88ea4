import EntityMap.Proofs.Query.Twins
import EntityMap.Proofs.Relation.FirstPhase

/-!
# Which rows match

A plan passes the readings of its reference for which its filter is
true, if they have a row at each node that only the filter refers to
(`Context.mem_passing_iff`). So nothing else of a request decides which
rows match (`Request.same_targetKeys`): a reading of one plan is followed
by a reading of any other plan for a target of the same entity, which
has the same rows at alike nodes (`Context.Twins.exists_follows`), and
there the same filter has the same value.

Selecting a column of a node or ordering by it does decide, where the
filter can be true without a row at that node: the node is joined as left
then, and is no longer asked for (`targetKeys_without_region`).
-/

namespace EntityMap

namespace BoundFilter

variable {c : Comparison} {a b : Reading}

theorem eq_literal_iff_of_rel {R : NodeColumn → NodeColumn → Prop} {f g : BoundFilter}
    (h : f.Rel R g) {v : Value} : f = .literal v ↔ g = .literal v := by
  cases h with
  | member => simp
  | literal => rfl
  | binary => simp

/-- A condition has the same value where its columns have the same values. -/
theorem value_eq_of_rel {R : NodeColumn → NodeColumn → Prop} {f g : BoundFilter} (h : f.Rel R g)
    (hvalue : ∀ column ∈ f.members, ∀ column' ∈ g.members, R column column' →
      Reading.value b column'.node column'.column = Reading.value a column.node column.column) :
    value c b g = value c a f := by
  induction h with
  | member h => exact hvalue _ (List.mem_singleton_self _) _ (List.mem_singleton_self _) h
  | literal => rfl
  | binary hleft hright ihleft ihright =>
      have hl := ihleft fun x hx y hy =>
        hvalue x (List.mem_append_left _ hx) y (List.mem_append_left _ hy)
      have hr := ihright fun x hx y hy =>
        hvalue x (List.mem_append_right _ hx) y (List.mem_append_right _ hy)
      simp only [value, hl, hr, testsNull, eq_literal_iff_of_rel hleft,
        eq_literal_iff_of_rel hright]

end BoundFilter

/-- So a plan admits what another one admits whose filter has the same values. -/
theorem Plan.admits_eq_of_rel {R : NodeColumn → NodeColumn → Prop} {p p' : Plan} {c : Comparison}
    {a b : Reading} (h : Option.Rel (Condition.Rel R) p.filter p'.filter)
    (hvalue : ∀ f ∈ p.filter, ∀ g ∈ p'.filter, ∀ column ∈ f.members, ∀ column' ∈ g.members,
      R column column' →
        Reading.value b column'.node column'.column = Reading.value a column.node column.column) :
    p'.admits c b = p.admits c a := by
  unfold admits
  generalize p.filter = f? at h hvalue
  generalize p'.filter = g? at h hvalue
  cases h with
  | none => rfl
  | some hrel =>
      have hsame := BoundFilter.value_eq_of_rel (c := c) hrel (hvalue _ rfl _ rfl)
      simp only [Option.all_some, BoundFilter.passes, hsame]

theorem Join.candidates_eq {c : Comparison} {store : Store} {j j' : Join} {a b : Reading}
    (htable : j'.table = j.table) (hnode : j'.nodeColumn = j.nodeColumn)
    (hsource : j'.sourceColumn = j.sourceColumn) (hkind : j'.kind = j.kind)
    (hrow : b j'.source = a j.source) : j'.candidates c store b = j.candidates c store a := by
  simp only [candidates, matching, Reading.value, htable, hnode, hsource, hkind, hrow]

namespace Context

variable {ctx ctx' : Context} {d d' : Draft} {p p' : Plan} {c : Comparison} {store : Store}
  {a b : Reading} {target target' : Nat}

open scoped Classical in
/-- A plan passes the readings of its reference for which its filter is true, if they have a row
at each node that only the filter refers to. -/
theorem mem_passing_iff (hctx : Reachable ctx) (hplan : ctx.plan d = .ok p)
    (hstore : store.Respects c ctx.catalog) :
    b ∈ p.passing c store ↔ (∀ i, i ∉ p.nodes → b i = none) ∧ ctx.Reads c store p b ∧
      p.admits c b ∧ ∀ f ∈ p.filterOnlyNodes, b f ≠ none := by
  have harena := hctx.arena
  have htree := isJoinTree_of_plan harena hplan
  obtain ⟨-, -, rfl, -⟩ := plan_eq_ok hplan
  constructor
  · intro hb
    obtain ⟨hrows, hadmits⟩ := List.mem_filter.mp hb
    have hcount : (p.rows c store).count b ≠ 0 := fun h => List.count_eq_zero.mp h hrows
    refine ⟨fun i hi => ?_, reads_of_mem_passing harena hplan hb, hadmits, fun f hf => ?_⟩
    · by_contra hbi
      exact hcount (Plan.count_rows_eq_zero htree.toOrdered hi hbi)
    · -- such a node is the base, or joined as inner
      have hinner : b p.base.node ≠ none ∧ ∀ j ∈ p.joins, j.kind = .inner → b j.node ≠ none := by
        by_contra hnot
        exact hcount (Plan.count_rows_of_missing htree.toOrdered hnot)
      rcases List.mem_cons.mp (htree.mem_of_filterOnly hf).2 with rfl | hmem
      · exact hinner.1
      · obtain ⟨j, hj, rfl⟩ := List.mem_map.mp hmem
        exact hinner.2 j hj (inner_of_filterOnly hplan j hj hf)
  · rintro ⟨hnone, hreads, hadmits, hrows⟩
    obtain ⟨hbase, hinner⟩ :=
      hreads.inner harena hctx.catalog_accepted hstore hplan hrows
    refine List.mem_filter.mpr ⟨?_, hadmits⟩
    refine List.one_le_count_iff.mp (Nat.one_le_iff_ne_zero.mpr ?_)
    rw [count_rows_of_inner harena hplan hnone hbase hinner]
    exact hreads.referenceCount_ne_zero harena hplan

/-! ## Readings of two plans -/

/-- What a second reading has at a node: what the first one has at an alike node, and what the
left join on the origin offers. -/
structure Follows (ctx ctx' : Context) (c : Comparison) (store : Store) (p p' : Plan)
    (a b : Reading) (k : Nat) : Prop where
  alike : ∀ i ∈ p.nodes, ctx.Alike p.target ctx' p'.target i k → b k = a i
  offered : k ≠ p'.target → ∃ j, ctx'.referenceJoin k = .ok j ∧ b k ∈ j.candidates c store b

/-- Nothing else is asked of the second reading than its rows at the node and at the origin. -/
theorem Follows.congr {b' : Reading} {k : Nat} (h : Follows ctx ctx' c store p p' a b k)
    (hk : b' k = b k) (horigin : ∀ o, ctx'.origin? k = some o → b' o = b o) :
    Follows ctx ctx' c store p p' a b' k := by
  refine ⟨fun i hi hik => hk.trans (h.alike i hi hik), fun hne => ?_⟩
  obtain ⟨j, hj, hmem⟩ := h.offered hne
  refine ⟨j, hj, ?_⟩
  rwa [hk, Join.candidates_congr (horigin _ (origin?_of_referenceJoin hj))]

namespace Twins

/-- The reference joins of alike nodes lead to alike origins, and offer the same on the same row
there. -/
theorem alike_referenceJoins {i k : Nat} {j j' : Join} (c : Comparison) (store : Store)
    (h : Twins ctx p.target ctx' p'.target) (hik : ctx.Alike p.target ctx' p'.target i k)
    (hne : i ≠ p.target)
    (hj : ctx.referenceJoin i = .ok j) (hj' : ctx'.referenceJoin k = .ok j') :
    ctx.Alike p.target ctx' p'.target j.source j'.source ∧
      ∀ {a b : Reading}, b j'.source = a j.source →
        j'.candidates c store b = j.candidates c store a := by
  obtain ⟨link, hlink, -, htable, hnode, hsource, hsourceColumn, hkind⟩ :=
    referenceJoin_eq_ok_iff.mp hj
  obtain ⟨link', hlink', -, htable', hnode', hsource', hsourceColumn', hkind'⟩ :=
    referenceJoin_eq_ok_iff.mp hj'
  obtain ⟨l, origin', hl, hl', horigin⟩ := h.exists_links hik hne
  obtain rfl : link = l := Option.some.inj (hlink.symm.trans hl)
  obtain rfl := Option.some.inj (hlink'.symm.trans hl')
  rw [h.columnName_eq hik, hnode] at hnode'
  rw [h.columnName_eq horigin, hsourceColumn] at hsourceColumn'
  obtain ⟨t, column, ht, -⟩ := columnName_eq_ok_iff.mp hnode
  have hname : ctx.tableName i = t.table := tableName_eq h.reachable.arena ht
  have hname' : ctx'.tableName k = t.table :=
    tableName_eq h.reachable'.arena ((h.table_eq hik).trans ht)
  refine ⟨by rw [hsource, hsource']; exact horigin, fun hrow => ?_⟩
  refine Join.candidates_eq ?_ (Except.ok.inj hnode').symm (Except.ok.inj hsourceColumn').symm
    (hkind'.trans hkind.symm) hrow
  rw [htable, htable', ← tableName, ← tableName, hname, hname']

/-- A reading that follows above a node can follow there too. -/
theorem exists_follows_at {k : Nat} (h : Twins ctx p.target ctx' p'.target)
    (hplan : ctx.plan d = .ok p) (hplan' : ctx'.plan d' = .ok p') (ha : ctx.Reads c store p a)
    (hk : k ∈ p'.nodes) (horigin : ∀ o, ctx'.origin? k = some o → o ∈ p'.nodes →
      Follows ctx ctx' c store p p' a b o) :
    ∃ place, Follows ctx ctx' c store p p' a (Function.update b k place) k := by
  have htree := isJoinTree_of_plan h.reachable.arena hplan
  have htree' := isJoinTree_of_plan h.reachable'.arena hplan'
  by_cases htarget : k = p'.target
  · subst htarget
    refine ⟨a p.target, fun i _ hi => ?_, fun hne => absurd rfl hne⟩
    rw [h.eq_of_alike hi alike_target, Function.update_self]
  · obtain ⟨j', hj'⟩ := exists_referenceJoin h.reachable'.arena hplan' hk htarget
    have ho' := origin?_of_referenceJoin hj'
    have hlt := h.reachable'.arena.origin_lt ho'
    have hsource : ∀ place, Function.update b k place j'.source = b j'.source :=
      fun place => Function.update_of_ne (by omega) _ _
    by_cases halike : ∃ i ∈ p.nodes, ctx.Alike p.target ctx' p'.target i k
    · -- what the first reading has there is offered here too, for the origins have the same row
      obtain ⟨i, hi, hik⟩ := halike
      have hne : i ≠ p.target := h.symm.ne_target hik.symm htarget
      obtain ⟨j, hj, hmem⟩ := ha.node i hi hne
      have ho := origin?_of_referenceJoin hj
      have hmemo := (htree.nodes _).mpr (.origin ((htree.nodes i).mp hi) hne ho)
      have hmemo' := (htree'.nodes _).mpr (.origin ((htree'.nodes k).mp hk) htarget ho')
      obtain ⟨hsources, hsame⟩ := h.alike_referenceJoins c store hik hne hj hj'
      have hrow := (horigin _ ho' hmemo').alike _ hmemo hsources
      refine ⟨a i, fun i' _ hi' => ?_, fun _ => ⟨j', hj', ?_⟩⟩
      · rw [h.eq_of_alike hi' hik, Function.update_self]
      · rw [Function.update_self, hsame ((hsource _).trans hrow)]
        exact hmem
    · -- nothing to agree with: a left join always offers something
      obtain ⟨link', -, -, -, -, -, -, hkind⟩ := referenceJoin_eq_ok_iff.mp hj'
      obtain ⟨place, hplace⟩ := List.exists_mem_of_ne_nil _ (Join.candidates_ne_nil c store b hkind)
      refine ⟨place, fun i hi hik => absurd ⟨i, hi, hik⟩ halike, fun _ => ⟨j', hj', ?_⟩⟩
      rwa [Function.update_self, Join.candidates_congr (hsource _)]

/-- Every reading of the one reference is followed by a reading of the other. -/
theorem exists_follows (h : Twins ctx p.target ctx' p'.target) (hplan : ctx.plan d = .ok p)
    (hplan' : ctx'.plan d' = .ok p') (ha : ctx.Reads c store p a) :
    ∃ b : Reading, (∀ k, k ∉ p'.nodes → b k = none) ∧
      ∀ k ∈ p'.nodes, Follows ctx ctx' c store p p' a b k := by
  have harena' := h.reachable'.arena
  -- node by node: the origin of a node has a smaller index
  have hupto : ∀ n : Nat, ∃ b : Reading, (∀ k, k ∉ p'.nodes → b k = none) ∧
      ∀ k ∈ p'.nodes, k < n → Follows ctx ctx' c store p p' a b k := by
    intro n
    induction n with
    | zero => exact ⟨fun _ => none, fun _ _ => rfl, fun _ _ hlt => absurd hlt (Nat.not_lt_zero _)⟩
    | succ n ih =>
        obtain ⟨b, hnone, hfollows⟩ := ih
        by_cases hn : n ∈ p'.nodes
        · obtain ⟨place, hplace⟩ := h.exists_follows_at hplan hplan' ha hn
            fun o ho hmem => hfollows o hmem (harena'.origin_lt ho)
          refine ⟨Function.update b n place, fun k hk => ?_, fun k hk hlt => ?_⟩
          · have hne : k ≠ n := fun heq => hk (heq ▸ hn)
            rw [Function.update_of_ne hne]
            exact hnone k hk
          · by_cases heq : k = n
            · exact heq ▸ hplace
            · refine (hfollows k hk (by omega)).congr (Function.update_of_ne heq _ _) fun o ho => ?_
              have := harena'.origin_lt ho
              exact Function.update_of_ne (by omega) _ _
        · refine ⟨b, hnone, fun k hk hlt => hfollows k hk ?_⟩
          have hne : k ≠ n := fun heq => hn (heq ▸ hk)
          omega
  have htree' := isJoinTree_of_plan harena' hplan'
  obtain ⟨cl, -, rfl, -⟩ := plan_eq_ok hplan'
  obtain ⟨b, hnone, hfollows⟩ := hupto ctx'.nodes.size
  refine ⟨b, hnone, fun k hk => hfollows k hk ?_⟩
  obtain ⟨n, hn⟩ := exists_node_of_needs harena' hplan' ((htree'.nodes k).mp hk)
  exact (Array.getElem?_eq_some_iff.mp hn).1

theorem reads_of_follows (h : Twins ctx p.target ctx' p'.target) (hplan : ctx.plan d = .ok p)
    (hplan' : ctx'.plan d' = .ok p') (ha : ctx.Reads c store p a)
    (hfollows : ∀ k ∈ p'.nodes, Follows ctx ctx' c store p p' a b k) : ctx'.Reads c store p' b := by
  have htarget := target_mem_nodes h.reachable.arena hplan
  have htarget' := target_mem_nodes h.reachable'.arena hplan'
  refine ⟨?_, fun k hk hne => (hfollows k hk).offered hne⟩
  obtain ⟨row, hrow, harow⟩ := ha.target
  refine ⟨row, ?_, ((hfollows _ htarget').alike _ htarget alike_target).trans harow⟩
  obtain ⟨t, key, ht, -⟩ := keyColumn_eq_ok_iff.mp (targetKey_of_plan hplan)
  obtain ⟨-, -, rfl, -⟩ := plan_eq_ok hplan
  have ht' := (h.table_eq alike_target).trans ht
  rw [tableName_eq h.reachable'.arena ht', ← tableName_eq h.reachable.arena ht]
  exact hrow

theorem targetKey_eq (h : Twins ctx p.target ctx' p'.target) (hplan : ctx.plan d = .ok p)
    (hplan' : ctx'.plan d' = .ok p') :
    p.targetKey.node = p.target ∧ p'.targetKey.node = p'.target ∧
      p'.targetKey.column = p.targetKey.column := by
  obtain ⟨t, key, ht, hkey, htarget⟩ := keyColumn_eq_ok_iff.mp (targetKey_of_plan hplan)
  obtain ⟨t', key', ht', hkey', htarget'⟩ := keyColumn_eq_ok_iff.mp (targetKey_of_plan hplan')
  obtain ⟨-, -, rfl, -⟩ := plan_eq_ok hplan
  obtain ⟨-, -, rfl, -⟩ := plan_eq_ok hplan'
  rw [h.table_eq alike_target, ht] at ht'
  cases ht'
  cases hkey.symm.trans hkey'
  rw [htarget, htarget']
  exact ⟨rfl, rfl, rfl⟩

end Twins

/-! ## Requests with one filter -/

/-- Where a second plan asks for a row at a node that only its filter refers to, a first plan asks
for it too, or there is one wherever the filter is true. -/
def KeepsRows (ctx ctx' : Context) (c : Comparison) (store : Store) (p p' : Plan) : Prop :=
  ∀ k ∈ p'.filterOnlyNodes, (∃ i ∈ p.filterOnlyNodes, ctx.Alike p.target ctx' p'.target i k) ∨
    ∀ b, ctx'.Reads c store p' b → p'.admits c b → b k ≠ none

/-- Where a conjunction is true, there are rows at all nodes that it refers to. -/
theorem keepsRows_of_conjunction
    (hfilter : ∀ filter, p'.filter = some filter → filter.isConjunction) :
    KeepsRows ctx ctx' c store p p' :=
  fun k hk => .inr fun _ _ hadmits => Plan.rows_of_conjunction hfilter hadmits k hk

/-- The keys that pass one plan pass another one with the same filter, if this does not ask for
more rows. -/
theorem Twins.targetKeys_subset (h : Twins ctx p.target ctx' p'.target)
    (hplan : ctx.plan d = .ok p) (hplan' : ctx'.plan d' = .ok p')
    (hstore : store.Respects c ctx.catalog)
    (hfilter : Option.Rel (Condition.Rel (ctx.AlikeColumns p.target ctx' p'.target))
      p.filter p'.filter)
    (hkeeps : KeepsRows ctx ctx' c store p p') :
    p.targetKeys (p.passing c store) ⊆ p'.targetKeys (p'.passing c store) := by
  have htree := isJoinTree_of_plan h.reachable.arena hplan
  have htree' := isJoinTree_of_plan h.reachable'.arena hplan'
  intro v hv
  obtain ⟨a, hpassing, rfl⟩ := List.mem_map.mp (List.mem_toFinset.mp hv)
  obtain ⟨-, ha, hadmits, hrows⟩ := (mem_passing_iff h.reachable hplan hstore).mp hpassing
  obtain ⟨b, hnone, hfollows⟩ := h.exists_follows hplan hplan' ha
  have hsame : ∀ {i k}, i ∈ p.nodes → k ∈ p'.nodes →
      ctx.Alike p.target ctx' p'.target i k → b k = a i :=
    fun hi hk hik => (hfollows _ hk).alike _ hi hik
  have hb := h.reads_of_follows hplan hplan' ha hfollows
  have hadmits' : p'.admits c b := by
    rw [Plan.admits_eq_of_rel hfilter (a := a)]
    · exact hadmits
    · intro f hf g hg column hcolumn column' hcolumn' hcc
      have hrow := hsame ((htree.nodes _).mpr (.filtered hf hcolumn))
        ((htree'.nodes _).mpr (.filtered hg hcolumn')) hcc.node
      simp only [Reading.value, hrow, hcc.column]
  refine List.mem_toFinset.mpr (List.mem_map.mpr ⟨b, ?_, ?_⟩)
  · rw [← h.catalog] at hstore
    refine (mem_passing_iff h.reachable' hplan' hstore).mpr ⟨hnone, hb, hadmits', fun k hk => ?_⟩
    rcases hkeeps k hk with ⟨i, hi, hik⟩ | hpassing
    · rw [hsame (htree.mem_of_filterOnly hi).2 (htree'.mem_of_filterOnly hk).2 hik]
      exact hrows i hi
    · exact hpassing b hb hadmits'
  · obtain ⟨hnode, hnode', hcolumn⟩ := h.targetKey_eq hplan hplan'
    have htarget := hsame (target_mem_nodes h.reachable.arena hplan)
      (target_mem_nodes h.reachable'.arena hplan') alike_target
    simp only [Reading.get, Reading.value, hnode, hnode', hcolumn, htarget]

theorem Twins.rel_filters {start start' : Context} {r r' : Request}
    (h : Twins ctx target ctx' target') (hd : r.Drafts start ctx target d)
    (hd' : r'.Drafts start' ctx' target' d') (hfilter : r'.filter = r.filter) :
    Option.Rel (Condition.Rel (ctx.AlikeColumns target ctx' target')) d.filter d'.filter := by
  have hbound := hd.filter
  have hbound' := hd'.filter
  rw [hfilter] at hbound'
  generalize r.filter = f? at hbound hbound'
  generalize d.filter = g? at hbound
  generalize d'.filter = g'? at hbound'
  cases hbound with
  | none =>
      cases hbound'
      exact .none
  | some hf =>
      cases hbound' with
      | some hf' => exact .some (h.rel_of_boundTo hf hf')

theorem Reachable.plan {r : Request} {scope : Scope} (hctx : Reachable ctx)
    (hrun : (r.plan target scope).run ctx = (.ok p, ctx')) : Reachable ctx' := by
  have hcall := hctx.call (.plan r target scope)
  rwa [hrun] at hcall

theorem twins_of_plans {left right : Context} {r r' : Request} {scope scope' : Scope}
    (hctx : Reachable ctx) (hctx' : Reachable ctx') (hcatalog : ctx'.catalog = ctx.catalog)
    (hentity : (ctx'.nodes[target']?).map (·.entity) = (ctx.nodes[target]?).map (·.entity))
    (hrun : (r.plan target scope).run ctx = (.ok p, left))
    (hrun' : (r'.plan target' scope').run ctx' = (.ok p', right)) :
    Twins left target right target' := by
  obtain ⟨hgrows, d, ⟨⟨n, hn⟩, -⟩, -⟩ := Request.plan_eq_ok hrun
  obtain ⟨hgrows', d', ⟨⟨n', hn'⟩, -⟩, -⟩ := Request.plan_eq_ok hrun'
  have hleft := hctx.plan hrun
  refine ⟨hleft, hctx'.plan hrun', hleft.catalog_accepted, ?_, ?_⟩
  · rw [hgrows.catalog, hgrows'.catalog, hcatalog]
  · obtain ⟨_, hleft, more, rfl⟩ := hgrows.node hn
    obtain ⟨_, hright, more', rfl⟩ := hgrows'.node hn'
    rw [hn, hn'] at hentity
    exact ⟨_, _, hleft, hright, Option.some.inj hentity⟩

end Context

/-- What is selected or ordered decides which rows match only through the nodes that nothing but
the filter refers to. Two requests with one filter, each on a target of one entity, read the same
keys of it, if each of these nodes of the one is such a node of the other too, or has a row
wherever the filter is true. -/
theorem Request.same_targetKeys {ctx₁ ctx₁' ctx₂ ctx₂' : Context} {r₁ r₂ : Request} {t₁ t₂ : Nat}
    {scope₁ scope₂ : Scope} {p₁ p₂ : Plan} {c : Comparison} {store : Store}
    (hctx₁ : Context.Reachable ctx₁) (hctx₂ : Context.Reachable ctx₂)
    (hcatalog : ctx₂.catalog = ctx₁.catalog)
    (hentity : (ctx₂.nodes[t₂]?).map (·.entity) = (ctx₁.nodes[t₁]?).map (·.entity))
    (hrun₁ : (r₁.plan t₁ scope₁).run ctx₁ = (.ok p₁, ctx₁'))
    (hrun₂ : (r₂.plan t₂ scope₂).run ctx₂ = (.ok p₂, ctx₂'))
    (hfilter : r₂.filter = r₁.filter) (hstore : store.Respects c ctx₁.catalog)
    (hkeeps₁ : Context.KeepsRows ctx₁' ctx₂' c store p₁ p₂)
    (hkeeps₂ : Context.KeepsRows ctx₂' ctx₁' c store p₂ p₁) :
    p₁.targetKeys (p₁.passing c store) = p₂.targetKeys (p₂.passing c store) := by
  obtain ⟨hgrows₁, d₁, hd₁, hplan₁⟩ := Request.plan_eq_ok hrun₁
  obtain ⟨hgrows₂, d₂, hd₂, hplan₂⟩ := Request.plan_eq_ok hrun₂
  have htwins := Context.twins_of_plans hctx₁ hctx₂ hcatalog hentity hrun₁ hrun₂
  obtain ⟨-, -, rfl, -⟩ := Context.plan_eq_ok hplan₁
  obtain ⟨-, -, rfl, -⟩ := Context.plan_eq_ok hplan₂
  obtain rfl := hd₁.target
  obtain rfl := hd₂.target
  have hstore₁ := hgrows₁.catalog ▸ hstore
  have hstore₂ := htwins.catalog ▸ hstore₁
  exact Finset.Subset.antisymm
    (htwins.targetKeys_subset hplan₁ hplan₂ hstore₁ (htwins.rel_filters hd₁ hd₂ hfilter) hkeeps₁)
    (htwins.symm.targetKeys_subset hplan₂ hplan₁ hstore₂
      (htwins.symm.rel_filters hd₂ hd₁ hfilter.symm) hkeeps₂)

/-! ## Customers of a region -/

namespace Context

def regionTables : List Table :=
  [{ entity := "Customer", table := "customers"
     columns := [
       { member := "Id", column := "id", type := .int64, primaryKey := true },
       { member := "RegionId", column := "region_id", type := .int64, nullable := true }]
     relationships := [
       { name := "Region", kind := .manyToOne, foreignKey := ⟨"Customer", "RegionId"⟩
         primaryKey := ⟨"Region", "Id"⟩ }]
     permissions := {} },
   { entity := "Region", table := "regions"
     columns := [
       { member := "Id", column := "id", type := .int64, primaryKey := true },
       { member := "Name", column := "name", type := .text }]
     relationships := []
     permissions := {} }]

def regionContext : Context :=
  { catalog := ⟨regionTables, []⟩
    nodes := #[{ index := 0, entity := "Customer", table := "customers", level := 0, link := none
                 joinKind := .inner, children := [] }] }

theorem reachable_regionContext : Reachable regionContext :=
  have haccepted : Definition.toCatalog ⟨[], regionTables⟩ = .ok ⟨regionTables, []⟩ := rfl
  have hctx : ofEntity ⟨regionTables, []⟩ "Customer" = .ok regionContext := rfl
  .start haccepted hctx

end Context

/-- A customer without a region, and one of a region. -/
def regionStore : Store
  | "customers" =>
    [(fun | "id" => .int 1 | _ => .null),
     (fun | "id" => .int 2 | "region_id" => .int 7 | _ => .null)]
  | "regions" => [(fun | "id" => .int 7 | "name" => .text "South" | _ => .null)]
  | _ => []

theorem regionStore_respects :
    regionStore.Respects .ofContent Context.regionContext.catalog := by
  constructor
  case relationship =>
    intro t ht r hr foreign foreignKey target key hforeign hforeignKey htarget hkey
    rcases List.mem_pair.mp ht with rfl | rfl
    · obtain rfl := List.mem_singleton.mp hr
      obtain rfl := Except.ok.inj hforeign
      obtain rfl := Except.ok.inj hforeignKey
      obtain rfl := Except.ok.inj htarget
      obtain rfl := Except.ok.inj hkey
      intro row hrow
      rcases List.mem_pair.mp hrow with rfl | rfl
      · exact ⟨fun h => (Bool.noConfusion h), fun h => absurd rfl h⟩
      · exact ⟨fun h => (Bool.noConfusion h), fun _ => ⟨_, List.mem_cons_self .., by decide⟩⟩
    · cases hr
  case lookup =>
    intro t ht column hcolumn lookup target key hlookup
    rcases List.mem_pair.mp ht with rfl | rfl
    · rcases List.mem_pair.mp hcolumn with rfl | rfl <;> cases hlookup
    · rcases List.mem_pair.mp hcolumn with rfl | rfl <;> cases hlookup

def customersIn (region : Value) : Request :=
  { filter := some (.compare "Region.Name" .eq region) }

/-- What is read for the customers of a region in the order of the regions. -/
def customersByRegion (region : Value) : Plan :=
  let id : NodeColumn := { node := 0, member := "Id", column := "id" }
  let regionId : NodeColumn := { node := 0, member := "RegionId", column := "region_id" }
  let name : NodeColumn := { node := 1, member := "Name", column := "name" }
  { target := 0
    select := [id.withLabel "Id", regionId.withLabel "RegionId"]
    filter := some (.compare name .eq region)
    orderBy := [{ column := name, direction := .asc }]
    targetKey := id
    base := { node := 0, entity := "Customer", table := "customers" }
    joins := [{ node := 1, table := "regions", nodeColumn := "id"
                source := 0, sourceColumn := "region_id", kind := .left }]
    invertedNodes := [] }

theorem exists_plan {ctx : Context} {r : Request} {target : Nat} {scope : Scope}
    {test : Plan → Bool} (h : ((r.plan target scope).run ctx).1.toOption.any test) :
    ∃ p ctx', (r.plan target scope).run ctx = (.ok p, ctx') ∧ test p := by
  rcases hrun : (r.plan target scope).run ctx with ⟨answer, ctx'⟩
  rw [hrun] at h
  cases answer with
  | error e => cases h
  | ok p => exact ⟨p, ctx', rfl, h⟩

/-- The customers of a region, read from the regions on; and in the order of the regions, read
from the customers on. -/
theorem targetKeys_customersIn : ∃ p₁ p₂ ctx₁ ctx₂,
    ((customersIn (.text "South")).plan 0 .outer).run Context.regionContext = (.ok p₁, ctx₁) ∧
    (((customersIn (.text "South")).ordered "Region.Name" .asc).plan 0 .outer).run
      Context.regionContext = (.ok p₂, ctx₂) ∧
    p₁.base.node = 1 ∧ p₂.base.node = 0 ∧
    p₁.targetKeys (p₁.passing .ofContent regionStore) = {.int 2} ∧
    p₁.targetKeys (p₁.passing .ofContent regionStore) =
      p₂.targetKeys (p₂.passing .ofContent regionStore) := by
  have hplan₁ : (((customersIn (.text "South")).plan 0 .outer).run
      Context.regionContext).1.toOption.any fun p =>
        p.base.node = 1 && p.filter.all BoundFilter.isConjunction &&
          p.targetKeys (p.passing .ofContent regionStore) = {.int 2} := by
    decide +kernel
  have hplan₂ : ((((customersIn (.text "South")).ordered "Region.Name" .asc).plan 0 .outer).run
      Context.regionContext).1.toOption.any fun p => p = customersByRegion (.text "South") := by
    cbv
  obtain ⟨p₁, ctx₁, hrun₁, htest⟩ := exists_plan hplan₁
  obtain ⟨p₂, ctx₂, hrun₂, hp₂⟩ := exists_plan hplan₂
  obtain rfl := of_decide_eq_true hp₂
  simp only [Bool.and_eq_true, decide_eq_true_eq] at htest
  obtain ⟨⟨hbase, hconjunction⟩, hkeys⟩ := htest
  have hkeeps : ∀ {ctx ctx' : Context} {p p' : Plan}, p'.filter.all BoundFilter.isConjunction →
      Context.KeepsRows ctx ctx' .ofContent regionStore p p' := fun h =>
    Context.keepsRows_of_conjunction fun filter hfilter => by simpa [hfilter] using h
  exact ⟨p₁, _, ctx₁, ctx₂, hrun₁, hrun₂, hbase, rfl, hkeys,
    Request.same_targetKeys Context.reachable_regionContext Context.reachable_regionContext rfl rfl
      hrun₁ hrun₂ rfl regionStore_respects (hkeeps rfl) (hkeeps hconjunction)⟩

/-- The customers without the name of a region, with no collection in sight: from the regions on
there is none, but in the order of the regions the one without a region. -/
theorem targetKeys_without_region :
    ¬ ∀ (ctx ctx₁ ctx₂ : Context) (r₁ r₂ : Request) (target : Nat) (p₁ p₂ : Plan)
        (c : Comparison) (store : Store), Context.Reachable ctx →
      (r₁.plan target .outer).run ctx = (.ok p₁, ctx₁) →
      (r₂.plan target .outer).run ctx = (.ok p₂, ctx₂) →
      r₂.filter = r₁.filter → r₁.modifiers = {} → r₂.modifiers = {} →
      p₁.invertedNodes = [] → p₂.invertedNodes = [] → store.Respects c ctx.catalog →
      p₁.targetKeys (p₁.passing c store) = p₂.targetKeys (p₂.passing c store) := by
  intro h
  have hplan₁ : (((customersIn .null).plan 0 .outer).run
      Context.regionContext).1.toOption.any fun p => p.invertedNodes = [] &&
        p.targetKeys (p.passing .ofContent regionStore) = ∅ := by
    decide +kernel
  have hplan₂ : ((((customersIn .null).ordered "Region.Name" .asc).plan 0 .outer).run
      Context.regionContext).1.toOption.any fun p => p = customersByRegion .null := by
    cbv
  obtain ⟨p₁, ctx₁, hrun₁, htest⟩ := exists_plan hplan₁
  obtain ⟨p₂, ctx₂, hrun₂, hp₂⟩ := exists_plan hplan₂
  obtain rfl := of_decide_eq_true hp₂
  simp only [Bool.and_eq_true, decide_eq_true_eq] at htest
  have heq := h _ _ _ _ _ 0 p₁ _ .ofContent regionStore Context.reachable_regionContext hrun₁ hrun₂
    rfl rfl rfl htest.1 rfl regionStore_respects
  have hone : (customersByRegion .null).targetKeys
      ((customersByRegion .null).passing .ofContent regionStore) = {.int 1} := by
    decide +kernel
  rw [htest.2, hone] at heq
  exact absurd heq (Finset.singleton_ne_empty _).symm

end EntityMap
