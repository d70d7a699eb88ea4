import EntityMap.Proofs.Relation.ForeignKeys
import EntityMap.Proofs.Relation.Reference
import Mathlib.Algebra.BigOperators.Ring.List
import Mathlib.Algebra.GroupWithZero.Nat
import Mathlib.Data.Option.Basic

/-!
# Plans read the rows of their references

A plan may start away from its target and join nodes as inner that some
rows of the target do not have. With a filter that is a conjunction of
comparisons this loses nothing: over every store that respects the
foreign keys, the plan and its reference read the same readings equally
often, as far as the filter lets them pass
(`Context.Planned.passing_perm_reference`).

A reading of the reference that passes the filter has a row at every
node that the plan joins as inner (`Context.Reads.inner`): the filter
rejects null at the nodes which it forces (`Plan.rows_of_conjunction`), a
row leads to a row above it (`Context.Reads.origin`), and over a closed
link also to a row below it (`Context.Reads.closed`). Where there is a row, an inner join offers it
as often as a left join does (`Join.weight_asLeft`), and a join offers
it as often as the one that is turned round (`Join.weight_turned`).
-/

namespace EntityMap

section Counting

open scoped Classical

/-! ## Joins that offer the same rows -/

theorem count_filter_eq {α : Type} (test : α → Bool) (l : List α) (a : α) :
    (l.filter test).count a = if test a then l.count a else 0 := by
  by_cases h : test a
  · rw [if_pos h]
    exact List.count_filter h
  · rw [if_neg h, List.count_eq_zero]
    exact fun hmem => h (List.mem_filter.mp hmem).2

theorem count_map_some (rows : List Row) (row : Row) :
    (rows.map some).count (some row) = rows.count row :=
  List.count_map_of_injective rows some (Option.some_injective _) row

namespace Join

variable {c : Comparison} {store : Store} {j : Join} {b : Reading}

/-- How often a join offers a row: as often as the table has it, if it matches. -/
theorem weight_of_row {row : Row} (hrow : b j.node = some row) :
    j.weight c store b =
      if c.joins (row j.nodeColumn) (Reading.value b j.source j.sourceColumn) then
        (store j.table).count row else 0 := by
  have hcandidates : (j.candidates c store b).count (some row) =
      (j.matching c store b).count row := by
    unfold candidates
    split
    · rename_i hnone
      simp [hnone]
    · exact count_map_some _ row
  rw [weight, hrow, hcandidates, matching, count_filter_eq]

/-- Where there is a row, it does not matter whether a join is left or inner. -/
theorem weight_asLeft (hb : b j.node ≠ none) : j.asLeft.weight c store b = j.weight c store b := by
  obtain ⟨row, hrow⟩ := Option.ne_none_iff_exists'.mp hb
  rw [weight_of_row hrow, weight_of_row (j := j.asLeft) hrow]
  rfl

theorem weight_eq_zero (hkind : j.kind = .inner) (hb : b j.node = none) :
    j.weight c store b = 0 := by
  rw [weight, hb, List.count_eq_zero]
  simp [candidates, hkind]

/-- Two rows are joined from the one side as often as from the other. -/
theorem weight_turned {table : String} (hnode : b j.node ≠ none) (hsource : b j.source ≠ none) :
    ((store table).map some).count (b j.source) * j.weight c store b =
      ((store j.table).map some).count (b j.node) * (j.turned table).weight c store b := by
  obtain ⟨row, hrow⟩ := Option.ne_none_iff_exists'.mp hnode
  obtain ⟨other, hother⟩ := Option.ne_none_iff_exists'.mp hsource
  have hturned : (j.turned table).weight c store b =
      if c.joins (other j.sourceColumn) (Reading.value b j.node j.nodeColumn) then
        (store table).count other else 0 := weight_of_row (j := j.turned table) hother
  have hvalue : Reading.value b j.source j.sourceColumn = other j.sourceColumn := by
    simp [Reading.value, hother]
  have hvalue' : Reading.value b j.node j.nodeColumn = row j.nodeColumn := by
    simp [Reading.value, hrow]
  rw [weight_of_row hrow, hturned, hvalue, hvalue', c.joins_comm, hrow, hother, count_map_some,
    count_map_some]
  split
  · exact Nat.mul_comm _ _
  · simp

/-- A row that a join offers is one of its table, and the source has a row too. -/
theorem row_of_mem_candidates {row : Row} (h : some row ∈ j.candidates c store b) :
    row ∈ store j.table ∧ b j.source ≠ none := by
  have hmatching : row ∈ j.matching c store b := by
    unfold candidates at h
    split at h
    · simp at h
    · simpa using h
  obtain ⟨hrow, hjoins⟩ := List.mem_filter.mp hmatching
  refine ⟨hrow, Reading.ne_none_of_value (?_ : b.value j.source j.sourceColumn ≠ .null)⟩
  intro hnull
  rw [hnull, c.not_joins_null] at hjoins
  cases hjoins

/-- A left join offers no empty place if some row matches. -/
theorem none_not_mem_candidates {row : Row} (h : row ∈ j.matching c store b) :
    none ∉ j.candidates c store b := by
  unfold candidates
  split
  · rename_i hnone
    rw [hnone] at h
    cases h
  · simp

end Join

/-- A plan reads nothing that lacks a row at its base or at a node that it joins as inner. -/
theorem Plan.count_rows_of_missing {p : Plan} {c : Comparison} {store : Store} {b : Reading}
    (hordered : p.Ordered)
    (hrows : ¬ (b p.base.node ≠ none ∧ ∀ j ∈ p.joins, j.kind = .inner → b j.node ≠ none)) :
    (p.rows c store).count b = 0 := by
  by_cases hb : ∀ i, i ∉ p.nodes → b i = none
  · rw [Plan.count_rows hordered hb]
    by_cases hbase : b p.base.node = none
    · have hzero : p.base.weight store b = 0 := by
        rw [TableSource.weight, hbase, List.count_eq_zero]
        simp
      rw [hzero, Nat.zero_mul]
    · obtain ⟨j, hj⟩ := not_forall.mp fun h => hrows ⟨hbase, h⟩
      obtain ⟨hj, hjoin⟩ := Classical.not_imp.mp hj
      obtain ⟨hkind, hnone⟩ := Classical.not_imp.mp hjoin
      have hzero : j.weight c store b = 0 := Join.weight_eq_zero hkind (not_not.mp hnone)
      rw [List.prod_eq_zero (List.mem_map.mpr ⟨j, hj, hzero⟩), Nat.mul_zero]
  · obtain ⟨i, hi⟩ := not_forall.mp hb
    obtain ⟨hi, hbi⟩ := Classical.not_imp.mp hi
    exact Plan.count_rows_eq_zero hordered hi hbi

namespace Context

variable {ctx ctx' : Context} {d : Draft} {p r : Plan} {c : Comparison} {store : Store}
  {b : Reading} {i : Nat}

/-- The table of a node. -/
def tableName (ctx : Context) (i : Nat) : String :=
  ((ctx.nodes[i]?).map (·.table)).getD ""

theorem tableName_eq (harena : ctx.Arena) {t : Table} (ht : ctx.table i = .ok t) :
    ctx.tableName i = t.table := by
  obtain ⟨n, hn, ht⟩ := table_eq_ok_iff.mp ht
  obtain ⟨t', ht', hname⟩ := harena.table hn
  obtain rfl : t = t' := Except.ok.inj (ht.symm.trans ht')
  simp [tableName, hn, hname]

theorem inner_mem_of_lookup {joined : List (Nat × JoinKind)} (hi : i ∈ joined.map (·.1))
    (h : joined.lookup i ≠ some .left) : (i, JoinKind.inner) ∈ joined := by
  cases hlookup : joined.lookup i with
  | none =>
      obtain ⟨pair, hpair, rfl⟩ := List.mem_map.mp hi
      have := List.lookup_eq_none_iff.mp hlookup pair hpair
      simp at this
  | some kind =>
      obtain ⟨pre, post, hsplit, -⟩ := List.lookup_eq_some_iff.mp hlookup
      cases kind with
      | left => exact absurd hlookup h
      | inner => simp [hsplit]

/-! ## Readings of the reference -/

/-- A reading that the reference of a plan offers: it starts with a row of the target,
and at each other node has what the left join on the origin offers. -/
structure Reads (ctx : Context) (c : Comparison) (store : Store) (p : Plan) (b : Reading) :
    Prop where
  target : ∃ row ∈ store (ctx.tableName p.target), b p.target = some row
  node : ∀ i ∈ p.nodes, i ≠ p.target →
    ∃ j, ctx.referenceJoin i = .ok j ∧ b i ∈ j.candidates c store b

namespace Reads

theorem row {row : Row} (h : ctx.Reads c store p b) (hi : i ∈ p.nodes) (hb : b i = some row) :
    row ∈ store (ctx.tableName i) := by
  by_cases htarget : i = p.target
  · obtain ⟨row', hrow', hb'⟩ := h.target
    rw [htarget] at hb ⊢
    obtain rfl : row' = row := Option.some.inj (hb'.symm.trans hb)
    exact hrow'
  · obtain ⟨j, hj, hmem⟩ := h.node i hi htarget
    obtain ⟨link, -, -, htable, -⟩ := referenceJoin_eq_ok_iff.mp hj
    rw [tableName, ← htable]
    exact (Join.row_of_mem_candidates (hb ▸ hmem)).1

/-- A row hangs on a row. -/
theorem origin {o : Nat} (h : ctx.Reads c store p b) (hi : i ∈ p.nodes) (hne : i ≠ p.target)
    (ho : ctx.origin? i = some o) (hb : b i ≠ none) : b o ≠ none := by
  obtain ⟨row, hrow⟩ := Option.ne_none_iff_exists'.mp hb
  obtain ⟨j, hj, hmem⟩ := h.node i hi hne
  have horigin : j.source = o := Option.some.inj ((origin?_of_referenceJoin hj).symm.trans ho)
  exact horigin ▸ (Join.row_of_mem_candidates (hrow ▸ hmem)).2

/-- Over a closed link a row leads to a row. -/
theorem closed {link : Link} (harena : ctx.Arena) (haccepted : ctx.catalog.Accepted)
    (hstore : store.Respects c ctx.catalog) (h : ctx.Reads c store p b) (hi : i ∈ p.nodes)
    (hne : i ≠ p.target) (hlink : ctx.link? i = some link) (hclosed : link.isOpen = false)
    (horigin : link.origin ∈ p.nodes) (hb : b link.origin ≠ none) : b i ≠ none := by
  obtain ⟨j, hj, hmem⟩ := h.node i hi hne
  obtain ⟨link', hlink', -, htable, hcolumn, hsource, hsourceColumn, -⟩ :=
    referenceJoin_eq_ok_iff.mp hj
  obtain rfl : link = link' := Option.some.inj (hlink.symm.trans hlink')
  obtain ⟨n, origin, hn, hangs⟩ := harena.hangs_of_link? hlink
  obtain ⟨t, column, ht, hcol, hname⟩ := columnName_eq_ok_iff.mp hcolumn
  obtain ⟨ot, originColumn, hot, hocol, honame⟩ := columnName_eq_ok_iff.mp hsourceColumn
  have htname := tableName_eq harena ht
  have hotname := tableName_eq harena hot
  obtain ⟨n', hn', ht⟩ := table_eq_ok_iff.mp ht
  obtain ⟨origin', horigin', hot⟩ := table_eq_ok_iff.mp hot
  obtain rfl : n = n' := Option.some.inj (hn.symm.trans hn')
  obtain rfl : origin = origin' := Option.some.inj (hangs.origin_eq.symm.trans horigin')
  obtain ⟨row, hrow⟩ := Option.ne_none_iff_exists'.mp hb
  have hrowMem : row ∈ store ot.table := hotname ▸ h.row horigin hrow
  obtain ⟨other, hother, hjoins⟩ :=
    hstore.exists_joined haccepted hangs.declared hclosed hot ht hocol hcol hrowMem
  have hmatches : other ∈ j.matching c store b := by
    refine List.mem_filter.mpr ⟨?_, ?_⟩
    · rw [htable, ← tableName, htname]
      exact hother
    · rw [← hname, hsource, Reading.value, hrow, ← honame]
      exact hjoins
  intro hnone
  exact Join.none_not_mem_candidates hmatches (hnone ▸ hmem)

/-- Where only the filter refers to a node that has a row, so do the nodes above it. -/
theorem filterBound (harena : ctx.Arena) (hplan : ctx.plan d = .ok p)
    (h : ctx.Reads c store p b) (hrows : ∀ f ∈ d.filterOnlyNodes, b f ≠ none)
    (hi : ctx.FilterBound d i) : b i ≠ none := by
  have htree := isJoinTree_of_plan harena hplan
  obtain ⟨cl, hcl, rfl, -⟩ := plan_eq_ok hplan
  obtain ⟨f, hf, hmem⟩ := hi
  have hbelow := filterOnly_below hcl f hf
  obtain ⟨hne, hnode⟩ := htree.mem_of_filterOnly hf
  rcases List.mem_cons.mp hmem with rfl | hmem
  · exact hrows _ hf
  · refine (harena.of_mem_ancestorsUntil (P := fun k => k ∈ p.nodes ∧ b k ≠ none) ?_ hbelow hne
      ⟨hnode, hrows f hf⟩ hmem).2
    rintro k o ⟨hk, hbk⟩ hkne ho
    exact ⟨(htree.nodes o).mpr (.origin ((htree.nodes k).mp hk) hkne ho),
      h.origin hk hkne ho hbk⟩

/-- A reading of the reference with a row at each node that only the filter refers to has a
row at the base of the plan and wherever the plan joins as inner. -/
theorem inner (harena : ctx.Arena) (haccepted : ctx.catalog.Accepted)
    (hstore : store.Respects c ctx.catalog) (hplan : ctx.plan d = .ok p)
    (h : ctx.Reads c store p b) (hrows : ∀ f ∈ d.filterOnlyNodes, b f ≠ none) :
    b p.base.node ≠ none ∧ ∀ j ∈ p.joins, j.kind = .inner → b j.node ≠ none := by
  have htree := isJoinTree_of_plan harena hplan
  have hbound : ∀ {k}, ctx.FilterBound d k → b k ≠ none :=
    h.filterBound harena hplan hrows
  obtain ⟨cl, -, hdraft, -⟩ := plan_eq_ok hplan
  have htarget : b d.target ≠ none := by
    obtain ⟨row, -, hrow⟩ := h.target
    rw [← hdraft, hrow]
    simp
  have hbase : b p.base.node ≠ none := by
    rcases base_of_plan harena hplan with heq | ⟨-, hb⟩
    · exact heq ▸ htarget
    · exact hbound hb
  refine ⟨hbase, fun j hj => ?_⟩
  -- along the run: a node that is joined as inner has a row
  refine forall_joins_of_plan harena hplan
    (Q := fun joined => ∀ k, (k, JoinKind.inner) ∈ joined → k ∈ p.nodes → b k ≠ none)
    (R := fun j => j.node ∈ p.nodes → j.kind = .inner → b j.node ≠ none) ?_ ?_ j hj
    (List.mem_cons_of_mem _ (List.mem_map_of_mem hj))
  · intro k hk _
    obtain rfl : k = p.base.node := (Prod.mk.inj (List.mem_singleton.mp hk)).1
    exact hbase
  · intro forced joined i edge j hforced hQ hedge hjoin hwalked
    obtain ⟨hnode, -⟩ := join_eq_ok hjoin
    have hR : j.node ∈ p.nodes → j.kind = .inner → b j.node ≠ none := by
      rw [hnode]
      intro hi hkind
      by_cases hne : i = d.target
      · exact hne ▸ htarget
      · rcases hwalked with ⟨o, rfl⟩ | ⟨-, -, heq⟩
        · obtain ⟨ho, hjoined⟩ := edge?_eq_fromOrigin hedge
          rcases forced_or_closed_of_join hjoin hkind with hi' | ⟨hlookup, link, hlink, hclosed⟩
          · exact hbound ((hforced i hi').resolve_left hne)
          · have horigin : link.origin = o := by
              rw [origin?, hlink] at ho
              exact Option.some.inj ho
            have hinner := inner_mem_of_lookup hjoined hlookup
            have hnodeOrigin : o ∈ p.nodes :=
              (htree.nodes o).mpr (.origin ((htree.nodes i).mp hi) (hdraft ▸ hne) ho)
            exact h.closed harena haccepted hstore hi (hdraft ▸ hne) hlink hclosed
              (horigin ▸ hnodeOrigin) (horigin ▸ hQ o hinner hnodeOrigin)
        · exact absurd heq hne
    refine ⟨hR, fun k hk hmem => ?_⟩
    rcases List.mem_append.mp hk with hk | hk
    · exact hQ k hk hmem
    · obtain ⟨rfl, hkind⟩ := Prod.mk.inj (List.mem_singleton.mp hk)
      exact hnode ▸ hR (hnode.symm ▸ hmem) hkind.symm

end Reads

/-! ## Counting readings -/

/-- How often the reference join of a node offers the row that a reading has there. -/
noncomputable def referenceWeight (ctx : Context) (c : Comparison) (store : Store) (b : Reading)
    (i : Nat) : Nat :=
  match ctx.referenceJoin i with
  | .ok j => j.weight c store b
  | .error _ => 0

/-- How often the reference of a plan reads a reading: the target first, and then each
other node on its origin. -/
noncomputable def referenceCount (ctx : Context) (c : Comparison) (store : Store) (p : Plan)
    (b : Reading) : Nat :=
  ((store (ctx.tableName p.target)).map some).count (b p.target) *
    ((p.nodes.erase p.target).map (ctx.referenceWeight c store b)).prod

theorem referenceWeight_eq {j : Join} (h : ctx.referenceJoin i = .ok j) :
    ctx.referenceWeight c store b i = j.weight c store b := by
  rw [referenceWeight, h]

theorem map_weight_eq {joins : List Join}
    (h : ∀ j ∈ joins, ctx.referenceWeight c store b j.node = j.weight c store b) :
    joins.map (Join.weight c store b) =
      (joins.map (·.node)).map (ctx.referenceWeight c store b) := by
  rw [List.map_map]
  exact List.map_congr_left fun j hj => (h j hj).symm

theorem target_mem_nodes (harena : ctx.Arena) (hplan : ctx.plan d = .ok p) :
    p.target ∈ p.nodes :=
  ((isJoinTree_of_plan harena hplan).nodes _).mpr .target

theorem perm_of_reference (harena : ctx.Arena) (hplan : ctx.plan d = .ok p)
    (href : ctx.reference p = .ok r) : r.nodes.Perm p.nodes := by
  obtain ⟨n, joins, -, hnodes, -, rfl⟩ := reference_eq_ok_iff.mp href
  rw [Plan.nodes, hnodes]
  exact ((List.mergeSort_perm _ _).cons _).trans
    (List.perm_cons_erase (target_mem_nodes harena hplan)).symm

/-- In a reference origins come first: their indices are smaller. -/
theorem ordered_of_reference (harena : ctx.Arena) (hplan : ctx.plan d = .ok p)
    (href : ctx.reference p = .ok r) : r.Ordered := by
  have htree := isJoinTree_of_plan harena hplan
  have hperm := perm_of_reference harena hplan href
  refine ⟨hperm.nodup_iff.mpr htree.nodup, ?_⟩
  obtain ⟨cl, -, rfl, -⟩ := plan_eq_ok hplan
  obtain ⟨n, joins, -, hnodes, hjoins, rfl⟩ := reference_eq_ok_iff.mp href
  intro pre j post (hsplit : joins = pre ++ j :: post)
  have hj : j ∈ joins := by simp [hsplit]
  have ho := origin?_of_referenceJoin (hjoins j hj)
  have hmem : j.node ∈ p.nodes.erase p.target := by
    have : j.node ∈ joins.map (·.node) := List.mem_map_of_mem hj
    simpa [hnodes] using this
  rw [htree.nodup.mem_erase_iff] at hmem
  have hsourceMem : j.source ∈ p.nodes :=
    (htree.nodes _).mpr (.origin ((htree.nodes _).mp hmem.2) hmem.1 ho)
  -- the source has the smaller index, so it cannot come later
  have hsorted : (joins.map (·.node)).Pairwise fun i k => decide (i ≤ k) = true := by
    rw [hnodes]
    refine List.pairwise_mergeSort ?_ ?_ _
    · simp only [decide_eq_true_eq]
      omega
    · simp only [Bool.or_eq_true, decide_eq_true_eq]
      omega
  rcases List.mem_cons.mp (hperm.mem_iff.mpr hsourceMem) with heq | hin
  · exact heq ▸ List.mem_cons_self ..
  · refine List.mem_cons_of_mem _ ?_
    have hlt := harena.origin_lt ho
    rw [hsplit, List.map_append, List.map_cons] at hsorted hin
    obtain ⟨-, hlater, -⟩ := List.pairwise_append.mp hsorted
    have hlater := (List.pairwise_cons.mp hlater).1
    rcases List.mem_append.mp hin with hin | hin
    · exact hin
    · rcases List.mem_cons.mp hin with heq | hin
      · omega
      · have := hlater _ hin
        simp only [decide_eq_true_eq] at this
        omega

theorem count_rows_of_reference (harena : ctx.Arena) (hplan : ctx.plan d = .ok p)
    (href : ctx.reference p = .ok r) (hb : ∀ i, i ∉ p.nodes → b i = none) :
    (r.rows c store).count b = ctx.referenceCount c store p b := by
  have hperm := perm_of_reference harena hplan href
  rw [Plan.count_rows (ordered_of_reference harena hplan href)
    fun i hi => hb i fun h => hi (hperm.mem_iff.mpr h)]
  obtain ⟨n, joins, hn, hnodes, hjoins, rfl⟩ := reference_eq_ok_iff.mp href
  have hweights : joins.map (Join.weight c store b) =
      (p.nodes.erase p.target).mergeSort.map (ctx.referenceWeight c store b) := by
    rw [map_weight_eq fun j hj => referenceWeight_eq (hjoins j hj), hnodes]
  have hbase : ctx.tableName p.target = n.table := by simp [tableName, hn]
  have hprod := ((List.mergeSort_perm (p.nodes.erase p.target) fun i j => decide (i ≤ j)).map
    (ctx.referenceWeight c store b)).prod_eq
  rw [hweights, hprod, referenceCount, hbase]
  rfl

theorem reads_of_referenceCount_ne_zero (harena : ctx.Arena) (hplan : ctx.plan d = .ok p)
    (h : ctx.referenceCount c store p b ≠ 0) : ctx.Reads c store p b := by
  have htree := isJoinTree_of_plan harena hplan
  rw [referenceCount] at h
  obtain ⟨htarget, hprod⟩ := Nat.mul_ne_zero_iff.mp h
  constructor
  case target =>
    have hmem := List.one_le_count_iff.mp (Nat.one_le_iff_ne_zero.mpr htarget)
    obtain ⟨row, hrow, heq⟩ := List.mem_map.mp hmem
    exact ⟨row, hrow, heq.symm⟩
  case node =>
    intro i hi hne
    obtain ⟨j, hj⟩ := exists_referenceJoin harena hplan hi hne
    refine ⟨j, hj, ?_⟩
    have hmem : i ∈ p.nodes.erase p.target := htree.nodup.mem_erase_iff.mpr ⟨hne, hi⟩
    have hweight : ctx.referenceWeight c store b i ≠ 0 := by
      intro hzero
      exact hprod (List.prod_eq_zero (List.mem_map.mpr ⟨i, hmem, hzero⟩))
    obtain ⟨link, -, hnode, -⟩ := referenceJoin_eq_ok_iff.mp hj
    rw [referenceWeight_eq hj, Join.weight, hnode] at hweight
    exact List.one_le_count_iff.mp (Nat.one_le_iff_ne_zero.mpr hweight)

theorem Reads.referenceCount_ne_zero (harena : ctx.Arena) (hplan : ctx.plan d = .ok p)
    (h : ctx.Reads c store p b) : ctx.referenceCount c store p b ≠ 0 := by
  have htree := isJoinTree_of_plan harena hplan
  obtain ⟨row, hrow, htarget⟩ := h.target
  refine Nat.mul_ne_zero_iff.mpr ⟨fun hzero => ?_, fun hzero => ?_⟩
  · rw [htarget] at hzero
    exact List.count_eq_zero.mp hzero (List.mem_map_of_mem hrow)
  · obtain ⟨i, hi, hweight⟩ := List.mem_map.mp (List.prod_eq_zero_iff.mp hzero)
    rw [htree.nodup.mem_erase_iff] at hi
    obtain ⟨j, hj, hmem⟩ := h.node i hi.2 hi.1
    obtain ⟨link, -, hnode, -⟩ := referenceJoin_eq_ok_iff.mp hj
    rw [referenceWeight_eq hj, Join.weight, hnode] at hweight
    exact List.count_eq_zero.mp hweight hmem

/-- A plan that joins as inner only where a reading has rows reads it as often as its
reference does. -/
theorem count_rows_of_inner (harena : ctx.Arena) (hplan : ctx.plan d = .ok p)
    (hb : ∀ i, i ∉ p.nodes → b i = none) (hbase : b p.base.node ≠ none)
    (hinner : ∀ j ∈ p.joins, j.kind = .inner → b j.node ≠ none) :
    (p.rows c store).count b = ctx.referenceCount c store p b := by
  have htree := isJoinTree_of_plan harena hplan
  have hjoins := joins_of_plan harena hplan
  obtain ⟨cl, -, rfl, -, -, n, hn, htable⟩ := plan_eq_ok hplan
  have hweight : ∀ j ∈ p.joins, j.node ≠ p.target →
      ctx.referenceWeight c store b j.node = j.weight c store b := by
    intro j hj hne
    rcases hjoins j hj with href | ⟨-, heq, -⟩
    · rw [referenceWeight_eq href]
      cases hkind : j.kind with
      | inner => exact Join.weight_asLeft (hinner j hj hkind)
      | left =>
          have hleft : j.asLeft = j := by rw [Join.asLeft, ← hkind]
          rw [hleft]
    · exact absurd heq hne
  rw [Plan.count_rows htree.toOrdered hb, referenceCount]
  by_cases htarget : p.base.node = p.target
  · have herase : p.nodes.erase p.target = p.joins.map (·.node) := by
      rw [Plan.nodes, htarget, List.erase_cons_head]
    have hnotarget : ∀ j ∈ p.joins, j.node ≠ p.target := by
      intro j hj heq
      refine (List.nodup_cons.mp htree.nodup).1 ?_
      rw [htarget, ← heq]
      exact List.mem_map_of_mem hj
    have hname : ctx.tableName p.target = p.base.table := by
      rw [tableName, ← htarget, hn, ← htable]
      rfl
    rw [herase, map_weight_eq fun j hj => hweight j hj (hnotarget j hj), TableSource.weight,
      htarget, hname]
  · obtain ⟨j, hj, hnode, hkind, hjtable, hturned⟩ := exists_join_of_target harena hplan htarget
    have hjoinsPerm := List.perm_cons_erase hj
    have hnodesPerm : (p.joins.map (·.node)).Perm (p.target :: (p.joins.erase j).map (·.node)) := by
      have := hjoinsPerm.map (·.node)
      rwa [List.map_cons, hnode] at this
    have hnodup := hnodesPerm.nodup_iff.mp (List.nodup_cons.mp htree.nodup).2
    have hothers : ∀ k ∈ p.joins.erase j,
        ctx.referenceWeight c store b k.node = k.weight c store b := by
      intro k hk
      refine hweight k (List.mem_of_mem_erase hk) fun heq => ?_
      exact (List.nodup_cons.mp hnodup).1 (heq ▸ List.mem_map_of_mem hk)
    have herase : (p.nodes.erase p.target).Perm
        (p.base.node :: (p.joins.erase j).map (·.node)) := by
      rw [Plan.nodes, List.erase_cons_tail (by simpa using htarget)]
      have := hnodesPerm.erase p.target
      rw [List.erase_cons_head] at this
      exact this.cons _
    have hbaseWeight : ctx.referenceWeight c store b p.base.node =
        (j.turned p.base.table).weight c store b := referenceWeight_eq hturned
    have hsource : j.source = p.base.node := by
      obtain ⟨link, -, hsource, -⟩ := referenceJoin_eq_ok_iff.mp hturned
      exact hsource
    have hswap : ((store p.base.table).map some).count (b j.source) * j.weight c store b =
        ((store j.table).map some).count (b j.node) * (j.turned p.base.table).weight c store b :=
      Join.weight_turned (hinner j hj hkind) (hsource ▸ hbase)
    rw [(hjoinsPerm.map _).prod_eq, (herase.map _).prod_eq, List.map_cons, List.map_cons,
      List.prod_cons, List.prod_cons, ← map_weight_eq hothers, hbaseWeight, ← Nat.mul_assoc,
      ← Nat.mul_assoc, TableSource.weight, ← hsource, hswap, hnode, hjtable, tableName]

/-! ## Nothing is lost and nothing is won -/

/-- A plan and its reference read each reading that passes the filter equally often. -/
theorem count_passing_eq (harena : ctx.Arena) (haccepted : ctx.catalog.Accepted)
    (hstore : store.Respects c ctx.catalog) (hplan : ctx.plan d = .ok p)
    (href : ctx.reference p = .ok r)
    (hfilter : ∀ filter, p.filter = some filter → filter.isConjunction) :
    (p.passing c store).count b = (r.passing c store).count b := by
  have htree := isJoinTree_of_plan harena hplan
  have hperm := perm_of_reference harena hplan href
  have hadmits : r.admits c b = p.admits c b := by
    obtain ⟨n, joins, -, -, -, rfl⟩ := reference_eq_ok_iff.mp href
    rfl
  rw [Plan.passing, Plan.passing, count_filter_eq, count_filter_eq, hadmits]
  split
  · rename_i hpasses
    by_cases hb : ∀ i, i ∉ p.nodes → b i = none
    · rw [count_rows_of_reference harena hplan href hb]
      by_cases hrows : b p.base.node ≠ none ∧ ∀ j ∈ p.joins, j.kind = .inner → b j.node ≠ none
      · exact count_rows_of_inner harena hplan hb hrows.1 hrows.2
      · -- neither reads it: the plan for want of a row, the reference for the filter
        have hreference : ctx.referenceCount c store p b = 0 := by
          by_contra hne
          have hreads := reads_of_referenceCount_ne_zero harena hplan hne
          obtain ⟨cl, -, rfl, -⟩ := plan_eq_ok hplan
          exact hrows (hreads.inner harena haccepted hstore hplan
            (Plan.rows_of_conjunction hfilter hpasses))
        rw [hreference, Plan.count_rows_of_missing htree.toOrdered hrows]
    · obtain ⟨i, hi⟩ := not_forall.mp hb
      obtain ⟨hi, hbi⟩ := Classical.not_imp.mp hi
      rw [Plan.count_rows_eq_zero htree.toOrdered hi hbi,
        Plan.count_rows_eq_zero (ordered_of_reference harena hplan href)
          (fun h => hi (hperm.mem_iff.mp h)) hbi]
  · rfl

/-- Whatever is asked of whatever target of a reachable context: over every store that
respects the foreign keys, a planned statement whose filter is absent or a conjunction
of comparisons reads the rows of its reference. -/
theorem Planned.passing_perm_reference (hctx : Reachable ctx) (h : ctx.Planned p ctx')
    (hfilter : ∀ filter, p.filter = some filter → filter.isConjunction)
    (hstore : store.Respects c ctx.catalog) :
    ∃ r, ctx'.reference p = .ok r ∧ (p.passing c store).Perm (r.passing c store) := by
  obtain ⟨ctx₁, d, hfrom, hplan, hto⟩ := h.made
  have harena := hctx.arena.grows hfrom
  obtain ⟨definition, haccepted⟩ := hctx.accepted
  have hcatalog := Definition.accepted_of_toCatalog haccepted
  rw [← hfrom.catalog] at hcatalog hstore
  obtain ⟨r, href⟩ := exists_reference harena hplan
  refine ⟨r, reference_grows hto href, List.perm_iff_count.mpr fun b => ?_⟩
  exact count_passing_eq harena hcatalog hstore hplan href hfilter

end Context

end Counting

/-! ## Two orders -/

/-- Equality and inequality of content; nothing holds by the other operators. -/
def Comparison.ofContent : Comparison where
  holds op v w :=
    match op with
    | .eq => v = w
    | .notEq => v ≠ w
    | _ => false
  symm _ _ := decide_eq_decide.mpr eq_comm

/-- One order of each of two customers. -/
def orderStore : Store
  | "orders" =>
    [(fun | "id" => .int 10 | "customer_id" => .int 1 | _ => .null),
     (fun | "id" => .int 11 | "customer_id" => .int 2 | _ => .null)]
  | "customers" =>
    [(fun | "id" => .int 1 | "name" => .text "North" | _ => .null),
     (fun | "id" => .int 2 | "name" => .text "South" | _ => .null)]
  | _ => []

theorem orderStore_respects :
    orderStore.Respects .ofContent Context.orderContext.catalog := by
  constructor
  case relationship =>
    intro t ht r hr foreign foreignKey target key hforeign hforeignKey htarget hkey
    rcases List.mem_pair.mp ht with rfl | rfl
    · obtain rfl := List.mem_singleton.mp hr
      obtain rfl := Except.ok.inj hforeign
      obtain rfl := Except.ok.inj hforeignKey
      obtain rfl := Except.ok.inj htarget
      obtain rfl := Except.ok.inj hkey
      intro row hrow
      rcases List.mem_pair.mp hrow with rfl | rfl
      · exact ⟨fun _ => by decide, fun _ => ⟨_, List.mem_cons_self .., by decide⟩⟩
      · exact ⟨fun _ => by decide,
          fun _ => ⟨_, List.mem_cons_of_mem _ (List.mem_cons_self ..), by decide⟩⟩
    · cases hr
  case lookup =>
    intro t ht column hcolumn lookup target key hlookup
    rcases List.mem_pair.mp ht with rfl | rfl
    · rcases List.mem_pair.mp hcolumn with rfl | rfl <;> cases hlookup
    · rcases List.mem_pair.mp hcolumn with rfl | rfl <;> cases hlookup

/-- The orders of one customer, read from the customers on: one row, as in the reference. -/
theorem passing_ordersOf : ∃ p ctx' r, Context.orderContext.Planned p ctx' ∧
    p.base.node ≠ p.target ∧ (∀ filter, p.filter = some filter → filter.isConjunction) ∧
    (p.passing .ofContent orderStore).length = 1 ∧ ctx'.reference p = .ok r ∧
    (p.passing .ofContent orderStore).Perm (r.passing .ofContent orderStore) := by
  have hplan : ((((Context.ordersOf "North").plan 0 .outer).run Context.orderContext).1.toOption.map
      fun p => (p.base.node, p.target, p.filter.all BoundFilter.isConjunction,
        (p.passing .ofContent orderStore).length)) = some (1, 0, true, 1) := by decide +kernel
  obtain ⟨p, hp, hfacts⟩ := Option.map_eq_some_iff.mp hplan
  rcases hrun : ((Context.ordersOf "North").plan 0 .outer).run Context.orderContext
    with ⟨answer, ctx'⟩
  cases answer with
  | error e => simp [hrun, Except.toOption] at hp
  | ok q =>
      obtain rfl : q = p := by simpa [hrun, Except.toOption] using hp
      obtain ⟨hbase, htarget, hconjunction, hlength⟩ := by simpa only [Prod.mk.injEq] using hfacts
      have hplanned : Context.orderContext.Planned q ctx' := .single hrun
      have hfilter : ∀ filter, q.filter = some filter → filter.isConjunction := by
        intro filter hsome
        simpa [hsome] using hconjunction
      obtain ⟨r, href, hperm⟩ := hplanned.passing_perm_reference Context.reachable_orderContext
        hfilter orderStore_respects
      exact ⟨q, ctx', r, hplanned, by omega, hfilter, hlength, href, hperm⟩

end EntityMap
