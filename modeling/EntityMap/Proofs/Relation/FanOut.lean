import EntityMap.Proofs.Context.Routes
import EntityMap.Proofs.Query.Strategy
import EntityMap.Proofs.Relation.Preservation
import EntityMap.Proofs.Relation.UniqueKeys

/-!
# Plans that do not fan out

A left join keeps each reading, and does so once if it finds at most one
row, as every join does that is not inverse where keys are unique. So a
reference without inverted nodes reads each row of its target just once
(`Context.map_target_of_reference`), and a plan, which reads nothing that
its reference does not read (`Context.subperm_reference`), at most once.

A limited query that is answered by a single statement has no inverted
node (`Request.direct_reads_once`).
-/

namespace EntityMap

section Joins

variable {c : Comparison} {store : Store} {rows : List Reading} {i : Nat}

namespace Join

variable {j : Join} {a : Reading}

theorem candidates_ne_nil (c : Comparison) (store : Store) (a : Reading) (hkind : j.kind = .left) :
    j.candidates c store a ≠ [] := by
  cases hrows : j.matching c store a <;> simp [candidates, hkind, hrows]

theorem length_candidates_eq_one (hkind : j.kind = .left)
    (hone : (j.matching c store a).length ≤ 1) : (j.candidates c store a).length = 1 := by
  match hrows : j.matching c store a with
  | [] => simp [candidates, hkind, hrows]
  | [row] => simp [candidates, hrows]
  | row :: other :: rest => simp [hrows] at hone

theorem map_flatMap_extend (hi : i ≠ j.node)
    (hone : ∀ a, (j.candidates c store a).length = 1) :
    (rows.flatMap (j.extend c store)).map (· i) = rows.map (· i) := by
  induction rows with
  | nil => rfl
  | cons a rest ih =>
      obtain ⟨place, hplace⟩ := List.length_eq_one_iff.mp (hone a)
      rw [List.flatMap_cons, List.map_append, ih, extend, hplace]
      simp [Function.update_of_ne hi]

theorem exists_mem_flatMap_extend (c : Comparison) (store : Store) (hi : i ≠ j.node)
    (hkind : j.kind = .left) (ha : a ∈ rows) :
    ∃ b ∈ rows.flatMap (j.extend c store), b i = a i := by
  obtain ⟨place, hplace⟩ := List.exists_mem_of_ne_nil _ (candidates_ne_nil c store a hkind)
  refine ⟨Function.update a j.node place, ?_, Function.update_of_ne hi _ _⟩
  exact List.mem_flatMap.mpr ⟨a, ha, List.mem_map_of_mem hplace⟩

end Join

variable {joins : List Join}

/-- Joins that offer one place each leave what is read elsewhere as it is. -/
theorem map_foldl_extend (hi : i ∉ joins.map (·.node))
    (hone : ∀ j ∈ joins, ∀ a, (j.candidates c store a).length = 1) :
    (joins.foldl (fun rows j => rows.flatMap (j.extend c store)) rows).map (· i) =
      rows.map (· i) := by
  induction joins generalizing rows with
  | nil => rfl
  | cons j rest ih =>
      rw [List.map_cons, List.mem_cons, not_or] at hi
      rw [List.foldl_cons, ih hi.2 fun j hj => hone j (List.mem_cons_of_mem _ hj)]
      exact Join.map_flatMap_extend hi.1 (hone j (List.mem_cons_self ..))

/-- Left joins lose nothing of what is read elsewhere. -/
theorem exists_mem_foldl_extend (hi : i ∉ joins.map (·.node)) (hleft : ∀ j ∈ joins, j.kind = .left)
    {a : Reading} (ha : a ∈ rows) :
    ∃ b ∈ joins.foldl (fun rows j => rows.flatMap (j.extend c store)) rows, b i = a i := by
  induction joins generalizing rows a with
  | nil => exact ⟨a, ha, rfl⟩
  | cons j rest ih =>
      rw [List.map_cons, List.mem_cons, not_or] at hi
      obtain ⟨b, hb, hba⟩ := Join.exists_mem_flatMap_extend c store hi.1
        (hleft j (List.mem_cons_self ..)) ha
      obtain ⟨b', hb', hbb⟩ := ih hi.2 (fun j hj => hleft j (List.mem_cons_of_mem _ hj)) hb
      exact ⟨b', hb', hbb.trans hba⟩

end Joins

namespace Context

variable {ctx ctx' : Context} {d : Draft} {p r : Plan} {store : Store} {target i : Nat}

theorem Reachable.strategy (hctx : Reachable ctx) {r : Request} {s : Strategy}
    (hrun : (r.strategy target).run ctx = (.ok s, ctx')) : Reachable ctx' := by
  have hcall := hctx.call (.strategy r target)
  rwa [hrun] at hcall

/-! ## Plans and their references -/

section

variable {c : Comparison}

open scoped Classical in
/-- A plan reads nothing more often than its reference does. -/
theorem subperm_reference (harena : ctx.Arena) (hplan : ctx.plan d = .ok p)
    (href : ctx.reference p = .ok r) : (p.rows c store).Subperm (r.rows c store) := by
  have htree := isJoinTree_of_plan harena hplan
  refine List.subperm_ext_iff.mpr fun b _ => ?_
  by_cases hrows : b p.base.node ≠ none ∧ ∀ j ∈ p.joins, j.kind = .inner → b j.node ≠ none
  · by_cases hb : ∀ i, i ∉ p.nodes → b i = none
    · rw [count_rows_of_reference harena hplan href hb,
        count_rows_of_inner harena hplan hb hrows.1 hrows.2]
    · obtain ⟨i, hi⟩ := not_forall.mp hb
      obtain ⟨hi, hbi⟩ := Classical.not_imp.mp hi
      rw [Plan.count_rows_eq_zero htree.toOrdered hi hbi]
      exact Nat.zero_le _
  · rw [Plan.count_rows_of_missing htree.toOrdered hrows]
    exact Nat.zero_le _

open scoped Classical in
theorem reads_of_mem_reference (harena : ctx.Arena) (hplan : ctx.plan d = .ok p)
    (href : ctx.reference p = .ok r) {b : Reading} (hb : b ∈ r.rows c store) :
    ctx.Reads c store p b := by
  have hperm := perm_of_reference harena hplan href
  have hcount : (r.rows c store).count b ≠ 0 := fun h => List.count_eq_zero.mp h hb
  have hnone : ∀ i, i ∉ p.nodes → b i = none := by
    intro i hi
    by_contra hbi
    exact hcount (Plan.count_rows_eq_zero (ordered_of_reference harena hplan href)
      (fun h => hi (hperm.mem_iff.mp h)) hbi)
  rw [count_rows_of_reference harena hplan href hnone] at hcount
  exact reads_of_referenceCount_ne_zero harena hplan hcount

theorem reads_of_mem_passing (harena : ctx.Arena) (hplan : ctx.plan d = .ok p) {b : Reading}
    (hb : b ∈ p.passing c store) : ctx.Reads c store p b := by
  obtain ⟨r, href⟩ := exists_reference harena hplan
  have hrows := (List.mem_filter.mp hb).1
  exact reads_of_mem_reference harena hplan href
    ((subperm_reference harena hplan href).subset hrows)

theorem target_not_mem_reference (harena : ctx.Arena) (hplan : ctx.plan d = .ok p)
    (href : ctx.reference p = .ok r) : p.target ∉ r.joins.map (·.node) := by
  have htree := isJoinTree_of_plan harena hplan
  obtain ⟨n, joins, -, hnodes, -, rfl⟩ := reference_eq_ok_iff.mp href
  intro hmem
  rw [hnodes, List.mem_mergeSort, htree.nodup.mem_erase_iff] at hmem
  exact hmem.1 rfl

theorem map_target_base_of_reference (href : ctx.reference p = .ok r) :
    (r.base.rows store).map (· p.target) = (store (ctx.tableName p.target)).map some := by
  obtain ⟨n, joins, hn, -, -, rfl⟩ := reference_eq_ok_iff.mp href
  rw [TableSource.rows, List.map_map, tableName, hn]
  refine List.map_congr_left fun row _ => ?_
  simp

theorem left_of_reference (href : ctx.reference p = .ok r) : ∀ j ∈ r.joins, j.kind = .left := by
  obtain ⟨n, joins, -, -, hjoins, rfl⟩ := reference_eq_ok_iff.mp href
  intro j hj
  obtain ⟨link, -, -, -, -, -, -, hkind⟩ := referenceJoin_eq_ok_iff.mp (hjoins j hj)
  exact hkind

/-- A reference reads every row of its target. -/
theorem exists_mem_reference (harena : ctx.Arena) (hplan : ctx.plan d = .ok p)
    (href : ctx.reference p = .ok r) {row : Row} (hrow : row ∈ store (ctx.tableName p.target)) :
    ∃ b ∈ r.rows c store, b p.target = some row := by
  have hbase : some row ∈ (r.base.rows store).map (· p.target) := by
    rw [map_target_base_of_reference href]
    exact List.mem_map_of_mem hrow
  obtain ⟨a, ha, harow⟩ := List.mem_map.mp hbase
  obtain ⟨b, hb, hba⟩ := exists_mem_foldl_extend (target_not_mem_reference harena hplan href)
    (left_of_reference href) ha
  exact ⟨b, hb, hba.trans harow⟩

end

/-! ## Where keys are unique -/

variable {c : Collation}

/-- What joins a node that is not inverse is the key of its table. -/
theorem exists_key_of_referenceJoin (hctx : Reachable ctx) {j : Join}
    (hj : ctx.referenceJoin i = .ok j) (hforward : ctx.isInverse i = false) :
    ∃ t ∈ ctx.catalog.tables, ∃ key, t.key = .ok key ∧ j.table = t.table ∧
      j.nodeColumn = key.column := by
  obtain ⟨link, hlink, -, htable, hcolumn, -⟩ := referenceJoin_eq_ok_iff.mp hj
  obtain ⟨n, origin, hn, hangs⟩ := hctx.arena.hangs_of_link? hlink
  have hwalk : link.traversal ≠ .inverse := by
    simpa [isInverse_of_link? hlink] using hforward
  obtain ⟨t, key, ht, hkey, hmember⟩ := hangs.declared.exists_key hctx.catalog_keyed hwalk
  have htmem := (Catalog.mem_of_table ht).1
  have htable' : ctx.table i = .ok t := table_eq_ok_iff.mpr ⟨n, hn, ht⟩
  refine ⟨t, htmem, key, hkey, htable.trans (tableName_eq hctx.arena htable'), ?_⟩
  obtain ⟨t', column, ht', hcol, hcolumn⟩ := columnName_eq_ok_iff.mp hcolumn
  obtain rfl : t = t' := Except.ok.inj (htable'.symm.trans ht')
  rw [hmember, hctx.catalog_accepted.column_eq htmem (mem_columns_of_key hkey)] at hcol
  rw [← hcolumn, Except.ok.inj hcol]

theorem length_candidates_of_forward (hctx : Reachable ctx)
    (hstore : store.UniqueKeys c ctx.catalog) {j : Join} (hj : ctx.referenceJoin i = .ok j)
    (hforward : ctx.isInverse i = false) (a : Reading) :
    (j.candidates c.toComparison store a).length = 1 := by
  obtain ⟨t, ht, key, hkey, htable, hcolumn⟩ := exists_key_of_referenceJoin hctx hj hforward
  obtain ⟨link, -, -, -, -, -, -, hkind⟩ := referenceJoin_eq_ok_iff.mp hj
  exact Join.length_candidates_eq_one hkind
    (hstore.length_matching_le_one ht hkey htable hcolumn a)

theorem exists_key_of_plan (harena : ctx.Arena) (hplan : ctx.plan d = .ok p) :
    ∃ t ∈ ctx.catalog.tables, ∃ key, t.key = .ok key ∧ ctx.tableName p.target = t.table ∧
      p.targetKey = { node := p.target, member := key.member, column := key.column } := by
  obtain ⟨t, key, ht, hkey, htarget⟩ := keyColumn_eq_ok_iff.mp (targetKey_of_plan hplan)
  obtain ⟨-, -, rfl, -⟩ := plan_eq_ok hplan
  have hname := tableName_eq harena ht
  obtain ⟨n, hn, ht⟩ := table_eq_ok_iff.mp ht
  exact ⟨t, (Catalog.mem_of_table ht).1, key, hkey, hname, htarget⟩

/-- A reference without inverted nodes reads each row of its target just once. -/
theorem map_target_of_reference (hctx : Reachable ctx) (hplan : ctx.plan d = .ok p)
    (href : ctx.reference p = .ok r) (hinverted : p.invertedNodes = [])
    (hstore : store.UniqueKeys c ctx.catalog) :
    (r.rows c.toComparison store).map (· p.target) =
      (store (ctx.tableName p.target)).map some := by
  have htree := isJoinTree_of_plan hctx.arena hplan
  rw [← map_target_base_of_reference href]
  refine map_foldl_extend (target_not_mem_reference hctx.arena hplan href) ?_
  obtain ⟨n, joins, -, hnodes, hjoins, rfl⟩ := reference_eq_ok_iff.mp href
  intro j hj
  refine length_candidates_of_forward hctx hstore (hjoins j hj) ?_
  have hmem : j.node ∈ p.nodes.erase p.target := by
    have : j.node ∈ joins.map (·.node) := List.mem_map_of_mem hj
    simpa [hnodes] using this
  rw [htree.nodup.mem_erase_iff] at hmem
  by_contra hinverse
  have hlisted := (mem_invertedNodes hctx.arena hplan).mpr
    ⟨hmem.2, hmem.1, by simpa using hinverse⟩
  simp [hinverted] at hlisted

/-- Away from collections, readings of one row of the target are the same. -/
theorem Reads.eq_of_target_eq {a b : Reading} (hctx : Reachable ctx) (hplan : ctx.plan d = .ok p)
    (hstore : store.UniqueKeys c ctx.catalog) (ha : ctx.Reads c.toComparison store p a)
    (hb : ctx.Reads c.toComparison store p b) (htarget : a p.target = b p.target)
    (hi : i ∈ p.nodes) (hforward : ctx.isBelowCollection p.target i = false) : a i = b i := by
  have htree := isJoinTree_of_plan hctx.arena hplan
  have hbelow : ctx.isAncestorOrSelf p.target i := by
    obtain ⟨cl, hcl, rfl, -⟩ := plan_eq_ok hplan
    exact isAncestorOrSelf_of_needs hctx.arena hcl ((htree.nodes i).mp hi)
  revert hi hforward
  refine hctx.arena.walk_induction
    (P := fun i => i ∈ p.nodes → ctx.isBelowCollection p.target i = false → a i = b i)
    (fun _ _ => htarget) ?_ hbelow
  intro i o hne ho _ ih hi hforward
  rw [isBelowCollection_eq hctx.arena hne ho, Bool.or_eq_false_iff] at hforward
  obtain ⟨hinverse, hforward⟩ := hforward
  have horigin : a o = b o :=
    ih ((htree.nodes o).mpr (.origin ((htree.nodes i).mp hi) hne ho)) hforward
  obtain ⟨j, hj, haj⟩ := ha.node i hi hne
  obtain ⟨j', hj', hbj⟩ := hb.node i hi hne
  obtain rfl : j = j' := Except.ok.inj (hj.symm.trans hj')
  have hsource : j.source = o := Option.some.inj ((origin?_of_referenceJoin hj).symm.trans ho)
  rw [Join.candidates_congr (hsource ▸ horigin)] at haj
  obtain ⟨place, hplace⟩ :=
    List.length_eq_one_iff.mp (length_candidates_of_forward hctx hstore hj hinverse b)
  rw [hplace, List.mem_singleton] at haj hbj
  exact haj.trans hbj.symm

end Context

/-- A limited query that is answered by a single statement reads each row of the target at
most once, before rows are collapsed, ordered and cut. -/
theorem Request.direct_reads_once {ctx ctx' : Context} {r : Request} {target : Nat} {p : Plan}
    {c : Collation} {store : Store} (hctx : Context.Reachable ctx)
    (hrun : (r.strategy target).run ctx = (.ok (.direct p), ctx'))
    (hlimited : r.modifiers.isLimiting) (hstore : store.UniqueKeys c ctx.catalog) :
    ((p.passing c.toComparison store).map (· target)).Subperm
        ((store (ctx'.tableName target)).map some) ∧
      ((p.passing c.toComparison store).map (· target)).Nodup := by
  obtain ⟨hgrows, d, rfl, hmodifiers, -, hstrategy⟩ := r.strategy_eq_ok hrun
  obtain ⟨hplan, hsingle⟩ := Context.strategy_eq_direct hstrategy
  have hctx' := hctx.strategy hrun
  rw [← hgrows.catalog] at hstore
  obtain ⟨-, -, rfl, -⟩ := Context.plan_eq_ok hplan
  have hinverted : p.invertedNodes = [] := by
    rw [Plan.requiresTwoPhase, hmodifiers, hlimited, Bool.and_true] at hsingle
    simpa using hsingle
  obtain ⟨reference, href⟩ := Context.exists_reference hctx'.arena hplan
  have hpassing : (p.passing c.toComparison store).Subperm (reference.rows c.toComparison store) :=
    List.filter_sublist.subperm.trans (Context.subperm_reference hctx'.arena hplan href)
  obtain ⟨rows, hperm, hsublist⟩ := hpassing
  have hperm := hperm.map (· p.target)
  have hsublist := hsublist.map (· p.target)
  rw [Context.map_target_of_reference hctx' hplan href hinverted hstore] at hsublist
  refine ⟨⟨_, hperm, hsublist⟩, hperm.nodup_iff.mp (hsublist.nodup ?_)⟩
  obtain ⟨t, ht, key, hkey, htable, -⟩ := Context.exists_key_of_plan hctx'.arena hplan
  rw [htable]
  exact (hstore.nodup ht hkey).map (Option.some_injective _)

/-- The place of a value in an order: that of an integer, and else one with zero. -/
def Value.rank : Value → Int
  | .int i => i.toInt
  | _ => 0

/-- Equality of content, and the order of integers. -/
def Collation.ofIntegers : Collation where
  toComparison := .ofContent
  trans u v w huv hvw := by
    simp only [Comparison.ofContent, decide_eq_true_eq] at huv hvw ⊢
    exact huv.trans hvw
  le v w := v.rank ≤ w.rank
  le_trans u v w huv hvw := by
    simp only [decide_eq_true_eq] at huv hvw ⊢
    omega
  le_total v w := by
    simp only [Bool.or_eq_true, decide_eq_true_eq]
    omega

theorem orderStore_uniqueKeys :
    orderStore.UniqueKeys .ofIntegers Context.orderContext.catalog := by
  intro t ht key hkey
  rcases List.mem_pair.mp ht with rfl | rfl
  · obtain rfl := Except.ok.inj hkey
    decide
  · obtain rfl := Except.ok.inj hkey
    decide

/-- The distinct orders of one customer, read from the customers on by a single statement. -/
theorem direct_ordersOf : ∃ p ctx',
    ((Context.ordersOf "North").distinct.strategy 0).run Context.orderContext =
      (.ok (.direct p), ctx') ∧ p.base.node ≠ p.target ∧
    (p.passing .ofContent orderStore).length = 1 ∧
    ((p.passing .ofContent orderStore).map (· 0)).Subperm
      ((orderStore (ctx'.tableName 0)).map some) ∧
    ((p.passing .ofContent orderStore).map (· 0)).Nodup := by
  have hplan : ((((Context.ordersOf "North").distinct.strategy 0).run
      Context.orderContext).1.toOption.map fun s =>
        (s.isTwoPhase, s.resultPlan.base.node, s.resultPlan.target,
          (s.resultPlan.passing .ofContent orderStore).length)) = some (false, 1, 0, 1) := by
    decide +kernel
  obtain ⟨s, hs, hfacts⟩ := Option.map_eq_some_iff.mp hplan
  rcases hrun : ((Context.ordersOf "North").distinct.strategy 0).run Context.orderContext
    with ⟨answer, ctx'⟩
  cases answer with
  | error e => simp [hrun, Except.toOption] at hs
  | ok s' =>
      obtain rfl : s' = s := by simpa [hrun, Except.toOption] using hs
      obtain ⟨hsingle, hbase, htarget, hlength⟩ := by simpa only [Prod.mk.injEq] using hfacts
      cases s' with
      | twoPhase keys rows => cases hsingle
      | direct p =>
          obtain ⟨hsubperm, hnodup⟩ := Request.direct_reads_once (c := .ofIntegers)
            Context.reachable_orderContext hrun (by decide) orderStore_uniqueKeys
          refine ⟨p, ctx', rfl, ?_, hlength, hsubperm, hnodup⟩
          simp only [Strategy.resultPlan] at hbase htarget
          omega

end EntityMap
