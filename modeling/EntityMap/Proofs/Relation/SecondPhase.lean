import EntityMap.Proofs.Relation.FirstPhase

/-!
# The rows of a page of keys

The second phase of a query reads what is asked for, of the keys that the
first phase has answered. It starts at the target, and without a filter it
loses no row of it where foreign keys are respected; so it reads just the
rows with these keys, and each once if nothing is read from below a
collection (`Request.rows_of_keys`).
-/

namespace EntityMap

namespace Plan

/-- Whether a reading has one of the keys to which a plan is restricted. -/
def restricts (c : Comparison) (p : Plan) (a : Reading) : Bool :=
  p.keyRestriction.all fun r => r.keys.any fun key => c.joins (a.get r.column) key

/-- The readings of a plan that pass its filter and its restriction. -/
def read (c : Comparison) (store : Store) (p : Plan) : List Reading :=
  (p.passing c store).filter (p.restricts c)

end Plan

/-- The rows of a table that have one of the given values in a column. -/
def Store.having (c : Comparison) (store : Store) (table column : String) (keys : List Value) :
    List Row :=
  (store table).filter fun row => keys.any fun key => c.joins (row column) key

theorem Store.UniqueKeys.countP_having {c : Collation} {catalog : Catalog} {store : Store}
    {t : Table} {key : Column} {keys : List Value} {v : Value} (h : store.UniqueKeys c catalog)
    (ht : t ∈ catalog.tables) (hkey : t.key = .ok key) (hv : v ∈ keys)
    (hrow : ∃ row ∈ store t.table, c.joins (row key.column) v) :
    (store.having c.toComparison t.table key.column keys).countP
      (fun row => c.joins (row key.column) v) = 1 := by
  have hsame : (store.having c.toComparison t.table key.column keys).countP
      (fun row => c.joins (row key.column) v) =
      ((store t.table).filter fun row => c.joins (row key.column) v).length := by
    rw [having, List.countP_filter, ← List.countP_eq_length_filter]
    refine List.countP_congr fun row _ => ?_
    simp only [Bool.and_eq_true, List.any_eq_true, and_iff_left_iff_imp]
    exact fun hjoins => ⟨v, hv, hjoins⟩
  obtain ⟨row, hmem, hjoins⟩ := hrow
  have hle := h.length_filter_joins_le_one ht hkey v
  have hpos := List.length_pos_of_mem
    (List.mem_filter.mpr ⟨hmem, hjoins⟩ :
      row ∈ (store t.table).filter fun row => c.joins (row key.column) v)
  omega

namespace Context

variable {ctx ctx' : Context} {d : Draft} {p : Plan} {c : Collation} {store : Store} {target : Nat}
  {key : NodeColumn} {keys : List Value}

theorem base_eq_target (harena : ctx.Arena) (hplan : ctx.plan d = .ok p)
    (hfilter : p.filter = none) : p.base.node = p.target := by
  obtain ⟨-, -, rfl, -⟩ := plan_eq_ok hplan
  refine (base_of_plan harena hplan).resolve_right ?_
  rintro ⟨-, f, hf, -⟩
  obtain ⟨-, filter, hsome, -⟩ := Draft.mem_filterOnlyNodes.mp hf
  rw [hfilter] at hsome
  cases hsome

open scoped Classical in
/-- Where foreign keys are respected, a plan without a filter reads what its reference reads. -/
theorem passing_perm_rows {r : Plan} (hctx : Reachable ctx) (hplan : ctx.plan d = .ok p)
    (href : ctx.reference p = .ok r) (hfilter : p.filter = none)
    (hstore : store.Respects c.toComparison ctx.catalog) :
    (p.passing c.toComparison store).Perm (r.rows c.toComparison store) := by
  have hpassing : r.passing c.toComparison store = r.rows c.toComparison store := by
    obtain ⟨n, joins, -, -, -, rfl⟩ := reference_eq_ok_iff.mp href
    exact List.filter_eq_self.mpr fun b _ => by simp [Plan.admits, hfilter]
  rw [← hpassing, List.perm_iff_count]
  intro b
  exact count_passing_eq hctx.arena hctx.catalog_accepted hstore hplan href (by simp [hfilter])

section Restricted

variable (hctx : Reachable ctx) (hplan : ctx.plan d = .ok p) (hfilter : p.filter = none)
  (hrestriction : p.keyRestriction = some { column := p.targetKey })
  (hrespects : store.Respects c.toComparison ctx.catalog)

include hctx hplan hrestriction

theorem restricts_withKeys {a : Reading} {row : Row} (ha : a p.target = some row) :
    (p.withKeys keys).restricts c.toComparison a =
      keys.any fun key => c.joins (row p.targetKey.column) key := by
  obtain ⟨t, -, column, -, -, htarget⟩ := exists_key_of_plan hctx.arena hplan
  have hnode : p.targetKey.node = p.target := by rw [htarget]
  simp [Plan.restricts, Plan.withKeys, hrestriction, Reading.get, Reading.value, hnode, ha]

include hfilter hrespects

/-- The rows of the target that a restricted plan reads are those with its keys. -/
theorem mem_map_target_read {place : Option Row} :
    place ∈ ((p.withKeys keys).read c.toComparison store).map (· p.target) ↔
      place ∈ (store.having c.toComparison (ctx.tableName p.target) p.targetKey.column keys).map
        some := by
  constructor
  · intro hplace
    obtain ⟨a, ha, rfl⟩ := List.mem_map.mp hplace
    obtain ⟨hpassing, hrestricts⟩ := List.mem_filter.mp ha
    obtain ⟨row, hrow, harow⟩ := (reads_of_mem_passing hctx.arena hplan hpassing).target
    rw [restricts_withKeys hctx hplan hrestriction harow] at hrestricts
    exact List.mem_map.mpr ⟨row, List.mem_filter.mpr ⟨hrow, hrestricts⟩, harow.symm⟩
  · intro hplace
    obtain ⟨row, hrow, rfl⟩ := List.mem_map.mp hplace
    obtain ⟨hrow, hrestricts⟩ := List.mem_filter.mp hrow
    obtain ⟨r, href⟩ := exists_reference hctx.arena hplan
    obtain ⟨a, ha, harow⟩ := exists_mem_reference (c := c.toComparison) hctx.arena hplan href hrow
    have hpassing := (passing_perm_rows hctx hplan href hfilter hrespects).mem_iff.mpr ha
    refine List.mem_map.mpr ⟨a, List.mem_filter.mpr ⟨hpassing, ?_⟩, harow⟩
    rw [restricts_withKeys hctx hplan hrestriction harow]
    exact hrestricts

/-- Without inverted nodes a restricted plan reads each of these rows once. -/
theorem perm_map_target_read (keys : List Value) (hinverted : p.invertedNodes = [])
    (hunique : store.UniqueKeys c ctx.catalog) :
    (((p.withKeys keys).read c.toComparison store).map (· p.target)).Perm
      ((store.having c.toComparison (ctx.tableName p.target) p.targetKey.column keys).map
        some) := by
  have hread : ((p.withKeys keys).read c.toComparison store).map (· p.target) =
      ((p.passing c.toComparison store).map (· p.target)).filter fun place =>
        place.any fun row => keys.any fun key => c.joins (row p.targetKey.column) key := by
    rw [List.filter_map, Plan.read]
    congr 1
    refine List.filter_congr fun a ha => ?_
    obtain ⟨row, -, harow⟩ := (reads_of_mem_passing hctx.arena hplan ha).target
    rw [restricts_withKeys hctx hplan hrestriction harow]
    simp [harow]
  obtain ⟨r, href⟩ := exists_reference hctx.arena hplan
  have hpassing := (passing_perm_rows hctx hplan href hfilter hrespects).map (· p.target)
  rw [map_target_of_reference hctx hplan href hinverted hunique] at hpassing
  have hperm := hpassing.filter fun place =>
    place.any fun row => keys.any fun key => c.joins (row p.targetKey.column) key
  rw [← hread, List.filter_map] at hperm
  exact hperm

theorem countP_read (hinverted : p.invertedNodes = []) (hunique : store.UniqueKeys c ctx.catalog)
    {v : Value} (hv : v ∈ keys)
    (hrow : ∃ row ∈ store (ctx.tableName p.target), c.joins (row p.targetKey.column) v) :
    ((p.withKeys keys).read c.toComparison store).countP
      (fun a => c.joins (a.get p.targetKey) v) = 1 := by
  obtain ⟨t, ht, column, hkey, htable, htarget⟩ := exists_key_of_plan hctx.arena hplan
  have hplaces : ((p.withKeys keys).read c.toComparison store).countP
      (fun a => c.joins (a.get p.targetKey) v) =
      (((p.withKeys keys).read c.toComparison store).map (· p.target)).countP
        (fun place => place.any fun row => c.joins (row p.targetKey.column) v) := by
    rw [List.countP_map]
    refine List.countP_congr fun a ha => ?_
    obtain ⟨row, -, harow⟩ :=
      (reads_of_mem_passing hctx.arena hplan (List.mem_filter.mp ha).1).target
    simp [Reading.get, Reading.value, htarget, harow]
  have hperm := perm_map_target_read hctx hplan hfilter hrestriction hrespects keys hinverted
    hunique
  rw [htable, htarget] at hrow
  rw [hplaces, hperm.countP_eq, List.countP_map, htable, htarget]
  exact hunique.countP_having ht hkey hv hrow

end Restricted

/-- Nothing in the second phase is read from below a collection if nothing that is selected or
ordered by is. -/
theorem not_isBelowCollection_rowsPhase (hkey : ctx.keyColumn d.target = .ok key)
    (hselect : ∀ column ∈ d.select, ctx.isBelowCollection d.target column.node = false)
    (horder : ∀ term ∈ d.orderBy, ctx.isBelowCollection d.target term.column.node = false) :
    ∀ i ∈ ctx.visited (d.rowsPhase key), ctx.isBelowCollection d.target i = false := by
  obtain ⟨t, column, -, -, rfl⟩ := keyColumn_eq_ok_iff.mp hkey
  intro i hi
  rcases mem_visited.mp hi with hi | ⟨filter, hfilter, -⟩
  · rcases Draft.mem_referencedNodes.mp hi with
      rfl | ⟨column, hc, rfl⟩ | ⟨term, ht, rfl⟩ | ⟨r, hr, rfl⟩
    · exact not_isBelowCollection_target
    · exact hselect column hc
    · exact horder term ht
    · cases hr
      exact not_isBelowCollection_target
  · cases hfilter

end Context

/-- The second phase for any list of keys: it starts at the target and has no filter and no
limit, and the rows of the target that it reads are those with one of the keys. If nothing is
selected or ordered by that lies below a collection, it reads each of these keys once. -/
theorem Request.rows_of_keys {ctx ctx' : Context} {r : Request} {target : Nat} {keys rows : Plan}
    {c : Collation} {store : Store} (hctx : Context.Reachable ctx)
    (hrun : (r.strategy target).run ctx = (.ok (.twoPhase keys rows), ctx'))
    (hunique : store.UniqueKeys c ctx.catalog)
    (hrespects : store.Respects c.toComparison ctx.catalog) (K : List Value) :
    (rows.withKeys K).base.node = target ∧ (rows.withKeys K).filter = none ∧
    (rows.withKeys K).modifiers.limit = none ∧ (rows.withKeys K).modifiers.skip = none ∧
    ctx'.keyColumn target = .ok rows.targetKey ∧
    (∀ place, place ∈ ((rows.withKeys K).read c.toComparison store).map (· target) ↔
      place ∈ (store.having c.toComparison (ctx'.tableName target) rows.targetKey.column K).map
        some) ∧
    ((∀ column ∈ rows.select, ctx'.isBelowCollection target column.node = false) →
      (∀ term ∈ rows.orderBy, ctx'.isBelowCollection target term.column.node = false) →
      ∀ key ∈ K, (∃ row ∈ store (ctx'.tableName target), c.joins (row rows.targetKey.column) key) →
        ((rows.withKeys K).read c.toComparison store).countP
          (fun a => c.joins (a.get rows.targetKey) key) = 1) := by
  obtain ⟨hgrows, d, rfl, -, -, hstrategy⟩ := r.strategy_eq_ok hrun
  obtain ⟨key, hkey, -, hplan⟩ := Context.strategy_eq_twoPhase hstrategy
  have hctx' := hctx.strategy hrun
  rw [← hgrows.catalog] at hunique hrespects
  have htargetKey := Context.targetKey_of_plan hplan
  obtain rfl : key = rows.targetKey := Except.ok.inj (hkey.symm.trans htargetKey)
  obtain ⟨-, -, hdraft, -⟩ := Context.plan_eq_ok hplan
  have htarget : rows.target = d.target := congrArg (·.target) hdraft
  have hfilter : rows.filter = none := congrArg (·.filter) hdraft
  have hrestriction : rows.keyRestriction = some { column := rows.targetKey } :=
    congrArg (·.keyRestriction) hdraft
  have hmodifiers : rows.modifiers = { distinct := d.modifiers.distinct } :=
    congrArg (·.modifiers) hdraft
  have hselected : rows.select = d.select := congrArg (·.select) hdraft
  have hordered : rows.orderBy = d.orderBy := congrArg (·.orderBy) hdraft
  have hbase := Context.base_eq_target hctx'.arena hplan hfilter
  refine ⟨hbase.trans htarget, hfilter, ?_, ?_, hkey, ?_, ?_⟩
  · simp [Plan.withKeys, hmodifiers, Modifiers.limit]
  · simp [Plan.withKeys, hmodifiers]
  · intro place
    rw [← htarget]
    exact Context.mem_map_target_read hctx' hplan hfilter hrestriction hrespects
  · intro hselect horder key hK hrow
    rw [hselected] at hselect
    rw [hordered] at horder
    have hinverted : rows.invertedNodes = [] := Context.invertedNodes_eq_nil hctx'.arena hplan
      (Context.not_isBelowCollection_rowsPhase hkey hselect horder)
    rw [← htarget] at hrow
    exact Context.countP_read hctx' hplan hfilter hrestriction hrespects hinverted hunique hK hrow

theorem customerStore_respects :
    customerStore.Respects .ofContent Context.customerContext.catalog := by
  constructor
  case relationship =>
    intro t ht r hr foreign foreignKey target key hforeign hforeignKey htarget hkey
    rcases List.mem_pair.mp ht with rfl | rfl
    · obtain rfl := List.mem_singleton.mp hr
      obtain rfl := Except.ok.inj hforeign
      obtain rfl := Except.ok.inj hforeignKey
      obtain rfl := Except.ok.inj htarget
      obtain rfl := Except.ok.inj hkey
      unfold Store.References
      decide
    · cases hr
  case lookup =>
    intro t ht column hcolumn lookup target key hlookup
    rcases List.mem_pair.mp ht with rfl | rfl
    · obtain rfl := List.mem_singleton.mp hcolumn
      cases hlookup
    · rcases List.mem_pair.mp hcolumn with rfl | rfl <;> cases hlookup

/-- The rows of two keys, of which one is that of a customer and the other is of none. -/
theorem rows_customerWithOrder : ∃ keys rows ctx',
    (customerWithOrder.strategy 0).run Context.customerContext =
      (.ok (.twoPhase keys rows), ctx') ∧
    (∀ place,
      place ∈ ((rows.withKeys [.int 2, .int 3]).read .ofContent customerStore).map (· 0) ↔
        place ∈ (customerStore.having .ofContent "customers" "id" [.int 2, .int 3]).map some) ∧
    ((rows.withKeys [.int 2, .int 3]).read .ofContent customerStore).countP
      (fun a => Comparison.ofContent.joins (a.get rows.targetKey) (.int 2)) = 1 := by
  have hplan : ((((customerWithOrder.strategy 0).run Context.customerContext).1.toOption.bind
      Strategy.phases?).any fun phases => phases.2.targetKey.column = "id" ∧
        (∀ column ∈ phases.2.select, column.node = 0) ∧
          ∀ term ∈ phases.2.orderBy, term.column.node = 0) := by
    decide +kernel
  have htable : (((customerWithOrder.strategy 0).run Context.customerContext).2).tableName 0 =
      "customers" := by
    decide +kernel
  obtain ⟨keys, rows, ctx', hrun, hfacts⟩ := exists_twoPhase hplan
  obtain ⟨hcolumn, hselect, horder⟩ := of_decide_eq_true hfacts
  rw [hrun] at htable
  obtain ⟨-, -, -, -, -, hread, hcount⟩ := Request.rows_of_keys (c := .ofIntegers)
    Context.reachable_customerContext hrun customerStore_uniqueKeys customerStore_respects
    [.int 2, .int 3]
  rw [hcolumn, htable] at hread hcount
  refine ⟨keys, rows, ctx', hrun, @hread, hcount ?_ ?_ (.int 2) (by simp) (by decide)⟩
  · intro column hmem
    rw [hselect column hmem]
    exact Context.not_isBelowCollection_target
  · intro term hmem
    rw [horder term hmem]
    exact Context.not_isBelowCollection_target

end EntityMap
