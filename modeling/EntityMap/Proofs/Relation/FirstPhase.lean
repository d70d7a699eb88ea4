import EntityMap.Proofs.Relation.FanOut
import EntityMap.Proofs.Relation.Page
import Mathlib

/-!
# Pages of keys

The first phase of a query answers the keys of a page, each beside the
columns that order it. Rows are distinct, not keys: a key takes as many
places on the page as its rows differ in these columns. Where each key
has one value in every order column (`Plan.OrdersByKey`), as it has when
nothing is ordered by a column that lies below a collection, the page has
just as many keys as its limit says (`Request.keys_on_page`). Where a
collection orders the keys, it may have fewer (`keys_repeated_on_page`).
-/

namespace EntityMap

namespace Plan

/-- The keys of the target on a page. -/
def targetKeys (p : Plan) (page : List Reading) : Finset Value :=
  (page.map fun a => a.get p.targetKey).toFinset

/-- Whatever passes with one key of the target is ordered by the same values. -/
def OrdersByKey (c : Collation) (store : Store) (p : Plan) : Prop :=
  ∀ a ∈ p.passing c.toComparison store, ∀ b ∈ p.passing c.toComparison store,
    c.same (a.get p.targetKey) (b.get p.targetKey) →
      ∀ term ∈ p.orderBy, c.same (a.get term.column) (b.get term.column)

/-- What a plan of the first phase shows: the key of the target and the order columns. -/
structure ShowsKeys (p : Plan) : Prop where
  distinct : p.modifiers.distinct
  select : p.select = p.targetKey.withLabel keyLabel ::
    p.orderBy.zipIdx.map fun (term, i) => term.column.withLabel (orderLabel i)

variable {c : Collation} {store : Store} {p : Plan} {a b : Reading} {page whole : List Reading}

theorem ShowsKeys.showsSame (h : p.ShowsKeys)
    (hkey : c.same (a.get p.targetKey) (b.get p.targetKey))
    (horder : ∀ term ∈ p.orderBy, c.same (a.get term.column) (b.get term.column)) :
    p.showsSame c a b := by
  rw [Plan.showsSame, h.select, List.all_cons, Bool.and_eq_true]
  refine ⟨hkey, List.all_eq_true.mpr fun column hcolumn => ?_⟩
  obtain ⟨⟨term, i⟩, hterm, rfl⟩ := List.mem_map.mp hcolumn
  exact horder term (List.fst_mem_of_mem_zipIdx hterm)

/-- Rows that are ordered by their keys are distinct in them. -/
theorem card_targetKeys (h : p.ShowsKeys) (horder : p.OrdersByKey c store)
    {kept : List Reading} (hkept : p.Collapsed c (p.passing c.toComparison store) kept)
    (hpage : page.Sublist kept) : (p.targetKeys page).card = page.length := by
  have hapart : kept.Pairwise fun a b => a.get p.targetKey ≠ b.get p.targetKey := by
    refine (hkept.apart h.distinct).imp_of_mem ?_
    intro a b ha hb hnot heq
    have hkey : c.same (a.get p.targetKey) (b.get p.targetKey) := heq ▸ Collation.same_refl _
    exact hnot (h.showsSame hkey
      (horder a (hkept.subperm.subset ha) b (hkept.subperm.subset hb) hkey))
  have hnodup : (page.map fun a => a.get p.targetKey).Nodup :=
    List.pairwise_map.mpr (hapart.sublist hpage)
  rw [targetKeys, List.toFinset_card_of_nodup hnodup, List.length_map]

end Plan

namespace Context

variable {ctx ctx' : Context} {d : Draft} {p : Plan} {c : Collation} {store : Store} {target : Nat}

/-- Nothing that passes is ordered by more than its key if no order column lies below a
collection. -/
theorem ordersByKey_of_plan (hctx : Reachable ctx) (hplan : ctx.plan d = .ok p)
    (hstore : store.UniqueKeys c ctx.catalog)
    (horder : ∀ term ∈ p.orderBy, ctx.isBelowCollection p.target term.column.node = false) :
    p.OrdersByKey c store := by
  have htree := isJoinTree_of_plan hctx.arena hplan
  obtain ⟨t, ht, key, hkey, htable, htarget⟩ := exists_key_of_plan hctx.arena hplan
  intro a ha b hb hsame term hterm
  have hreads := reads_of_mem_passing hctx.arena hplan ha
  have hreads' := reads_of_mem_passing hctx.arena hplan hb
  obtain ⟨row, hrow, harow⟩ := hreads.target
  obtain ⟨other, hother, hbother⟩ := hreads'.target
  have hone : row = other := by
    rw [htable] at hrow hother
    refine hstore.eq_of_same ht hkey hrow hother ?_
    simpa [htarget, Reading.get, Reading.value, harow, hbother] using hsame
  have hnode : a term.column.node = b term.column.node :=
    hreads.eq_of_target_eq hctx hplan hstore hreads' (by rw [harow, hbother, hone])
      ((htree.nodes _).mpr (.ordered hterm)) (horder term hterm)
  have hvalue : a.get term.column = b.get term.column := by
    simp only [Reading.get, Reading.value, hnode]
  exact hvalue ▸ Collation.same_refl _

theorem showsKeys_of_plan {key : NodeColumn} (hkey : ctx.keyColumn d.target = .ok key)
    (hplan : ctx.plan (d.keysPhase key) = .ok p) : p.ShowsKeys := by
  have htarget := targetKey_of_plan hplan
  obtain rfl : key = p.targetKey := Except.ok.inj (hkey.symm.trans htarget)
  obtain ⟨-, -, hdraft, -⟩ := plan_eq_ok hplan
  constructor
  · rw [hdraft]
    rfl
  · rw [hdraft]
    rfl

end Context

/-- The first phase of a limited query has an answer, and every answer has as many rows as the
limit says, unless there are too few behind the offset. If keys are ordered by nothing below
a collection, or else by values that each key has once, then this is so of the keys. -/
theorem Request.keys_on_page {ctx ctx' : Context} {r : Request} {target k : Nat} {keys rows : Plan}
    {c : Collation} {store : Store} (hctx : Context.Reachable ctx)
    (hrun : (r.strategy target).run ctx = (.ok (.twoPhase keys rows), ctx'))
    (hlimit : r.modifiers.limit = some k) (hstore : store.UniqueKeys c ctx.catalog) :
    (∃ page, keys.Answers c store page) ∧
    ((∀ term ∈ keys.orderBy, ctx'.isBelowCollection target term.column.node = false) →
      keys.OrdersByKey c store) ∧
    ∀ page whole, keys.Answers c store page → keys.unlimited.Answers c store whole →
      page.length = min k (whole.length - r.modifiers.skip.getD 0) ∧
      (keys.OrdersByKey c store → (keys.targetKeys page).card =
        min k ((keys.targetKeys whole).card - r.modifiers.skip.getD 0)) := by
  obtain ⟨hgrows, d, rfl, hmodifiers, -, hstrategy⟩ := r.strategy_eq_ok hrun
  obtain ⟨key, hkey, hplan, -⟩ := Context.strategy_eq_twoPhase hstrategy
  rw [← hgrows.catalog] at hstore
  have hshows := Context.showsKeys_of_plan hkey hplan
  have hdraft : keys.modifiers = { r.modifiers with distinct := true } ∧
      keys.target = d.target := by
    obtain ⟨-, -, hdraft, -⟩ := Context.plan_eq_ok hplan
    rw [hdraft, ← hmodifiers]
    exact ⟨rfl, rfl⟩
  obtain ⟨hkeysModifiers, htarget⟩ := hdraft
  have hkeysLimit : keys.modifiers.limit = some k := by
    rw [hkeysModifiers]
    exact hlimit
  have hskip : keys.modifiers.skip = r.modifiers.skip := by rw [hkeysModifiers]
  refine ⟨Plan.exists_answers c store keys, ?_, ?_⟩
  · rw [← htarget]
    exact Context.ordersByKey_of_plan (hctx.strategy hrun) hplan hstore
  · intro page whole hpage hwhole
    have hlength := hpage.length_eq hkeysLimit hwhole
    rw [hskip] at hlength
    refine ⟨hlength, fun horder => ?_⟩
    obtain ⟨kept, hkept, hsublist⟩ := hpage.sublist_collapsed
    rw [Plan.card_targetKeys hshows horder hkept hsublist,
      Plan.card_targetKeys hshows horder hwhole.of_unlimited (List.Sublist.refl _), hlength]

/-! ## Customers and their orders -/

namespace Context

def customerTables : List Table :=
  [{ entity := "Customer", table := "customers"
     columns := [{ member := "Id", column := "id", type := .int64, primaryKey := true }]
     relationships := [
       { name := "Orders", kind := .oneToMany, foreignKey := ⟨"Order", "CustomerId"⟩
         primaryKey := ⟨"Customer", "Id"⟩ }]
     permissions := {} },
   { entity := "Order", table := "orders"
     columns := [
       { member := "Id", column := "id", type := .int64, primaryKey := true },
       { member := "CustomerId", column := "customer_id", type := .int64 }]
     relationships := []
     permissions := {} }]

def customerContext : Context :=
  { catalog := ⟨customerTables, []⟩
    nodes := #[{ index := 0, entity := "Customer", table := "customers", level := 0, link := none
                 joinKind := .inner, children := [] }] }

theorem reachable_customerContext : Reachable customerContext :=
  have haccepted : Definition.toCatalog ⟨[], customerTables⟩ = .ok ⟨customerTables, []⟩ := rfl
  have hctx : ofEntity ⟨customerTables, []⟩ "Customer" = .ok customerContext := rfl
  .start haccepted hctx

end Context

/-- Two orders of one customer, and one of another. -/
def customerStore : Store
  | "customers" =>
    [(fun | "id" => .int 1 | _ => .null), (fun | "id" => .int 2 | _ => .null)]
  | "orders" =>
    [(fun | "id" => .int 10 | "customer_id" => .int 1 | _ => .null),
     (fun | "id" => .int 11 | "customer_id" => .int 1 | _ => .null),
     (fun | "id" => .int 12 | "customer_id" => .int 2 | _ => .null)]
  | _ => []

theorem customerStore_uniqueKeys :
    customerStore.UniqueKeys .ofIntegers Context.customerContext.catalog := by
  intro t ht key hkey
  rcases List.mem_pair.mp ht with rfl | rfl
  · obtain rfl := Except.ok.inj hkey
    decide
  · obtain rfl := Except.ok.inj hkey
    decide

/-- The plans of both phases, if there are two. -/
def Strategy.phases? : Strategy → Option (Plan × Plan)
  | direct _ => none
  | twoPhase keys rows => some (keys, rows)

theorem exists_twoPhase {ctx : Context} {r : Request} {target : Nat} {test : Plan × Plan → Bool}
    (h : (((r.strategy target).run ctx).1.toOption.bind Strategy.phases?).any test) :
    ∃ keys rows ctx', (r.strategy target).run ctx = (.ok (.twoPhase keys rows), ctx') ∧
      test (keys, rows) := by
  rcases hrun : (r.strategy target).run ctx with ⟨answer, ctx'⟩
  rw [hrun] at h
  match answer with
  | .error e => cases h
  | .ok (.direct p) => cases h
  | .ok (.twoPhase keys rows) => exact ⟨keys, rows, ctx', rfl, h⟩

/-- The first customer with an order other than one. -/
def customerWithOrder : Request :=
  { filter := some (.compare "Orders.Id" .notEq (.int 11)), orderBy := [{ path := "Id" }]
    modifiers := { take := some 1 } }

theorem keys_customerWithOrder : ∃ keys rows ctx',
    (customerWithOrder.strategy 0).run Context.customerContext =
      (.ok (.twoPhase keys rows), ctx') ∧
    ∀ page whole, keys.Answers .ofIntegers customerStore page →
      keys.unlimited.Answers .ofIntegers customerStore whole →
      (keys.targetKeys page).card = min 1 (keys.targetKeys whole).card := by
  have hplan : ((((customerWithOrder.strategy 0).run Context.customerContext).1.toOption.bind
      Strategy.phases?).any fun (keys, _) => keys.orderBy.all (·.column.node = 0)) := by
    decide +kernel
  obtain ⟨keys, rows, ctx', hrun, horder⟩ := exists_twoPhase hplan
  obtain ⟨-, hbykey, hpage⟩ := Request.keys_on_page (k := 1) Context.reachable_customerContext hrun
    rfl customerStore_uniqueKeys
  refine ⟨keys, rows, ctx', hrun, fun page whole hanswer hwhole => ?_⟩
  refine (hpage page whole hanswer hwhole).2 (hbykey fun term hterm => ?_)
  have hnode : term.column.node = 0 := by simpa using List.all_eq_true.mp horder term hterm
  rw [hnode]
  exact Context.not_isBelowCollection_target

/-- The first two customers, in the order of their orders. -/
def customersByOrder : Request :=
  { orderBy := [{ path := "Orders.Id" }], modifiers := { take := some 2 } }

/-- What the first phase reads for these customers. -/
def keysByOrder : Plan :=
  let key : NodeColumn := { node := 0, member := "Id", column := "id" }
  let order : NodeColumn := { node := 1, member := "Id", column := "id" }
  { target := 0
    select := [key.withLabel "__key", order.withLabel "__order0"]
    orderBy := [{ column := order, direction := .asc }]
    modifiers := { distinct := true, take := some 2 }
    targetKey := key
    base := { node := 0, entity := "Customer", table := "customers" }
    joins := [{ node := 1, table := "orders", nodeColumn := "customer_id"
                source := 0, sourceColumn := "id", kind := .left }]
    invertedNodes := [1] }

theorem phases_customersByOrder :
    (((customersByOrder.strategy 0).run Context.customerContext).1.toOption.bind
      Strategy.phases?).any fun (keys, _) => keys = keysByOrder := by
  cbv

/-- Keys that a collection orders: the first two places on the page go to the two orders of one
customer, and the other customer is left out. -/
theorem keys_repeated_on_page :
    ¬ ∀ (ctx ctx' : Context) (r : Request) (target k : Nat) (keys rows : Plan) (c : Collation)
        (store : Store), Context.Reachable ctx →
      (r.strategy target).run ctx = (.ok (.twoPhase keys rows), ctx') →
      r.modifiers.limit = some k → store.UniqueKeys c ctx.catalog →
      ∀ page whole, keys.Answers c store page → keys.unlimited.Answers c store whole →
        (keys.targetKeys page).card =
          min k ((keys.targetKeys whole).card - r.modifiers.skip.getD 0) := by
  intro h
  obtain ⟨keys, rows, ctx', hrun, hkeys⟩ := exists_twoPhase phases_customersByOrder
  obtain rfl : keys = keysByOrder := of_decide_eq_true hkeys
  have hkept : keysByOrder.Collapsed .ofIntegers (keysByOrder.passing .ofContent customerStore)
      (keysByOrder.passing .ofContent customerStore) :=
    ⟨List.Subperm.refl _, fun _ => List.Perm.refl _, fun _ => by decide +kernel,
      fun _ a ha => ⟨a, ha, Plan.showsSame_refl a⟩⟩
  have hsorted : (keysByOrder.passing .ofContent customerStore).Pairwise fun a b =>
      Reading.le .ofIntegers keysByOrder.orderBy a b := by
    decide +kernel
  have hpage : keysByOrder.Answers .ofIntegers customerStore _ := .intro hkept hsorted
  have hwhole : keysByOrder.unlimited.Answers .ofIntegers customerStore
      (keysByOrder.passing .ofContent customerStore) :=
    .intro (p := keysByOrder.unlimited)
      ⟨hkept.subperm, hkept.all, hkept.apart, hkept.covers⟩ hsorted
  have hcard := h _ _ customersByOrder 0 2 keysByOrder rows .ofIntegers customerStore
    Context.reachable_customerContext hrun rfl customerStore_uniqueKeys _ _ hpage hwhole
  have hone : (keysByOrder.targetKeys (keysByOrder.modifiers.cut
      (keysByOrder.passing .ofContent customerStore))).card = 1 := by
    decide +kernel
  have htwo : (keysByOrder.targetKeys (keysByOrder.passing .ofContent customerStore)).card = 2 := by
    decide +kernel
  rw [hone, htwo] at hcard
  cases hcard

end EntityMap
