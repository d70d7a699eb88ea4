import EntityMap.Proofs.Query.Included
import Mathlib

/-!
# How included rows are stitched to their parents

An include answers the rows of a collection with their foreign key, and
the plan that it hangs on answers the key that these point to, each under
a name that the include says. The names are those of members, and what
a plan answers under the name of a member is the column behind it
(`Context.AnsweredAs`), as long as no name has a dot. So the foreign key
of an include is the column that its query is restricted to, and the key
of its parent rows the one that the collection hangs on, stored in its
node or in the foreign key that has led there
(`Request.includes_stitched`).

A key that is also a lookup is different: a plan that answers it has the
label of the lookup under its name, and rows cannot be stitched by it
(`prices_by_code`).
-/

namespace EntityMap

/-- No member of a catalog has a dot in its name. -/
def Catalog.Dotless (catalog : Catalog) : Prop :=
  ∀ t ∈ catalog.tables, ∀ c ∈ t.columns, '.' ∉ c.member.toList

instance (catalog : Catalog) : Decidable catalog.Dotless :=
  inferInstanceAs (Decidable (∀ t ∈ catalog.tables, ∀ c ∈ t.columns, '.' ∉ c.member.toList))

/-- Whether a query that asks for all of an entity answers the label of a lookup for a member. -/
def Column.isLabelled (c : Column) : Bool :=
  c.isAnswered && c.lookup.isSome

/-- The column that a plan answers under a name. -/
def Plan.answered? (p : Plan) (label : String) : Option NodeColumn :=
  (p.columnPosition? label).bind (p.select[·]?)

theorem Plan.exists_answered? {p : Plan} {label : String}
    (h : ∃ c ∈ p.select, c.label = some label) :
    ∃ c ∈ p.select, c.label = some label ∧ p.answered? label = some c := by
  obtain ⟨position, hposition⟩ : ∃ position, p.columnPosition? label = some position :=
    Option.isSome_iff_exists.mp (by simpa [columnPosition?] using h)
  obtain ⟨hlt, hlabel, -⟩ := List.findIdx?_eq_some_iff_getElem.mp hposition
  refine ⟨p.select[position], List.getElem_mem hlt, by simpa using hlabel, ?_⟩
  rw [answered?, hposition, Option.bind_some, List.getElem?_eq_getElem hlt]

namespace Context

variable {ctx ctx' : Context} {target i k : Nat} {route : List String} {t : Table}
  {mapped key : Column} {c : NodeColumn} {select : List NodeColumn}

/-! ## What stands under the name of a member -/

/-- A column that is answered under the name of a member: the one behind the member, or else, if
the member itself is not answered, the one that is mapped to it. -/
inductive AnsweredAs (ctx : Context) (target k : Nat) (mapped : Column) (c : NodeColumn) : Prop
  | stored {r : NodeColumn} (hanswered : mapped.isAnswered = true)
      (hstored : ctx.StoredIn target k mapped r) (hnode : c.node = r.node)
      (hcolumn : c.column = r.column)
  | added (hhidden : mapped.isAnswered = false) (hnode : c.node = k)
      (hcolumn : c.column = mapped.column)

/-- What is selected along routes has the names of members, and stands for these. -/
def NamesMembers (ctx : Context) (target : Nat) (select : List NodeColumn) : Prop :=
  ∀ c ∈ select, ∀ {route : List String} {k : Nat} {t : Table} {mapped : Column},
    Path.AreParts route → ctx.along? target route = some k → ctx.table k = .ok t →
    mapped ∈ t.columns → c.label = some (Path.join (route ++ [mapped.member])) →
    ctx.AnsweredAs target k mapped c

theorem mem_catalog_of_table (h : ctx.table k = .ok t) : t ∈ ctx.catalog.tables := by
  obtain ⟨n, -, ht⟩ := table_eq_ok_iff.mp h
  exact (Catalog.mem_of_table ht).1

/-- Names without dots tell routes and members apart. -/
theorem Answers.answeredAs {route' : List String} {k' : Nat} {mapped' : Column}
    (h : ctx.Answers target route' k' mapped' c) (haccepted : ctx.catalog.Accepted)
    (hdotless : ctx.catalog.Dotless) (hparts : Path.AreParts route)
    (halong : ctx.along? target route = some k) (ht : ctx.table k = .ok t)
    (hmapped : mapped ∈ t.columns)
    (hlabel : c.label = some (Path.join (route ++ [mapped.member]))) :
    ctx.AnsweredAs target k mapped c := by
  obtain ⟨t', ht', hmapped'⟩ := h.hasColumn
  have hmember := hdotless t (mem_catalog_of_table ht) mapped hmapped
  have hmember' := hdotless t' (mem_catalog_of_table ht') mapped' hmapped'
  obtain ⟨rfl, hsame⟩ := h.parts.join_concat_inj hparts hmember' hmember
    (Option.some.inj (h.label.symm.trans hlabel))
  obtain rfl := Option.some.inj (h.along.symm.trans halong)
  obtain rfl := Except.ok.inj (ht.symm.trans ht')
  obtain rfl := haccepted.eq_of_member (mem_catalog_of_table ht) hmapped hmapped' hsame.symm
  obtain ⟨r, ⟨column, hcolumn, hstored⟩, rfl⟩ := h.resolves
  obtain ⟨t', ht', hcolumn⟩ := Except.bind_eq_ok_iff.mp hcolumn
  obtain rfl := Except.ok.inj (ht.symm.trans ht')
  obtain ⟨hmem, hname⟩ := Table.mem_of_column (Except.mapError_eq_ok_iff.mp hcolumn)
  obtain rfl := haccepted.eq_of_member (mem_catalog_of_table ht) hmem hmapped hname
  exact .stored h.isAnswered hstored rfl rfl

theorem namesMembers_of_answers (haccepted : ctx.catalog.Accepted) (hdotless : ctx.catalog.Dotless)
    (h : ∀ c ∈ select, ∃ route k mapped, ctx.Answers target route k mapped c) :
    ctx.NamesMembers target select := by
  intro c hc route k t mapped hparts halong ht hmapped hlabel
  obtain ⟨route', k', mapped', hanswers⟩ := h c hc
  exact hanswers.answeredAs haccepted hdotless hparts halong ht hmapped hlabel

/-- A foreign key that is added has the name of a member that is not answered. -/
theorem Selects.namesMembers_concat {foreignKey : Column} (h : ctx.Selects target select)
    (haccepted : ctx.catalog.Accepted) (hdotless : ctx.catalog.Dotless)
    (ht : ctx.table target = .ok t) (hforeignKey : foreignKey ∈ t.columns)
    (hnew : selects select foreignKey.member = false) :
    ctx.NamesMembers target (select ++ [{ node := target, member := foreignKey.member
                                          column := foreignKey.column
                                          label := some foreignKey.member }]) := by
  intro c hc route k t' mapped hparts halong ht' hmapped hlabel
  rcases List.mem_append.mp hc with hc | hc
  · exact namesMembers_of_answers haccepted hdotless h.answers c hc hparts halong ht' hmapped hlabel
  · obtain rfl := List.mem_singleton.mp hc
    have hmember := hdotless t' (mem_catalog_of_table ht') mapped hmapped
    have hmember' := hdotless t (mem_catalog_of_table ht) foreignKey hforeignKey
    obtain ⟨rfl, hsame⟩ := Path.AreParts.nil.join_concat_inj hparts hmember' hmember
      (Option.some.inj hlabel)
    obtain rfl : target = k := Option.some.inj halong
    obtain rfl := Except.ok.inj (ht.symm.trans ht')
    obtain rfl := haccepted.eq_of_member (mem_catalog_of_table ht) hforeignKey hmapped hsame
    refine .added ?_ rfl rfl
    by_contra hanswered
    have hthere := h.own t ht foreignKey hforeignKey (by simpa using hanswered)
    rw [hnew] at hthere
    cases hthere

/-! ## Where keys are stored -/

/-- A column that stores the key of a node: its own, or the foreign key by which it was joined. -/
inductive StoresKey (ctx : Context) (i : Nat) (key : Column) (c : NodeColumn) : Prop
  | own (hnode : c.node = i) (hcolumn : c.column = key.column)
  | onOrigin {link : Link} {foreignKey : Column}
      (hlink : ctx.keyOnOrigin? i key.member = some link)
      (hforeignKey : ctx.column link.origin link.originMember = .ok foreignKey)
      (hnode : c.node = link.origin) (hcolumn : c.column = foreignKey.column)

/-- A key is stored on its node or above it. -/
theorem StoresKey.node_le (h : ctx.StoresKey k key c) (harena : ctx.Arena) : c.node ≤ k := by
  cases h with
  | own hnode => exact Nat.le_of_eq hnode
  | onOrigin hlink _ hnode =>
      obtain ⟨hlink, -⟩ := Option.filter_eq_some_iff.mp hlink
      obtain ⟨n, origin, -, hangs⟩ := harena.hangs_of_link? hlink
      rw [hnode]
      exact Nat.le_of_lt hangs.lt

theorem Registered.lt_of_child? {childKey : ChildKey} (h : ctx.Registered) (harena : ctx.Arena)
    (hk : ctx.child? i childKey = some k) : i < k := by
  obtain ⟨link, hlink, rfl, -⟩ := h.hangs hk
  obtain ⟨n, origin, -, hangs⟩ := harena.hangs_of_link? hlink
  exact hangs.lt

namespace AnsweredAs

/-- What is answered for a member is a label, from behind the node, or else stores the member, in
its own column if the node is the target. -/
theorem labelled_or_stored (h : ctx.AnsweredAs target k mapped c) (hregistered : ctx.Registered)
    (harena : ctx.Arena) : (mapped.isLabelled = true ∧ k < c.node) ∨
      (mapped.isLabelled = false ∧ ctx.StoresKey k mapped c ∧
        (k = target → c.node = k ∧ c.column = mapped.column)) := by
  cases h with
  | stored hanswered hstored hnode hcolumn =>
      cases hstored with
      | lookup hlookup hchild =>
          refine .inl ⟨by simp [Column.isLabelled, hanswered, hlookup], ?_⟩
          rw [hnode]
          exact hregistered.lt_of_child? harena hchild
      | onOrigin hlookup hkey hbelow hlink hforeignKey =>
          refine .inr ⟨by simp [Column.isLabelled, hlookup], ?_, fun heq => absurd heq hbelow⟩
          exact .onOrigin hlink hforeignKey hnode hcolumn
      | own hlookup =>
          exact .inr ⟨by simp [Column.isLabelled, hlookup], .own hnode hcolumn,
            fun _ => ⟨hnode, hcolumn⟩⟩
  | added hhidden hnode hcolumn =>
      exact .inr ⟨by simp [Column.isLabelled, hhidden], .own hnode hcolumn,
        fun _ => ⟨hnode, hcolumn⟩⟩

/-- What a target answers for a member of its own is the column of the member or a label. -/
theorem own_iff (h : ctx.AnsweredAs target target mapped c) (hregistered : ctx.Registered)
    (harena : ctx.Arena) :
    (c.node = target ∧ c.column = mapped.column) ↔ mapped.isLabelled = false := by
  rcases h.labelled_or_stored hregistered harena with ⟨hlabelled, hbehind⟩ | ⟨hplain, -, hown⟩
  · rw [hlabelled]
    exact ⟨fun ⟨hnode, _⟩ => absurd hnode (Nat.ne_of_gt hbehind), nofun⟩
  · exact ⟨fun _ => hplain, fun _ => hown rfl⟩

/-- What is answered for the key of a node stores the key or is a label. -/
theorem storesKey_iff (h : ctx.AnsweredAs target k key c) (hregistered : ctx.Registered)
    (harena : ctx.Arena) : ctx.StoresKey k key c ↔ key.isLabelled = false := by
  rcases h.labelled_or_stored hregistered harena with ⟨hlabelled, hbehind⟩ | ⟨hplain, hstores, -⟩
  · rw [hlabelled]
    exact ⟨fun hstores => absurd (hstores.node_le harena) (Nat.not_le.mpr hbehind), nofun⟩
  · exact ⟨fun _ => hplain, fun _ => hstores⟩

end AnsweredAs

end Context

/-! ## Includes -/

/-- How the rows of an include are stitched to their parent rows, by the names that it says. What
its plan answers under the one name is the column that the keys of the parent rows restrict, and
what these answer under the other is the key of the node that the collection hangs off, unless a
lookup takes the place of such a key. -/
structure IncludePlan.Stitches (ctx : Context) (parent : Plan) (i : IncludePlan) : Prop where
  foreignKey : ∃ foreignKey restricted c,
    ctx.column i.plan.target i.foreignKeyLabel = .ok foreignKey ∧
    i.plan.keyRestriction = some { column := restricted } ∧
    restricted.node = i.plan.target ∧ restricted.column = foreignKey.column ∧
    i.plan.answered? i.foreignKeyLabel = some c ∧
    (c.sameColumn restricted = true ↔ foreignKey.isLabelled = false)
  parentKey : ∃ link key c, ctx.link? i.plan.target = some link ∧
    link.nodeMember = i.foreignKeyLabel ∧ ctx.key link.origin = .ok key ∧
    parent.answered? i.parentKeyLabel = some c ∧
    (ctx.StoresKey link.origin key c ↔ key.isLabelled = false)

section

variable {ctx : Context} {start : Nat} {parent p : Plan} {above route : List String}
  {i : IncludePlan} {label : String}

/-- The query of a collection answers the column of its foreign key, whether it is answered like
any other member or added. -/
theorem Plan.OfCollection.namesMembers (h : p.OfCollection ctx label)
    (haccepted : ctx.catalog.Accepted) (hdotless : ctx.catalog.Dotless) :
    ctx.NamesMembers p.target p.select := by
  obtain ⟨link, column, select, -, -, hcolumn, -, hselects, hselect⟩ := h.restricted
  obtain ⟨t, foreignKey, ht, hforeignKey, rfl⟩ := Context.columnName_eq_ok_iff.mp hcolumn
  obtain ⟨hmem, rfl⟩ := Table.mem_of_column hforeignKey
  rw [hselect]
  split
  · exact Context.namesMembers_of_answers haccepted hdotless hselects.answers
  · rename_i hnew
    exact hselects.namesMembers_concat haccepted hdotless ht hmem (by simpa using hnew)

theorem Plan.OfCollection.exists_selected (h : p.OfCollection ctx label) :
    ∃ c ∈ p.select, c.label = some label := by
  obtain ⟨link, column, select, -, -, -, -, -, hselect⟩ := h.restricted
  rw [hselect]
  split
  · rename_i hthere
    exact Context.selects_iff.mp hthere
  · exact ⟨_, List.mem_append_right _ (List.mem_singleton_self _), rfl⟩

/-- Under the name of the foreign key the column stands that the query is restricted to. -/
theorem Plan.OfCollection.exists_foreignKey (h : p.OfCollection ctx label)
    (haccepted : ctx.catalog.Accepted) (hdotless : ctx.catalog.Dotless)
    (hregistered : ctx.Registered) (harena : ctx.Arena) : ∃ foreignKey restricted c,
    ctx.column p.target label = .ok foreignKey ∧ p.keyRestriction = some { column := restricted } ∧
      restricted.node = p.target ∧ restricted.column = foreignKey.column ∧
      p.answered? label = some c ∧
      (c.sameColumn restricted = true ↔ foreignKey.isLabelled = false) := by
  obtain ⟨link, column, select, -, -, hcolumn, hkeys, -⟩ := h.restricted
  obtain ⟨t, foreignKey, ht, hforeignKey, rfl⟩ := Context.columnName_eq_ok_iff.mp hcolumn
  obtain ⟨hmem, hmember⟩ := Table.mem_of_column hforeignKey
  obtain ⟨c, hc, hname, hanswered⟩ := Plan.exists_answered? h.exists_selected
  have has : ctx.AnsweredAs p.target p.target foreignKey c :=
    h.namesMembers haccepted hdotless c hc Path.AreParts.nil Context.along?_nil ht hmem
      (by rw [hname, ← hmember]; rfl)
  refine ⟨foreignKey, _, c, ?_, hkeys, rfl, rfl, hanswered, ?_⟩
  · exact Except.bind_eq_ok_iff.mpr ⟨t, ht, Except.mapError_eq_ok_iff.mpr hforeignKey⟩
  · rw [← has.own_iff hregistered harena]
    simp [NodeColumn.sameColumn]

theorem Context.CollectionBelow.exists_parentKey {k : Nat} {link : Link}
    (h : ctx.CollectionBelow parent route k label) (hlink : ctx.link? k = some link)
    (hregistered : ctx.Registered) (harena : ctx.Arena)
    (hnames : ctx.NamesMembers parent.target parent.select) : ∃ key c,
    ctx.key link.origin = .ok key ∧ parent.answered? label = some c ∧
      (ctx.StoresKey link.origin key c ↔ key.isLabelled = false) := by
  obtain ⟨o, key, ho, hkey, hlabel⟩ := h.keyed
  obtain rfl := Option.some.inj ((h.first.along_origin hregistered hlink).symm.trans ho)
  obtain ⟨t, ht, hsole⟩ := Except.bind_eq_ok_iff.mp hkey
  have hmem := mem_columns_of_key (Except.mapError_eq_ok_iff.mp hsole)
  have hselected : ∃ c ∈ parent.select, c.label = some label := by
    simpa [Plan.columnPosition?] using h.selected
  obtain ⟨c, hc, hname, hanswered⟩ := Plan.exists_answered? hselected
  have has : ctx.AnsweredAs parent.target link.origin key c :=
    hnames c hc (h.parts.of_prefix (List.dropLast_prefix route)) ho ht hmem (by rw [hname, hlabel])
  exact ⟨key, c, hkey, hanswered, has.storesKey_iff hregistered harena⟩

theorem IncludePlan.HangsOn.stitches (h : i.HangsOn ctx start above parent route)
    (haccepted : ctx.catalog.Accepted) (hdotless : ctx.catalog.Dotless)
    (hregistered : ctx.Registered) (harena : ctx.Arena)
    (hnames : ctx.NamesMembers parent.target parent.select) : i.Stitches ctx parent where
  foreignKey := h.ofCollection.exists_foreignKey haccepted hdotless hregistered harena
  parentKey := by
    obtain ⟨link, -, -, hlink, hlabel, -⟩ := h.ofCollection.restricted
    obtain ⟨key, c, hkey, hanswered, hstores⟩ :=
      h.below.exists_parentKey hlink hregistered harena hnames
    exact ⟨link, key, c, hlink, hlabel.symm, hkey, hanswered, hstores⟩

end

/-- The plan that answers the parent rows of an include. -/
def PlannedQuery.parentPlan? (q : PlannedQuery) (i : IncludePlan) : Option Plan :=
  if i.parent = "" then some q.strategy.resultPlan
  else (q.includes.find? (·.path = i.parent)).map (·.plan)

namespace Request

variable {ctx ctx' : Context} {target : Nat} {r : Request} {q : PlannedQuery}

/-- Whoever includes something asks for all columns. -/
theorem exists_allColumns {path : String} (h : path ∈ r.includes) :
    ∃ paths, r.selection = .allColumns paths := by
  cases hselection : r.selection with
  | allColumns paths => exact ⟨paths, rfl⟩
  | projection entries => simp [Request.includes, hselection, Selection.includes] at h

/-- The plan that answers the rows of a request has what was selected when the request was bound. -/
theorem planned_namesMembers {paths : List String} (hctx : Context.Reachable ctx)
    (hdotless : ctx.catalog.Dotless) (hall : r.selection = .allColumns paths)
    (hrun : (r.planned target).run ctx = (.ok q, ctx')) :
    ctx'.NamesMembers q.strategy.resultPlan.target q.strategy.resultPlan.select := by
  obtain ⟨hctx', -⟩ := planned_below hctx hrun
  obtain ⟨ctx₁, hstrategy, hplans⟩ := planned_eq_ok hrun
  have hresult := (strategy_resultPlan (r.draft_selects .outer hall)).answer q.strategy
    (congrArg (·.1) hstrategy)
  obtain ⟨d, ⟨htarget, hselects⟩, hsame, hselect⟩ := hresult
  have hgrows : ctx₁.Grows ((q.strategy.resultPlan.includes r.includes).run ctx₁).2 :=
    (q.strategy.resultPlan.includes_leads r.includes).grows
  rw [hstrategy] at hselects
  rw [hplans] at hgrows
  rw [hsame, hselect, htarget]
  refine Context.namesMembers_of_answers hctx'.catalog_accepted ?_ fun c hc => ?_
  · rwa [(planned_grows hrun).catalog]
  · obtain ⟨route, k, mapped, hanswers⟩ := hselects.answers c hc
    exact ⟨route, k, mapped, hanswers.grows hgrows⟩

/-- Included rows can be stitched to their parent rows, by the names under which the two plans
answer the foreign key and the key, unless a lookup takes the place of one of these. -/
theorem includes_stitched (hctx : Context.Reachable ctx) (hdotless : ctx.catalog.Dotless)
    (hrun : (r.planned target).run ctx = (.ok q, ctx')) :
    ∀ i ∈ q.includes, ∃ parent, q.parentPlan? i = some parent ∧ i.Stitches ctx' parent := by
  obtain ⟨hctx', hplanned⟩ := planned_below hctx hrun
  have haccepted := hctx'.catalog_accepted
  have hdotless' : ctx'.catalog.Dotless := by rwa [(planned_grows hrun).catalog]
  intro i hi
  obtain ⟨included, hincluded, -⟩ := hplanned.wanted i hi
  obtain ⟨paths, hall⟩ := exists_allColumns hincluded
  obtain ⟨before, after, hsplit⟩ := List.append_of_mem hi
  obtain ⟨above, parent, route, hparent, hangs⟩ := hplanned.hung before i after hsplit
  have hstitches := hangs.stitches haccepted hdotless' hctx'.registered hctx'.arena
  cases hparent with
  | start =>
      refine ⟨_, ?_, hstitches (planned_namesMembers hctx hdotless hall hrun)⟩
      rw [PlannedQuery.parentPlan?, hangs.parent]
      rfl
  | @earlier j _ hj hpath =>
      have hj : j ∈ q.includes := hsplit ▸ List.mem_append_left _ hj
      obtain ⟨above', p, route', hangs'⟩ := hplanned.exists_hangsOn hj
      refine ⟨_, ?_, hstitches (hangs'.ofCollection.namesMembers haccepted hdotless')⟩
      have hne : i.parent ≠ "" := by
        rw [hangs.parent, ← hpath]
        exact hplanned.path_ne_empty hj
      rw [PlannedQuery.parentPlan?, if_neg hne, hangs.parent, ← hpath,
        find?_eq_some_of_nodup_map hplanned.nodup hj]
      rfl

/-- Books are stitched to their authors by a foreign key that records do not have, and chapters to
the books. -/
theorem books_stitched : authorContext.catalog.Dotless ∧ ∃ q ctx',
    (chaptersOfBooks.planned 0).run authorContext = (.ok q, ctx') ∧
      q.includes.map (fun i => (i.parentKeyLabel, i.foreignKeyLabel)) =
        [("Id", "AuthorId"), ("Id", "BookId")] ∧
      ∀ i ∈ q.includes, ∃ parent, q.parentPlan? i = some parent ∧ i.Stitches ctx' parent := by
  have hdotless : authorContext.catalog.Dotless := by decide +kernel
  have hplanned : (((chaptersOfBooks.planned 0).run authorContext).1.toOption.any fun q =>
      q.includes.map (fun i => (i.parentKeyLabel, i.foreignKeyLabel)) =
        [("Id", "AuthorId"), ("Id", "BookId")]) := by
    decide +kernel
  rcases hrun : (chaptersOfBooks.planned 0).run authorContext with ⟨e | q, ctx'⟩
  · rw [hrun] at hplanned
    cases hplanned
  · rw [hrun] at hplanned
    exact ⟨hdotless, q, ctx', rfl, of_decide_eq_true hplanned,
      includes_stitched reachable_authorContext hdotless hrun⟩

end Request

/-! ## Prices in a currency -/

/-- Currencies with prices, which show the code of their currency. -/
def currencyTables : List Table :=
  [{ entity := "Currency", table := "currencies"
     columns := [
       { member := "Id", column := "id", type := .int64, primaryKey := true },
       { member := "Code", column := "code", type := .text }]
     relationships := [
       { name := "Prices", kind := .oneToMany, foreignKey := ⟨"Price", "CurrencyId"⟩
         primaryKey := ⟨"Currency", "Id"⟩ }]
     permissions := {} },
   { entity := "Price", table := "prices"
     columns := [
       { member := "Id", column := "id", type := .int64, primaryKey := true },
       { member := "CurrencyId", column := "currency_id", type := .int64
         lookup := some ⟨"Currency", "Code"⟩ }]
     relationships := []
     permissions := {} }]

def currencyContext : Context :=
  { catalog := ⟨currencyTables, []⟩
    nodes := #[{ index := 0, entity := "Currency", table := "currencies", level := 0, link := none
                 joinKind := .inner, children := [] }] }

def pricesOfCurrencies : Request :=
  { selection := .allColumns ["Prices"] }

/-- The prices of currencies are asked for by the key of their currency, and answered with its code
under the name of the foreign key. -/
theorem prices_by_code :
    Definition.toCatalog ⟨[], currencyTables⟩ = .ok currencyContext.catalog ∧
      Context.ofEntity currencyContext.catalog "Currency" = .ok currencyContext ∧
      currencyContext.catalog.Dotless ∧
      ((pricesOfCurrencies.planned 0).run currencyContext).1.map (fun q => q.includes.map fun i =>
        (i.foreignKeyLabel, i.plan.keyRestriction, i.plan.answered? i.foreignKeyLabel)) =
      .ok [("CurrencyId",
        some { column := { node := 1, member := "CurrencyId", column := "currency_id" } },
        some { node := 2, member := "Code", column := "code", label := some "CurrencyId" })] :=
  ⟨rfl, rfl, by decide +kernel, by cbv⟩

end EntityMap
