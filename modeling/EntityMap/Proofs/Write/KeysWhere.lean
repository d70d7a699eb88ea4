import EntityMap.Proofs.Context.Lookups
import EntityMap.Proofs.Query.Alone
import EntityMap.Proofs.Write.KeyQuery
import EntityMap.Proofs.Write.Rules
import EntityMap.Proofs.Write.StorageForm

/-!
# Key queries on a column

A cascade looks for rows by the value of one column: children by their
foreign key, a row by its key. The query is planned like any other. Where
neither that column nor the key is a lookup, and both have plain names, it
reads one table and compares the column itself with the storage form of
the value (`CascadeRules.keyQuery_eq`).
-/

namespace EntityMap

/-- The statement that answers the keys of the rows whose column has a stored value. -/
def Table.keysWhere (t : Table) (key c : Column) (stored : Value) : Statement where
  sql := "SELECT t0." ++ Sql.quote key.column ++ " AS \"__key\" FROM " ++ Sql.quote t.table ++
    " AS t0 WHERE (t0." ++ Sql.quote c.column ++ " = ?)"
  parameters := [stored]

open Growing

/-- A comparison with a column that is there binds the storage form of the value. -/
theorem Filter.run_bind_compare {ctx ctx' : Context} {target : Nat} {path : String}
    {column : NodeColumn} {op : Operator} (hop : op.isLogical = false) (v : Value)
    (hpath : (Context.resolvePath target path).run ctx = (.ok column, ctx')) :
    (Filter.bind target (.compare path op v)).run ctx =
      ((ctx'.storedLiteral column v).map (.compare column op), ctx') := by
  unfold Condition.compare
  rw [Filter.bind, run_bind, Filter.run_bind_member hpath]
  show (if op.isLogical = true then _ else _ : Growing FilterError BoundFilter).run ctx' = _
  rw [hop, if_neg Bool.false_ne_true, run_look_bind]
  cases hstored : ctx'.storedLiteral column v with
  | error e => simp [Context.comparison, hstored, Except.map]
  | ok w =>
      simp [Context.comparison, hstored, Except.map, pure, Except.pure]
      rfl

/-- A column of the root of a context. -/
def Column.atRoot (c : Column) : NodeColumn :=
  { node := Context.root, member := c.member, column := c.column }

/-- The plan of that statement. -/
def Table.keyPlan (t : Table) (key c : Column) (stored : Value) : Plan where
  target := Context.root
  select := [key.atRoot.withLabel keyLabel]
  filter := some (.compare c.atRoot .eq stored)
  targetKey := key.atRoot
  base := { node := Context.root, entity := t.entity, table := t.table }
  joins := []
  invertedNodes := []

theorem Sql.join_keysWhere (key table column : String) :
    String.join ["SELECT ", "t0.", key, " AS ", "\"__key\"", " FROM ", table, " AS t0", " WHERE ",
        "(", "t0.", column, " = ", "?", ")"] =
      "SELECT t0." ++ key ++ " AS \"__key\" FROM " ++ table ++ " AS t0 WHERE (t0." ++ column ++
        " = ?)" := by
  apply String.toList_inj.mp
  simp [String.join]

theorem Table.statement_keyPlan (t : Table) (key c : Column) {stored : Value}
    (hstored : stored.isNull = false) :
    (t.keyPlan key c stored).statement .limitOffset = .ok (t.keysWhere key c stored) := by
  have halias : nodeAlias Context.root = "t0" := by decide
  have hequals : " " ++ Operator.eq.sql ++ " " = " = " := by decide
  have hlabel : Sql.quote keyLabel = "\"__key\"" := by decide
  have hpieces : (t.keyPlan key c stored).pieces .limitOffset =
      [.text "SELECT ", .text "t0.", .name key.column, .text " AS ", .name keyLabel,
        .text " FROM ", .name t.table, .text " AS t0", .text " WHERE ", .text "(", .text "t0.",
        .name c.column, .text " = ", .parameter stored, .text ")"] := by
    unfold Plan.pieces keyPlan Sql.conditions
    dsimp only [Option.map_some, Option.map_none, Option.toList_some, Option.toList_none]
    rw [Sql.condition_compare .eq _ hstored]
    simp [Column.atRoot, NodeColumn.withLabel, Sql.nodeColumn, Sql.selected, Sql.tableAs,
      Sql.column, Sql.commaSeparated, Sql.clause, Sql.limits, Modifiers.limit, List.intercalate,
      halias, hequals]
  unfold Plan.statement
  rw [hpieces]
  unfold Statement.ofPieces
  simp only [List.map_cons, List.map_nil, Sql.Piece.sql, hlabel, Sql.join_keysWhere]
  rfl

/-! ## Planning the key query -/

/-- A column of a table by which its rows can be looked for: no lookup, under a plain name. -/
structure Table.Searchable (t : Table) (c : Column) : Prop where
  column : t.column c.member = .ok c
  lookup : c.lookup = none
  plain : Path.IsPlain c.member

namespace Context

variable {ctx : Context} {t : Table} {key c : Column} {v : Value}

/-- The context of an entity, as far as its root is concerned. -/
structure RootedAt (ctx : Context) (catalog : Catalog) (t : Table) : Prop where
  catalog_eq : ctx.catalog = catalog
  first : ∃ n, ctx.nodes[root]? = some n ∧ n.entity = t.entity ∧ n.table = t.table
  table_eq : catalog.table t.entity = .ok t

theorem exists_rooted {catalog : Catalog} {entity : String} (hkeyed : catalog.LookupsKeyed)
    (ht : catalog.table entity = .ok t) :
    ∃ ctx, ofEntity catalog entity = .ok ctx ∧ ctx.RootedAt catalog t := by
  obtain ⟨ctx, hctx, -⟩ := exists_ofEntity hkeyed ht
  obtain ⟨t', ht', hgrows⟩ := ofEntity_grows hctx
  cases ht.symm.trans ht'
  obtain ⟨n, hn, more, rfl⟩ := hgrows.node (i := 0) rfl
  have hentity := (Catalog.mem_of_table ht).2
  exact ⟨ctx, hctx, hgrows.catalog, ⟨_, hn, hentity.symm, rfl⟩, hentity.symm ▸ ht⟩

namespace RootedAt

variable {catalog : Catalog}

theorem run_resolvePath (h : ctx.RootedAt catalog t) (hc : t.Searchable c) :
    (resolvePath root c.member).run ctx =
      (.ok c.atRoot, ctx) := by
  obtain ⟨n, hn, hentity, -⟩ := h.first
  refine run_resolvePath_of_plain hc.plain hn ?_ hc.column hc.lookup
  rw [h.catalog_eq, hentity]
  exact h.table_eq

theorem table_root (h : ctx.RootedAt catalog t) : ctx.table root = .ok t := by
  obtain ⟨n, hn, hentity, -⟩ := h.first
  refine table_eq_ok_iff.mpr ⟨n, hn, ?_⟩
  rw [h.catalog_eq, hentity]
  exact h.table_eq

theorem column_root (h : ctx.RootedAt catalog t) (hc : t.Searchable c) :
    ctx.column root c.member = .ok c :=
  Except.bind_eq_ok_iff.mpr ⟨t, h.table_root, Except.mapError_eq_ok_iff.mpr hc.column⟩

end RootedAt

end Context

/-- The request for the keys of the rows that pass a filter. -/
def Request.ofKeys (key : Column) (filter : Filter) : Request where
  selection := .projection [{ path := key.member, label := keyLabel }]
  filter := some filter

/-- Its draft, where the condition is on a column of the table itself. -/
def Draft.ofKeys (key c : Column) (stored : Value) : Draft where
  target := Context.root
  select := [key.atRoot.withLabel keyLabel]
  filter := some (.compare c.atRoot .eq stored)

theorem Draft.alone_ofKeys (key c : Column) (stored : Value) :
    (Draft.ofKeys key c stored).Alone := by
  constructor
  case referenced =>
    intro i hi
    simpa [ofKeys, referencedNodes, NodeColumn.withLabel, Column.atRoot] using hi
  case filtered =>
    rintro filter ⟨⟩ column hcolumn
    simp only [Condition.compare, Condition.members, List.append_nil, List.mem_singleton] at hcolumn
    rw [hcolumn]
    rfl

namespace Context.RootedAt

variable {ctx : Context} {catalog : Catalog} {t : Table} {key c : Column}

/-- The draft of the request binds the storage form of the value. -/
theorem run_checkedDraft (h : ctx.RootedAt catalog t) (hkey : t.Searchable key)
    (hc : t.Searchable c) (v : Value) :
    ((Request.ofKeys key (.compare c.member .eq v)).checkedDraft root .outer).run ctx =
      (((ctx.storedLiteral c.atRoot v).mapError PlanError.filter).map (Draft.ofKeys key c),
        ctx) := by
  obtain ⟨n, hn, -⟩ := h.first
  have hselect : ((Request.ofKeys key (.compare c.member .eq v)).selection.bind root).run ctx =
      (.ok [key.atRoot.withLabel keyLabel], ctx) := by
    show (ExceptT.adapt PlanError.context
      ([{ path := key.member, label := keyLabel }].mapM (selectProjection root))).run ctx = _
    have hentries : ([{ path := key.member, label := keyLabel }].mapM
        (selectProjection root)).run ctx =
          (.ok [key.atRoot.withLabel keyLabel], ctx) := by
      rw [List.mapM_cons, run_bind, selectProjection, run_bind, h.run_resolvePath hkey]
      rfl
    rw [run_adapt, hentries]
    rfl
  have hbind : ((Filter.bind root (.compare c.member .eq v)).adapt PlanError.filter).run ctx =
      (((ctx.storedLiteral c.atRoot v).mapError PlanError.filter).map (.compare c.atRoot .eq),
        ctx) := by
    rw [run_adapt, Filter.run_bind_compare rfl v (h.run_resolvePath hc)]
    cases ctx.storedLiteral c.atRoot v <;> rfl
  unfold Request.checkedDraft
  rw [run_look_bind]
  show ((Request.ofKeys key (.compare c.member .eq v)).draft root .outer).run ctx = _
  unfold Request.draft
  rw [run_look_bind, node_eq_ok_iff.mpr hn]
  dsimp only [Except.mapError]
  rw [run_bind, hselect]
  dsimp only
  show ((some <$> (Filter.bind root (.compare c.member .eq v)).adapt PlanError.filter) >>= _ :
    Growing PlanError Draft).run ctx = _
  rw [map_eq_pure_bind, bind_assoc, run_bind, hbind]
  cases ctx.storedLiteral c.atRoot v with
  | error e => rfl
  | ok w => rfl

end Context.RootedAt

theorem Context.RootedAt.plan_eq {ctx : Context} {catalog : Catalog} {t : Table} {key : Column}
    (h : ctx.RootedAt catalog t) (hkey : t.key = .ok key) (c : Column) (stored : Value) :
    ctx.plan (Draft.ofKeys key c stored) = .ok (t.keyPlan key c stored) := by
  obtain ⟨n, hn, hentity, htable⟩ := h.first
  have hcolumn : ctx.keyColumn Context.root = .ok key.atRoot := by
    unfold Context.keyColumn
    rw [h.table_root]
    dsimp only [Except.mapError, bind, Except.bind]
    rw [hkey]
    rfl
  rw [Context.plan_eq_of_alone (Draft.alone_ofKeys key c stored) hn hcolumn, hentity, htable]
  rfl

/-- The request is planned as the key plan of the storage form, without a node more. -/
theorem Context.RootedAt.run_plan {ctx : Context} {catalog : Catalog} {t : Table} {key c : Column}
    (h : ctx.RootedAt catalog t) (hsole : t.key = .ok key) (hkey : t.Searchable key)
    (hc : t.Searchable c) (v : Value) :
    ((Request.ofKeys key (.compare c.member .eq v)).plan Context.root .outer).run ctx =
      (((ctx.storedLiteral c.atRoot v).mapError PlanError.filter).map (t.keyPlan key c), ctx) := by
  unfold Request.plan
  rw [run_bind, h.run_checkedDraft hkey hc]
  cases ctx.storedLiteral c.atRoot v with
  | error e => rfl
  | ok w =>
      show (look fun ctx => ctx.plan (Draft.ofKeys key c w) : Growing PlanError Plan).run ctx = _
      rw [run_look, h.plan_eq hsole]
      rfl

theorem Column.isNull_of_adaptEnumeration? {c : Column} {v w : Value} (hv : v.isNull = false)
    (h : c.adaptEnumeration? v = some w) : w.isNull = false := by
  unfold adaptEnumeration? toStorage at h
  split at h
  · split at h
    · exact Adapter.isNull_of_toStorage hv (Except.toOption_eq_some_iff.mp h)
    · cases h
      exact hv
  · cases h
    exact hv

/-- A key query on a searchable column of a table with a searchable key: it reads the table alone,
and compares the column with the storage form of the value. -/
theorem CascadeRules.keyQuery_eq {rules : CascadeRules} {entity : String} {t : Table}
    {key c : Column} {v : Value} (hlookups : rules.catalog.LookupsKeyed)
    (hkeyed : rules.keyedTable entity = .ok (t, key)) (hkey : t.Searchable key)
    (hc : t.Searchable c) (hv : v.isNull = false) :
    (rules.keyQuery entity (.compare c.member .eq v)).toOption =
      ((rules.convert t c v).toOption.bind c.adaptEnumeration?).map (t.keysWhere key c) := by
  obtain ⟨ht, hsole⟩ := table_of_keyedTable hkeyed
  obtain ⟨ctx, hctx, hrooted⟩ := Context.exists_rooted hlookups ht
  have hliteral : (ctx.storedLiteral c.atRoot v).toOption =
      (rules.convert t c v).toOption.bind c.adaptEnumeration? :=
    Context.storedLiteral_eq_bind hrooted.catalog_eq (hrooted.column_root hc) hv
  unfold keyQuery
  rw [hkeyed]
  dsimp only [bind, Except.bind]
  rw [hctx]
  show ((((Request.ofKeys key (.compare c.member .eq v)).plan Context.root .outer).run
    ctx).1.mapError WriteError.plan >>= fun plan : Plan =>
      (plan.statement .limitOffset).mapError WriteError.statement).toOption = _
  rw [hrooted.run_plan hsole hkey hc, ← hliteral]
  cases hstored : ctx.storedLiteral c.atRoot v with
  | error e => rfl
  | ok w =>
      rw [hstored] at hliteral
      obtain ⟨stored, hconverted, hadapted⟩ := Option.bind_eq_some_iff.mp hliteral.symm
      have hw : w.isNull = false := Column.isNull_of_adaptEnumeration?
        (isNull_of_convert hv (Except.toOption_eq_some_iff.mp hconverted)) hadapted
      show (((t.keyPlan key c w).statement .limitOffset).mapError WriteError.statement).toOption = _
      rw [Table.statement_keyPlan t key c hw]
      rfl

end EntityMap
