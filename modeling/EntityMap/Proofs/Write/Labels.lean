import EntityMap.Proofs.Query.Resolved
import EntityMap.Proofs.Relation.FanOut
import EntityMap.Proofs.Write.ChildQuery

/-!
# Labels of lookups

A lookup column holds the key of a row of another entity, and stands for
the label of that row. A filter compares the label with the value column
on the lookup node of its context (`LookupColumn.LabelRead`); a write asks
for the key of the row that has the label, by a key query on the other
entity (`LookupColumn.LabelWritten`). `Cascade.labels_agree` says that
both mean the same rows: they compare one column with one literal, or
neither has a literal for the label.

The key query has a root of its own, where the value column is a member
like any other. If that is a lookup too, it stands there for the label of
yet another entity, and a label that is read cannot be written
(`Cascade.country_by_region`).
-/

namespace EntityMap

variable {rules : CascadeRules}

/-! ## Lookup columns -/

/-- A lookup column of a table, with the table behind it and the two columns of that. -/
structure CascadeRules.LookupColumn (rules : CascadeRules) where
  table : Table
  column : Column
  lookup : Lookup
  target : Table
  key : Column
  value : Column
  table_eq : rules.catalog.table table.entity = .ok table
  column_mem : column ∈ table.columns
  lookup_eq : column.lookup = some lookup
  keyed : rules.keyedTable lookup.entity = .ok (target, key)
  value_eq : target.column lookup.valueMember = .ok value

namespace CascadeRules.LookupColumn

variable {σ : Type} [Executor σ] {l : rules.LookupColumn}

/-- In an accepted catalog each column with a lookup is a lookup column. -/
theorem exists_of_toCatalog {d : Definition} (hd : d.toCatalog = .ok rules.catalog)
    {entity : String} {t : Table} {c : Column} {lookup : Lookup}
    (ht : rules.catalog.table entity = .ok t) (hc : c ∈ t.columns)
    (hlookup : c.lookup = some lookup) :
    ∃ l : rules.LookupColumn, l.table = t ∧ l.column = c ∧ l.lookup = lookup := by
  obtain ⟨hmem, hentity⟩ := Catalog.mem_of_table ht
  obtain ⟨target, key, htarget, hkey⟩ :=
    Definition.lookupsKeyed_of_toCatalog hd t hmem c hc lookup hlookup
  obtain ⟨value, hvalue⟩ :=
    Definition.lookupsLabelled_of_toCatalog hd t hmem c hc lookup hlookup target htarget
  have hkeyed : rules.keyedTable lookup.entity = .ok (target, key) := by
    unfold keyedTable
    rw [htarget]
    show target.key.mapError WriteError.catalog >>= _ = _
    rw [hkey]
    rfl
  exact ⟨{ table := t, column := c, lookup, target, key, value, table_eq := hentity.symm ▸ ht
           column_mem := hc, lookup_eq := hlookup, keyed := hkeyed, value_eq := hvalue },
    rfl, rfl, rfl⟩

theorem target_eq (l : rules.LookupColumn) : rules.catalog.table l.lookup.entity = .ok l.target :=
  (table_of_keyedTable l.keyed).1

theorem value_member (l : rules.LookupColumn) : l.value.member = l.lookup.valueMember :=
  (Table.mem_of_column l.value_eq).2

/-- The filter of the key query for a label. -/
def filterFor (l : rules.LookupColumn) (label : Value) : Filter :=
  .compare l.lookup.valueMember .eq label

/-- The rows behind the lookup that have a stored label. -/
def labelled (l : rules.LookupColumn) (cmp : Comparison) (store : Store) (stored : Value) :
    List Row :=
  (store l.target.table).filter fun row => cmp.joins (row l.value.column) stored

/-- What becomes of a label of these rows in a write. -/
structure Resolves (l : rules.LookupColumn) (rows : List Row) (label : Value)
    (answer : Except WriteError Value) : Prop where
  /-- It is the key of one of the rows, -/
  key : (∃ row ∈ rows, (row l.key.column).isNull = false) →
    ∃ row ∈ rows, (row l.key.column).isNull = false ∧ answer = .ok (row l.key.column)
  /-- and where the label is that of one row, the key of this row. -/
  own : ∀ row ∈ rows, (row l.key.column).isNull = false →
    (∀ other ∈ rows, other l.key.column = row l.key.column) → answer = .ok (row l.key.column)
  /-- The label of no row is refused. -/
  unknown : (∀ row ∈ rows, (row l.key.column).isNull) →
    answer = .error (.unknownLookupValue l.table.entity l.column.member l.lookup.entity label)

/-- The first of the keys of some rows is what a label of these rows resolves to. -/
theorem Resolves.of_keys {rows : List Row} {keys : List Value} {label : Value}
    (hkeys : ∀ k, k ∈ keys ↔ k.isNull = false ∧ ∃ row ∈ rows, row l.key.column = k) :
    l.Resolves rows label
      (keys.head?.elim
        (.error (.unknownLookupValue l.table.entity l.column.member l.lookup.entity label))
        .ok) := by
  have hkey : (∃ row ∈ rows, (row l.key.column).isNull = false) →
      ∃ row ∈ rows, (row l.key.column).isNull = false ∧ keys.head? = some (row l.key.column) := by
    rintro ⟨row, hrow, hnull⟩
    cases keys with
    | nil => cases (hkeys _).mpr ⟨hnull, row, hrow, rfl⟩
    | cons k rest =>
        obtain ⟨hk, first, hfirst, rfl⟩ := (hkeys k).mp (List.mem_cons_self ..)
        exact ⟨first, hfirst, hk, rfl⟩
  constructor
  case key =>
    intro hrow
    obtain ⟨first, hfirst, hnull, hhead⟩ := hkey hrow
    exact ⟨first, hfirst, hnull, by rw [hhead]; rfl⟩
  case own =>
    intro row hrow hnull hown
    obtain ⟨first, hfirst, -, hhead⟩ := hkey ⟨row, hrow, hnull⟩
    rw [hhead, hown first hfirst]
    rfl
  case unknown =>
    intro hnull
    have hnone : keys = [] := by
      refine List.eq_nil_iff_forall_not_mem.mpr fun k hk => ?_
      obtain ⟨hk, row, hrow, rfl⟩ := (hkeys k).mp hk
      rw [hnull row hrow] at hk
      cases hk
    rw [hnone]
    rfl

end CascadeRules.LookupColumn

/-- Records whose cells are the keys of what a plan reads, but for null. -/
def RecordSet.AnswersKeys (records : RecordSet) (cmp : Comparison) (store : Store) (p : Plan) :
    Prop :=
  ∀ k, k.isNull = false → (k ∈ records.cells keyLabel ↔
    ∃ a ∈ p.passing cmp store, a.value p.targetKey.node p.targetKey.column = k)

theorem RecordSet.AnswersKeys.mem_storedKeys {records : RecordSet} {cmp : Comparison}
    {store : Store} {p : Plan} (h : records.AnswersKeys cmp store p) (k : Value) :
    k ∈ records.storedKeys ↔ k.isNull = false ∧
      ∃ a ∈ p.passing cmp store, a.value p.targetKey.node p.targetKey.column = k := by
  rw [records.firstSeen_storedKeys.mem_iff, and_comm]
  exact and_congr_right fun hnull => h k hnull

/-! ## Reading by a label -/

namespace Context

open Growing

variable {ctx ctx' : Context} {start i : Nat} {path member : String} {n : Node} {t target : Table}
  {c value : Column} {lookup : Lookup} {column : NodeColumn}

/-- A lookup column of a node is shown by the value column of its lookup, on the lookup node. -/
structure Shows (ctx : Context) (i : Nat) (l : rules.LookupColumn) (column : NodeColumn) :
    Prop where
  node : ctx.child? i (.lookup l.column.member) = some column.node
  table : ctx.table column.node = .ok l.target
  member : column.member = l.value.member
  column : column.column = l.value.column

theorem Shows.column_eq {l : rules.LookupColumn} (h : ctx.Shows i l column) :
    ctx.column column.node column.member = .ok l.value := by
  refine Except.bind_eq_ok_iff.mpr ⟨l.target, h.table, Except.mapError_eq_ok_iff.mpr ?_⟩
  rw [h.member, l.value_member]
  exact l.value_eq

theorem resolveMember_of_lookup {k : Nat} (boundary : Nat) (hn : ctx.nodes[i]? = some n)
    (ht : ctx.catalog.table n.entity = .ok t) (hc : t.column member = .ok c)
    (hlookup : c.lookup = some lookup) (hk : n.child? (.lookup member) = some k)
    (htarget : ctx.catalog.table lookup.entity = .ok target)
    (hvalue : target.column lookup.valueMember = .ok value) :
    ctx.resolveMember i member boundary =
      .ok { node := k, member := value.member, column := value.column } := by
  unfold resolveMember
  rw [node_eq_ok_iff.mpr hn]
  dsimp only [bind, Except.bind]
  rw [entityTable_eq_ok_iff.mpr ht]
  dsimp only
  rw [Table.column_eq_ok_iff.mp hc]
  dsimp only
  rw [hlookup]
  dsimp only
  rw [hk]
  dsimp only
  rw [entityTable_eq_ok_iff.mpr htarget]
  dsimp only
  rw [hvalue]
  rfl

/-- Each node that is no lookup itself shows its lookup columns. -/
theorem Reachable.exists_shows {l : rules.LookupColumn} (hctx : Reachable ctx)
    (hcatalog : ctx.catalog = rules.catalog) (hn : ctx.nodes[i]? = some n)
    (hentity : n.entity = l.table.entity) (hplain : n.isLookup = false) (boundary : Nat) :
    ∃ column, ctx.resolveMember i l.column.member boundary = .ok column ∧ ctx.Shows i l column := by
  have hwell := hctx.wellFormed
  have haccepted := hctx.catalog_accepted
  -- the context has a child for each lookup column, and nothing else can have its name
  obtain ⟨t, ht, hlookups⟩ := hwell.lookups hn hplain
  obtain rfl : l.table = t := by
    rw [hentity, hcatalog, l.table_eq] at ht
    exact Except.ok.inj ht
  obtain ⟨k, child, hmem, hchild, -, hchildEntity⟩ :=
    hlookups l.column l.column_mem l.lookup l.lookup_eq
  have hk : n.child? (.lookup l.column.member) = some k :=
    (Node.child?_eq_some_iff (hwell.names hn)).mpr hmem
  have htarget : ctx.catalog.table l.lookup.entity = .ok l.target := hcatalog ▸ l.target_eq
  have hc : l.table.column l.column.member = .ok l.column :=
    haccepted.column_eq (Catalog.mem_of_table ht).1 l.column_mem
  refine ⟨_, resolveMember_of_lookup boundary hn ht hc l.lookup_eq hk htarget l.value_eq, ?_⟩
  constructor
  case node =>
    rw [child?, hn]
    exact hk
  case table => exact table_eq_ok_iff.mpr ⟨child, hchild, hchildEntity ▸ htarget⟩
  case member => rfl
  case column => rfl

end Context

/-! ## Comparing with a label -/

theorem BoundFilter.passes_compare {cmp : Comparison} {column : NodeColumn} {stored : Value}
    {a : Reading} (hstored : stored.isNull = false) :
    passes cmp (.compare column .eq stored) a =
      cmp.joins (a.value column.node column.column) stored := by
  have htest : testsNull .eq (.member column) (.literal stored) = false := by
    have hne : stored ≠ .null := by
      rintro rfl
      cases hstored
    simp [testsNull, hne]
  rw [passes, Condition.compare, value, if_neg (by decide), if_neg (by decide), htest,
    if_neg Bool.false_ne_true]
  show decide (cmp.value .eq (a.value column.node column.column) stored = .bool true) = _
  rw [Comparison.value, Comparison.joins, hstored]
  cases (a.value column.node column.column).isNull <;> simp

namespace Reading

variable {cmp : Comparison} {a : Reading} {node : Nat} {name : String} {stored : Value}

/-- A value that is equal to another is that of a row. -/
theorem joins_value_iff :
    cmp.joins (a.value node name) stored ↔
      ∃ row, a node = some row ∧ cmp.joins (row name) stored := by
  unfold value
  cases a node with
  | none => simp [Comparison.joins, Value.isNull]
  | some row => simp

end Reading

/-- The key query for a stored value reads the rows that have it. -/
theorem Table.passing_keyPlan {cmp : Comparison} {store : Store} {t : Table} {key c : Column}
    {stored : Value} (hstored : stored.isNull = false) :
    (t.keyPlan key c stored).passing cmp store =
      ((store t.table).filter fun row => cmp.joins (row c.column) stored).map fun row =>
        Function.update (fun _ => none) Context.root (some row) := by
  unfold Plan.passing Plan.rows
  show ((store t.table).map _).filter _ = _
  rw [List.filter_map]
  congr 1
  refine List.filter_congr fun row _ => ?_
  show BoundFilter.passes cmp (.compare c.atRoot .eq stored) _ = _
  rw [BoundFilter.passes_compare hstored]
  rfl

/-- A query by a label passes the readings that have a row of the label on the lookup node. -/
theorem Context.Shows.mem_passing_iff {ctx ctx' : Context} {i : Nat} {l : rules.LookupColumn}
    {column : NodeColumn} {d : Draft} {p : Plan} {cmp : Comparison} {store : Store} {stored : Value}
    {b : Reading} (h : ctx.Shows i l column) (hstored : stored.isNull = false)
    (hctx : Reachable ctx') (hgrows : ctx.Grows ctx') (hplan : ctx'.plan d = .ok p)
    (hfilter : p.filter = some (.compare column .eq stored)) :
    b ∈ p.passing cmp store ↔ b ∈ p.rows cmp store ∧
      ∃ row ∈ l.labelled cmp store stored, b column.node = some row := by
  have hadmits : p.admits cmp b ↔
      ∃ row, b column.node = some row ∧ cmp.joins (row l.value.column) stored := by
    rw [Plan.admits, hfilter, Option.all_some, BoundFilter.passes_compare hstored,
      Reading.joins_value_iff, h.column]
  rw [Plan.passing, List.mem_filter, hadmits]
  refine and_congr_right fun hrows => ⟨?_, ?_⟩
  · rintro ⟨row, hrow, hjoins⟩
    -- the plan needs the lookup node for its filter, so that the row is one of that node's table
    have harena := hctx.arena
    have hneeds : p.Needs ctx' column.node :=
      .filtered hfilter (List.mem_append_left _ (List.mem_singleton_self _))
    have hpassing : b ∈ p.passing cmp store :=
      List.mem_filter.mpr ⟨hrows, hadmits.mpr ⟨row, hrow, hjoins⟩⟩
    have hmem := (reads_of_mem_passing harena hplan hpassing).row
      (((isJoinTree_of_plan harena hplan).nodes _).mpr hneeds) hrow
    rw [tableName_eq harena (hgrows.table_eq h.table)] at hmem
    exact ⟨row, List.mem_filter.mpr ⟨hmem, hjoins⟩, hrow⟩
  · rintro ⟨row, hmem, hrow⟩
    exact ⟨row, hrow, (List.mem_filter.mp hmem).2⟩

/-! ## Writing a label -/

namespace Cascade

open Writing

variable {σ : Type} [Executor σ] {l : rules.LookupColumn} {label : Value}

theorem storageValue_eq (hlabel : label.isNull = false) :
    (storageValue rules l.table l.column label : Writing σ Value) =
      resolveLookup rules l.table l.column l.lookup label := by
  unfold storageValue
  rw [hlabel, if_neg Bool.false_ne_true, l.lookup_eq]

/-- Where the key query has no statement, nothing is sent. -/
theorem run_storageValue_of_error {e : WriteError} (hlabel : label.isNull = false)
    (he : rules.keyQuery l.lookup.entity (l.filterFor label) = .error e) (start : Cascade σ) :
    (storageValue rules l.table l.column label).run start = (.error e, start) := by
  rw [storageValue_eq hlabel]
  unfold resolveLookup selectKeys
  rw [← CascadeRules.LookupColumn.filterFor, he]
  rfl

/-- The first key that is answered is the one that is written. -/
theorem run_storageValue_of_answer {s : Statement} {records : RecordSet} {start : Cascade σ}
    (hlabel : label.isNull = false)
    (hs : rules.keyQuery l.lookup.entity (l.filterFor label) = .ok s)
    (hopen : start.work.isOpen)
    (hrecords : (Executor.query s start.work.connection).1 = .ok records) :
    ((storageValue rules l.table l.column label).run start).1 =
      records.storedKeys.head?.elim
        (.error (.unknownLookupValue l.table.entity l.column.member l.lookup.entity label))
        .ok := by
  rw [storageValue_eq hlabel]
  unfold resolveLookup
  obtain ⟨c', -, hrun⟩ := exists_run_selectKeys hs hopen
  rw [run_bind, ← CascadeRules.LookupColumn.filterFor, hrun, hrecords]
  dsimp only [Except.mapError, Except.map]
  cases records.storedKeys with
  | nil => rfl
  | cons key rest => rfl

end Cascade

namespace CascadeRules.LookupColumn

variable {σ : Type} [Executor σ] {l : rules.LookupColumn} {label : Value} {literal : Option Value}

/-- How a filter on a lookup column takes a label: as the literal that it compares, if there is one,
with the column that is shown. -/
structure LabelRead (l : rules.LookupColumn) (ctx : Context) (start : Nat) (path : String)
    (ctx' : Context) (column : NodeColumn) (label : Value) (literal : Option Value) : Prop where
  compared : Compared ctx start path column label literal
  /-- A query by the label reads the rows that have a row of the label behind the lookup. -/
  passing : ∀ stored ∈ literal, ∀ {ctx'' : Context} {d : Draft} {p : Plan}, ctx''.Reachable →
    ctx'.Grows ctx'' → ctx''.plan d = .ok p → p.filter = some (.compare column .eq stored) →
    ∀ cmp store b, b ∈ p.passing cmp store ↔ b ∈ p.rows cmp store ∧
      ∃ row ∈ l.labelled cmp store stored, b column.node = some row

/-- How a write takes a label: as the literal that it compares, if there is one, with the value
column of the lookup in its key query. -/
structure LabelWritten (σ : Type) [Executor σ] (l : rules.LookupColumn) (label : Value)
    (literal : Option Value) : Prop where
  queried : (rules.keyQuery l.lookup.entity (l.filterFor label)).toOption =
    literal.map (l.target.keysWhere l.key l.value)
  /-- Without a literal the write fails, and nothing is asked. -/
  refused : literal = none → ∀ start : Cascade σ, ∃ e,
    (Cascade.storageValue rules l.table l.column label).run start = (.error e, start)
  /-- The query is that of a plan, -/
  planned : ∀ stored ∈ literal, (l.target.keyPlan l.key l.value stored).statement .limitOffset =
    .ok (l.target.keysWhere l.key l.value stored)
  /-- and where the connection answers what this plan reads, the key of a row of the label is
  stored. -/
  resolved : ∀ stored ∈ literal, ∀ cmp store records (start : Cascade σ), start.work.isOpen →
    (Executor.query (l.target.keysWhere l.key l.value stored) start.work.connection).1 =
      .ok records →
    records.AnswersKeys cmp store (l.target.keyPlan l.key l.value stored) →
    l.Resolves (l.labelled cmp store stored) label
      ((Cascade.storageValue rules l.table l.column label).run start).1

/-- The storage form of a label. -/
def literalOf (l : rules.LookupColumn) (label : Value) : Option Value :=
  (rules.convert l.target l.value label).toOption.bind l.value.adaptEnumeration?

theorem isNull_of_literalOf {stored : Value} (hlabel : label.isNull = false)
    (h : l.literalOf label = some stored) : stored.isNull = false := by
  obtain ⟨converted, hconverted, hadapted⟩ := Option.bind_eq_some_iff.mp h
  exact Column.isNull_of_adaptEnumeration?
    (isNull_of_convert hlabel (Except.toOption_eq_some_iff.mp hconverted)) hadapted

theorem labelRead_literalOf {ctx ctx' : Context} {start i : Nat} {path : String}
    {column : NodeColumn} (hcatalog : ctx'.catalog = rules.catalog) (hshows : ctx'.Shows i l column)
    (hpath : (Context.resolvePath start path).run ctx = (.ok column, ctx'))
    (hlabel : label.isNull = false) :
    l.LabelRead ctx start path ctx' column label (l.literalOf label) := by
  have hliteral : (ctx'.storedLiteral column label).toOption = l.literalOf label :=
    Context.storedLiteral_eq_bind hcatalog hshows.column_eq hlabel
  constructor
  case compared =>
    rw [← hliteral]
    exact Filter.compared_storedLiteral hpath
  case passing =>
    intro stored hstored ctx'' d p hctx hgrows hplan hfilter cmp store b
    exact hshows.mem_passing_iff (isNull_of_literalOf hlabel hstored) hctx hgrows hplan hfilter

/-- The key query for a label compares the value column itself with its storage form. -/
theorem keyQuery_filterFor (haccepted : rules.catalog.Accepted)
    (hlookups : rules.catalog.LookupsKeyed) (hkey : l.key.lookup = none)
    (hkeyName : Path.IsPlain l.key.member) (hvalue : l.value.lookup = none)
    (hvalueName : Path.IsPlain l.value.member) (hlabel : label.isNull = false) :
    (rules.keyQuery l.lookup.entity (l.filterFor label)).toOption =
      (l.literalOf label).map (l.target.keysWhere l.key l.value) := by
  have htarget := Catalog.mem_of_table l.target_eq
  have hkeyColumn : l.target.Searchable l.key :=
    ⟨haccepted.column_eq htarget.1 (mem_columns_of_key (table_of_keyedTable l.keyed).2), hkey,
      hkeyName⟩
  have hvalueColumn : l.target.Searchable l.value :=
    ⟨haccepted.column_eq htarget.1 (Table.mem_of_column l.value_eq).1, hvalue, hvalueName⟩
  rw [filterFor, ← l.value_member]
  exact keyQuery_eq hlookups l.keyed hkeyColumn hvalueColumn hlabel

/-- What follows for a write once its key query is known. -/
theorem labelWritten_literalOf (hlabel : label.isNull = false)
    (hqueried : (rules.keyQuery l.lookup.entity (l.filterFor label)).toOption =
      (l.literalOf label).map (l.target.keysWhere l.key l.value)) :
    l.LabelWritten σ label (l.literalOf label) := by
  constructor
  case queried => exact hqueried
  case refused =>
    intro hnone start
    rw [hnone, Option.map_none] at hqueried
    cases hs : rules.keyQuery l.lookup.entity (l.filterFor label) with
    | ok s => rw [hs] at hqueried; cases hqueried
    | error e => exact ⟨e, Cascade.run_storageValue_of_error hlabel hs start⟩
  case planned =>
    exact fun stored hstored =>
      Table.statement_keyPlan l.target l.key l.value (isNull_of_literalOf hlabel hstored)
  case resolved =>
    intro stored hstored cmp store records start hopen hrecords hanswers
    have hnull := isNull_of_literalOf hlabel hstored
    rw [hstored, Option.map_some] at hqueried
    rw [Cascade.run_storageValue_of_answer hlabel (Except.toOption_eq_some_iff.mp hqueried) hopen
      hrecords]
    refine .of_keys fun k => (hanswers.mem_storedKeys k).trans (and_congr_right fun _ => ?_)
    rw [Table.passing_keyPlan hnull]
    simp only [List.mem_map, exists_exists_and_eq_and]
    rfl

end CascadeRules.LookupColumn

namespace Cascade

open CascadeRules.LookupColumn

/-- A label means the same rows to a filter and to a write. On every node that is not a lookup
itself, a filter compares the shown column of a lookup column with the literal with which the key
query of a write compares it, or neither has a literal for the label, as long as the key and the
value column of the lookup are no lookups and have plain names. Null is no label: both take it as
null. -/
theorem labels_agree {σ : Type} [Executor σ] {d : Definition}
    (hd : d.toCatalog = .ok rules.catalog) {entity : String} {t : Table} {c : Column}
    {lookup : Lookup} (ht : rules.catalog.table entity = .ok t) (hc : c ∈ t.columns)
    (hlookup : c.lookup = some lookup) {ctx ctx' : Context} {start i : Nat} {path : String}
    {n : Node} (hctx : ctx.Reachable) (hcatalog : ctx.catalog = rules.catalog)
    (hend : ctx.EndsAt start path i c.member ctx') (hn : ctx'.nodes[i]? = some n)
    (hentity : n.entity = entity) (hplain : n.isLookup = false) :
    ∃ (l : rules.LookupColumn) (column : NodeColumn),
      l.table = t ∧ l.column = c ∧ l.lookup = lookup ∧
      (Context.resolvePath start path).run ctx = (.ok column, ctx') ∧ ctx'.Shows i l column ∧
      (∀ label, label.isNull = false → ∃ literal,
        l.LabelRead ctx start path ctx' column label literal ∧
        (l.key.lookup = none → Path.IsPlain l.key.member → l.value.lookup = none →
          Path.IsPlain l.value.member → l.LabelWritten σ label literal)) ∧
      Compared ctx start path column .null (some .null) ∧
      ∀ cascade : Cascade σ,
        (storageValue rules t c .null).run cascade = (.ok .null, cascade) := by
  obtain ⟨l, rfl, rfl, rfl⟩ := exists_of_toCatalog hd ht hc hlookup
  have hcatalog' : ctx'.catalog = rules.catalog := hend.catalog_eq.trans hcatalog
  have hentity' : n.entity = l.table.entity := hentity.trans (Catalog.mem_of_table ht).2.symm
  obtain ⟨column, hcolumn, hshows⟩ :=
    (hend.reachable hctx).exists_shows hcatalog' hn hentity' hplain start
  have hpath := hend.run_resolvePath hcolumn
  refine ⟨l, column, rfl, rfl, rfl, hpath, hshows, fun label hlabel => ?_,
    Filter.compared_storedLiteral hpath, fun _ => rfl⟩
  have hread := labelRead_literalOf hcatalog' hshows hpath hlabel
  refine ⟨l.literalOf label, hread, fun hkey hkeyName hvalue hvalueName => ?_⟩
  exact labelWritten_literalOf hlabel (keyQuery_filterFor (Definition.accepted_of_toCatalog hd)
    (Definition.lookupsKeyed_of_toCatalog hd) hkey hkeyName hvalue hvalueName hlabel)

/-! ## Cities of countries of regions -/

/-- Cities show the region of their country, and countries the name of their region. -/
def placeTables : List Table :=
  [{ entity := "City", table := "cities"
     columns := [
       companyKey,
       { member := "CountryId", column := "country_id", type := .int64
         lookup := some ⟨"Country", "RegionId"⟩ }]
     relationships := []
     permissions := {} },
   { entity := "Country", table := "countries"
     columns := [
       companyKey,
       { member := "RegionId", column := "region_id", type := .int64
         lookup := some ⟨"Region", "Name"⟩ }]
     relationships := []
     permissions := {} },
   { entity := "Region", table := "regions"
     columns := [companyKey, { member := "Name", column := "name", type := .text }]
     relationships := []
     permissions := {} }]

def placeRules : CascadeRules :=
  { catalog := ⟨placeTables, []⟩, identityInsert := false, depth := 10 }

/-- A context of an entity with one lookup column, to the key of another entity. -/
def lookupContext (entity table member lookupEntity lookupTable : String) : Context :=
  { catalog := placeRules.catalog
    nodes := #[
      { index := 0, entity, table, level := 0, link := none, joinKind := .inner
        children := [(.lookup member, 1)] },
      { index := 1, entity := lookupEntity, table := lookupTable, level := 1, joinKind := .inner
        children := []
        link := some
          { origin := 0, key := .lookup member, traversal := .lookup, originMember := member
            nodeMember := "Id", nullable := false } }] }

def countryContext : Context :=
  lookupContext "Country" "countries" "RegionId" "Region" "regions"

def cityContext : Context :=
  lookupContext "City" "cities" "CountryId" "Country" "countries"

/-- The regions of the store. -/
def regionRows : Store
  | "regions" =>
    [(fun | "id" => .int 1 | "name" => .text "North" | _ => .null),
     (fun | "id" => .int 2 | "name" => .text "South" | _ => .null)]
  | _ => []

/-- A connection that answers what the store has of the region in the north. -/
def northStart : Cascade Script :=
  { work := { connection := { stored := [("regions", [[.int 1]])] } } }

theorem keySet_answersKeys_north :
    (Script.keySet [.int 1]).AnswersKeys .ofContent regionRows
      (placeTables[2].keyPlan companyKey placeTables[2].columns[1] (.text "North")) := by
  have hcells : (Script.keySet [.int 1]).cells keyLabel = [.int 1] := by decide +kernel
  have hrows : ((regionRows "regions").filter fun row =>
      Comparison.ofContent.joins (row "name") (.text "North")) =
        [(regionRows "regions").head nofun] :=
    rfl
  intro k _
  rw [Table.passing_keyPlan rfl, hcells]
  show _ ↔ ∃ a ∈ List.map _ ((regionRows "regions").filter fun row =>
    Comparison.ofContent.joins (row "name") (.text "North")), _
  rw [hrows, List.map_singleton]
  simp only [List.mem_singleton, exists_eq_left]
  exact eq_comm

/-- A country in the north is found by its region, and stored with it. -/
theorem labels_agree_north :
    Definition.toCatalog ⟨[], placeTables⟩ = .ok placeRules.catalog ∧
      Context.ofEntity placeRules.catalog "Country" = .ok countryContext ∧
      countryContext.EndsAt Context.root "RegionId" Context.root "RegionId" countryContext ∧
      ∃ l : placeRules.LookupColumn, l.table = placeTables[1] ∧ l.target = placeTables[2] ∧
        l.LabelRead countryContext Context.root "RegionId" countryContext
          { node := 1, member := "Name", column := "name" } (.text "North") (some (.text "North")) ∧
        l.LabelWritten Script (.text "North") (some (.text "North")) ∧
        l.Resolves (l.labelled .ofContent regionRows (.text "North")) (.text "North")
          ((storageValue placeRules l.table l.column (.text "North")).run northStart).1 := by
  have hd : Definition.toCatalog ⟨[], placeTables⟩ = .ok placeRules.catalog := rfl
  have hctx : Context.ofEntity placeRules.catalog "Country" = .ok countryContext := rfl
  have hend : countryContext.EndsAt Context.root "RegionId" Context.root "RegionId"
      countryContext := ⟨"", by decide +kernel, rfl⟩
  refine ⟨hd, hctx, hend, ?_⟩
  obtain ⟨l, column, htable, -, hlookup, hpath, -, hlabels, -⟩ := labels_agree (σ := Script) hd
    (show placeRules.catalog.table "Country" = .ok placeTables[1] from rfl)
    (List.getElem_mem (show 1 < placeTables[1].columns.length by decide)) rfl (.start hd hctx) rfl
    hend rfl rfl rfl
  obtain ⟨literal, hread, hwritten⟩ := hlabels (.text "North") rfl
  have hkeyed := l.keyed
  have hvalue := l.value_eq
  rw [hlookup] at hkeyed hvalue
  obtain ⟨htarget, hkey⟩ : placeTables[2] = l.target ∧ companyKey = l.key :=
    Prod.mk.inj (Except.ok.inj hkeyed)
  rw [← htarget] at hvalue
  have hvalue : placeTables[2].columns[1] = l.value := Except.ok.inj hvalue
  obtain rfl : { node := 1, member := "Name", column := "name" } = column :=
    Except.ok.inj (congrArg Prod.fst hpath)
  have hbind : ((Filter.bind Context.root (.compare "RegionId" .eq (.text "North"))).run
      countryContext).1.toOption =
        some (.compare { node := 1, member := "Name", column := "name" } .eq (.text "North")) := by
    decide +kernel
  obtain ⟨stored, rfl, hstored⟩ :=
    Option.map_eq_some_iff.mp ((hread.compared.right .eq rfl).symm.trans hbind)
  cases hstored
  have hwritten : l.LabelWritten Script (.text "North") (some (.text "North")) := by
    rw [← hkey, ← hvalue] at hwritten
    exact hwritten rfl ⟨by decide, by decide⟩ rfl ⟨by decide, by decide⟩
  refine ⟨l, htable, htarget.symm, hread, hwritten, ?_⟩
  refine hwritten.resolved _ rfl .ofContent regionRows (Script.keySet [.int 1]) northStart rfl ?_ ?_
  · rw [← htarget, ← hkey, ← hvalue]
    rfl
  · rw [← htarget, ← hkey, ← hvalue]
    exact keySet_answersKeys_north

/-- Where the region of this name is 1. -/
example :
    ((patch placeRules "Country" (.int 9) [("RegionId", .text "North")]).run
      ({ work := { connection := { stored := [("regions", [[.int 1]])] } } } :
        Cascade Script)).2.work.calls =
      [.query
        { sql := "SELECT t0.\"id\" AS \"__key\" FROM \"regions\" AS t0 WHERE (t0.\"name\" = ?)"
          parameters := [.text "North"] },
      .execute
        { sql := "UPDATE \"countries\" SET \"region_id\" = ? WHERE \"id\" = ?"
          parameters := [.int 1, .int 9] }] := by
  decide +kernel

/-- The country of a city is shown by its region, which is a lookup itself. A filter compares the
stored region, which a write has no literal for, as it takes the label for the name of a region; and
a name, which it asks for, is nothing to the filter. -/
theorem country_by_region :
    Definition.toCatalog ⟨[], placeTables⟩ = .ok placeRules.catalog ∧
      Context.ofEntity placeRules.catalog "City" = .ok cityContext ∧
      cityContext.table 1 = .ok placeTables[1] ∧
      ((Filter.bind Context.root (.compare "CountryId" .eq (.int 3))).run cityContext).1 =
        .ok (.compare { node := 1, member := "RegionId", column := "region_id" } .eq (.int 3)) ∧
      ((patch placeRules "City" (.int 7) [("CountryId", .int 3)]).run
        ({ work := { connection := {} } } : Cascade Script)).1 =
          .error (.plan (.filter (.literalType "Name" (.int 3) .text))) ∧
      ((Filter.bind Context.root (.compare "CountryId" .eq (.text "North"))).run cityContext).1 =
        .error (.literalType "RegionId" (.text "North") .int64) ∧
      placeRules.keyQuery "Country" (.compare "RegionId" .eq (.text "North")) =
        .ok {
          sql := "SELECT t0.\"id\" AS \"__key\" FROM \"regions\" AS t1 " ++
            "INNER JOIN \"countries\" AS t0 ON t0.\"region_id\" = t1.\"id\" " ++
            "WHERE (t1.\"name\" = ?)"
          parameters := [.text "North"] } :=
  ⟨rfl, rfl, rfl, by decide +kernel, by decide +kernel, by decide +kernel, by decide +kernel⟩

end Cascade

end EntityMap
