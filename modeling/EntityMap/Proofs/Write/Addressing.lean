import EntityMap.Proofs.Sql.Alignment
import EntityMap.Proofs.Write.ChildQuery

/-!
# How the row of a key is addressed

A key reaches the store in three ways. An insert assigns it to the key
column and a key query compares the key column with it, and both bring it
into storage form first. A change, a deletion or a detachment finds its
row by the key as it is (`CascadeRules.Addresses`,
`Cascade.keys_addressed`). So all statements for one key name one row just
where the key is in storage form already: under an adapter, a row that was
inserted is not the row that is deleted (`Cascade.country_inserted_deleted`).
-/

namespace EntityMap

/-! ## What a statement binds -/

/-- A statement ends in the condition that a column has a value, which is its last parameter. -/
def Statement.EndsIn (s : Statement) (column : String) (v : Value) : Prop :=
  ∃ sql parameters, s =
    { sql := sql ++ (" WHERE " ++ Sql.quote column ++ " = ?"), parameters := parameters ++ [v] }

theorem Statement.endsIn_ofPieces (front : List Sql.Piece) (column : String) (v : Value) :
    (ofPieces (front ++ [.text " WHERE ", .name column, .text " = ", .parameter v])).EndsIn
      column v := by
  have hsql : String.join [" WHERE ", Sql.quote column, " = ", "?"] =
      " WHERE " ++ Sql.quote column ++ " = ?" := by
    apply String.toList_inj.mp
    simp [String.join]
  refine ⟨String.join (front.map (·.sql)), front.filterMap (·.parameter?), ?_⟩
  unfold ofPieces
  rw [List.map_append, String.join_append, List.filterMap_append]
  simp only [List.map_cons, List.map_nil, Sql.Piece.sql, hsql]
  rfl

namespace Operation

variable {op : Operation} {s : Statement}

/-- What is not an insert finds its row by its key. -/
theorem endsIn {column : String} {v : Value} (hkind : op.kind ≠ .insert)
    (hkey : op.key = some ⟨column, v⟩) (hs : op.statement = .ok s) : s.EndsIn column v := by
  obtain ⟨ps, hwritten, rfl⟩ := statement_eq_ok hs
  cases hwritten with
  | insert kind => exact absurd kind hkind
  | change key kind hkey' =>
      cases hkey.symm.trans hkey'
      exact Statement.endsIn_ofPieces _ column v
  | delete key kind hkey' =>
      cases hkey.symm.trans hkey'
      exact Statement.endsIn_ofPieces [.text "DELETE FROM ", .name op.table] column v

/-- An insert binds what it assigns. -/
theorem parameters_of_insert (hkind : op.kind = .insert) (hs : op.statement = .ok s) :
    s.parameters = op.assignments.map (·.value) := by
  rw [parameters_statement hs, parameters, hkind]

end Operation

/-- The statement of an event binds a value for the key column of a table. -/
inductive Event.BindsKey (t : Table) (keyColumn : Column) (v : Value) : Event → Prop
  /-- A row is inserted with the value. -/
  | inserted {op : Operation} {s : Statement} {answer : Except ExecutionError Nat}
      {before after : List Assignment} (hkind : op.kind = .insert) (htable : op.table = t.table)
      (hassigned : op.assignments = before ++ ⟨keyColumn.column, v⟩ :: after)
      (hs : s.parameters = before.map (·.value) ++ v :: after.map (·.value)) :
      BindsKey t keyColumn v (.executed op s answer)
  /-- The row of the value is changed, deleted or detached. -/
  | addressed {op : Operation} {s : Statement} {answer : Except ExecutionError Nat}
      (hkind : op.kind ≠ .insert) (htable : op.table = t.table)
      (hkey : op.key = some ⟨keyColumn.column, v⟩) (hs : s.EndsIn keyColumn.column v) :
      BindsKey t keyColumn v (.executed op s answer)
  /-- The rows of the value are asked for. -/
  | asked {filter : Filter} {answer : Except ExecutionError RecordSet} :
      BindsKey t keyColumn v (.asked t.entity filter (t.keysWhere keyColumn keyColumn v) answer)

variable {σ : Type} [Executor σ] {α : Type} {rules : CascadeRules} {t : Table} {keyColumn : Column}

/-- What is bound for a key: its storage form, which is `stored` if it has one, where a row is
inserted or asked for, and the key itself where its row is changed, deleted or detached. -/
structure CascadeRules.Addresses (σ : Type) [Executor σ] (rules : CascadeRules) (t : Table)
    (keyColumn : Column) (key stored : Value) : Prop where
  inserted : ∀ values aside, Cascade.memberValue? values aside keyColumn = some key →
    Writing.Only rules (Cascade.insertRow rules t keyColumn key values aside : Writing σ Value)
      fun e => e.IsAsked ∨ e.BindsKey t keyColumn stored
  updated : ∀ values aside,
    Writing.Only rules (Cascade.updateRow rules t keyColumn key values aside : Writing σ Value)
      fun e => e.IsAsked ∨ e.BindsKey t keyColumn key
  patched : ∀ changes,
    Writing.Only rules (Cascade.patch rules t.entity key changes : Writing σ Unit)
      fun e => e.IsAsked ∨ e.BindsKey t keyColumn key
  /-- Behind what is sent for the rows that point to it, the row is deleted. -/
  deleted : ∀ depth,
    Writing.Does rules (Cascade.deleteRow rules depth t.entity key : Writing σ Unit)
      fun result es =>
        Cascade.Deleted rules depth t.entity key result es ∧
          ∀ s answer, .executed (t.deletion keyColumn key) s answer ∈ es →
            (Event.executed (t.deletion keyColumn key) s answer).BindsKey t keyColumn key
  detached : ∀ (o : Ownership) delete, o.child = t → o.childKey = keyColumn →
    o.foreignKey.nullable = true →
    Writing.Only rules (Cascade.release o delete key : Writing σ Unit)
      fun e => e.BindsKey t keyColumn key
  /-- Whenever the rows of the key are asked for, as for a row without changes. -/
  found : ∀ s answer,
    (Event.asked t.entity (.compare keyColumn.member .eq key) s answer).Genuine rules →
    (Event.asked t.entity (.compare keyColumn.member .eq key) s answer).BindsKey t keyColumn stored

namespace Cascade

open Writing

/-- An operation on the row of a key binds it. -/
theorem bindsKey_of_genuine {op : Operation} {key : Value} {s : Statement}
    {answer : Except ExecutionError Nat} (hkind : op.kind ≠ .insert) (htable : op.table = t.table)
    (hkey : op.key = some ⟨keyColumn.column, key⟩)
    (h : (Event.executed op s answer).Genuine rules) :
    (Event.executed op s answer).BindsKey t keyColumn key :=
  .addressed hkind htable hkey (Operation.endsIn hkind hkey h)

/-- An insert with a key binds the storage form of the key. -/
theorem insertRow_bindsKey (hkey : keyColumn ∈ t.columns) (hlookup : keyColumn.lookup = none)
    {key stored : Value} (hset : key.isUnset keyColumn.type = false)
    (hstored : ∀ w, rules.convert t keyColumn key = .ok w → w = stored) {values aside : Named Value}
    (hvalue : memberValue? values aside keyColumn = some key) :
    Only rules (insertRow rules t keyColumn key values aside : Writing σ Value)
      fun e => e.IsAsked ∨ e.BindsKey t keyColumn stored := by
  have hnull := Value.isNull_of_set hset
  have hcolumns : (t.columns.filter fun c => !(false && decide (c.member = keyColumn.member))) =
      t.columns := by
    simp
  rw [insertRow_eq, hset]
  refine Only.ofExcept.bind fun _ => ?_
  dsimp only
  rw [hcolumns]
  refine (collectAssignments_asks (insertAssignment_asks t values aside) _).only_bind
    (fun _ _ _ _ => .inl trivial) fun assignments es hassigned => ?_
  have hmem : ⟨keyColumn.column, stored⟩ ∈ assignments := by
    obtain ⟨w, _, hw, hmem⟩ := hassigned.exists_stored hkey hvalue hnull
    cases hw with
    | null h => rw [hnull] at h; cases h
    | resolved _ h _ => rw [hlookup] at h; cases h
    | converted _ _ h => exact hstored w h ▸ hmem
  obtain ⟨before, after, rfl⟩ := List.append_of_mem hmem
  refine addRow_only (fun _ s answer hs => ?_) fun h => by cases h
  have hparameters := Operation.parameters_of_insert rfl hs
  exact .inr (.inserted rfl rfl rfl (by simpa [Table.insertion] using hparameters))

/-- Each statement for the key of an accepted table binds the same for it: inserts and key queries
its storage form, and all others the key as it is. -/
theorem keys_addressed {d : Definition} (hd : d.toCatalog = .ok rules.catalog) {entity : String}
    (hkeyed : rules.keyedTable entity = .ok (t, keyColumn)) (hlookup : keyColumn.lookup = none)
    (hname : Path.IsPlain keyColumn.member)
    (hplain : keyColumn.type.isEnumeration → keyColumn.adapter = none) {key stored : Value}
    (hset : key.isUnset keyColumn.type = false)
    (hstored : ∀ w, rules.convert t keyColumn key = .ok w → w = stored) :
    rules.Addresses σ t keyColumn key stored := by
  obtain ⟨-, hkeyed⟩ := CascadeRules.keyedTable_eq_ok hkeyed
  obtain ⟨htable, hkey⟩ := CascadeRules.table_of_keyedTable hkeyed
  have hmem := mem_columns_of_key hkey
  have hsearchable : t.Searchable keyColumn :=
    ⟨(Definition.accepted_of_toCatalog hd).column_eq (Catalog.mem_of_table htable).1 hmem, hlookup,
      hname⟩
  constructor
  case inserted =>
    exact fun values aside hvalue => insertRow_bindsKey hmem hlookup hset hstored hvalue
  case updated =>
    exact fun values aside => updateRow_only (fun _ _ _ _ => .inl trivial) values aside
      fun _ _ _ hs => .inr (bindsKey_of_genuine (by simp [Table.change]) rfl rfl hs)
  case patched =>
    refine fun changes => patch_only (fun _ _ _ _ => .inl trivial) changes ?_
    intro t' keyColumn' _ _ _ ht hs
    cases hkeyed.symm.trans ht
    exact .inr (bindsKey_of_genuine (by simp [Table.patching]) rfl rfl hs)
  case deleted =>
    intro depth
    refine (deleteRow_halts depth t.entity key).genuine.mono fun result es ⟨h, hgenuine⟩ => ?_
    exact ⟨h.1, fun s answer he => bindsKey_of_genuine (by simp [Table.deletion]) rfl rfl
      (hgenuine _ he)⟩
  case detached =>
    rintro o delete rfl rfl hnullable
    unfold release
    rw [hnullable]
    refine Only.ofExcept.bind fun _ => ?_
    exact executeKeyed_only rfl rfl fun _ _ hs => bindsKey_of_genuine (by simp) rfl rfl hs
  case found =>
    intro s answer hs
    have hquery := CascadeRules.keyQuery_eq (Definition.lookupsKeyed_of_toCatalog hd) hkeyed
      hsearchable hsearchable (Value.isNull_of_set hset)
    rw [show rules.keyQuery _ _ = .ok s from hs] at hquery
    obtain ⟨w, hw, heq⟩ := Option.map_eq_some_iff.mp hquery.symm
    obtain ⟨converted, hconverted, hadapted⟩ := Option.bind_eq_some_iff.mp hw
    rw [Column.adaptEnumeration?_of_plain hplain] at hadapted
    cases hadapted
    cases hstored _ (Except.toOption_eq_some_iff.mp hconverted)
    exact heq ▸ .asked

theorem keys_addressed_company :
    companyRules.convert companyTables[0] companyKey (.int 1) = .ok (.int 1) ∧
      companyRules.Addresses Script companyTables[0] companyKey (.int 1) (.int 1) := by
  have hd : Definition.toCatalog ⟨[], companyTables⟩ = .ok companyRules.catalog := rfl
  have hkeyed : companyRules.keyedTable "Company" = .ok (companyTables[0], companyKey) := rfl
  have hstored : companyRules.convert companyTables[0] companyKey (.int 1) = .ok (.int 1) := by
    decide +kernel
  exact ⟨hstored, keys_addressed hd hkeyed rfl ⟨by decide, by decide⟩ (fun _ => rfl)
    (by decide +kernel) fun w hw => Except.ok.inj (hw.symm.trans hstored)⟩

/-! ## Countries by their codes -/

/-- The code of a country, which is stored in uppercase. -/
def countryCode : Column :=
  { member := "Code", column := "code", type := .text, primaryKey := true
    adapter := some .upperCase }

def countryTables : List Table :=
  [{ entity := "Country", table := "countries"
     columns := [countryCode, { member := "Name", column := "name", type := .text }]
     relationships := []
     permissions := {} }]

def countryRules : CascadeRules :=
  { catalog := ⟨countryTables, []⟩, identityInsert := true, depth := 10 }

def norway : Record :=
  .mk "Country" [("Code", .text "no"), ("Name", .text "Norway")] [] []

/-- A country that is saved and then deleted is inserted under the code NO, which key queries look
for too, and deleted under the code no. -/
theorem country_inserted_deleted :
    Definition.toCatalog ⟨[], countryTables⟩ = .ok countryRules.catalog ∧
      countryRules.keyQuery "Country" (.compare "Code" .eq (.text "no")) =
        .ok (countryTables[0].keysWhere countryCode countryCode (.text "NO")) ∧
      ((do
        let _ ← save countryRules norway
        (delete countryRules norway).run :
          Saving Script (Except WriteError Unit)).run
            { work := { connection := {} } }).2.work.calls =
        [.execute
          { sql := "INSERT INTO \"countries\" (\"code\", \"name\") VALUES (?, ?)"
            parameters := [.text "NO", .text "Norway"] },
        .execute
          { sql := "DELETE FROM \"countries\" WHERE \"code\" = ?"
            parameters := [.text "no"] }] :=
  ⟨rfl, by decide +kernel, by decide +kernel⟩

end Cascade

end EntityMap
