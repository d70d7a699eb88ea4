import EntityMap.Proofs.Write.Keys
import EntityMap.Proofs.Write.KeysWhere

/-!
# How children are found

The children of a row are the rows whose foreign key is its key. Saves
that reconcile a collection and deletions ask for them by one key query,
before they release anything. Where the foreign key is a column that can
be searched by, the query reads the child table alone and compares the
foreign key column, the one that is emptied when a child is detached and
that is written when a child is saved (`Ownership.FoundBy`,
`Cascade.children_found`).

A foreign key column that is also a lookup is different: its member stands
for the label of the lookup, so the query looks for children whose label
is the key of the parent, and the children stay where they are
(`Cascade.tasks_by_code`).
-/

namespace EntityMap

variable {σ : Type} [Executor σ] {α : Type} {rules : CascadeRules}

namespace Cascade

open Writing

/-- In an open unit of work a key query is one call. -/
theorem exists_run_selectKeys {entity : String} {filter : Filter} {s : Statement}
    (hs : rules.keyQuery entity filter = .ok s) {c : Cascade σ} (hopen : c.work.isOpen) :
    ∃ c', c'.work.calls = c.work.calls ++ [.query s] ∧
      (selectKeys rules entity filter).run c =
        (((Executor.query s c.work.connection).1.mapError fun source =>
          .unitOfWork (.statement s.sql source)).map RecordSet.storedKeys, c') := by
  rw [selectKeys_eq hs, run_bind, run_inWork, UnitOfWork.query, UnitOfWork.run_send, if_pos hopen]
  cases (Executor.query s c.work.connection).1 with
  | error source => exact ⟨_, rfl, rfl⟩
  | ok records => exact ⟨_, rfl, rfl⟩

/-- A key query in an open unit of work is the first call of what it begins. -/
theorem exists_calls_selectKeys_bind {entity : String} {filter : Filter} {s : Statement}
    {f : List Value → Writing σ α} (hs : rules.keyQuery entity filter = .ok s)
    (hf : ∀ keys, Does rules (f keys) fun _ _ => True) {c : Cascade σ} (hopen : c.work.isOpen) :
    ∃ rest, ((selectKeys rules entity filter >>= f).run c).2.work.calls =
      c.work.calls ++ .query s :: rest := by
  obtain ⟨c', hcalls, hrun⟩ := exists_run_selectKeys hs hopen
  rw [run_bind, hrun]
  cases (Executor.query s c.work.connection).1 with
  | error source => exact ⟨[], hcalls⟩
  | ok records =>
      obtain ⟨es, hsends, -⟩ := (hf records.storedKeys).run c'
      refine ⟨es.map Event.call, ?_⟩
      rw [List.append_cons, ← hcalls]
      exact hsends.calls_eq

end Cascade

/-- How the children of a parent key are found, which is stored in their foreign key as `stored`. -/
structure Ownership.FoundBy (σ : Type) [Executor σ] (rules : CascadeRules) (t : Table)
    (r : Relationship) (o : Ownership) (parentKey stored : Value) : Prop where
  /-- The key query reads the child table alone, by the foreign key column. -/
  query : rules.keyQuery o.child.entity (o.childrenOf parentKey) =
    .ok (o.child.keysWhere o.childKey o.foreignKey stored)
  /-- It is what the reconciliation of a collection sends first. -/
  reconciled : ∀ (kept : List Value) (c : Cascade σ), c.work.isOpen → ∃ rest,
    ((Cascade.releaseOrphans rules o parentKey kept).run c).2.work.calls =
      c.work.calls ++ .query (o.child.keysWhere o.childKey o.foreignKey stored) :: rest
  /-- It is what the deletion of the parent sends first for the relationship. -/
  deleted : ∀ (depth : Nat) (c : Cascade σ), c.work.isOpen → ∃ rest,
    ((Cascade.releaseChildren rules (Cascade.deleteRow rules depth) t parentKey r).run
        c).2.work.calls =
      c.work.calls ++ .query (o.child.keysWhere o.childKey o.foreignKey stored) :: rest
  /-- No sweep of any cascade asks otherwise. -/
  swept : ∀ kept s answer, (Event.swept o parentKey kept s answer).Genuine rules →
    s = o.child.keysWhere o.childKey o.foreignKey stored
  /-- A child is detached by emptying the same column. -/
  detached : ∀ key, (o.detachment key).assignments = [⟨o.foreignKey.column, .null⟩]
  /-- An item of the collection has the parent key for that column, -/
  placed : ∀ entity values,
    let p : Placement := { entity, foreignKey := some (o.foreignKey, parentKey) }
    Cascade.memberValue? (p.place values) p.aside o.foreignKey = some parentKey
  /-- and a save writes it as what the query compares with. -/
  written : Written σ rules o.child o.foreignKey parentKey (some stored)

namespace Cascade

open Writing

theorem memberValue?_place {entity : String} {c : Column} {parentKey : Value}
    (values : Named Value) :
    memberValue? (Placement.place { entity, foreignKey := some (c, parentKey) } values)
      (Placement.aside { entity, foreignKey := some (c, parentKey) }) c = some parentKey := by
  by_cases hshadow : c.shadow
  · exact Placement.memberValue?_aside rfl hshadow
  · rw [memberValue?, if_neg hshadow, Placement.get?_place rfl (by simpa using hshadow)]
    rfl

/-- A key query by a searchable column, of a value whose storage form is the same in filters. -/
theorem keyQuery_eq_ok {entity : String} {t : Table} {key c : Column} {v stored : Value}
    (hlookups : rules.catalog.LookupsKeyed) (hkeyed : rules.keyedTable entity = .ok (t, key))
    (hkey : t.Searchable key) (hc : t.Searchable c) (hv : v.isNull = false)
    (hplain : c.type.isEnumeration → c.adapter = none)
    (hstored : rules.convert t c v = .ok stored) :
    rules.keyQuery entity (.compare c.member .eq v) = .ok (t.keysWhere key c stored) := by
  refine Except.toOption_eq_some_iff.mp ?_
  rw [CascadeRules.keyQuery_eq hlookups hkeyed hkey hc hv, hstored,
    Column.adaptEnumeration?_of_plain hplain]
  rfl

/-- Over each relationship of an accepted catalog, the children of a parent key are found by their
foreign key column, unless that is a lookup. -/
theorem children_found {d : Definition} (hd : d.toCatalog = .ok rules.catalog) {t child : Table}
    {childKey : Column} {r : Relationship} (ht : t ∈ rules.catalog.tables)
    (hr : r ∈ t.relationships)
    (hchild : rules.keyedTable r.foreignKey.entity = .ok (child, childKey))
    (hkey : childKey.lookup = none) (hkeyName : Path.IsPlain childKey.member) :
    ∃ o, rules.ownership r = .ok o ∧ o.child = child ∧ o.childKey = childKey ∧
      child.column r.foreignKey.member = .ok o.foreignKey ∧
      (o.foreignKey.lookup = none → Path.IsPlain o.foreignKey.member →
        (o.foreignKey.type.isEnumeration → o.foreignKey.adapter = none) →
        ∀ parentKey stored, parentKey.isNull = false →
          rules.convert child o.foreignKey parentKey = .ok stored →
          o.FoundBy σ rules t r parentKey stored) := by
  have haccepted := Definition.accepted_of_toCatalog hd
  obtain ⟨hchildTable, -⟩ := CascadeRules.table_of_keyedTable hchild
  obtain ⟨foreign, fk, hforeign, hfk⟩ := Definition.foreignKey_of_checkRelationship
    ((Definition.checkTable_eq_ok_iff.mp (Definition.checked_of_toCatalog hd t ht).2).2 r hr)
  obtain rfl : child = foreign := Except.ok.inj (hchildTable.symm.trans hforeign)
  let o : Ownership := { child, childKey, foreignKey := fk, parentMember := r.primaryKey.member }
  have ho : rules.ownership r = .ok o := by
    unfold CascadeRules.ownership
    rw [hchild]
    show (child.column r.foreignKey.member).mapError WriteError.catalog >>= _ = _
    rw [hfk]
    rfl
  refine ⟨o, ho, rfl, rfl, hfk, fun hlookup hname hplain parentKey stored hnull hstored => ?_⟩
  have hfk' : child.column fk.member = .ok fk := by
    rw [(Table.mem_of_column hfk).2]
    exact hfk
  have hkeyMem := mem_columns_of_key (CascadeRules.table_of_keyedTable hchild).2
  have htable := (Catalog.mem_of_table hchildTable).1
  have hquery : rules.keyQuery child.entity (o.childrenOf parentKey) =
      .ok (child.keysWhere childKey fk stored) :=
    keyQuery_eq_ok (Definition.lookupsKeyed_of_toCatalog hd)
      (CascadeRules.keyedTable_eq_ok hchild).2
      ⟨haccepted.column_eq htable hkeyMem, hkey, hkeyName⟩ ⟨hfk', hlookup, hname⟩ hnull hplain
      hstored
  have hsweep : ∀ (depth : Nat) (kept : List Value) (c : Cascade σ), c.work.isOpen → ∃ rest,
      ((releaseOrphansBy rules (deleteRow rules depth) o parentKey kept).run c).2.work.calls =
        c.work.calls ++ .query (child.keysWhere childKey fk stored) :: rest := by
    intro depth kept c hopen
    unfold releaseOrphansBy
    refine exists_calls_selectKeys_bind hquery (fun keys => ?_) hopen
    exact (forM_halts (release_halts (deleteRow_halts depth))).mono fun _ _ _ => trivial
  constructor
  case query => exact hquery
  case reconciled => exact hsweep rules.depth
  case deleted =>
    intro depth c hopen
    rw [releaseChildren_eq, ho]
    exact hsweep depth (o.selfKey t parentKey) c hopen
  case swept => exact fun kept s answer hs => Except.ok.inj (hs.symm.trans hquery)
  case detached => exact fun key => rfl
  case placed => exact fun entity values => memberValue?_place values
  case written =>
    have hwritten : Written σ rules child fk parentKey _ := written_storageValue hlookup hfk'
    rwa [hnull, hstored] at hwritten

theorem teams_found : Definition.toCatalog ⟨[], companyTables⟩ = .ok companyRules.catalog ∧
    ∃ o, companyRules.ownership companyTables[0].relationships[0] = .ok o ∧
      o.FoundBy Script companyRules companyTables[0] companyTables[0].relationships[0] (.int 1)
        (.int 1) := by
  have hd : Definition.toCatalog ⟨[], companyTables⟩ = .ok companyRules.catalog := rfl
  have hchild : companyRules.keyedTable companyTables[0].relationships[0].foreignKey.entity =
      .ok (companyTables[1], companyKey) := rfl
  obtain ⟨o, ho, hchild, -, hforeignKey, hfound⟩ := children_found (σ := Script) hd
    (List.getElem_mem _) (List.getElem_mem _) hchild rfl ⟨by decide, by decide⟩
  have hforeignKey : companyTables[1].columns[1] = o.foreignKey := Except.ok.inj hforeignKey
  rw [← hforeignKey] at hfound
  exact ⟨hd, o, ho, hfound rfl ⟨by decide, by decide⟩ (fun _ => rfl) (.int 1) (.int 1) rfl
    (by decide +kernel)⟩

/-! ## Tasks of a stage -/

/-- Stages with tasks, which show the code of their stage. -/
def stageTables : List Table :=
  [{ entity := "Stage", table := "stages"
     columns := [companyKey, { member := "Code", column := "code", type := .int64 }]
     relationships := [
       { name := "Tasks", kind := .oneToMany, foreignKey := ⟨"Task", "StageId"⟩
         primaryKey := ⟨"Stage", "Id"⟩ }]
     permissions := {} },
   { entity := "Task", table := "tasks"
     columns := [
       companyKey,
       { member := "StageId", column := "stage_id", type := .int64, nullable := true
         lookup := some ⟨"Stage", "Code"⟩ }]
     relationships := []
     permissions := {} }]

def stageRules : CascadeRules :=
  { catalog := ⟨stageTables, []⟩, identityInsert := false, depth := 10 }

/-- The tasks of a stage are looked for by the code of their stage: with no stage of the code 1,
stage 1 is deleted and its tasks are not touched. -/
theorem tasks_by_code :
    Definition.toCatalog ⟨[], stageTables⟩ = .ok stageRules.catalog ∧
      stageRules.convert stageTables[1] stageTables[1].columns[1] (.int 1) = .ok (.int 1) ∧
      stageRules.keyQuery "Task" (.compare "StageId" .eq (.int 1)) ≠
        .ok (stageTables[1].keysWhere companyKey stageTables[1].columns[1] (.int 1)) ∧
      ((delete stageRules (.mk "Stage" [("Id", .int 1)] [] [])).run
        ({ work := { connection := {} } } : Cascade Script)).2.work.calls =
          [.query
            { sql := "SELECT t0.\"id\" AS \"__key\" FROM \"stages\" AS t1 " ++
                "INNER JOIN \"tasks\" AS t0 ON t0.\"stage_id\" = t1.\"id\" " ++
                "WHERE (t1.\"code\" = ?)"
              parameters := [.int 1] },
          .execute { sql := "DELETE FROM \"stages\" WHERE \"id\" = ?", parameters := [.int 1] }] :=
  ⟨rfl, by decide +kernel, by decide +kernel, by decide +kernel⟩

end Cascade

end EntityMap
