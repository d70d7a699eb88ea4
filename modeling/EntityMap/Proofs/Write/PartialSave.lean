import EntityMap.Proofs.Write.RowHistory
import EntityMap.Proofs.Write.SaveSteps
import EntityMap.Proofs.Write.Termination
import Mathlib.Data.List.Perm.Basic

/-!
# Patches and partial saves

A patch and the save of a record with the same values both assign these
values, the one in the order of their names, the other in the order of
the columns. On a connection that answers a query by its statement alone
(`Executor.Steady`), what is assigned to a column is the same wherever
it is asked for (`Cascade.exists_assignColumn_settles`). So the two agree
on whether there is something to change and on what is assigned
(`Cascade.patch_agrees`).
-/

namespace EntityMap

/-- A list in another order yields the same, in another order. -/
theorem Except.exists_mapM_of_perm {ε α β : Type} {f : α → Except ε β} {l l' : List α}
    (h : l.Perm l') {bs : List β} (hbs : l.mapM f = .ok bs) :
    ∃ bs', l'.mapM f = .ok bs' ∧ bs.Perm bs' := by
  obtain ⟨bs', hbs', hperm⟩ := List.perm_comp_forall₂ h.symm (Except.mapM_eq_ok_iff.mp hbs)
  exact ⟨bs', Except.mapM_eq_ok_iff.mpr hbs', hperm.symm⟩

section

variable {σ : Type} [Executor σ]

/-- A connection that answers a query by its statement alone, and every change by one row. -/
structure Executor.Steady (held : σ → Prop) (answer : Statement → Except ExecutionError RecordSet) :
    Prop extends Executor.Closed held where
  answers : ∀ {connection}, held connection → ∀ s, (Executor.query s connection).1 = answer s
  affects : ∀ {connection}, held connection → ∀ s, (Executor.execute s connection).1 = .ok 1

end

/-- A save sends the statement of its row at least. -/
theorem Saves.ne_nil {rules : CascadeRules} {p : Placement} {r r' : Record} {key : Value}
    {es : List Event} (h : Saves rules p r key r' es) : es ≠ [] := by
  cases h
  simp

variable {σ : Type} [Executor σ] {α β : Type} {rules : CascadeRules} {held : σ → Prop}
  {answer : Statement → Except ExecutionError RecordSet}

/-- From a cascade that is open on a held connection: a computation only asks for keys, and always
answers the same. -/
def Writing.Settles (rules : CascadeRules) (held : σ → Prop) (m : Writing σ α)
    (result : Except WriteError α) : Prop :=
  ∀ c : Cascade σ, c.work.isOpen = true → held c.work.connection →
    ∃ es, UnitOfWork.Sends rules c.work es (m.run c).2.work ∧ (∀ e ∈ es, e.IsAsked) ∧
      (m.run c).1 = result ∧ (m.run c).2.work.isOpen = true ∧ held (m.run c).2.work.connection

namespace Writing.Settles

variable {m : Writing σ α} {f : α → Writing σ β}

theorem ofExcept {result : Except WriteError α} :
    Settles rules held (Writing.ofExcept result : Writing σ α) result :=
  fun c hopen hheld => ⟨[], .done c.work, by simp, rfl, hopen, hheld⟩

theorem pure {a : α} : Settles rules held (pure a : Writing σ α) (.ok a) :=
  fun c hopen hheld => ⟨[], .done c.work, by simp, rfl, hopen, hheld⟩

theorem throw {e : WriteError} : Settles rules held (throw e : Writing σ α) (.error e) :=
  fun c hopen hheld => ⟨[], .done c.work, by simp, rfl, hopen, hheld⟩

theorem bind {result : Except WriteError α} {g : α → Except WriteError β}
    (hm : Settles rules held m result)
    (hf : ∀ a, result = .ok a → Settles rules held (f a) (g a)) :
    Settles rules held (m >>= f) (result >>= g) := by
  intro c hopen hheld
  obtain ⟨es, hsends, hasked, hanswer, hopen₁, hheld₁⟩ := hm c hopen hheld
  rw [run_bind]
  rcases hrun : m.run c with ⟨e | a, c₁⟩
  · rw [hrun] at hsends hanswer hopen₁ hheld₁
    subst hanswer
    exact ⟨es, hsends, hasked, rfl, hopen₁, hheld₁⟩
  · rw [hrun] at hsends hanswer hopen₁ hheld₁
    subst hanswer
    obtain ⟨es', hsends', hasked', hrest⟩ := hf a rfl c₁ hopen₁ hheld₁
    exact ⟨es ++ es', hsends.trans hsends', List.forall_mem_append.mpr ⟨hasked, hasked'⟩, hrest⟩

theorem run_bind_error {e : WriteError} {c : Cascade σ} (hm : Settles rules held m (.error e))
    (hopen : c.work.isOpen = true) (hheld : held c.work.connection) :
    ((m >>= f).run c).1 = .error e := by
  obtain ⟨es, -, -, hanswer, -⟩ := hm c hopen hheld
  rw [run_bind]
  rcases hrun : m.run c with ⟨_ | _, _⟩
  · rw [hrun] at hanswer
    cases hanswer
    rfl
  · rw [hrun] at hanswer
    cases hanswer

/-- What follows runs on what is always answered, behind what is asked for it. -/
theorem exists_run_bind_eq {a : α} {c : Cascade σ} (hm : Settles rules held m (.ok a))
    (hopen : c.work.isOpen = true) (hheld : held c.work.connection) : ∃ es c₁,
      UnitOfWork.Sends rules c.work es c₁.work ∧ (∀ e ∈ es, e.IsAsked) ∧ c₁.work.isOpen = true ∧
        held c₁.work.connection ∧ (m >>= f).run c = (f a).run c₁ := by
  obtain ⟨es, hsends, hasked, hanswer, hopen₁, hheld₁⟩ := hm c hopen hheld
  refine ⟨es, _, hsends, hasked, hopen₁, hheld₁, ?_⟩
  rw [run_bind]
  rcases hrun : m.run c with ⟨_ | _, c₁⟩
  · rw [hrun] at hanswer
    cases hanswer
  · rw [hrun] at hanswer
    cases hanswer
    rfl

theorem mapM {f : α → Writing σ β} {g : α → Except WriteError β}
    (h : ∀ a, Settles rules held (f a) (g a)) (l : List α) :
    Settles rules held (l.mapM f) (l.mapM g) := by
  induction l with
  | nil => exact pure
  | cons a rest ih =>
      rw [List.mapM_cons, List.mapM_cons]
      exact (h a).bind fun b _ => ih.bind fun bs _ => pure

end Writing.Settles

namespace Cascade

open Writing

/-! ## What is assigned to a column -/

/-- The value of a column in storage form, which must not be null where the column may not be. -/
def assignColumn (rules : CascadeRules) (t : Table) (entry : Column × Value) :
    Writing σ Assignment := do
  let stored ← storageValue rules t entry.1 entry.2
  Writing.ofExcept (t.requireValue entry.1 stored)
  return ⟨entry.1.column, stored⟩

theorem selectKeys_settles (hsteady : Executor.Steady held answer) (entity : String)
    (filter : Filter) :
    Settles rules held (selectKeys rules entity filter : Writing σ (List Value)) (do
      let s ← rules.keyQuery entity filter
      let records ← (answer s).mapError fun source => .unitOfWork (.statement s.sql source)
      return records.storedKeys) := by
  simp only [← RecordSet.distinctValues?_getD]
  refine Settles.ofExcept.bind fun s hs => Settles.bind (fun c hopen hheld => ?_) fun _ _ => .pure
  -- the event of the query, which is answered by its statement
  have hanswer := hsteady.answers hheld s
  rw [run_inWork, UnitOfWork.query, UnitOfWork.run_send, if_pos hopen, hanswer]
  have hsends : UnitOfWork.Sends rules c.work [.asked entity filter s (answer s)]
      { c.work with
        connection := (Executor.query s c.work.connection).2
        calls := c.work.calls ++ [.query s] } :=
    .event hopen hs (Prod.ext hanswer rfl) (.done _)
  refine ⟨_, hsends, by simp [Event.IsAsked], ?_, hopen, hsteady.query hheld s⟩
  cases answer s <;> rfl

theorem exists_storageValue_settles (hsteady : Executor.Steady held answer) (t : Table) (c : Column)
    (v : Value) :
    ∃ result, Settles rules held (storageValue rules t c v : Writing σ Value) result := by
  unfold storageValue
  split
  · exact ⟨_, .pure⟩
  · split
    · rename_i lookup _
      refine ⟨_, (selectKeys_settles hsteady _ _).bind (g := fun keys => keys.head?.elim
        (.error (.unknownLookupValue t.entity c.member lookup.entity v)) .ok) fun keys _ => ?_⟩
      cases keys with
      | nil => exact .throw
      | cons key _ => exact .pure
    · exact ⟨_, .ofExcept⟩

/-- On a connection that answers a query by its statement alone, what is assigned to a column is the
same wherever it is asked for. -/
theorem exists_assignColumn_settles (hsteady : Executor.Steady held answer) (t : Table) :
    ∃ form : Column × Value → Except WriteError Assignment, ∀ entry,
      Settles rules held (assignColumn rules t entry : Writing σ Assignment) (form entry) := by
  refine Classical.skolem.mp fun entry => ?_
  obtain ⟨stored, hstored⟩ := exists_storageValue_settles hsteady t entry.1 entry.2
  exact ⟨_, hstored.bind fun _ _ => Settles.ofExcept.bind fun _ _ => .pure⟩

/-! ## What is assigned to a row -/

/-- The columns of changed members, with their values. -/
def patchEntries (t : Table) (changes : Named Value) : List (Column × Value) :=
  changes.filterMap fun (member, v) => (t.column? member).map (·, v)

/-- The columns that the save of a row changes, with their values. -/
def updateEntries (t : Table) (values aside : Named Value) : List (Column × Value) :=
  (t.columns.filter (!·.primaryKey)).filterMap fun c =>
    (memberValue? values aside c).map (c, ·)

theorem collectAssignments_update_eq (t : Table) (values aside : Named Value)
    (columns : List Column) :
    (collectAssignments (updateAssignment rules t values aside) columns : Writing σ _) =
      (columns.filterMap fun c => (memberValue? values aside c).map (c, ·)).mapM
        (assignColumn rules t) := by
  induction columns with
  | nil => rfl
  | cons c rest ih =>
      rw [collectAssignments, ih, updateAssignment]
      cases hvalue : memberValue? values aside c with
      | none => simp [hvalue]
      | some v => simp [hvalue, assignColumn]

/-- Members that a patch may change, each of them once. -/
structure MayPatch (t : Table) (changes : Named Value) : Prop where
  distinct : (changes.map (·.1)).Nodup
  mapped : ∀ change ∈ changes, ∃ c, t.column? change.1 = some c ∧ c.primaryKey = false ∧
    c.shadow = false

theorem MayPatch.patchEntries_ne_nil {t : Table} {changes : Named Value} (h : MayPatch t changes)
    (hchanges : changes ≠ []) : patchEntries t changes ≠ [] := by
  obtain ⟨change, rest, rfl⟩ := List.exists_cons_of_ne_nil hchanges
  obtain ⟨c, hc, -⟩ := h.mapped change (List.mem_cons_self ..)
  simp [patchEntries, hc]

theorem mapM_patchAssignment_eq {t : Table} {changes : Named Value} (h : ∀ change ∈ changes, ∃ c,
      t.column? change.1 = some c ∧ c.primaryKey = false ∧ c.shadow = false) :
    (changes.mapM fun (member, v) => patchAssignment rules t member v : Writing σ _) =
      (patchEntries t changes).mapM (assignColumn rules t) := by
  induction changes with
  | nil => rfl
  | cons change rest ih =>
      obtain ⟨⟨c, hc, hprimary, hshadow⟩, hrest⟩ := List.forall_mem_cons.mp h
      have hown : (patchAssignment rules t change.1 change.2 : Writing σ Assignment) =
          assignColumn rules t (c, change.2) := by
        rw [patchAssignment, hc, Option.filter_some, if_pos (by simp [hprimary, hshadow])]
        rfl
      have hentries : patchEntries t (change :: rest) = (c, change.2) :: patchEntries t rest := by
        simp [patchEntries, hc]
      rw [List.mapM_cons, hentries, List.mapM_cons, ih hrest, ← hown]

theorem mem_patchEntries_iff {t : Table} {changes : Named Value}
    (hcolumns : (t.columns.map (·.member)).Nodup) {c : Column} {v : Value} :
    (c, v) ∈ patchEntries t changes ↔ c ∈ t.columns ∧ (c.member, v) ∈ changes := by
  rw [patchEntries, List.mem_filterMap]
  constructor
  · rintro ⟨⟨member, w⟩, hmem, heq⟩
    obtain ⟨c', hc', heq⟩ := Option.map_eq_some_iff.mp heq
    cases heq
    obtain ⟨hc, rfl⟩ := Table.mem_of_column (Table.column_eq_ok_iff.mpr hc')
    exact ⟨hc, hmem⟩
  · rintro ⟨hc, hmem⟩
    have hcolumn : t.column? c.member = some c := find?_eq_some_of_nodup_map hcolumns hc
    exact ⟨_, hmem, by simp [hcolumn]⟩

theorem mem_updateEntries_iff {t : Table} {changes : Named Value} {key : Value} {keyMember : String}
    (hdistinct : (changes.map (·.1)).Nodup)
    (hkey : ∀ c ∈ t.columns, c.primaryKey = false → c.member ≠ keyMember) {c : Column} {v : Value} :
    (c, v) ∈ updateEntries t (changes.insert keyMember key) [] ↔
      (c ∈ t.columns ∧ c.primaryKey = false ∧ c.shadow = false) ∧ (c.member, v) ∈ changes := by
  have hvalue : c ∈ t.columns → c.primaryKey = false →
      (memberValue? (changes.insert keyMember key) [] c = some v ↔
        c.shadow = false ∧ (c.member, v) ∈ changes) := by
    intro hc hprimary
    rw [memberValue?, Named.get?_insert_of_ne (hkey c hc hprimary),
      ← lookup_eq_some_iff_mem hdistinct]
    cases c.shadow <;> simp [Named.get?]
  rw [updateEntries, List.mem_filterMap]
  constructor
  · rintro ⟨c', hc', heq⟩
    obtain ⟨w, hw, heq⟩ := Option.map_eq_some_iff.mp heq
    cases heq
    obtain ⟨hc, hprimary⟩ := List.mem_filter.mp hc'
    have hprimary : c.primaryKey = false := by simpa using hprimary
    obtain ⟨hshadow, hmem⟩ := (hvalue hc hprimary).mp hw
    exact ⟨⟨hc, hprimary, hshadow⟩, hmem⟩
  · rintro ⟨⟨hc, hprimary, hshadow⟩, hmem⟩
    refine ⟨c, List.mem_filter.mpr ⟨hc, by simpa using hprimary⟩, ?_⟩
    rw [(hvalue hc hprimary).mpr ⟨hshadow, hmem⟩]
    rfl

/-- The values of a record that has the changed members and its key, but no others, are those that
the patch assigns, in the order of the columns. -/
theorem patchEntries_perm {t : Table} {changes : Named Value} {key : Value} {keyMember : String}
    (hcolumns : (t.columns.map (·.member)).Nodup) (h : MayPatch t changes)
    (hkey : ∀ c ∈ t.columns, c.primaryKey = false → c.member ≠ keyMember) :
    (patchEntries t changes).Perm (updateEntries t (changes.insert keyMember key) []) := by
  have hpatched : (patchEntries t changes).Nodup := by
    refine h.distinct.of_map.filterMap fun change change' entry hentry hentry' => ?_
    obtain ⟨c, hc, rfl⟩ := Option.map_eq_some_iff.mp hentry
    obtain ⟨c', hc', heq⟩ := Option.map_eq_some_iff.mp hentry'
    obtain ⟨rfl, hvalue⟩ := Prod.mk.inj heq
    have hmember := (Table.mem_of_column (Table.column_eq_ok_iff.mpr hc)).2
    have hmember' := (Table.mem_of_column (Table.column_eq_ok_iff.mpr hc')).2
    exact Prod.ext (hmember.symm.trans hmember') hvalue.symm
  have hupdated : (updateEntries t (changes.insert keyMember key) []).Nodup := by
    refine (hcolumns.of_map.filter _).filterMap fun c c' entry hentry hentry' => ?_
    obtain ⟨v, -, rfl⟩ := Option.map_eq_some_iff.mp hentry
    obtain ⟨v', -, heq⟩ := Option.map_eq_some_iff.mp hentry'
    cases heq
    rfl
  refine (List.perm_ext_iff_of_nodup hpatched hupdated).mpr fun ⟨c, v⟩ => ?_
  rw [mem_patchEntries_iff hcolumns, mem_updateEntries_iff h.distinct hkey]
  refine ⟨fun ⟨hc, hmem⟩ => ?_, fun ⟨⟨hc, _⟩, hmem⟩ => ⟨hc, hmem⟩⟩
  obtain ⟨c', hc', hprimary, hshadow⟩ := h.mapped _ hmem
  obtain rfl : c = c' :=
    Option.some.inj ((find?_eq_some_of_nodup_map hcolumns hc).symm.trans hc')
  exact ⟨⟨hc, hprimary, hshadow⟩, hmem⟩

/-! ## The two operations -/

/-- A run executes one operation, on one row, behind what is asked for it. -/
def Executes (rules : CascadeRules) (c : Cascade σ) (op : Operation) (c' : Cascade σ) : Prop :=
  ∃ asked s, (∀ e ∈ asked, e.IsAsked) ∧
    UnitOfWork.Sends rules c.work (asked ++ [.executed op s (.ok 1)]) c'.work

theorem exists_executeKeyed_run (hsteady : Executor.Steady held answer) {t : Table} {op : Operation}
    {s : Statement} {key : Value} {c : Cascade σ} (hs : op.statement = .ok s)
    (hopen : c.work.isOpen = true) (hheld : held c.work.connection) :
    ∃ c', (executeKeyed t op key).run c = (.ok (), c') ∧
      UnitOfWork.Sends rules c.work [.executed op s (.ok 1)] c'.work := by
  have haffects := hsteady.affects hheld s
  let c' : Cascade σ :=
    { c with work := { c.work with
      connection := (Executor.execute s c.work.connection).2
      calls := c.work.calls ++ [.execute s] } }
  have hexecute : (inWork (UnitOfWork.execute s) : Writing σ Nat).run c = (.ok 1, c') := by
    rw [run_inWork, UnitOfWork.execute, UnitOfWork.run_send, if_pos hopen, haffects]
    rfl
  have hsends : UnitOfWork.Sends rules c.work [.executed op s (.ok 1)] c'.work :=
    .event hopen hs (Prod.ext haffects rfl) (.done _)
  refine ⟨c', ?_, hsends⟩
  unfold executeKeyed
  rw [hs]
  show (inWork (UnitOfWork.execute s) >>= _ : Writing σ Unit).run c = _
  rw [run_bind, hexecute]
  rfl

/-- A computation that executes the operation of some assignments is run just if each value has a
storage form in its column. -/
theorem assigned_run {t : Table} {form : Column × Value → Except WriteError Assignment}
    (hform : ∀ entry, Settles rules held (assignColumn rules t entry : Writing σ Assignment)
      (form entry))
    {go : List Assignment → Writing σ α} {a : α} {op : List Assignment → Operation}
    (hgo : ∀ assignments, assignments ≠ [] → ∃ s, ∀ c : Cascade σ, c.work.isOpen = true →
      held c.work.connection → ∃ c', (go assignments).run c = (.ok a, c') ∧
        UnitOfWork.Sends rules c.work [.executed (op assignments) s (.ok 1)] c'.work)
    {entries : List (Column × Value)} (hentries : entries ≠ []) {c : Cascade σ}
    (hopen : c.work.isOpen = true) (hheld : held c.work.connection) :
    match entries.mapM form with
    | .error e => ((entries.mapM (assignColumn rules t) >>= go).run c).1 = .error e
    | .ok assignments => ∃ c', (entries.mapM (assignColumn rules t) >>= go).run c = (.ok a, c') ∧
        Executes rules c (op assignments) c' := by
  have hsettles := Settles.mapM hform entries
  cases hmap : entries.mapM form with
  | error e =>
      rw [hmap] at hsettles
      exact hsettles.run_bind_error hopen hheld
  | ok assignments =>
      rw [hmap] at hsettles
      obtain ⟨es, c₁, hsends, hasked, hopen₁, hheld₁, hrun⟩ :=
        hsettles.exists_run_bind_eq (f := go) hopen hheld
      have hassigns : assignments ≠ [] := by
        rintro rfl
        exact hentries (List.forall₂_nil_right_iff.mp (Except.mapM_eq_ok_iff.mp hmap))
      obtain ⟨s, hs⟩ := hgo assignments hassigns
      obtain ⟨c', hrest, hsends'⟩ := hs c₁ hopen₁ hheld₁
      exact ⟨c', hrun.trans hrest, es, s, hasked, hsends.trans hsends'⟩

section

variable {entity : String} {t : Table} {keyColumn : Column} {key : Value}

theorem patch_eq {changes : Named Value} (ht : rules.keyedTable entity = .ok (t, keyColumn))
    (hset : key.isUnset keyColumn.type = false) (hchanges : changes ≠ [])
    (hmay : MayPatch t changes) :
    (patch rules entity key changes : Writing σ Unit) = (do
      Writing.ofExcept (t.permit .patch)
      let assignments ← (patchEntries t changes).mapM (assignColumn rules t)
      executeKeyed t (t.patching assignments keyColumn key) key) := by
  unfold patch
  rw [ht]
  show (Writing.ofExcept (t.permit .patch) >>= _ : Writing σ Unit) = _
  congr 1
  funext _
  have hempty : changes.isEmpty = false := List.isEmpty_eq_false_iff.mpr hchanges
  simp only [hset, hempty]
  show (changes.mapM _ >>= _ : Writing σ Unit) = _
  rw [mapM_patchAssignment_eq hmay.mapped]
  rfl

theorem updateRow_eq_mapM (values aside : Named Value) :
    (updateRow rules t keyColumn key values aside : Writing σ Value) = (do
      Writing.ofExcept (t.permit .update)
      let assignments ← (updateEntries t values aside).mapM (assignColumn rules t)
      changeRow rules t keyColumn key assignments) := by
  rw [updateRow_eq, collectAssignments_update_eq]
  rfl

/-- A record without navigations is saved by the change of its row, when its key is set and keys are
not inserted. -/
theorem save_run_of_updateRow {values : Named Value}
    (ht : rules.keyedTable entity = .ok (t, keyColumn)) (hidentity : rules.identityInsert = false)
    (hkey : Record.valueOf values keyColumn.member = key)
    (hset : key.isUnset keyColumn.type = false) {c c' : Cascade σ} {saved : Except WriteError Value}
    (hrow : (updateRow rules t keyColumn key values []).run c = (saved, c')) :
    ((save rules (.mk entity values [] [])).run c).1.1 = saved ∧
      ((save rules (.mk entity values [] [])).run c).2 = c' := by
  have hwrite : (writeRow rules t keyColumn values [] : Writing σ (Value × Bool)).run c =
      (saved.map fun key => (key, false), c') := by
    have hroute : routesToInsert rules c.inserted t keyColumn key = false := by
      rw [routesToInsert, hset, hidentity]
      rfl
    show (if routesToInsert rules c.inserted t keyColumn (Record.valueOf values keyColumn.member)
      then _ else _ : Writing σ (Value × Bool)).run c = _
    rw [hkey, hroute, if_neg Bool.false_ne_true, run_bind, hrow]
    cases saved <;> rfl
  have hsave : (save rules (.mk entity values [] [])).run c =
      ((writeRow rules t keyColumn values []).run >>=
        Saving.onward (.mk entity values [] [])
          (saveOwned rules { entity } t keyColumn values [] [])).run c := by
    rw [save, saveRecord_eq ht, saveReferences]
    rfl
  have hrun : (save rules (.mk entity values [] [])).run c =
      (Saving.onward (.mk entity values [] [])
        (saveOwned rules { entity } t keyColumn values [] [])
          (saved.map fun key => (key, false))).run c' := by
    obtain ⟨_, _, hfirst, hrest⟩ := Saving.run_bind_eq_iff.mp hsave.symm
    cases hwrite.symm.trans hfirst
    exact hrest.symm
  rw [hrun]
  cases saved with
  | error e => exact ⟨rfl, rfl⟩
  | ok key =>
      rw [Except.map, Saving.onward, saveOwned, saveCollections_nil]
      exact ⟨rfl, rfl⟩

omit [Executor σ] in
theorem ofExcept_ok_bind (a : α) (f : α → Writing σ β) :
    (Writing.ofExcept (.ok a) >>= f : Writing σ β) = f a :=
  rfl

theorem patch_run (hsteady : Executor.Steady held answer)
    {form : Column × Value → Except WriteError Assignment}
    (hform : ∀ entry, Settles rules held (assignColumn rules t entry : Writing σ Assignment)
      (form entry))
    {changes : Named Value} (ht : rules.keyedTable entity = .ok (t, keyColumn))
    (hset : key.isUnset keyColumn.type = false) (hchanges : patchEntries t changes ≠ [])
    (hmay : MayPatch t changes) (hpermitted : t.permissions.update = true) {c : Cascade σ}
    (hopen : c.work.isOpen = true) (hheld : held c.work.connection) :
    match (patchEntries t changes).mapM form with
    | .error e => ((patch rules entity key changes).run c).1 = .error e
    | .ok assignments => ∃ c', (patch rules entity key changes).run c = (.ok (), c') ∧
        Executes rules c (t.patching assignments keyColumn key) c' := by
  have hpermit : t.permit .patch = .ok () := by simp [Table.permit, hpermitted]
  have hchanges' : changes ≠ [] := by
    rintro rfl
    exact hchanges rfl
  rw [patch_eq ht hset hchanges' hmay, hpermit, ofExcept_ok_bind]
  refine assigned_run hform (fun assignments hassigns => ?_) hchanges hopen hheld
  obtain ⟨s, hs⟩ : ∃ s, (t.patching assignments keyColumn key).statement = .ok s :=
    Operation.exists_statement rfl (.inr hassigns)
  exact ⟨s, fun c hopen hheld => exists_executeKeyed_run hsteady hs hopen hheld⟩

theorem updateRow_run (hsteady : Executor.Steady held answer)
    {form : Column × Value → Except WriteError Assignment}
    (hform : ∀ entry, Settles rules held (assignColumn rules t entry : Writing σ Assignment)
      (form entry))
    {values aside : Named Value} (hvalues : updateEntries t values aside ≠ [])
    (hpermitted : t.permissions.update = true) {c : Cascade σ}
    (hopen : c.work.isOpen = true) (hheld : held c.work.connection) :
    match (updateEntries t values aside).mapM form with
    | .error e => ((updateRow rules t keyColumn key values aside).run c).1 = .error e
    | .ok assignments => ∃ c',
        (updateRow rules t keyColumn key values aside).run c = (.ok key, c') ∧
          Executes rules c (t.change assignments keyColumn key) c' := by
  have hpermit : t.permit .update = .ok () := by simp [Table.permit, hpermitted]
  rw [updateRow_eq_mapM, hpermit, ofExcept_ok_bind]
  refine assigned_run hform (fun assignments hassigns => ?_) hvalues hopen hheld
  obtain ⟨s, hs⟩ : ∃ s, (t.change assignments keyColumn key).statement = .ok s :=
    Operation.exists_statement rfl (.inr hassigns)
  refine ⟨s, fun c hopen hheld => ?_⟩
  obtain ⟨c', hrun, hsends⟩ : ∃ c',
      (executeKeyed t (t.change assignments keyColumn key) key).run c = (.ok (), c') ∧
        UnitOfWork.Sends rules c.work
          [.executed (t.change assignments keyColumn key) s (.ok 1)] c'.work :=
    exists_executeKeyed_run hsteady hs hopen hheld
  refine ⟨c', ?_, hsends⟩
  rw [changeRow, if_neg (by simpa using hassigns)]
  show (executeKeyed t (t.change assignments keyColumn key) key >>= _ : Writing σ Value).run c = _
  rw [run_bind, hrun]
  rfl

/-! ## What fails -/

/-- Only an open unit of work sends. -/
theorem isOpen_of_sends {u u' : UnitOfWork σ} {es : List Event} (h : UnitOfWork.Sends rules u es u')
    (hes : es ≠ []) : u.isOpen = true := by
  cases h with
  | done => exact absurd rfl hes
  | event hopen _ _ _ => exact hopen

theorem patch_yields {changes : Named Value} (hchanges : changes ≠ []) :
    Yields rules (patch rules entity key changes : Writing σ Unit) fun _ es => es ≠ [] := by
  unfold patch
  refine Yields.ofExcept_bind fun ⟨t, keyColumn⟩ _ => Yields.ofExcept_bind fun _ _ => ?_
  dsimp only
  split
  · exact .throw_bind
  · split
    · refine (Asks.mapM (fun _ => patchAssignment_asks t _ _) changes).yields.bind ?_
      intro assignments es _
      refine (executeKeyed_yields rfl rfl).mono ?_
      rintro _ _ ⟨s, n, -, rfl⟩
      simp
    · rename_i hempty
      exact absurd (by simpa using hempty) hchanges

theorem isOpen_of_patch {changes : Named Value} (hchanges : changes ≠ []) {c : Cascade σ}
    (h : ((patch rules entity key changes).run c).1.isOk = true) : c.work.isOpen = true := by
  obtain ⟨es, hsends, hes⟩ := (@patch_yields σ _ rules entity key changes hchanges).run c
  cases hanswer : ((patch rules entity key changes).run c).1 with
  | error e =>
      rw [hanswer] at h
      cases h
  | ok => exact isOpen_of_sends hsends (hes () hanswer)

theorem isOpen_of_save {r : Record} {c : Cascade σ} (h : ((save rules r).run c).1.1.isOk = true) :
    c.work.isOpen = true := by
  obtain ⟨es, hsends, hsaves⟩ := (@saveRecord_saves σ _ rules { entity := r.entity } r).run c
  cases hanswer : ((save rules r).run c).1.1 with
  | error e =>
      rw [hanswer] at h
      cases h
  | ok key =>
      exact isOpen_of_sends hsends (hsaves key hanswer).ne_nil

/-! ## Patch and save -/

/-- In an open unit of work, a patch and an update of the same entries both fail, or they execute
the same assignments in some order. -/
theorem patch_or_updateRow (hsteady : Executor.Steady held answer)
    (ht : rules.keyedTable entity = .ok (t, keyColumn)) (hset : key.isUnset keyColumn.type = false)
    {changes values aside : Named Value} (hchanges : changes ≠ []) (hmay : MayPatch t changes)
    (hperm : (patchEntries t changes).Perm (updateEntries t values aside)) {c : Cascade σ}
    (hopen : c.work.isOpen = true) (hheld : held c.work.connection) :
    (∃ e e', ((patch rules entity key changes).run c).1 = .error e ∧
      ((updateRow rules t keyColumn key values aside).run c).1 = .error e') ∨
    ∃ assignments assignments' c₁ c₂, assignments.Perm assignments' ∧
      (patch rules entity key changes).run c = (.ok (), c₁) ∧
      (updateRow rules t keyColumn key values aside).run c = (.ok key, c₂) ∧
      Executes rules c (t.patching assignments keyColumn key) c₁ ∧
      Executes rules c (t.change assignments' keyColumn key) c₂ := by
  by_cases hpermitted : t.permissions.update = true
  · obtain ⟨form, hform⟩ := @exists_assignColumn_settles _ _ rules _ _ hsteady t
    have hentries := hmay.patchEntries_ne_nil hchanges
    have hentries' : updateEntries t values aside ≠ [] :=
      fun hnil => hentries (hnil ▸ hperm).eq_nil
    have hpatch := patch_run hsteady hform ht hset hentries hmay hpermitted hopen hheld
    have hupdate := @updateRow_run _ _ _ _ _ t keyColumn key hsteady _ hform _ _ hentries'
      hpermitted c hopen hheld
    -- a form fails for some entry of the one list if it does for some entry of the other
    cases hmap : (patchEntries t changes).mapM form with
    | error e =>
        cases hmap' : (updateEntries t values aside).mapM form with
        | error e' =>
            rw [hmap] at hpatch
            rw [hmap'] at hupdate
            exact .inl ⟨e, e', hpatch, hupdate⟩
        | ok assignments' =>
            obtain ⟨_, hmapped, -⟩ := Except.exists_mapM_of_perm hperm.symm hmap'
            cases hmap.symm.trans hmapped
    | ok assignments =>
        obtain ⟨assignments', hmap', hsame⟩ := Except.exists_mapM_of_perm hperm hmap
        rw [hmap] at hpatch
        rw [hmap'] at hupdate
        obtain ⟨c₁, hrun, hexecutes⟩ := hpatch
        obtain ⟨c₂, hrun', hexecutes'⟩ := hupdate
        exact .inr ⟨assignments, assignments', c₁, c₂, hsame, hrun, hrun', hexecutes, hexecutes'⟩
  · rw [Bool.not_eq_true] at hpermitted
    have hrefused : ∀ kind, kind = .patch ∨ kind = .update →
        t.permit kind = .error (.notPermitted t.entity kind) := by
      rintro kind (rfl | rfl) <;> simp [Table.permit, hpermitted]
    refine .inl ⟨.notPermitted t.entity .patch, .notPermitted t.entity .update, ?_, ?_⟩
    · rw [patch_eq ht hset hchanges hmay, hrefused _ (.inl rfl)]
      rfl
    · rw [updateRow_eq, hrefused _ (.inr rfl)]
      rfl

/-- For every accepted catalog, and on every connection that answers a query by its statement alone
and every change by one row: where keys are not inserted, a patch of members that it may change
succeeds just if the save of a record with these values and the key does. Then the one executes a
patch and the other an update of the same row of the same table, with the same assignments in some
order. -/
theorem patch_agrees {d : Definition} (hd : d.toCatalog = .ok rules.catalog)
    (hsteady : Executor.Steady held answer) (hidentity : rules.identityInsert = false)
    (ht : rules.keyedTable entity = .ok (t, keyColumn)) (hset : key.isUnset keyColumn.type = false)
    {changes : Named Value} (hchanges : changes ≠ []) (hmay : MayPatch t changes) (c : Cascade σ)
    (hheld : held c.work.connection) :
    let patched := (patch rules entity key changes).run c
    let saved := (save rules (.mk entity (changes.insert keyColumn.member key) [] [])).run c
    patched.1.isOk = saved.1.1.isOk ∧
      (patched.1.isOk = true → ∃ assignments assignments', assignments.Perm assignments' ∧
        Executes rules c (t.patching assignments keyColumn key) patched.2 ∧
        Executes rules c (t.change assignments' keyColumn key) saved.2) := by
  intro patched saved
  have haccepted := Definition.accepted_of_toCatalog hd
  have hperm : (patchEntries t changes).Perm
      (updateEntries t (changes.insert keyColumn.member key) []) :=
    patchEntries_perm (haccepted.members t (CascadeRules.mem_of_keyedTable ht).1) hmay
      fun c hc hprimary => CascadeRules.member_ne_of_keyedTable haccepted ht hc hprimary
  have hkey : Record.valueOf (changes.insert keyColumn.member key) keyColumn.member = key :=
    Record.valueOf_insert
  have hfail : patched.1.isOk = false → saved.1.1.isOk = false → ∀ agreed : Prop,
      patched.1.isOk = saved.1.1.isOk ∧ (patched.1.isOk = true → agreed) := by
    intro hpatched hsaved agreed
    rw [hpatched, hsaved]
    exact ⟨rfl, fun h => by cases h⟩
  by_cases hopen : c.work.isOpen = true
  · rcases hrow : (updateRow rules t keyColumn key (changes.insert keyColumn.member key) []).run c
      with ⟨updated, c₂⟩
    obtain ⟨hsaved, hafter⟩ : saved.1.1 = updated ∧ saved.2 = c₂ :=
      save_run_of_updateRow ht hidentity hkey hset hrow
    obtain ⟨e, e', hpatched, hupdated⟩ |
        ⟨assignments, assignments', c₁, c₂', hsame, hrun, hrun', hexecutes, hexecutes'⟩ :=
      patch_or_updateRow hsteady ht hset hchanges hmay hperm hopen hheld
    · rw [hrow] at hupdated
      have hpatched : patched.1 = .error e := hpatched
      have hupdated : updated = .error e' := hupdated
      exact hfail (by rw [hpatched]; rfl) (by rw [hsaved, hupdated]; rfl) _
    · cases hrow.symm.trans hrun'
      have hpatched : patched = (.ok (), c₁) := hrun
      rw [hsaved, hafter, hpatched]
      exact ⟨rfl, fun _ => ⟨assignments, assignments', hsame, hexecutes, hexecutes'⟩⟩
  · exact hfail (Bool.eq_false_iff.mpr fun hok => hopen (isOpen_of_patch hchanges hok))
      (Bool.eq_false_iff.mpr fun hok => hopen (isOpen_of_save hok)) _

end

/-! ## Errands of a stage -/

/-- Errands with their cost, which is stored in hundredths, and their stage, which is named. -/
def errandTables : List Table :=
  [{ entity := "Stage", table := "stages"
     columns := [companyKey, { member := "Name", column := "name", type := .text }]
     relationships := []
     permissions := {} },
   { entity := "Errand", table := "errands"
     columns := [
       companyKey,
       { member := "Title", column := "title", type := .text },
       { member := "StageId", column := "stage_id", type := .int64
         lookup := some ⟨"Stage", "Name"⟩ },
       { member := "Cost", column := "cost", type := .int64, adapter := some (.scale 100) }]
     relationships := []
     permissions := {} }]

def errandRules : CascadeRules :=
  { catalog := ⟨errandTables, []⟩, identityInsert := false, depth := 10 }

/-- A store where the stage named todo has the key 3. -/
def stages : Ledger :=
  ⟨[("stages", .text "todo", [.int 3])]⟩

theorem stages_steady :
    Executor.Steady (· = stages) fun s => .ok (Script.keySet (stages.keys s)) where
  query h _ := h
  scalar h _ := h
  execute h _ := h
  answers h _ := by rw [h]; rfl
  affects h _ := by rw [h]; rfl

def errandChanges : Named Value :=
  [("Cost", .int 5), ("StageId", .text "todo"), ("Title", .text "Paint")]

/-- The patch of an errand, in the order of its members, and its save, in that of its columns. -/
theorem errand_agrees :
    Definition.toCatalog ⟨[], errandTables⟩ = .ok errandRules.catalog ∧
      errandRules.keyedTable "Errand" = .ok (errandTables[1], companyKey) ∧
      MayPatch errandTables[1] errandChanges ∧
      ((patch errandRules "Errand" (.int 7) errandChanges).run
        { work := { connection := stages } }).2.work.calls =
          [.query
            { sql := "SELECT t0.\"id\" AS \"__key\" FROM \"stages\" AS t0 WHERE (t0.\"name\" = ?)"
              parameters := [.text "todo"] },
          .execute
            { sql := "UPDATE \"errands\" SET \"cost\" = ?, \"stage_id\" = ?, \"title\" = ? " ++
                "WHERE \"id\" = ?"
              parameters := [.int 500, .int 3, .text "Paint", .int 7] }] ∧
      ∃ assignments assignments', assignments.Perm assignments' ∧
        Executes errandRules ({ work := { connection := stages } } : Cascade Ledger)
          (errandTables[1].patching assignments companyKey (.int 7))
          ((patch errandRules "Errand" (.int 7) errandChanges).run
            { work := { connection := stages } }).2 ∧
        Executes errandRules ({ work := { connection := stages } } : Cascade Ledger)
          (errandTables[1].change assignments' companyKey (.int 7))
          ((save errandRules (.mk "Errand" (errandChanges.insert "Id" (.int 7)) [] [])).run
            { work := { connection := stages } }).2 := by
  have hd : Definition.toCatalog ⟨[], errandTables⟩ = .ok errandRules.catalog := rfl
  have ht : errandRules.keyedTable "Errand" = .ok (errandTables[1], companyKey) := rfl
  have hmay : MayPatch errandTables[1] errandChanges := ⟨by decide, by decide⟩
  refine ⟨hd, ht, hmay, by decide +kernel, ?_⟩
  exact (patch_agrees hd stages_steady rfl ht rfl (by decide) hmay
    { work := { connection := stages } } rfl).2 (by decide +kernel)

end Cascade

end EntityMap
