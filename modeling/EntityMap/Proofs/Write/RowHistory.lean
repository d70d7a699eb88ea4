import EntityMap.Proofs.Write.Order

/-!
# The rows of a cascade

A run of a cascade as the rows of records that it writes one after the
other (`Leads`). Each of them is inserted or changed, as the key of the
record and the keys that the cascade remembers say; between two of them
the cascade sends what neither inserts nor changes a row, and remembers no
other keys. So the keys that it remembers are those under which rows have
been inserted since its start (`Leads.inserted_iff`).

Every save is such a run, also one that fails, and its rows are those of
its records in the order of their visit (`Cascade.saveRecord_visits`).
-/

namespace EntityMap

variable {σ α β γ δ : Type}

/-! ## What a cascade remembers -/

/-- A computation changes nothing of the keys that its cascade remembers. -/
def Writing.Keeps (m : Writing σ α) : Prop :=
  ∀ c : Cascade σ, (m.run c).2.inserted = c.inserted

namespace Writing.Keeps

theorem ofExcept {answer : Except WriteError α} : Keeps (Writing.ofExcept answer : Writing σ α) :=
  fun _ => rfl

theorem pure {a : α} : Keeps (pure a : Writing σ α) :=
  fun _ => rfl

theorem throw {e : WriteError} : Keeps (throw e : Writing σ α) :=
  fun _ => rfl

theorem throw_bind {e : WriteError} {f : α → Writing σ β} :
    Keeps (MonadExcept.throw e >>= f : Writing σ β) :=
  fun _ => rfl

theorem inWork {m : Working σ UnitOfWorkError α} : Keeps (Writing.inWork m) :=
  fun _ => rfl

theorem bind {m : Writing σ α} {f : α → Writing σ β} (hm : Keeps m) (hf : ∀ a, Keeps (f a)) :
    Keeps (m >>= f) := by
  intro c
  rw [run_bind]
  have hkept := hm c
  rcases hrun : m.run c with ⟨e | a, c₁⟩
  · rwa [hrun] at hkept
  · rw [hrun] at hkept
    exact (hf a c₁).trans hkept

theorem forM {f : α → Writing σ Unit} (hf : ∀ a, Keeps (f a)) (l : List α) : Keeps (l.forM f) := by
  induction l with
  | nil => exact pure
  | cons a rest ih => exact bind (hf a) fun _ => ih

theorem mapM {f : α → Writing σ β} (hf : ∀ a, Keeps (f a)) (l : List α) : Keeps (l.mapM f) := by
  induction l with
  | nil => exact pure
  | cons a rest ih =>
      rw [List.mapM_cons]
      exact bind (hf a) fun _ => bind ih fun _ => pure

end Writing.Keeps

/-- A computation adds the key that it answers to those that its cascade remembers, as one of an
entity. -/
def Writing.Remembers (entity : String) (m : Writing σ Value) : Prop :=
  ∀ c : Cascade σ, (m.run c).2.inserted =
    ((m.run c).1.toOption.map (entity, ·)).toList ++ c.inserted

theorem Writing.Remembers.bind {entity : String} {m : Writing σ α} {f : α → Writing σ Value}
    (hm : Keeps m) (hf : ∀ a, Remembers entity (f a)) : Remembers entity (m >>= f) := by
  intro c
  rw [run_bind]
  have hkept := hm c
  rcases hrun : m.run c with ⟨e | a, c₁⟩
  · rw [hrun] at hkept
    exact hkept
  · rw [hrun] at hkept
    have hanswer := hf a c₁
    rw [hkept] at hanswer
    exact hanswer

variable [Executor σ] {rules : CascadeRules}

namespace Cascade

open Writing

theorem selectKeys_keeps (entity : String) (filter : Filter) :
    Keeps (selectKeys rules entity filter : Writing σ (List Value)) :=
  Keeps.ofExcept.bind fun _ => Keeps.inWork.bind fun _ => .pure

theorem executeKeyed_keeps (t : Table) (op : Operation) (key : Value) :
    Keeps (executeKeyed t op key : Writing σ Unit) := by
  refine Keeps.ofExcept.bind fun _ => Keeps.inWork.bind fun affected => ?_
  split
  · exact .throw
  · exact .pure

theorem storageValue_keeps (t : Table) (c : Column) (v : Value) :
    Keeps (storageValue rules t c v : Writing σ Value) := by
  unfold storageValue
  split
  · exact .pure
  · split
    · refine (selectKeys_keeps _ _).bind fun keys => ?_
      cases keys with
      | nil => exact .throw
      | cons key _ => exact .pure
    · exact .ofExcept

omit [Executor σ] in
theorem collectAssignments_keeps {assign : Column → Writing σ (Option Assignment)}
    (h : ∀ c, Keeps (assign c)) (columns : List Column) :
    Keeps (collectAssignments assign columns) := by
  induction columns with
  | nil => exact .pure
  | cons c rest ih => exact (h c).bind fun _ => ih.bind fun _ => .pure

theorem updateAssignment_keeps (t : Table) (values aside : Named Value) (c : Column) :
    Keeps (updateAssignment rules t values aside c : Writing σ (Option Assignment)) := by
  unfold updateAssignment
  split
  · exact .pure
  · exact (storageValue_keeps t c _).bind fun _ => Keeps.ofExcept.bind fun _ => .pure

theorem insertAssignment_keeps (t : Table) (values aside : Named Value) (c : Column) :
    Keeps (insertAssignment rules t values aside c : Writing σ (Option Assignment)) := by
  unfold insertAssignment
  split
  · exact (storageValue_keeps t c _).bind fun _ => .pure
  · split
    · exact .pure
    · exact .pure
    · exact .pure
    · split
      · exact .pure
      · exact .throw

theorem updateRow_keeps (t : Table) (keyColumn : Column) (key : Value)
    (values aside : Named Value) :
    Keeps (updateRow rules t keyColumn key values aside : Writing σ Value) := by
  rw [updateRow_eq]
  refine Keeps.ofExcept.bind fun _ =>
    (collectAssignments_keeps (updateAssignment_keeps t values aside) _).bind fun assignments => ?_
  unfold changeRow
  split
  · refine (selectKeys_keeps _ _).bind fun found => ?_
    split
    · exact .throw_bind
    · exact .pure
  · exact (executeKeyed_keeps t _ key).bind fun _ => .pure

theorem executeGenerating_keeps (t : Table) (keyColumn : Column) (s : Statement) :
    Keeps (executeGenerating t keyColumn s : Writing σ Value) := by
  refine Keeps.inWork.bind fun generated => ?_
  split
  · exact .throw_bind
  · exact .pure

/-- An insert that succeeds is remembered under the key that it answers. -/
theorem insertRow_remembers (t : Table) (keyColumn : Column) (key : Value)
    (values aside : Named Value) :
    Remembers t.entity (insertRow rules t keyColumn key values aside : Writing σ Value) := by
  have hrow : ∀ generates assignments, Remembers t.entity
      (addRow t keyColumn key generates assignments : Writing σ Value) := by
    intro generates assignments
    refine Remembers.bind .ofExcept fun s => ?_
    cases generates with
    | true => exact Remembers.bind (executeGenerating_keeps t keyColumn s) fun key c => rfl
    | false => exact Remembers.bind .inWork fun _ c => rfl
  rw [insertRow_eq]
  refine Remembers.bind .ofExcept fun _ => ?_
  dsimp only
  split
  · exact fun c => rfl
  · exact Remembers.bind (collectAssignments_keeps (insertAssignment_keeps t values aside) _)
      fun assignments => hrow _ assignments

theorem release_keeps {delete : String → Value → Writing σ Unit}
    (hdelete : ∀ entity key, Keeps (delete entity key)) (o : Ownership) (key : Value) :
    Keeps (release o delete key) := by
  unfold release
  split
  · exact hdelete _ _
  · exact Keeps.ofExcept.bind fun _ => executeKeyed_keeps _ _ _

theorem deleteRow_keeps (depth : Nat) (entity : String) (key : Value) :
    Keeps (deleteRow rules depth entity key : Writing σ Unit) := by
  induction depth generalizing entity key with
  | zero => exact .throw
  | succ depth ih =>
      unfold deleteRow
      refine Keeps.ofExcept.bind fun keyed => ?_
      obtain ⟨t, keyColumn⟩ := keyed
      refine Keeps.ofExcept.bind fun _ => ?_
      dsimp only
      split
      · exact .throw_bind
      · refine (Keeps.forM (fun r => ?_) _).bind fun _ => executeKeyed_keeps _ _ _
        exact Keeps.ofExcept.bind fun o => (selectKeys_keeps _ _).bind fun _ =>
          .forM (release_keeps ih o) _

theorem delete_keeps (r : Record) : Keeps (delete rules r : Writing σ Unit) :=
  Keeps.ofExcept.bind fun _ => deleteRow_keeps _ _ _

theorem releaseOrphans_keeps (o : Ownership) (parentKey : Value) (kept : List Value) :
    Keeps (releaseOrphans rules o parentKey kept : Writing σ Unit) :=
  (selectKeys_keeps _ _).bind fun _ => .forM (release_keeps (deleteRow_keeps rules.depth) o) _

theorem patch_keeps (entity : String) (key : Value) (changes : Named Value) :
    Keeps (patch rules entity key changes : Writing σ Unit) := by
  refine Keeps.ofExcept.bind fun ⟨t, keyColumn⟩ => Keeps.ofExcept.bind fun _ => ?_
  dsimp only
  split
  · exact .throw_bind
  · split
    · refine (Keeps.mapM (fun change => ?_) changes).bind fun _ => executeKeyed_keeps _ _ _
      unfold patchAssignment
      split
      · exact .throw
      · exact (storageValue_keeps _ _ _).bind fun _ => Keeps.ofExcept.bind fun _ => .pure
    · exact .pure

end Cascade

/-! ## What an insert sends -/

/-- The insert of the row of a record, whether it succeeds or not: under the key of the record, or
with no value for the key column, which the store then generates. -/
inductive RowInserts (rules : CascadeRules) (t : Table) (keyColumn : Column)
    (values aside : Named Value) : Event → Prop
  | explicit {assignments : List Assignment} {s : Statement} {answer : Except ExecutionError Nat}
      {asked : List Event}
      (hset : (Record.valueOf values keyColumn.member).isUnset keyColumn.type = false)
      (h : Assigned (InsertAssigned rules t values aside) t.columns assignments asked) :
      RowInserts rules t keyColumn values aside
        (.executed (t.insertion assignments none) s answer)
  | generating {assignments : List Assignment} {s : Statement}
      {answer : Except ExecutionError Value} {asked : List Event}
      (hunset : (Record.valueOf values keyColumn.member).isUnset keyColumn.type = true)
      (h : Assigned (InsertAssigned rules t values aside)
        (t.columns.filter (·.member ≠ keyColumn.member)) assignments asked) :
      RowInserts rules t keyColumn values aside
        (.generated (t.insertion assignments (some keyColumn.column)) s answer)

/-- How the insert of a row ends, and what it sends: it is not sent, it succeeds, or it fails. -/
inductive RowInserted (rules : CascadeRules) (t : Table) (keyColumn : Column)
    (values aside : Named Value) : Except WriteError Value → List Event → Prop
  | unsent {error : WriteError} {asked : List Event} (hasked : ∀ e ∈ asked, e.IsAsked) :
      RowInserted rules t keyColumn values aside (.error error) asked
  | written {key : Value} {asked : List Event} {write : Event} (hasked : ∀ e ∈ asked, e.IsAsked)
      (h : RowWritten rules t keyColumn values aside key true asked write) :
      RowInserted rules t keyColumn values aside (.ok key) (asked ++ [write])
  | failed {error : WriteError} {asked : List Event} {write : Event}
      (hasked : ∀ e ∈ asked, e.IsAsked) (h : RowInserts rules t keyColumn values aside write) :
      RowInserted rules t keyColumn values aside (.error error) (asked ++ [write])

section

variable {t : Table} {keyColumn : Column} {values aside : Named Value}

theorem RowWritten.inserts {key : Value} {asked : List Event} {write : Event}
    (h : RowWritten rules t keyColumn values aside key true asked write) :
    RowInserts rules t keyColumn values aside write := by
  cases h with
  | inserted hkey hset h => exact .explicit (hkey ▸ hset) h
  | generated hunset _ _ h => exact .generating hunset h

/-- All that an insert sends asks for its values, or is the insert. -/
theorem RowInserted.forall_mem {result : Except WriteError Value} {es : List Event}
    (h : RowInserted rules t keyColumn values aside result es) :
    ∀ e ∈ es, e.IsAsked ∨ RowInserts rules t keyColumn values aside e := by
  have hsent : ∀ {asked : List Event} {write : Event}, (∀ e ∈ asked, e.IsAsked) →
      RowInserts rules t keyColumn values aside write →
        ∀ e ∈ asked ++ [write], e.IsAsked ∨ RowInserts rules t keyColumn values aside e := by
    intro asked write hasked hwrite
    exact List.forall_mem_append.mpr ⟨fun e he => .inl (hasked e he),
      List.forall_mem_singleton.mpr (.inr hwrite)⟩
  cases h with
  | unsent hasked => exact fun e he => .inl (hasked e he)
  | written hasked h => exact hsent hasked h.inserts
  | failed hasked h => exact hsent hasked h

open Writing in
theorem Cascade.addRow_does (values aside : Named Value) {generates : Bool}
    {assignments : List Assignment} {asked : List Event} (hasked : ∀ e ∈ asked, e.IsAsked)
    (hgenerates : generates =
      (Record.valueOf values keyColumn.member).isUnset keyColumn.type)
    (hgenerated : (generates && !keyColumn.isGenerated) = false)
    (hassigned : Assigned (InsertAssigned rules t values aside)
      (t.columns.filter fun c => !(generates && c.member = keyColumn.member)) assignments asked) :
    Does rules (addRow t keyColumn (Record.valueOf values keyColumn.member) generates assignments :
      Writing σ Value) fun result es =>
        RowInserted rules t keyColumn values aside result (asked ++ es) := by
  have hremember : ∀ key : Value, Does rules (remember t key : Writing σ Value) fun result es =>
      result = .ok key ∧ es = [] :=
    fun key c => ⟨[], .done c.work, rfl, rfl⟩
  unfold addRow
  refine Does.ofExcept_bind (fun _ _ => ?_) fun s hs => ?_
  · rw [List.append_nil]
    exact .unsent hasked
  have hs := Except.mapError_eq_ok_iff.mp hs
  cases generates with
  | true =>
      have hcolumns : (t.columns.filter fun c => !(true && decide (c.member = keyColumn.member))) =
          t.columns.filter (·.member ≠ keyColumn.member) := by
        simp
      rw [hcolumns] at hassigned
      refine (executeGenerating_does t keyColumn hs).bind ?_ ?_
      · intro error es h
        cases h with
        | unsent =>
            rw [List.append_nil]
            exact .unsent hasked
        | failed => exact .failed hasked (.generating hgenerates.symm hassigned)
      · intro key es h
        cases h with
        | done hnull =>
            refine (hremember _).mono ?_
            rintro result es ⟨rfl, rfl⟩
            exact .written hasked
              (.generated hgenerates.symm (by simpa using hgenerated) hnull hassigned)
  | false =>
      have hcolumns : (t.columns.filter fun c => !(false && decide (c.member = keyColumn.member))) =
          t.columns := by
        simp
      rw [hcolumns] at hassigned
      refine (execute_does hs).bind ?_ ?_
      · rintro error es (⟨-, rfl⟩ | ⟨source, -, rfl⟩)
        · rw [List.append_nil]
          exact .unsent hasked
        · exact .failed hasked (.explicit hgenerates.symm hassigned)
      · rintro n es rfl
        refine (hremember _).mono ?_
        rintro result es ⟨rfl, rfl⟩
        exact .written hasked (.inserted rfl hgenerates.symm hassigned)

open Writing in
theorem Cascade.insertRow_does (t : Table) (keyColumn : Column) (values aside : Named Value) :
    Does rules (insertRow rules t keyColumn (Record.valueOf values keyColumn.member) values aside :
      Writing σ Value) (RowInserted rules t keyColumn values aside) := by
  rw [insertRow_eq]
  refine Does.ofExcept_bind (fun _ _ => .unsent (by simp)) fun _ _ => ?_
  dsimp only
  split
  · exact Does.throw_bind (.unsent (by simp))
  · rename_i hgenerated
    rw [Bool.not_eq_true] at hgenerated
    refine Does.bind (collectAssignments_asks (insertAssignment_asks t values aside) _) ?_ ?_
    · exact fun error asked ⟨hasked, _⟩ => .unsent hasked
    · exact fun assignments asked ⟨hasked, hassigned⟩ =>
        addRow_does values aside hasked rfl hgenerated (hassigned _ rfl)

/-- The change of the row of a key, whether it succeeds or not. -/
inductive RowChanges (rules : CascadeRules) (t : Table) (keyColumn : Column)
    (values aside : Named Value) (key : Value) : Event → Prop
  | intro {assignments : List Assignment} {s : Statement} {answer : Except ExecutionError Nat}
      {asked : List Event}
      (h : Assigned (UpdateAssigned rules t values aside) (t.columns.filter (!·.primaryKey))
        assignments asked) :
      RowChanges rules t keyColumn values aside key
        (.executed (t.change assignments keyColumn key) s answer)

open Writing in
theorem Cascade.changeRow_does {t : Table} {keyColumn : Column} {key : Value}
    {assignments : List Assignment} {changes : Event → Prop}
    (h : ∀ s answer, changes (.executed (t.change assignments keyColumn key) s answer)) :
    Does rules (changeRow rules t keyColumn key assignments : Writing σ Value) fun result es =>
      (∀ answer, result = .ok answer → answer = key) ∧ ∀ e ∈ es, e.IsAsked ∨ changes e := by
  unfold changeRow
  split
  · refine Does.bind (selectKeys_asks t.entity _) ?_ ?_
    · exact fun error es ⟨hasked, _⟩ => ⟨nofun, fun e he => .inl (hasked e he)⟩
    · intro found es ⟨hasked, _⟩
      have hasked' : ∀ e ∈ es ++ [], e.IsAsked ∨ changes e := by
        rw [List.append_nil]
        exact fun e he => .inl (hasked e he)
      split
      · exact Does.throw_bind ⟨nofun, hasked'⟩
      · exact .pure ⟨fun _ h => (Except.ok.inj h).symm, hasked'⟩
  · have hown : Only rules (executeKeyed t (t.change assignments keyColumn key) key :
        Writing σ Unit) fun e => e.IsAsked ∨ changes e :=
      executeKeyed_only rfl rfl fun s answer _ => .inr (h s answer)
    refine Does.bind hown (fun _ es h => ⟨nofun, h⟩) fun _ es h => .pure ?_
    rw [List.append_nil]
    exact ⟨fun _ h => (Except.ok.inj h).symm, h⟩

open Writing in
/-- A change answers the key of the row, and all that it sends asks for the values or the row, or is
the change. -/
theorem Cascade.updateRow_does (t : Table) (keyColumn : Column) (key : Value)
    (values aside : Named Value) : Does rules
      (updateRow rules t keyColumn key values aside : Writing σ Value) fun result es =>
        (∀ answer, result = .ok answer → answer = key) ∧
          ∀ e ∈ es, e.IsAsked ∨ RowChanges rules t keyColumn values aside key e := by
  rw [updateRow_eq]
  refine Does.ofExcept_bind (fun _ _ => ⟨nofun, by simp⟩) fun _ _ => ?_
  refine Does.bind (collectAssignments_asks (updateAssignment_asks t values aside) _) ?_ ?_
  · exact fun error asked ⟨hasked, _⟩ => ⟨nofun, fun e he => .inl (hasked e he)⟩
  · intro assignments asked ⟨hasked, hassigned⟩
    have hchange : ∀ s answer, RowChanges rules t keyColumn values aside key
        (.executed (t.change assignments keyColumn key) s answer) :=
      fun _ _ => .intro (hassigned _ rfl)
    refine (changeRow_does hchange).mono fun _ _ h => ⟨h.1, ?_⟩
    exact List.forall_mem_append.mpr ⟨fun e he => .inl (hasked e he), h.2⟩

end

/-! ## The row of a record -/

/-- How a cascade writes the row of a record: whether it inserts or changes it, what it answers,
and what it sends. -/
structure RowSave where
  table : Table
  keyColumn : Column
  /-- The values of the record, with the keys of the records that it refers to. -/
  values : Named Value
  /-- The foreign key of a collection's item, if records do not have that member. -/
  aside : Named Value
  inserts : Bool
  /-- The key that the row has then. -/
  answer : Except WriteError Value
  events : List Event

namespace RowSave

/-- The key of the record. -/
def key (row : RowSave) : Value :=
  Record.valueOf row.values row.keyColumn.member

/-- The computation that writes the row. -/
def write (rules : CascadeRules) (row : RowSave) : Writing σ Value :=
  if row.inserts then
    Cascade.insertRow rules row.table row.keyColumn row.key row.values row.aside
  else Cascade.updateRow rules row.table row.keyColumn row.key row.values row.aside

/-- A row is inserted under this key of an entity: its own, or the one that is generated for it. -/
structure InsertsAs (row : RowSave) (entity : String) (key : Value) : Prop where
  inserts : row.inserts = true
  entity : row.table.entity = entity
  answer : row.answer = .ok key

/-- What is sent for a row: what is asked for its values, and its insert or its change. -/
def Sent (rules : CascadeRules) (row : RowSave) : Prop :=
  if row.inserts then
    RowInserted rules row.table row.keyColumn row.values row.aside row.answer row.events
  else
    ∀ e ∈ row.events, e.IsAsked ∨
      RowChanges rules row.table row.keyColumn row.values row.aside row.key e

/-- A row is written, from one state of a cascade to another: inserted if its key is unset, or if
keys are inserted and the cascade does not remember this one. -/
structure Runs (rules : CascadeRules) (c : Cascade σ) (row : RowSave) (c' : Cascade σ) : Prop where
  keyed : rules.keyedTable row.table.entity = .ok (row.table, row.keyColumn)
  routed : row.inserts = Cascade.routesToInsert rules c.inserted row.table row.keyColumn row.key
  run : (row.write rules).run c = (row.answer, c')
  sends : UnitOfWork.Sends rules c.work row.events c'.work
  sent : row.Sent rules

variable {row : RowSave} {c c' : Cascade σ} {entity : String} {key : Value}

/-- Behind a row the cascade remembers its key too, if the row was inserted. -/
theorem Runs.mem_inserted_iff (h : row.Runs rules c c') :
    (entity, key) ∈ c'.inserted ↔ row.InsertsAs entity key ∨ (entity, key) ∈ c.inserted := by
  have hrun := h.run
  unfold write at hrun
  split at hrun
  · rename_i hinserts
    have hremembers := @Cascade.insertRow_remembers _ _ rules row.table row.keyColumn row.key
      row.values row.aside c
    rw [hrun] at hremembers
    dsimp only at hremembers
    rw [hremembers, List.mem_append, Option.mem_toList, Option.map_eq_some_iff]
    refine or_congr_left ⟨?_, fun ⟨_, hentity, hanswer⟩ => ?_⟩
    · rintro ⟨key', hkey', heq⟩
      cases heq
      exact ⟨hinserts, rfl, Except.toOption_eq_some_iff.mp hkey'⟩
    · exact ⟨key, Except.toOption_eq_some_iff.mpr hanswer, by rw [hentity]⟩
  · rename_i hinserts
    have hkeeps := @Cascade.updateRow_keeps _ _ rules row.table row.keyColumn row.key
      row.values row.aside c
    rw [hrun] at hkeeps
    dsimp only at hkeeps
    rw [hkeeps]
    exact ⟨.inr, fun hmem => hmem.resolve_left fun hrow => hinserts hrow.inserts⟩

/-- What inserts a row among all that is sent for it is its insert. -/
theorem Sent.rowInserts (h : row.Sent rules) {e : Event} (he : e ∈ row.events) {op : Operation}
    (hop : e.operation? = some op) (hkind : op.kind = .insert) :
    row.inserts = true ∧ RowInserts rules row.table row.keyColumn row.values row.aside e := by
  have hquiet : ¬e.IsAsked := fun hasked => by
    cases e with
    | asked entity filter s answer => cases hop
    | _ => exact hasked
  unfold Sent at h
  split at h
  · rename_i hinserts
    exact ⟨hinserts, (h.forall_mem e he).resolve_left hquiet⟩
  · obtain ⟨-⟩ := (h e he).resolve_left hquiet
    cases hop
    cases hkind

end RowSave

/-! ## Runs of a cascade -/

/-- A run of a cascade: the rows of records that it writes, in their order, and all that it sends.
Between two rows it neither inserts nor changes one, and remembers no other keys. -/
inductive Leads (rules : CascadeRules) :
    Cascade σ → List RowSave → List Event → Cascade σ → Prop
  | done (c : Cascade σ) : Leads rules c [] [] c
  | row {c c' c'' : Cascade σ} {row : RowSave} {rows : List RowSave} {es : List Event}
      (hrow : row.Runs rules c c') (hrest : Leads rules c' rows es c'') :
      Leads rules c (row :: rows) (row.events ++ es) c''
  | between {c c' c'' : Cascade σ} {rows : List RowSave} {es es' : List Event}
      (hsends : UnitOfWork.Sends rules c.work es c'.work) (hquiet : ∀ e ∈ es, e.writesRow = false)
      (hkept : c'.inserted = c.inserted) (hrest : Leads rules c' rows es' c'') :
      Leads rules c rows (es ++ es') c''

namespace Leads

variable {c c' c'' : Cascade σ} {rows rows' : List RowSave} {es es' : List Event}

theorem trans (h : Leads rules c rows es c') (h' : Leads rules c' rows' es' c'') :
    Leads rules c (rows ++ rows') (es ++ es') c'' := by
  induction h with
  | done => exact h'
  | row hrow _ ih =>
      rw [List.append_assoc]
      exact .row hrow (ih h')
  | between hsends hquiet hkept _ ih =>
      rw [List.append_assoc]
      exact .between hsends hquiet hkept (ih h')

theorem sends (h : Leads rules c rows es c') : UnitOfWork.Sends rules c.work es c'.work := by
  induction h with
  | done => exact .done _
  | row hrow _ ih => exact hrow.sends.trans ih
  | between hsends _ _ _ ih => exact hsends.trans ih

/-- A cascade remembers the keys under which its rows have been inserted. -/
theorem mem_inserted_iff (h : Leads rules c rows es c') {entity : String} {key : Value} :
    (entity, key) ∈ c'.inserted ↔
      (∃ row ∈ rows, row.InsertsAs entity key) ∨ (entity, key) ∈ c.inserted := by
  induction h with
  | done => simp
  | row hrow _ ih =>
      rw [ih, hrow.mem_inserted_iff, List.exists_mem_cons_iff, or_left_comm, or_assoc]
  | between _ _ hkept _ ih => rw [ih, hkept]

/-- The run up to a row, and the row. -/
theorem exists_runs {before after : List RowSave} {row : RowSave}
    (h : Leads rules c (before ++ row :: after) es c') :
    ∃ c₁ c₂ es, Leads rules c before es c₁ ∧ row.Runs rules c₁ c₂ := by
  generalize hrows : before ++ row :: after = rows at h
  induction h generalizing before with
  | done => simp at hrows
  | @row c c₂ c' first rows es hrow hrest ih =>
      cases before with
      | nil =>
          cases hrows
          exact ⟨c, c₂, [], .done c, hrow⟩
      | cons first before =>
          cases hrows
          obtain ⟨c₁, c₂, es, hbefore, hrow'⟩ := ih rfl
          exact ⟨c₁, c₂, _, .row hrow hbefore, hrow'⟩
  | between hsends hquiet hkept _ ih =>
      obtain ⟨c₁, c₂, es, hbefore, hrow⟩ := ih hrows
      exact ⟨c₁, c₂, _, .between hsends hquiet hkept hbefore, hrow⟩

/-- What inserts or changes a row is sent for one of the rows. -/
theorem exists_row_of_writesRow (h : Leads rules c rows es c') {e : Event} (he : e ∈ es)
    (hwrites : e.writesRow = true) : ∃ row ∈ rows, row.Sent rules ∧ e ∈ row.events := by
  induction h with
  | done => cases he
  | @row _ _ _ row _ _ hrow _ ih =>
      rcases List.mem_append.mp he with he | he
      · exact ⟨row, List.mem_cons_self .., hrow.sent, he⟩
      · obtain ⟨row', hmem, h⟩ := ih he
        exact ⟨row', List.mem_cons_of_mem _ hmem, h⟩
  | between _ hquiet _ _ ih =>
      rcases List.mem_append.mp he with he | he
      · rw [hquiet e he] at hwrites
        cases hwrites
      · exact ih he

end Leads

end EntityMap
