import EntityMap.Proofs.Write.Lockstep
import EntityMap.Proofs.Write.Representation

/-!
# Rows in lockstep

What a cascade does to single rows, for two rows whose keys no comparison
tells apart: they are both inserted or both changed, with assignments to
the same columns, and their keys stand for each other again
(`Cascade.writeRow_paired`). A deletion releases the same children over
each relationship, by the same statements, before the two rows go
(`Cascade.deleteRow_paired`).
-/

namespace EntityMap

variable {σ : Type} [Executor σ] {rules : CascadeRules} {held : σ → Prop}
  {same : String → Value → Value → Prop} {own : OperationKind → String → Value → Value → Prop}

/-- Two computations that write go in lockstep, on connections that are held and with keys that
stand for each other. -/
abbrev Writing.Paired {α : Type} (rules : CascadeRules) (held : σ → Prop)
    (same : String → Value → Value → Prop) (own : OperationKind → String → Value → Value → Prop)
    (m m' : Writing σ α) (R : α → α → Prop) : Prop :=
  Writing.Lockstep rules (Cascade.Twin held same) (Event.Alike same own) m m' R

namespace Cascade

open Writing

/-! ## Rows -/

theorem convert_alike (t : Table) (c : Column) {v w : Value} (hv : v.isNull = false)
    (hw : w.isNull = false) :
    StoredAlike (fun a b => a.isNull = false ∧ b.isNull = false) (rules.convert t c v)
      (rules.convert t c w) := by
  have hnull : ∀ {a b}, rules.convert t c v = .ok a → rules.convert t c w = .ok b →
      a.isNull = false ∧ b.isNull = false := fun ha hb =>
    ⟨CascadeRules.isNull_of_convert hv ha, CascadeRules.isNull_of_convert hw hb⟩
  unfold CascadeRules.convert at hnull ⊢
  split
  · split
    · exact .of_mapError (fun _ => rfl) fun a b ha hb =>
        ⟨Enumeration.isNull_of_toStorage hv ha, Enumeration.isNull_of_toStorage hw hb⟩
    · exact .error
  · rename_i htype
    split
    · exact .of_mapError (fun _ => rfl) fun a b ha hb =>
        ⟨Adapter.isNull_of_toStorage hv ha, Adapter.isNull_of_toStorage hw hb⟩
    · cases ha : v.coerce? c.type with
      | none =>
          cases w.coerce? c.type with
          | none => exact .error
          | some b => exact .left rfl
      | some a =>
          cases hb : w.coerce? c.type with
          | none => exact .right rfl
          | some b => exact .ok ⟨isNull_of_coerce? hv ha, isNull_of_coerce? hw hb⟩

theorem requireValue_eq (t : Table) (c : Column) {a b : Value} (hnull : b.isNull = a.isNull) :
    t.requireValue c b = t.requireValue c a := by
  unfold Table.requireValue
  rw [hnull]

variable (hoblivious : Executor.Oblivious σ) (h : Indistinct rules held same)

include hoblivious h

/-- A question for the rows of a key, or of a label, is answered by the same keys. -/
theorem ask_paired (entity path : String) (op : Operator) {v w : Value}
    (hnull : w.isNull = v.isNull) :
    Paired rules held same own (selectKeys rules entity (.compare path op v))
      (selectKeys rules entity (.compare path op w)) fun keys keys' => keys' = keys :=
  Lockstep.mono
    (.selectKeys hoblivious h.toClosed hnull (.asked entity (.compare path op v))
      (.asked entity (.compare path op w)) (fun _ _ => rfl) (fun _ _ => rfl) (fun _ _ hs => hs)
      (fun _ _ hs => hs) (fun _ _ => rfl) (fun _ _ => rfl) fun _ _ _ _ hsql _ => .asked hsql)
    fun _ _ hkeys => hkeys.1

theorem storageValue_paired (t : Table) (c : Column) {v w : Value} (hvw : v.Same w) :
    Paired rules held same own (storageValue rules t c v) (storageValue rules t c w)
      fun a b => b.isNull = a.isNull := by
  unfold storageValue
  rw [hvw.isNull_eq]
  split
  · exact .pure rfl
  · rename_i hv
    rw [Bool.not_eq_true] at hv
    split
    · rename_i lookup _
      unfold resolveLookup
      refine (ask_paired hoblivious h lookup.entity lookup.valueMember .eq hvw.isNull_eq).bind
        (fun keys => ?_) (fun keys => ?_) ?_
      · cases keys <;> exact Saving.Does.pure trivial
      · cases keys <;> exact Saving.Does.pure trivial
      · rintro _ keys rfl
        cases keys with
        | cons key => exact .pure rfl
        | nil => exact .throw
    · refine Lockstep.ofExcept ((convert_alike t c hv (hvw.isNull_eq.trans hv)).mono ?_)
      rintro a b ⟨ha, hb⟩
      rw [ha, hb]

theorem updateAssignment_paired (t : Table) {values values' aside aside' : Named Value}
    (hvalues : Named.Same values values') (haside : Named.Same aside aside') (c : Column) :
    Paired rules held same own (updateAssignment rules t values aside c)
      (updateAssignment rules t values' aside' c) fun a a' =>
        a'.map (·.column) = a.map (·.column) := by
  have hvalue := hvalues.memberValue? haside c
  unfold updateAssignment
  generalize memberValue? values aside c = v at hvalue ⊢
  generalize memberValue? values' aside' c = w at hvalue ⊢
  have hsends : ∀ stored : Value, Saving.Sends rules (do
      Writing.ofExcept (t.requireValue c stored)
      return some ⟨c.column, stored⟩ : Writing σ (Option Assignment)).run := fun stored =>
    (Quiet.bind Quiet.ofExcept fun _ => Quiet.pure).sends
  cases hvalue with
  | none => exact .pure rfl
  | some hvw =>
      refine (storageValue_paired hoblivious h t c hvw).bind hsends hsends fun a b hnull => ?_
      rw [requireValue_eq t c hnull]
      exact .ofExcept_bind fun _ _ => .pure rfl

theorem insertAssignment_paired (t : Table) {values values' aside aside' : Named Value}
    (hvalues : Named.Same values values') (haside : Named.Same aside aside') (c : Column) :
    Paired rules held same own (insertAssignment rules t values aside c)
      (insertAssignment rules t values' aside' c) fun a a' =>
        a'.map (·.column) = a.map (·.column) := by
  have hvalue := Value.Same.filter_isNull (hvalues.memberValue? haside c)
  unfold insertAssignment
  generalize (memberValue? values aside c).filter (fun v => !v.isNull) = v at hvalue ⊢
  generalize (memberValue? values' aside' c).filter (fun v => !v.isNull) = w at hvalue ⊢
  cases hvalue with
  | some hvw =>
      exact (storageValue_paired hoblivious h t c hvw).bind_pure fun _ _ _ => rfl
  | none =>
      dsimp only
      cases c.default with
      | required =>
          dsimp only
          split
          · exact .pure rfl
          · exact .throw
      | _ => exact .pure rfl

omit hoblivious h

/-- Columns contribute assignments to the same columns. -/
theorem collectAssignments_paired {assign assign' : Column → Writing σ (Option Assignment)}
    {assigned assigned' : Column → Option Assignment → List Event → Prop}
    (hasks : ∀ c, Asks rules (assign c) (assigned c))
    (hasks' : ∀ c, Asks rules (assign' c) (assigned' c))
    (hassign : ∀ c, Paired rules held same own (assign c) (assign' c) fun a a' =>
      a'.map (·.column) = a.map (·.column)) (columns : List Column) :
    Paired rules held same own (collectAssignments assign columns)
      (collectAssignments assign' columns) fun l l' => l'.map (·.column) = l.map (·.column) := by
  induction columns with
  | nil => exact .pure rfl
  | cons c rest ih =>
      refine (hassign c).bind
        (fun _ => ((collectAssignments_asks hasks rest).quiet.bind fun _ => Quiet.pure).sends)
        (fun _ => ((collectAssignments_asks hasks' rest).quiet.bind fun _ => Quiet.pure).sends) ?_
      intro a a' ha
      refine ih.bind_pure fun l l' hl => ?_
      rw [List.map_append, List.map_append, hl, ← Option.toList_map, ← Option.toList_map, ha]

/-- Only the own row of a record is written under two keys. -/
def Updated (same : String → Value → Value → Prop) (kind : OperationKind) (entity : String)
    (v w : Value) : Prop :=
  kind = .update ∧ same entity v w

include hoblivious h

theorem changeRow_paired {t : Table} {keyColumn : Column} {key key' : Value}
    (ht : rules.keyedTable t.entity = .ok (t, keyColumn)) (hkey : same t.entity key key')
    {l l' : List Assignment} (hl : l'.map (·.column) = l.map (·.column)) :
    Paired rules held same (Updated same) (changeRow rules t keyColumn key l)
      (changeRow rules t keyColumn key' l') fun k k' => same t.entity k k' := by
  have hempty : l'.isEmpty = l.isEmpty := by
    rw [← List.isEmpty_map (f := (·.column)), hl, List.isEmpty_map]
  have hnull : key'.isNull = key.isNull := (h.coerces ht hkey).isNull_eq
  unfold changeRow
  rw [hempty]
  split
  · have hsends : ∀ key : Value, ∀ found : List Value, Saving.Sends rules (do
        if found.isEmpty then throw (.rowNotFound t.entity key)
        return key : Writing σ Value).run := by
      intro key found
      split
      · exact Saving.Does.pure trivial
      · exact Saving.Does.pure trivial
    refine (ask_paired hoblivious h t.entity keyColumn.member .eq hnull).bind (hsends key)
      (hsends key') ?_
    rintro _ found rfl
    split
    · exact .throw
    · exact .pure hkey
  · have hop : Operation.Alike (Updated same)
        { kind := .update, entity := t.entity, table := t.table, assignments := l
          key := some ⟨keyColumn.column, key⟩ }
        { kind := .update, entity := t.entity, table := t.table, assignments := l'
          key := some ⟨keyColumn.column, key'⟩ } :=
      ⟨rfl, rfl, rfl, hl, .some ⟨rfl, .inr ⟨rfl, hkey⟩⟩, rfl⟩
    exact (Lockstep.executeKeyed hoblivious h.toClosed hop).bind_pure fun _ _ _ => hkey

theorem updateRow_paired {t : Table} {keyColumn : Column} {key key' : Value}
    (ht : rules.keyedTable t.entity = .ok (t, keyColumn)) (hkey : same t.entity key key')
    {values values' aside aside' : Named Value} (hvalues : Named.Same values values')
    (haside : Named.Same aside aside') :
    Paired rules held same (Updated same) (updateRow rules t keyColumn key values aside)
      (updateRow rules t keyColumn key' values' aside') fun k k' => same t.entity k k' := by
  rw [updateRow_eq, updateRow_eq]
  refine .ofExcept_bind fun _ _ => ?_
  refine (collectAssignments_paired (updateAssignment_asks t values aside)
    (updateAssignment_asks t values' aside')
    (updateAssignment_paired hoblivious h t hvalues haside) _).bind
    (fun l => (changeRow_quiet t keyColumn key l).sends)
    (fun l => (changeRow_quiet t keyColumn key' l).sends) ?_
  exact fun l l' hl => changeRow_paired hoblivious h ht hkey hl

omit hoblivious h

theorem remember_paired (t : Table) {key key' : Value} (hkey : same t.entity key key') :
    Paired rules held same own (remember t key) (remember t key') fun k k' =>
      same t.entity k k' := by
  have hmodify : Paired rules held same own
      (modify fun c => { c with inserted := (t.entity, key) :: c.inserted })
      (modify fun c => { c with inserted := (t.entity, key') :: c.inserted }) fun _ _ => True :=
    .modify (fun _ => rfl) (fun _ => rfl) fun c c' htwin =>
      ⟨htwin.held, htwin.connection, htwin.isOpen, .cons ⟨rfl, hkey⟩ htwin.inserted,
        htwin.schedules⟩
  exact hmodify.bind_pure fun _ _ _ => hkey

include hoblivious h

theorem executeGenerating_paired {t : Table} {keyColumn : Column} {op op' : Operation}
    {s s' : Statement} (ht : rules.keyedTable t.entity = .ok (t, keyColumn))
    (hop : op.Alike own op') (hs : op.statement = .ok s) (hs' : op'.statement = .ok s')
    (hsql : s'.sql = s.sql) :
    Paired rules held same own (executeGenerating t keyColumn s) (executeGenerating t keyColumn s')
      fun k k' => same t.entity k k' := by
  unfold executeGenerating
  have hsend : Paired rules held same own (inWork (UnitOfWork.scalar s))
      (inWork (UnitOfWork.scalar s')) fun key key' =>
        key' = key ∧ ∃ connection, held connection ∧ (Executor.scalar s connection).1 = .ok key :=
    .send (.generated op s) (.generated op' s') (fun _ => rfl) (fun _ => rfl) (fun _ => hs)
      (fun _ => hs') (fun _ => rfl) (fun _ => rfl) (hoblivious.scalar hsql)
      (fun connection hheld => h.scalar hheld s) fun _ _ => .generated hsql hop
  have hsends : ∀ key : Value, Saving.Sends rules (do
      if key.isNull then throw (.missingGeneratedKey t.entity)
      return (key.coerce? keyColumn.type).getD key : Writing σ Value).run := by
    intro key
    split
    · exact Saving.Does.pure trivial
    · exact Saving.Does.pure trivial
  refine hsend.bind hsends hsends ?_
  rintro _ key ⟨rfl, connection, hheld, hanswer⟩
  split
  · exact .throw
  · rename_i hnull
    exact .pure (h.generated ht hheld hanswer (by simpa using hnull))

theorem addRow_paired {t : Table} {keyColumn : Column} {key key' : Value} {generates : Bool}
    (ht : rules.keyedTable t.entity = .ok (t, keyColumn)) (hkey : same t.entity key key')
    {l l' : List Assignment} (hl : l'.map (·.column) = l.map (·.column)) :
    Paired rules held same own (addRow t keyColumn key generates l)
      (addRow t keyColumn key' generates l') fun k k' => same t.entity k k' := by
  unfold addRow
  have hop : Operation.Alike own
      { kind := .insert, entity := t.entity, table := t.table, assignments := l
        returning := if generates then some keyColumn.column else none }
      { kind := .insert, entity := t.entity, table := t.table, assignments := l'
        returning := if generates then some keyColumn.column else none } :=
    ⟨rfl, rfl, rfl, hl, .none, rfl⟩
  refine .mapError_bind hop.statement fun s s' hs hs' hsql => ?_
  have hsends : ∀ key, Saving.Sends rules (remember t key : Writing σ Value).run := fun key =>
    Does.mono (remember_only (Q := fun _ => True)) fun _ _ _ => trivial
  cases generates with
  | true =>
      exact (executeGenerating_paired hoblivious h ht hop hs hs' hsql).bind hsends hsends
        fun k k' hk => remember_paired t hk
  | false =>
      have hsend : Paired rules held same own (inWork (UnitOfWork.execute s))
          (inWork (UnitOfWork.execute s')) _ :=
        .send (.executed _ s) (.executed _ s') (fun _ => rfl) (fun _ => rfl) (fun _ => hs)
          (fun _ => hs') (fun _ => rfl) (fun _ => rfl) (hoblivious.execute hsql)
          (fun connection hheld => h.execute hheld s) fun _ _ => .executed hsql hop
      exact hsend.bind (fun _ => hsends key) (fun _ => hsends key') fun _ _ _ =>
        remember_paired t hkey

theorem insertRow_paired {t : Table} {keyColumn : Column} {key key' : Value}
    (ht : rules.keyedTable t.entity = .ok (t, keyColumn)) (hkey : same t.entity key key')
    {values values' aside aside' : Named Value} (hvalues : Named.Same values values')
    (haside : Named.Same aside aside') :
    Paired rules held same own (insertRow rules t keyColumn key values aside)
      (insertRow rules t keyColumn key' values' aside') fun k k' => same t.entity k k' := by
  rw [insertRow_eq, insertRow_eq]
  refine .ofExcept_bind fun _ _ => ?_
  dsimp only
  rw [h.unset ht hkey]
  split
  · exact .throw
  · refine (collectAssignments_paired (insertAssignment_asks t values aside)
      (insertAssignment_asks t values' aside')
      (insertAssignment_paired hoblivious h t hvalues haside) _).bind
      (fun l => (addRow_quiet t keyColumn key _ l).sends)
      (fun l => (addRow_quiet t keyColumn key' _ l).sends) ?_
    exact fun l l' hl => addRow_paired hoblivious h ht hkey hl

omit hoblivious h

/-- Where one key stands for one, a key was inserted when the other was. -/
theorem mem_inserted_iff {entity : String} {key key' : Value}
    {l l' : List (String × Value)}
    (hl : List.Forall₂ (fun row row' => row'.1 = row.1 ∧ same row.1 row.2 row'.2) l l')
    (hone : ∀ {entity v w v' w'}, same entity v w → same entity v' w' → (v = v' ↔ w = w'))
    (hkey : same entity key key') :
    (entity, key') ∈ l' ↔ (entity, key) ∈ l := by
  induction hl with
  | nil => simp
  | @cons row row' rest rest' hrow _ ih =>
      obtain ⟨_, v⟩ := row
      obtain ⟨entity', w⟩ := row'
      obtain ⟨rfl, hvw⟩ := hrow
      have hrow : (entity, key') = (entity', w) ↔ (entity, key) = (entity', v) := by
        rw [Prod.mk.injEq, Prod.mk.injEq]
        exact and_congr_right fun heq => (hone hkey (heq ▸ hvw)).symm
      rw [List.mem_cons, List.mem_cons, hrow, ih]

include h

/-- The same records are inserted. -/
theorem routesToInsert_eq {t : Table} {keyColumn : Column} {key key' : Value}
    (ht : rules.keyedTable t.entity = .ok (t, keyColumn)) (hkey : same t.entity key key')
    {c c' : Cascade σ} (htwin : Twin held same c c') :
    routesToInsert rules c'.inserted t keyColumn key' =
      routesToInsert rules c.inserted t keyColumn key := by
  unfold routesToInsert
  rw [h.unset ht hkey]
  cases hinserts : rules.identityInsert with
  | false => rfl
  | true =>
      have hmem := mem_inserted_iff htwin.inserted (h.inserted hinserts) hkey
      have hcontains : c'.inserted.contains (t.entity, key') =
          c.inserted.contains (t.entity, key) := by
        rw [Bool.eq_iff_iff, List.contains_iff_mem, List.contains_iff_mem]
        exact hmem
      rw [hcontains]

include hoblivious

theorem writeRow_paired {t : Table} {keyColumn : Column}
    {values values' aside aside' : Named Value}
    (ht : rules.keyedTable t.entity = .ok (t, keyColumn))
    (hkey : same t.entity (Record.valueOf values keyColumn.member)
      (Record.valueOf values' keyColumn.member))
    (hvalues : Named.Same values values') (haside : Named.Same aside aside') :
    Paired rules held same (Updated same) (writeRow rules t keyColumn values aside)
      (writeRow rules t keyColumn values' aside') fun row row' =>
        row'.2 = row.2 ∧ same t.entity row.1 row'.1 := by
  unfold writeRow
  refine .get_bind fun c c' htwin => ?_
  rw [routesToInsert_eq h ht hkey htwin]
  split
  · exact (insertRow_paired hoblivious h ht hkey hvalues haside).bind_pure fun _ _ hk => ⟨rfl, hk⟩
  · exact (updateRow_paired hoblivious h ht hkey hvalues haside).bind_pure fun _ _ hk => ⟨rfl, hk⟩

/-! ## Deletions -/

omit hoblivious h

theorem release_sends (o : Ownership) (depth : Nat) (key : Value) :
    Saving.Sends rules (release o (deleteRow rules depth) key : Writing σ Unit).run :=
  (release_halts (deleteRow_halts depth) key).mono fun _ _ _ => trivial

theorem releaseChildren_sends (depth : Nat) (t : Table) (key : Value) (r : Relationship) :
    Saving.Sends rules
      (releaseChildren rules (deleteRow rules depth) t key r : Writing σ Unit).run :=
  (releaseChildren_halts (deleteRow_halts depth) t key r).mono fun _ _ _ => trivial

theorem executeKeyed_sends {t : Table} {op : Operation} {key : Value} {keyColumn : String}
    (hentity : op.entity = t.entity) (hkey : op.key = some ⟨keyColumn, key⟩) :
    Saving.Sends rules (executeKeyed t op key : Writing σ Unit).run :=
  (executeKeyed_does op hentity hkey).mono fun _ _ _ => trivial

theorem releaseOrphansBy_sends (depth : Nat) (o : Ownership) (parentKey : Value)
    (kept : List Value) : Saving.Sends rules
      (releaseOrphansBy rules (deleteRow rules depth) o parentKey kept : Writing σ Unit).run :=
  (sweep_halts (deleteRow_halts depth) parentKey kept).mono fun _ _ _ => trivial

include hoblivious h

theorem release_paired {delete : String → Value → Writing σ Unit} {o : Ownership} {key : Value}
    (hdelete : Paired rules held same own (delete o.child.entity key) (delete o.child.entity key)
      fun _ _ => True) :
    Paired rules held same own (release o delete key) (release o delete key) fun _ _ => True := by
  unfold release
  split
  · exact hdelete
  · exact .ofExcept_bind fun _ _ => .executeKeyed hoblivious h.toClosed (.refl _)

/-- Where the same keys are kept of those that are stored, the same are released. -/
theorem releaseOrphansBy_paired {depth : Nat}
    (hdelete : ∀ entity key, Paired rules held same own (deleteRow rules depth entity key)
      (deleteRow rules depth entity key) fun _ _ => True)
    {t : Table} {r : Relationship} {o : Ownership} (ho : rules.Declares t r o)
    {parentKey parentKey' : Value} (hnull : parentKey'.isNull = parentKey.isNull)
    {kept kept' : List Value}
    (hkept : ∀ key, o.Reports rules held parentKey key → (key ∈ kept' ↔ key ∈ kept)) :
    Paired rules held same own (releaseOrphansBy rules (deleteRow rules depth) o parentKey kept)
      (releaseOrphansBy rules (deleteRow rules depth) o parentKey' kept') fun _ _ => True := by
  have hreports : ∀ {s records} {connection : σ}, held connection →
      rules.keyQuery o.child.entity (o.childrenOf parentKey) = .ok s →
      (Executor.query s connection).1 = .ok records →
      ∀ key ∈ records.storedKeys, o.Reports rules held parentKey key :=
    fun hheld hs hanswer key hkey => ⟨_, _, _, hheld, hs, hanswer, hkey⟩
  have horphans : ∀ {records : RecordSet},
      (∀ key ∈ records.storedKeys, o.Reports rules held parentKey key) →
      records.orphans kept' = records.orphans kept := by
    intro records hreports
    refine List.filter_congr fun key hkey => ?_
    have hmem := hkept key (hreports key hkey)
    rw [Bool.eq_iff_iff]
    simp [hmem]
  have hselect : Paired rules held same own
      (selectKeys rules o.child.entity (o.childrenOf parentKey))
      (selectKeys rules o.child.entity (o.childrenOf parentKey')) _ :=
    .selectKeys hoblivious h.toClosed hnull (.swept o parentKey kept) (.swept o parentKey' kept')
      (fun _ _ => rfl) (fun _ _ => rfl) (fun _ _ hs => hs) (fun _ _ hs => hs) (fun _ _ => rfl)
      (fun _ _ => rfl) fun s s' connection hs hsql hheld =>
        .swept hsql (fun records hanswer => horphans (hreports hheld hs hanswer)) (by
          intro records child key hanswer hchild hkey
          have hreports := hreports hheld hs hanswer
          obtain hkey | hkey := hkey
          · exact h.not_same_of_mem_orphans ho hreports hchild hkey
          · exact h.not_same_of_mem_orphans ho hreports (horphans hreports ▸ hchild) hkey)
  unfold releaseOrphansBy
  refine hselect.bind (fun stored => Saving.Sends.forM (release_sends o depth) _)
    (fun stored => Saving.Sends.forM (release_sends o depth) _) ?_
  rintro _ _ ⟨rfl, connection, s, records, hheld, hs, hanswer, rfl⟩
  show Paired rules held same own ((records.orphans kept).forM _) ((records.orphans kept').forM _) _
  rw [horphans (hreports hheld hs hanswer)]
  exact .forM (release_sends o depth) (release_sends o depth) fun key _ =>
    release_paired hoblivious h (hdelete _ _)

theorem releaseChildren_paired {depth : Nat}
    (hdelete : ∀ entity key, Paired rules held same own (deleteRow rules depth entity key)
      (deleteRow rules depth entity key) fun _ _ => True)
    {t : Table} {key key' : Value} (hnull : key'.isNull = key.isNull)
    (hkey : key' = key ∨ same t.entity key key') {r : Relationship} (ht : t ∈ rules.catalog.tables)
    (hr : r ∈ t.relationships.filter (·.isInverseFrom t.entity)) :
    Paired rules held same own (releaseChildren rules (deleteRow rules depth) t key r)
      (releaseChildren rules (deleteRow rules depth) t key' r) fun _ _ => True := by
  rw [releaseChildren_eq, releaseChildren_eq]
  refine .ofExcept_bind fun o howns => ?_
  obtain ⟨hr, hinverse⟩ := List.mem_filter.mp hr
  have ho : rules.Declares t r o := ⟨ht, hr, hinverse, howns⟩
  refine releaseOrphansBy_paired hoblivious h hdelete ho hnull fun child hreports => ?_
  obtain rfl | hsame := hkey
  · rfl
  · unfold Ownership.selfKey
    split
    · rename_i hentity
      rw [List.mem_singleton, List.mem_singleton, eq_comm (b := key'), eq_comm (b := key)]
      exact (h.reported ho hreports (hentity ▸ hsame)).symm
    · rfl

/-- The row of one key is deleted with the same rows as that of another one that stands for it. -/
theorem deleteRow_paired (depth : Nat) {entity : String} {key key' : Value}
    (hkey : key' = key ∨ same entity key key' ∧ own .delete entity key key') :
    Paired rules held same own (deleteRow rules depth entity key)
      (deleteRow rules depth entity key') fun _ _ => True := by
  induction depth generalizing entity key key' with
  | zero => exact .throw
  | succ depth ih =>
      rw [deleteRow_succ]
      unfold deleteBy
      refine .ofExcept_bind fun keyed ht => ?_
      obtain ⟨t, keyColumn⟩ := keyed
      obtain ⟨hentity, ht⟩ := CascadeRules.keyedTable_eq_ok ht
      subst hentity
      have hunset : key'.isUnset keyColumn.type = key.isUnset keyColumn.type := by
        obtain rfl | ⟨hsame, -⟩ := hkey
        · rfl
        · exact h.unset ht hsame
      have hnull : key'.isNull = key.isNull := by
        obtain rfl | ⟨hsame, -⟩ := hkey
        · rfl
        · exact (h.coerces ht hsame).isNull_eq
      refine .ofExcept_bind fun _ _ => ?_
      dsimp only
      rw [hunset]
      split
      · exact .throw
      · have hop : (t.deletion keyColumn key).Alike own (t.deletion keyColumn key') :=
          ⟨rfl, rfl, rfl, rfl, .some ⟨rfl, hkey.imp id And.right⟩, rfl⟩
        have hchildren : Paired rules held same own
            ((t.relationships.filter (·.isInverseFrom t.entity)).forM
              (releaseChildren rules (deleteRow rules depth) t key))
            ((t.relationships.filter (·.isInverseFrom t.entity)).forM
              (releaseChildren rules (deleteRow rules depth) t key')) fun _ _ => True :=
          .forM (releaseChildren_sends depth t key) (releaseChildren_sends depth t key') fun r hr =>
            releaseChildren_paired hoblivious h (fun _ _ => ih (.inl rfl)) hnull
              (hkey.imp id And.left) (CascadeRules.mem_of_keyedTable ht).1 hr
        exact hchildren.bind (fun _ => executeKeyed_sends rfl rfl)
          (fun _ => executeKeyed_sends rfl rfl) fun _ _ _ =>
            .executeKeyed hoblivious h.toClosed hop

end Cascade

end EntityMap
