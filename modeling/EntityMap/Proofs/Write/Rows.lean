import EntityMap.Proofs.Write.Asking
import EntityMap.Proofs.Write.Orphans

/-!
# Rows of records

What is asked and executed for the row of a record itself: lookups are
resolved by key queries, and the row is inserted or changed. Whatever holds
of key queries and of these operations holds of all events, also when one
fails (`Cascade.insertRow_only`, `Cascade.updateRow_only`,
`Cascade.patch_only`). In particular, none of this sweeps or deletes
(`Cascade.writeRow_quiet`).
-/

namespace EntityMap

/-- From every cascade, the events of a computation neither sweep nor delete. -/
def Writing.Quiet {σ α : Type} [Executor σ] (rules : CascadeRules) (m : Writing σ α) : Prop :=
  Writing.Does rules m fun _ es => ∀ e ∈ es, e.Quiet

variable {σ : Type} [Executor σ] {α β : Type} {rules : CascadeRules}

namespace Writing.Quiet

theorem ofExcept {answer : Except WriteError α} :
    Quiet rules (Writing.ofExcept answer : Writing σ α) :=
  Only.ofExcept

theorem pure {a : α} : Quiet rules (pure a : Writing σ α) :=
  Only.pure

theorem bind {m : Writing σ α} {f : α → Writing σ β} (hm : Quiet rules m)
    (hf : ∀ a, Quiet rules (f a)) : Quiet rules (m >>= f) :=
  Only.bind hm hf

end Writing.Quiet

theorem Writing.Asks.quiet {m : Writing σ α} {P : α → List Event → Prop} (h : Asks rules m P) :
    Quiet rules m :=
  h.only fun _ _ _ _ => trivial

/-- An operation that inserts a row with the given assignments. -/
def Table.insertion (t : Table) (assignments : List Assignment) (returning : Option String) :
    Operation :=
  { kind := .insert, entity := t.entity, table := t.table, assignments, returning }

/-- An operation that changes the row of a key. -/
def Table.change (t : Table) (assignments : List Assignment) (keyColumn : Column) (key : Value) :
    Operation :=
  { kind := .update, entity := t.entity, table := t.table, assignments
    key := some ⟨keyColumn.column, key⟩ }

/-- An operation that changes some members of the row of a key. -/
def Table.patching (t : Table) (assignments : List Assignment) (keyColumn : Column) (key : Value) :
    Operation :=
  { kind := .patch, entity := t.entity, table := t.table, assignments
    key := some ⟨keyColumn.column, key⟩ }

/-- The operation that an event executes. -/
def Event.operation? : Event → Option Operation
  | .asked .. | .swept .. => none
  | .executed op _ _ | .generated op _ _ => some op

/-- A deletion of the row of a key has a statement, and so has an operation that assigns something
to it. -/
theorem Operation.exists_statement {op : Operation} {key : Assignment} (hkey : op.key = some key)
    (h : op.kind = .delete ∨ op.assignments ≠ []) : ∃ s, op.statement = .ok s := by
  have hpieces : ∃ pieces, op.pieces = .ok pieces := by
    unfold pieces
    cases hkind : op.kind with
    | insert => exact ⟨_, rfl⟩
    | delete => exact ⟨_, by rw [deletePieces, keyPieces, hkey]; rfl⟩
    | _ =>
        have hassigns : op.assignments.isEmpty = false :=
          List.isEmpty_eq_false_iff.mpr (h.resolve_left fun hdelete => by
            rw [hkind] at hdelete
            cases hdelete)
        exact ⟨_, by
          dsimp only
          rw [updatePieces, hassigns, keyPieces, hkey]
          rfl⟩
  obtain ⟨pieces, hpieces⟩ := hpieces
  exact ⟨Statement.ofPieces pieces, by rw [statement, hpieces]; rfl⟩

namespace Cascade

open Writing

/-! ## The steps of a row -/

/-- Changes the row of a key, when its assignments are made. -/
def changeRow (rules : CascadeRules) (t : Table) (keyColumn : Column) (key : Value)
    (assignments : List Assignment) : Writing σ Value := do
  if assignments.isEmpty then
    let found ← selectKeys rules t.entity (.compare keyColumn.member .eq key)
    if found.isEmpty then throw (.rowNotFound t.entity key)
  else
    executeKeyed t
      { kind := .update, entity := t.entity, table := t.table, assignments
        key := some ⟨keyColumn.column, key⟩ } key
  return key

theorem updateRow_eq (t : Table) (keyColumn : Column) (key : Value) (values aside : Named Value) :
    (updateRow rules t keyColumn key values aside : Writing σ Value) = (do
      Writing.ofExcept (t.permit .update)
      let assignments ← collectAssignments (updateAssignment rules t values aside)
        (t.columns.filter fun c => !c.primaryKey)
      changeRow rules t keyColumn key assignments) :=
  rfl

/-- Remembers the key of a row that was inserted. -/
def remember (t : Table) (key : Value) : Writing σ Value := do
  modify fun c => { c with inserted := (t.entity, key) :: c.inserted }
  return key

/-- Inserts the row of a key, when its assignments are made. -/
def addRow (t : Table) (keyColumn : Column) (key : Value) (generates : Bool)
    (assignments : List Assignment) : Writing σ Value := do
  let op : Operation :=
    { kind := .insert, entity := t.entity, table := t.table, assignments
      returning := if generates then some keyColumn.column else none }
  let statement ← Writing.ofExcept (op.statement.mapError .statement)
  let key ←
    if generates then executeGenerating t keyColumn statement
    else do
      let _ ← Writing.inWork (UnitOfWork.execute statement)
      pure key
  remember t key

theorem insertRow_eq (t : Table) (keyColumn : Column) (key : Value) (values aside : Named Value) :
    (insertRow rules t keyColumn key values aside : Writing σ Value) = (do
      Writing.ofExcept (t.permit .insert)
      let generates := key.isUnset keyColumn.type
      if generates && !keyColumn.isGenerated then throw (.missingKeyValue t.entity .insert)
      let assignments ← collectAssignments (insertAssignment rules t values aside)
        (t.columns.filter fun c => !(generates && c.member = keyColumn.member))
      addRow t keyColumn key generates assignments) :=
  rfl

/-! ## Their events -/

section

variable {Q : Event → Prop} {t : Table} {keyColumn : Column} {key : Value}

theorem executeGenerating_only {op : Operation} {s : Statement} (hs : op.statement = .ok s)
    (hQ : ∀ answer, Q (.generated op s answer)) :
    Only rules (executeGenerating t keyColumn s : Writing σ Value) Q := by
  unfold executeGenerating
  refine (Only.of_sent (scalar_does hs) hQ).bind fun generated => ?_
  split
  · exact .throw
  · exact .pure

theorem remember_only : Only rules (remember t key : Writing σ Value) Q :=
  Only.bind (Does.modify (fun _ => rfl) (by simp)) fun _ => .pure

theorem addRow_only {generates : Bool} {assignments : List Assignment}
    (hexecuted : generates = false → ∀ s answer,
      (Event.executed (t.insertion assignments none) s answer).Genuine rules →
        Q (.executed (t.insertion assignments none) s answer))
    (hgenerated : generates = true → ∀ s answer,
      (Event.generated (t.insertion assignments (some keyColumn.column)) s answer).Genuine rules →
        Q (.generated (t.insertion assignments (some keyColumn.column)) s answer)) :
    Only rules (addRow t keyColumn key generates assignments : Writing σ Value) Q := by
  unfold addRow
  refine Only.ofExcept_bind fun s hs => ?_
  have hs := Except.mapError_eq_ok_iff.mp hs
  cases generates with
  | true =>
      exact (executeGenerating_only hs fun answer => hgenerated rfl s answer hs).bind
        fun _ => remember_only
  | false =>
      refine (Only.of_sent (execute_does hs) fun answer => hexecuted rfl s answer hs).bind ?_
      exact fun _ => Only.pure.bind fun _ => remember_only

variable (hasked : ∀ entity filter s answer, Q (.asked entity filter s answer))

include hasked

theorem changeRow_only {assignments : List Assignment}
    (hchanged : ∀ s answer,
      (Event.executed (t.change assignments keyColumn key) s answer).Genuine rules →
        Q (.executed (t.change assignments keyColumn key) s answer)) :
    Only rules (changeRow rules t keyColumn key assignments : Writing σ Value) Q := by
  unfold changeRow
  split
  · refine ((selectKeys_asks _ _).only hasked).bind fun found => ?_
    split
    · exact .throw
    · exact .pure
  · exact (executeKeyed_only rfl rfl hchanged).bind fun _ => .pure

theorem updateRow_only (values aside : Named Value)
    (hchanged : ∀ assignments s answer,
      (Event.executed (t.change assignments keyColumn key) s answer).Genuine rules →
        Q (.executed (t.change assignments keyColumn key) s answer)) :
    Only rules (updateRow rules t keyColumn key values aside : Writing σ Value) Q := by
  rw [updateRow_eq]
  refine Only.ofExcept.bind fun _ => ?_
  exact (collectAssignments_asks (updateAssignment_asks t values aside) _).only_bind hasked
    fun assignments _ _ => changeRow_only hasked (hchanged assignments)

theorem insertRow_only (values aside : Named Value)
    (hexecuted : ∀ assignments s answer,
      (Event.executed (t.insertion assignments none) s answer).Genuine rules →
        Q (.executed (t.insertion assignments none) s answer))
    (hgenerated : ∀ assignments s answer,
      (Event.generated (t.insertion assignments (some keyColumn.column)) s answer).Genuine rules →
        Q (.generated (t.insertion assignments (some keyColumn.column)) s answer)) :
    Only rules (insertRow rules t keyColumn key values aside : Writing σ Value) Q := by
  rw [insertRow_eq]
  refine Only.ofExcept.bind fun _ => ?_
  dsimp only
  split
  · exact .throw_bind
  · exact (collectAssignments_asks (insertAssignment_asks t values aside) _).only_bind hasked
      fun assignments _ _ => addRow_only (fun _ => hexecuted assignments)
        fun _ => hgenerated assignments

theorem patch_only {entity : String} (changes : Named Value)
    (hpatched : ∀ t keyColumn assignments s answer, rules.keyedTable entity = .ok (t, keyColumn) →
      (Event.executed (t.patching assignments keyColumn key) s answer).Genuine rules →
        Q (.executed (t.patching assignments keyColumn key) s answer)) :
    Only rules (patch rules entity key changes : Writing σ Unit) Q := by
  unfold patch
  refine Only.ofExcept_bind fun ⟨t, keyColumn⟩ ht => Only.ofExcept.bind fun _ => ?_
  dsimp only
  split
  · exact .throw_bind
  · split
    · refine (Asks.mapM (fun _ => patchAssignment_asks t _ _) changes).only_bind hasked ?_
      exact fun assignments _ _ => executeKeyed_only rfl rfl
        fun s answer => hpatched t keyColumn assignments s answer ht
    · exact .pure

end

/-! ## Rows are quiet -/

theorem changeRow_quiet (t : Table) (keyColumn : Column) (key : Value)
    (assignments : List Assignment) :
    Quiet rules (changeRow rules t keyColumn key assignments : Writing σ Value) :=
  changeRow_only (fun _ _ _ _ => trivial) fun _ _ _ hkind => by cases hkind

theorem addRow_quiet (t : Table) (keyColumn : Column) (key : Value) (generates : Bool)
    (assignments : List Assignment) :
    Quiet rules (addRow t keyColumn key generates assignments : Writing σ Value) :=
  addRow_only (fun _ _ _ _ hkind => by cases hkind) fun _ _ _ _ => trivial

/-- Writing the row of a record neither sweeps nor deletes. -/
theorem writeRow_quiet (t : Table) (keyColumn : Column) (values aside : Named Value) :
    Quiet rules (writeRow rules t keyColumn values aside : Writing σ (Value × Bool)) := by
  unfold writeRow
  refine Does.get_bind fun c => ?_
  split
  · exact Quiet.bind (insertRow_only (fun _ _ _ _ => trivial) values aside
      (fun _ _ _ _ hkind => by cases hkind) fun _ _ _ _ => trivial) fun _ => .pure
  · exact Quiet.bind (updateRow_only (fun _ _ _ _ => trivial) values aside
      fun _ _ _ _ hkind => by cases hkind) fun _ => .pure

theorem patch_quiet (entity : String) (key : Value) (changes : Named Value) :
    Quiet rules (patch rules entity key changes : Writing σ Unit) :=
  patch_only (fun _ _ _ _ => trivial) changes fun _ _ _ _ _ _ _ hkind => by cases hkind

end Cascade

end EntityMap
