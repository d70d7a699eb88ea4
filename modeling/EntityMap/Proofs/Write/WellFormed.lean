import EntityMap.Proofs.Write.Admissible
import EntityMap.Proofs.Write.Statements

/-!
# Well-formed writes

What can be said of every operation that a cascade executes
(`Operation.WellFormed`), where the members of an entity are stored in
distinct columns: it assigns no column twice, a change assigns something
but never the key, and an insert assigns all columns whose values are not
left to the store. Each column of a table contributes one assignment at
most (`Assigned.sublist`), each change of a patch exactly one. So
no call of a cascade fails for want of a statement, and all that it writes
is well-formed (`Cascade.writes_wellFormed`).
-/

namespace EntityMap

namespace Operation

/-- The columns that an operation assigns, in the order of its assignments. -/
def columns (op : Operation) : List String :=
  op.assignments.map (·.column)

/-- An operation that writes a row of a table as it should. -/
structure WellFormed (t : Table) (keyColumn : Column) (op : Operation) : Prop where
  entity : op.entity = t.entity
  table : op.table = t.table
  distinct : op.columns.Nodup
  keyed : op.kind ≠ .insert → ∃ key, op.key = some ⟨keyColumn.column, key⟩
  /-- A change changes something. -/
  changes : op.kind ≠ .insert → op.kind ≠ .delete → op.assignments ≠ []
  keepsKey : op.kind ≠ .insert → keyColumn.column ∉ op.columns
  /-- An insert leaves out no more than what the store gives, and the key that it asks for. -/
  complete : op.kind = .insert → ∀ c ∈ t.columns, c.default.assigns = true →
    c.column ∈ op.columns ∨ c = keyColumn ∧ op.returning = some keyColumn.column

/-- A change that has a statement changes something. -/
theorem assignments_ne_nil {op : Operation} {s : Statement} (h : op.statement = .ok s)
    (hinsert : op.kind ≠ .insert) (hdelete : op.kind ≠ .delete) : op.assignments ≠ [] := by
  intro hnil
  have hpieces : op.pieces = op.updatePieces := by
    unfold pieces
    split
    · exact absurd ‹_› hinsert
    · rfl
    · rfl
    · rfl
    · exact absurd ‹_› hdelete
  rw [statement, hpieces, updatePieces, hnil] at h
  cases h

end Operation

/-- What an event executes is well-formed. -/
def Event.WellFormed (rules : CascadeRules) (e : Event) : Prop :=
  ∀ op, e.operation? = some op → ∃ t keyColumn,
    rules.keyedTable op.entity = .ok (t, keyColumn) ∧ op.WellFormed t keyColumn

theorem Event.IsAsked.wellFormed {rules : CascadeRules} {e : Event} (h : e.IsAsked) :
    e.WellFormed rules :=
  h.elim fun _ _ _ _ _ hop => by cases hop

/-! ## Separate columns -/

/-- The members of each entity are mapped to columns of their own. -/
def Catalog.Separate (catalog : Catalog) : Prop :=
  ∀ t ∈ catalog.tables, (t.columns.map (·.column)).Nodup

namespace Catalog.Separate

variable {rules : CascadeRules} {t : Table} {keyColumn : Column} {entity : String}

/-- No other column is stored in that of the key. -/
theorem column_ne {c : Column} (h : rules.catalog.Separate)
    (ht : rules.keyedTable entity = .ok (t, keyColumn)) (hc : c ∈ t.columns)
    (hprimary : c.primaryKey = false) : c.column ≠ keyColumn.column := by
  intro heq
  have hkey := (CascadeRules.table_of_keyedTable ht).2
  have hsame := List.inj_on_of_nodup_map (h t (CascadeRules.mem_of_keyedTable ht).1) hc
    (mem_columns_of_key hkey) heq
  rw [hsame, primaryKey_of_key hkey] at hprimary
  cases hprimary

/-- Members and columns correspond to each other. -/
theorem biUnique (h : rules.catalog.Separate) (haccepted : rules.catalog.Accepted)
    (ht : t ∈ rules.catalog.tables) : Relator.BiUnique fun (member column : String) =>
      ∃ c ∈ t.columns, c.member = member ∧ c.column = column := by
  constructor
  · rintro member member' column ⟨c, hc, rfl, hcolumn⟩ ⟨c', hc', rfl, hcolumn'⟩
    rw [List.inj_on_of_nodup_map (h t ht) hc hc' (hcolumn.trans hcolumn'.symm)]
  · rintro member column column' ⟨c, hc, hmember, rfl⟩ ⟨c', hc', hmember', rfl⟩
    rw [haccepted.eq_of_member ht hc hc' (hmember.trans hmember'.symm)]

end Catalog.Separate

/-! ## Assignments -/

/-- Where columns contribute assignments of their own, they are assigned in their order. -/
theorem Assigned.sublist {assigned : Column → Option Assignment → List Event → Prop}
    (hown : ∀ c own es, assigned c own es → ∀ a ∈ own, a.column = c.column)
    {columns : List Column} {assignments : List Assignment} {es : List Event}
    (h : Assigned assigned columns assignments es) :
    (assignments.map (·.column)).Sublist (columns.map (·.column)) := by
  induction h with
  | nil => exact .slnil
  | @cons c rest own assignments es es' h _ ih =>
      cases own with
      | none => exact ih.cons c.column
      | some a =>
          have hcolumn := hown c _ _ h a rfl
          simp only [Option.toList_some, List.singleton_append, List.map_cons, hcolumn]
          exact ih.cons_cons c.column

section

variable {rules : CascadeRules} {t : Table} {keyColumn c : Column} {values aside : Named Value}
  {own : Option Assignment} {es : List Event} {assignments : List Assignment}

theorem InsertAssigned.column_eq (h : InsertAssigned rules t values aside c own es) :
    ∀ a ∈ own, a.column = c.column := by
  cases h with
  | left => exact fun a ha => by cases ha
  | _ => exact fun a ha => by cases ha; rfl

theorem UpdateAssigned.column_eq (h : UpdateAssigned rules t values aside c own es) :
    ∀ a ∈ own, a.column = c.column := by
  cases h with
  | absent => exact fun a ha => by cases ha
  | assigned => exact fun a ha => by cases ha; rfl

/-- An insert assigns a column unless its value is left to the store. -/
theorem InsertAssigned.exists_assignment (h : InsertAssigned rules t values aside c own es)
    (hdefault : c.default.assigns = true) : ∃ a ∈ own, a.column = c.column := by
  cases h with
  | left _ hleft =>
      rcases hleft with hleft | hleft <;> rw [hleft] at hdefault <;> cases hdefault
  | _ => exact ⟨_, rfl, rfl⟩

/-- An insert is well-formed if its assignments are collected from all columns but the key that it
asks for. -/
theorem Table.insertion_wellFormed (hdistinct : (t.columns.map (·.column)).Nodup)
    {columns : List Column} (hcolumns : columns.Sublist t.columns)
    (h : Assigned (InsertAssigned rules t values aside) columns assignments es)
    {returning : Option String} (hreturning : ∀ c ∈ t.columns, c ∉ columns →
      c = keyColumn ∧ returning = some keyColumn.column) :
    (t.insertion assignments returning).WellFormed t keyColumn where
  entity := rfl
  table := rfl
  distinct := ((h.sublist fun _ _ _ h => h.column_eq).trans (hcolumns.map _)).nodup hdistinct
  keyed hkind := absurd rfl hkind
  changes hkind := absurd rfl hkind
  keepsKey hkind := absurd rfl hkind
  complete _ c hc hdefault := by
    by_cases hmem : c ∈ columns
    · obtain ⟨own, es', hown, hsub⟩ := h.of_mem hmem
      obtain ⟨a, ha, hcolumn⟩ := hown.exists_assignment hdefault
      exact .inl (List.mem_map.mpr ⟨a, hsub a ha, hcolumn⟩)
    · exact .inr (hreturning c hc hmem)

end

/-! ## Operations -/

section

variable {rules : CascadeRules} {t : Table} {keyColumn : Column} {values aside : Named Value}
  {entity : String} {es : List Event} {assignments : List Assignment} {key : Value}
  (hseparate : rules.catalog.Separate) (ht : rules.keyedTable entity = .ok (t, keyColumn))

include hseparate ht

theorem RowInserts.wellFormed (haccepted : rules.catalog.Accepted) {e : Event}
    (h : RowInserts rules t keyColumn values aside e) : e.WellFormed rules := by
  have hmem := (CascadeRules.mem_of_keyedTable ht).1
  have hkey := mem_columns_of_key (CascadeRules.table_of_keyedTable ht).2
  intro op hop
  cases h with
  | explicit _ h =>
      cases hop
      refine ⟨t, keyColumn, (CascadeRules.keyedTable_eq_ok ht).2,
        Table.insertion_wellFormed (hseparate t hmem) (List.Sublist.refl _) h ?_⟩
      exact fun c hc hnot => absurd hc hnot
  | generating _ h =>
      cases hop
      refine ⟨t, keyColumn, (CascadeRules.keyedTable_eq_ok ht).2,
        Table.insertion_wellFormed (hseparate t hmem) List.filter_sublist h fun c hc hnot => ?_⟩
      have hmember : c.member = keyColumn.member := by
        by_contra hne
        exact hnot (List.mem_filter.mpr ⟨hc, by simpa using hne⟩)
      exact ⟨haccepted.eq_of_member hmem hc hkey hmember, rfl⟩

/-- The change of a row assigns columns of the row that do not belong to its key. -/
theorem Table.change_wellFormed (hsome : assignments ≠ [])
    (h : Assigned (UpdateAssigned rules t values aside) (t.columns.filter (!·.primaryKey))
      assignments es) : (t.change assignments keyColumn key).WellFormed t keyColumn := by
  have hsublist := h.sublist fun _ _ _ h => h.column_eq
  have hcolumns := hseparate t (CascadeRules.mem_of_keyedTable ht).1
  constructor
  case distinct => exact (hsublist.trans (List.filter_sublist.map _)).nodup hcolumns
  case keepsKey =>
    intro _ hmem
    obtain ⟨c, hc, hcolumn⟩ := List.mem_map.mp (hsublist.subset hmem)
    obtain ⟨hc, hprimary⟩ := List.mem_filter.mp hc
    exact hseparate.column_ne ht hc (by simpa using hprimary) hcolumn
  case keyed => exact fun _ => ⟨key, rfl⟩
  case changes => exact fun _ _ => hsome
  case complete => exact fun hkind => by cases hkind
  all_goals rfl

/-- A patch assigns the columns of its changes, which are of distinct members. -/
theorem Table.patching_wellFormed (haccepted : rules.catalog.Accepted) (hsome : assignments ≠ [])
    {changes : Named Value} (hdistinct : (changes.map (·.1)).Nodup)
    (h : List.Forall₂ (fun change a => PatchAssigned rules t change.1 a) changes assignments) :
    (t.patching assignments keyColumn key).WellFormed t keyColumn := by
  constructor
  case distinct =>
    have hcolumns : List.Forall₂ (fun member column =>
        ∃ c ∈ t.columns, c.member = member ∧ c.column = column)
          (changes.map (·.1)) (assignments.map (·.column)) := by
      refine List.forall₂_map_left_iff.mpr (List.forall₂_map_right_iff.mpr (h.imp ?_))
      rintro change a ⟨hc, hmember, -, -, -⟩
      exact ⟨_, hc, hmember, rfl⟩
    have hunique := hseparate.biUnique haccepted (CascadeRules.mem_of_keyedTable ht).1
    exact (List.rel_nodup hunique hcolumns).mp hdistinct
  case keepsKey =>
    intro _ hmem
    obtain ⟨a, ha, hcolumn⟩ := List.mem_map.mp hmem
    obtain ⟨change, -, hc, -, hprimary, -, -⟩ := exists_of_forall₂_right h ha
    exact hseparate.column_ne ht hc hprimary hcolumn
  case keyed => exact fun _ => ⟨key, rfl⟩
  case changes => exact fun _ _ => hsome
  case complete => exact fun hkind => by cases hkind
  all_goals rfl

end

/-- A deletion assigns nothing. -/
theorem Table.deletion_wellFormed {t : Table} {keyColumn : Column} {key : Value} :
    (t.deletion keyColumn key).WellFormed t keyColumn where
  entity := rfl
  table := rfl
  distinct := List.nodup_nil
  keyed _ := ⟨key, rfl⟩
  changes _ hkind := absurd rfl hkind
  keepsKey _ := List.not_mem_nil
  complete hkind := by cases hkind

section

variable {rules : CascadeRules} {d : Definition} (hd : d.toCatalog = .ok rules.catalog)
  (hseparate : rules.catalog.Separate)

include hd hseparate

/-- A foreign key that may be null is no key, so a detachment keeps the key. -/
theorem Ownership.detachment_wellFormed {r : Relationship} {o : Ownership} {key : Value}
    (ho : rules.ownership r = .ok o) (hnullable : o.foreignKey.nullable = true) :
    (o.detachment key).WellFormed o.child o.childKey := by
  have hchild := CascadeRules.keyedTable_child ho
  have hforeign := CascadeRules.foreignKey_mem ho
  have hprimary : o.foreignKey.primaryKey = false := by
    by_contra hkey
    rw [Bool.not_eq_false] at hkey
    rw [Definition.required_of_toCatalog hd _ (CascadeRules.mem_of_keyedTable hchild).1 _ hforeign
      hkey] at hnullable
    cases hnullable
  constructor
  case keepsKey =>
    intro _ hmem
    exact hseparate.column_ne hchild hforeign hprimary (List.mem_singleton.mp hmem).symm
  case distinct => exact List.nodup_singleton _
  case keyed => exact fun _ => ⟨key, rfl⟩
  case changes => exact fun _ _ => List.cons_ne_nil _ _
  case complete => exact fun hkind => by cases hkind
  all_goals rfl

theorem Event.Releases.wellFormed {e : Event} (h : e.Releases rules) : e.WellFormed rules := by
  intro op hop
  cases h with
  | swept => cases hop
  | detached ho hnullable =>
      cases hop
      exact ⟨_, _, CascadeRules.keyedTable_child ho,
        Ownership.detachment_wellFormed hd hseparate ho hnullable⟩
  | deleted ht =>
      cases hop
      exact ⟨_, _, (CascadeRules.keyedTable_eq_ok ht).2, Table.deletion_wellFormed⟩

end

/-! ## Calls of a cascade -/

section

variable {σ α : Type} [Executor σ] {rules : CascadeRules} {d : Definition}

/-- The events of a computation are well-formed, and it does not fail for want of a statement. -/
theorem Writing.Only.within {m : Writing σ α} {Q : Event → Prop} (h : Writing.Only rules m Q)
    (hstated : Writing.Stated m) : Writing.Within rules m Q (·.isStatement = false) :=
  Saving.Does.and_answers h hstated

namespace Cascade

open Writing

variable (hd : d.toCatalog = .ok rules.catalog) (hseparate : rules.catalog.Separate)

include hd hseparate

theorem writeRow_wellFormed {entity : String} {t : Table} {keyColumn : Column}
    (ht : rules.keyedTable entity = .ok (t, keyColumn)) (values aside : Named Value) :
    Only rules (writeRow rules t keyColumn values aside : Writing σ (Value × Bool))
      (·.WellFormed rules) := by
  unfold writeRow
  refine Does.get_bind fun c => ?_
  split
  · refine Only.bind ((insertRow_does t keyColumn values aside).mono fun _ _ h e he => ?_)
      fun _ => .pure
    rcases h.forall_mem e he with hasked | hinserts
    · exact hasked.wellFormed
    · exact hinserts.wellFormed hseparate ht (Definition.accepted_of_toCatalog hd)
  · rw [updateRow_eq]
    refine Only.bind (Only.ofExcept.bind fun _ => ?_) fun _ => .pure
    refine (collectAssignments_asks (updateAssignment_asks t values aside) _).only_bind
      (fun _ _ _ _ _ hop => by cases hop) fun assignments _ hassigned => ?_
    refine changeRow_only (fun _ _ _ _ _ hop => by cases hop) fun s answer hgenuine op hop => ?_
    cases hop
    have hsome : assignments ≠ [] :=
      Operation.assignments_ne_nil hgenuine (by simp [Table.change]) (by simp [Table.change])
    exact ⟨t, keyColumn, (CascadeRules.keyedTable_eq_ok ht).2,
      Table.change_wellFormed hseparate ht hsome hassigned⟩

theorem patch_wellFormed {entity : String} {key : Value} {changes : Named Value}
    (hdistinct : (changes.map (·.1)).Nodup) :
    Only rules (patch rules entity key changes : Writing σ Unit) (·.WellFormed rules) := by
  unfold patch
  refine Only.ofExcept_bind fun ⟨t, keyColumn⟩ ht => Only.ofExcept.bind fun _ => ?_
  dsimp only
  split
  · exact .throw_bind
  · split
    · refine (Asks.mapM (fun _ => patchAssignment_asks t _ _) changes).only_bind
        (fun _ _ _ _ _ hop => by cases hop) fun assignments _ hassigned => ?_
      refine executeKeyed_only rfl rfl fun s answer hgenuine op hop => ?_
      cases hop
      have hsome : assignments ≠ [] := Operation.assignments_ne_nil hgenuine (by simp) (by simp)
      exact ⟨t, keyColumn, (CascadeRules.keyedTable_eq_ok ht).2, Table.patching_wellFormed hseparate
        ht (Definition.accepted_of_toCatalog hd) hsome hdistinct hassigned⟩
    · exact .pure

theorem save_wellFormed (r : Record) : Saving.Within rules (save rules r : Saving σ _)
    (·.WellFormed rules) (·.isStatement = false) := by
  have hcovers : CoversSteps σ rules (·.WellFormed rules) (·.isStatement = false) :=
    { row := fun ht values aside => (writeRow_wellFormed hd hseparate ht values aside).within
        (writeRow_stated _ _ values aside)
      release := fun ho parentKey kept =>
        have hreleases : Only rules (releaseOrphans rules _ parentKey kept : Writing σ Unit)
            (·.WellFormed rules) := (releaseOrphans_releases ho parentKey kept).mono
          fun _ _ h e he => (h e he).wellFormed hd hseparate
        hreleases.within (releaseOrphans_stated _ parentKey kept)
      table := fun h => CascadeRules.keyedTable_expressible _ _ h
      reference := fun h => referenceOf_expressible _ _ _ h
      adoption := fun h => adopt_expressible _ _ _ _ _ _ h
      collection := fun h => collectionOf_expressible _ _ _ h }
  exact saveRecord_within hcovers { entity := r.entity } r

/-- For every accepted catalog whose members are stored in separate columns, from every cascade, and
whatever the connection answers: all that a save, a deletion or a patch of distinct members executes
is well-formed, and none of them fails for want of a statement. -/
theorem writes_wellFormed :
    (∀ r : Record, Saving.Within rules (save rules r : Saving σ _)
      (·.WellFormed rules) (·.isStatement = false)) ∧
    (∀ r : Record, Within rules (delete rules r : Writing σ Unit)
      (·.WellFormed rules) (·.isStatement = false)) ∧
    ∀ (entity : String) (key : Value) (changes : Named Value), (changes.map (·.1)).Nodup →
      Within rules (patch rules entity key changes : Writing σ Unit)
        (·.WellFormed rules) (·.isStatement = false) := by
  refine ⟨save_wellFormed hd hseparate, fun r => ?_, fun entity key changes hdistinct => ?_⟩
  · have hreleases : Only rules (delete rules r : Writing σ Unit) (·.WellFormed rules) :=
      (delete_releases r).mono fun _ _ h e he => (h e he).wellFormed hd hseparate
    exact hreleases.within (delete_stated r)
  · exact (patch_wellFormed hd hseparate hdistinct).within (patch_stated entity key changes)

end Cascade

end

/-! ## Writes of accounts -/

namespace Repository

/-- A patch of an account, of its name and its tier. -/
def accountChanges : Named Value :=
  [("Name", .text "South"), ("Tier", .text "standard")]

theorem accounts_wellFormed :
    accounts.toCatalog = .ok accountRepository.rules.catalog ∧
      accountRepository.rules.catalog.Separate ∧ (accountChanges.map (·.1)).Nodup ∧
      ((Cascade.patch accountRepository.rules "Account" (.int 7) accountChanges).run
        { work := { connection := ({} : Script) } }).2.work.calls =
          [.execute
            { sql := "UPDATE \"accounts\" SET \"name\" = ?, \"tier\" = ? WHERE \"id\" = ?"
              parameters := [.text "South", .int 0, .int 7] }] ∧
      Saving.Within accountRepository.rules
        (Cascade.save accountRepository.rules (.mk "Account" [("Name", .text "North")] [] []) :
          Saving Script _)
        (·.WellFormed accountRepository.rules) (·.isStatement = false) ∧
      Writing.Within accountRepository.rules
        (Cascade.patch accountRepository.rules "Account" (.int 7) accountChanges :
          Writing Script Unit)
        (·.WellFormed accountRepository.rules) (·.isStatement = false) := by
  have hseparate : accountRepository.rules.catalog.Separate := by
    unfold Catalog.Separate
    decide
  have hdistinct : (accountChanges.map (·.1)).Nodup := by decide
  refine ⟨rfl, hseparate, hdistinct, by decide +kernel, ?_, ?_⟩
  · exact (Cascade.writes_wellFormed (d := accounts) rfl hseparate).1 _
  · exact (Cascade.writes_wellFormed (d := accounts) rfl hseparate).2.2 _ _ _ hdistinct

end Repository

end EntityMap
