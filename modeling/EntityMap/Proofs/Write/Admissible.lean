import EntityMap.Proofs.Write.Permissions
import EntityMap.Proofs.Write.Placed
import EntityMap.Proofs.Write.RowHistory

/-!
# Admissible values

Which values reach the columns of the store. The values of records, of
changes and of keys are brought into storage form, and null is checked
against the column, so what is written of them is what the column admits
(`Catalog.Admits`). The literal of a default policy is neither converted
nor checked, and an insert writes it as it is
(`Repository.values_admitted`): of an enumeration, it may write a name in
the place of an integer (`Repository.tier_by_name`).

Several members may be stored in one column, so the column does not say
for which member a value is. It is the row that says it: an operation
assigns the members that the record has values for, in the order of the
columns, and no others (`Operation.WritesRow`).
-/

namespace EntityMap

/-- An insert assigns the column also where a record has no value. -/
def DefaultPolicy.assigns : DefaultPolicy → Bool
  | .required | .literal _ => true
  | .generated | .database => false

/-! ## Values and columns -/

/-- A value is in the storage form of a column that is no lookup. -/
structure Catalog.Admits (catalog : Catalog) (c : Column) (v : Value) : Prop where
  null : v.isNull = true → c.nullable = true
  /-- A stored integer of the enumeration. -/
  enumeration : ∀ name, c.type = .enumeration name → v.isNull = false →
    ∃ e i, catalog.enumeration? name = some e ∧ i ∈ e.variants.map (·.2) ∧ v = .int i
  /-- What the adapter makes of some value. -/
  adapted : ∀ a : Adapter, c.type.isEnumeration = false → c.adapter = some a →
    ∃ w, a.toStorage w = .ok v
  /-- What the type of the column leaves as it is. -/
  coerced : c.type.isEnumeration = false → c.adapter = none → v.coerce? c.type = some v

/-- The form of a value under a type is one that the type leaves as it is. -/
theorem Value.coerce?_of_coerce? {v stored : Value} {type : DataType}
    (h : v.coerce? type = some stored) : stored.coerce? type = some stored := by
  unfold coerce? at h
  split at h
  all_goals first
    | (cases h; done)
    | (cases h; rfl)
    | (obtain ⟨_, _, rfl⟩ := Option.map_eq_some_iff.mp h; rfl)
    | (cases h; exact Value.coerce?_enumeration ..)

theorem Enumeration.exists_of_toStorage {e : Enumeration} {v stored : Value}
    (hvalue : v.isNull = false) (h : e.toStorage v = .ok stored) :
    ∃ i, i ∈ e.variants.map (·.2) ∧ stored = .int i := by
  unfold toStorage at h
  dsimp only at h
  split at h
  · cases hvalue
  · split at h
    · rename_i name i hname
      cases h
      obtain ⟨before, after, hvariants, -⟩ := List.lookup_eq_some_iff.mp hname
      refine ⟨i, ?_, rfl⟩
      rw [hvariants]
      simp
    · cases h
  · split at h
    · rename_i i hany
      cases h
      obtain ⟨⟨name, i'⟩, hmem, heq⟩ := List.any_eq_true.mp hany
      exact ⟨i, List.mem_map.mpr ⟨_, hmem, by simpa using heq⟩, rfl⟩
    · cases h
  · cases h

variable {rules : CascadeRules} {t : Table} {c : Column} {v stored : Value} {es : List Event}

theorem Catalog.admits_null (catalog : Catalog) (h : c.nullable = true) :
    catalog.Admits c .null where
  null _ := h
  enumeration _ _ hnull := by cases hnull
  adapted a _ _ := ⟨.null, by cases a <;> rfl⟩
  coerced _ _ := rfl

theorem CascadeRules.admits_of_convert (hvalue : v.isNull = false)
    (h : rules.convert t c v = .ok stored) : rules.catalog.Admits c stored := by
  have hstored := isNull_of_convert hvalue h
  unfold convert at h
  constructor
  case null =>
    intro hnull
    rw [hstored] at hnull
    cases hnull
  case enumeration =>
    intro name htype _
    rw [htype] at h
    dsimp only at h
    split at h
    · rename_i e he
      obtain ⟨i, hi, heq⟩ :=
        Enumeration.exists_of_toStorage hvalue (Except.mapError_eq_ok_iff.mp h)
      exact ⟨e, i, he, hi, heq⟩
    · cases h
  case adapted =>
    intro a htype ha
    split at h
    · rename_i name hname
      rw [hname] at htype
      cases htype
    · rw [ha] at h
      exact ⟨v, Except.mapError_eq_ok_iff.mp h⟩
  case coerced =>
    intro htype hnone
    split at h
    · rename_i name hname
      rw [hname] at htype
      cases htype
    · rw [hnone] at h
      dsimp only at h
      split at h
      · rename_i hcoerced
        cases h
        exact Value.coerce?_of_coerce? hcoerced
      · cases h

/-- The storage form of a value is admitted, null where the column may be null. -/
theorem Stored.admits (h : Stored rules t c v stored es) (hlookup : c.lookup = none)
    (hnull : stored.isNull = true → c.nullable = true) : rules.catalog.Admits c stored := by
  cases h with
  | null _ => exact rules.catalog.admits_null (hnull rfl)
  | resolved _ hsome _ => rw [hlookup] at hsome; cases hsome
  | converted hvalue _ h => exact CascadeRules.admits_of_convert hvalue h

theorem Table.nullable_of_requireValue (h : t.requireValue c v = .ok ())
    (hnull : v.isNull = true) : c.nullable = true := by
  unfold requireValue at h
  split at h
  · cases h
  · rename_i hmissing
    simpa [hnull] using hmissing

/-! ## Assignments -/

/-- An assignment to the column of a member. Unless the member is a lookup, which takes the key of
another row, it admits the value. -/
structure CascadeRules.Assigns (rules : CascadeRules) (c : Column) (a : Assignment) : Prop where
  column : a.column = c.column
  admitted : c.lookup = none → rules.catalog.Admits c a.value

namespace Column

/-- A row has a value for a member that is not null. -/
def isGiven (values aside : Named Value) (c : Column) : Bool :=
  (Cascade.memberValue? values aside c).any (!·.isNull)

/-- An insert assigns a member that the row has a value for, or that takes one by default. -/
def isInserted (values aside : Named Value) (c : Column) : Bool :=
  c.isGiven values aside || c.default.assigns

/-- A change assigns a member of which the row says what it is to be. -/
def isChanged (values aside : Named Value) (c : Column) : Bool :=
  (Cascade.memberValue? values aside c).isSome

end Column

/-- The assignment of an insert to the column of a member. A member that the row has no value for
may take the literal of its default policy. -/
def CascadeRules.Inserts (rules : CascadeRules) (values aside : Named Value) (c : Column)
    (a : Assignment) : Prop :=
  rules.Assigns c a ∨
    c.isGiven values aside = false ∧ a.column = c.column ∧ c.default = .literal a.value

/-- What a column contributes: an assignment that satisfies `P`, or none. -/
def Contributes (assigns : Bool) (P : Assignment → Prop) : Option Assignment → Prop
  | some a => assigns = true ∧ P a
  | none => assigns = false

/-- The columns that contribute assignments are assigned in their order, each once. -/
theorem Assigned.forall₂ {assigned : Column → Option Assignment → List Event → Prop}
    {assigns : Column → Bool} {P : Column → Assignment → Prop} {columns : List Column}
    {assignments : List Assignment}
    (hown : ∀ c ∈ columns, ∀ own es, assigned c own es → Contributes (assigns c) (P c) own)
    (h : Assigned assigned columns assignments es) :
    List.Forall₂ P (columns.filter assigns) assignments := by
  induction h with
  | nil => exact .nil
  | @cons c rest own assignments es es' h _ ih =>
      obtain ⟨hfirst, hothers⟩ := List.forall_mem_cons.mp hown
      have hcontributes := hfirst own es h
      cases own with
      | none =>
          rw [List.filter_cons_of_neg (by simpa [Contributes] using hcontributes)]
          exact ih hothers
      | some a =>
          rw [List.filter_cons_of_pos hcontributes.1]
          exact .cons hcontributes.2 (ih hothers)

section

variable {values values' aside : Named Value} {own : Option Assignment}

/-- A column contributes to an insert as the values of the row say, also where these are known of
the row as it is left. -/
theorem InsertAssigned.contributes
    (hsame : Cascade.memberValue? values' aside c = Cascade.memberValue? values aside c)
    (h : InsertAssigned rules t values aside c own es) :
    Contributes (c.isInserted values' aside) (rules.Inserts values' aside c) own := by
  have hgiven : c.isGiven values' aside = c.isGiven values aside := by
    rw [Column.isGiven, hsame, Column.isGiven]
  have habsent : (∀ v, Cascade.memberValue? values aside c = some v → v.isNull = true) →
      c.isGiven values aside = false := by
    intro hnull
    rw [Column.isGiven, Option.any_eq_false]
    exact fun v hv => by simp [hnull v hv]
  have hinserts : rules.Inserts values' aside c = rules.Inserts values aside c := by
    funext a
    rw [CascadeRules.Inserts, CascadeRules.Inserts, hgiven]
  rw [Column.isInserted, hgiven, hinserts]
  cases h with
  | @assigned v stored es hvalue hset hstored =>
      refine ⟨by simp [Column.isGiven, hvalue, hset], .inl ⟨rfl, fun hlookup => ?_⟩⟩
      refine hstored.admits hlookup fun hnull => ?_
      cases hstored with
      | null h => rw [hset] at h; cases h
      | resolved _ hsome _ => rw [hlookup] at hsome; cases hsome
      | converted _ _ h =>
          rw [CascadeRules.isNull_of_convert hset h] at hnull
          cases hnull
  | left hnull hdefault =>
      rw [Contributes, habsent hnull]
      rcases hdefault with hdefault | hdefault <;> rw [hdefault] <;> rfl
  | literal hnull hdefault =>
      exact ⟨by simp [hdefault, DefaultPolicy.assigns], .inr ⟨habsent hnull, rfl, hdefault⟩⟩
  | null hnull hdefault hnullable =>
      exact ⟨by simp [hdefault, DefaultPolicy.assigns],
        .inl ⟨rfl, fun _ => rules.catalog.admits_null hnullable⟩⟩

theorem UpdateAssigned.contributes
    (hsame : Cascade.memberValue? values' aside c = Cascade.memberValue? values aside c)
    (h : UpdateAssigned rules t values aside c own es) :
    Contributes (c.isChanged values' aside) (rules.Assigns c) own := by
  rw [Column.isChanged, hsame]
  cases h with
  | absent hvalue => rw [hvalue]; rfl
  | assigned hvalue hstored hrequired =>
      refine ⟨by rw [hvalue]; rfl, rfl, fun hlookup => ?_⟩
      exact hstored.admits hlookup (Table.nullable_of_requireValue hrequired)

end

theorem PatchAssigned.assigns {member : String} {a : Assignment}
    (h : PatchAssigned rules t member a) :
    ∃ c ∈ t.columns, c.member = member ∧ rules.Assigns c a := by
  cases h with
  | assigned hc hmember _ hstored hrequired =>
      exact ⟨_, hc, hmember, rfl, fun hlookup =>
        hstored.admits hlookup (Table.nullable_of_requireValue hrequired)⟩

/-! ## Operations -/

/-- An operation that writes the row of a record of an entity, whose values and what comes with it
say which members are assigned: just these, in the order of the columns. -/
inductive Operation.WritesRow (rules : CascadeRules) (entity : String)
    (values aside : Named Value) : Operation → Prop
  | inserted {t : Table} {keyColumn : Column} {assignments : List Assignment}
      (ht : rules.keyedTable entity = .ok (t, keyColumn))
      (h : List.Forall₂ (rules.Inserts values aside)
        (t.columns.filter (·.isInserted values aside)) assignments) :
      WritesRow rules entity values aside (t.insertion assignments none)
  /-- The key is not assigned, but generated. -/
  | generated {t : Table} {keyColumn : Column} {assignments : List Assignment}
      (ht : rules.keyedTable entity = .ok (t, keyColumn))
      (h : List.Forall₂ (rules.Inserts values aside)
        ((t.columns.filter (·.member ≠ keyColumn.member)).filter (·.isInserted values aside))
        assignments) :
      WritesRow rules entity values aside (t.insertion assignments (some keyColumn.column))
  | changed {t : Table} {keyColumn : Column} {assignments : List Assignment}
      (ht : rules.keyedTable entity = .ok (t, keyColumn))
      (h : List.Forall₂ rules.Assigns
        ((t.columns.filter (!·.primaryKey)).filter (·.isChanged values aside)) assignments) :
      WritesRow rules entity values aside
        (t.change assignments keyColumn (Record.valueOf values keyColumn.member))

/-- An operation that releases a stored row: it assigns null to a foreign key that may be null, or
it deletes the row and assigns nothing. -/
inductive Operation.ReleasesRow (rules : CascadeRules) : Operation → Prop
  | detached {r : Relationship} {o : Ownership} {key : Value} (ho : rules.ownership r = .ok o)
      (h : List.Forall₂ rules.Assigns [o.foreignKey] (o.detachment key).assignments) :
      ReleasesRow rules (o.detachment key)
  | deleted {entity : String} {t : Table} {keyColumn : Column} {key : Value}
      (ht : rules.keyedTable entity = .ok (t, keyColumn)) :
      ReleasesRow rules (t.deletion keyColumn key)

/-- An operation that writes the row of a record of a tree, or releases a stored row. -/
def Operation.Saves (rules : CascadeRules) (r : Record) (op : Operation) : Prop :=
  op.ReleasesRow rules ∨ ∃ (q : Record) (aside : Named Value),
    q.PlacedIn rules aside r [] ∧ op.WritesRow rules q.entity q.values aside

/-- An operation that changes the given members of a row. -/
inductive Operation.Patches (rules : CascadeRules) (entity : String) (key : Value)
    (changes : Named Value) : Operation → Prop
  | intro {t : Table} {keyColumn : Column} {assignments : List Assignment}
      (ht : rules.keyedTable entity = .ok (t, keyColumn))
      (h : List.Forall₂ (fun change a =>
        ∃ c ∈ t.columns, c.member = change.1 ∧ rules.Assigns c a) changes assignments) :
      Patches rules entity key changes (t.patching assignments keyColumn key)

/-- A detachment assigns null to a column that may be null. -/
theorem Ownership.detachment_assigns {o : Ownership} (hnullable : o.foreignKey.nullable = true)
    (key : Value) : List.Forall₂ rules.Assigns [o.foreignKey] (o.detachment key).assignments :=
  .cons ⟨rfl, fun _ => rules.catalog.admits_null hnullable⟩ .nil

theorem Event.Releases.releasesRow {e : Event} (h : e.Releases rules) {op : Operation}
    (hop : e.operation? = some op) : op.ReleasesRow rules := by
  cases h with
  | swept => cases hop
  | detached ho hnullable =>
      cases hop
      exact .detached ho (Ownership.detachment_assigns hnullable _)
  | deleted ht =>
      cases hop
      exact .deleted ht

/-! ## The row of a record -/

/-- The values of a record behind the write of its row: as before, or with its key, which is its own
if it has one. -/
inductive KeyFilled (keyColumn : Column) (values : Named Value) : Named Value → Prop
  | unwritten : KeyFilled keyColumn values values
  | written {key : Value}
      (h : (Record.valueOf values keyColumn.member).isUnset keyColumn.type = false →
        key = Record.valueOf values keyColumn.member) :
      KeyFilled keyColumn values (values.insert keyColumn.member key)

namespace KeyFilled

variable {keyColumn : Column} {values values' aside : Named Value}

/-- The other members are not touched. -/
theorem memberValue?_of_ne (h : KeyFilled keyColumn values values')
    (hne : c.member ≠ keyColumn.member) :
    Cascade.memberValue? values' aside c = Cascade.memberValue? values aside c := by
  cases h with
  | unwritten => rfl
  | written _ => rw [Cascade.memberValue?, Named.get?_insert_of_ne hne, Cascade.memberValue?]

theorem get?_eq (h : KeyFilled keyColumn values values')
    (hset : (Record.valueOf values keyColumn.member).isUnset keyColumn.type = false) :
    values'.get? keyColumn.member = values.get? keyColumn.member := by
  cases h with
  | unwritten => rfl
  | written h =>
      rw [Named.get?_insert_self, h hset]
      cases hvalue : values.get? keyColumn.member with
      | some v => rw [Record.valueOf_eq hvalue]
      | none =>
          rw [Record.valueOf, hvalue] at hset
          cases hset

/-- Where the record has a key, no member is touched. -/
theorem memberValue?_eq (h : KeyFilled keyColumn values values')
    (hset : (Record.valueOf values keyColumn.member).isUnset keyColumn.type = false) :
    Cascade.memberValue? values' aside c = Cascade.memberValue? values aside c := by
  by_cases hne : c.member = keyColumn.member
  · rw [Cascade.memberValue?, hne, h.get?_eq hset, Cascade.memberValue?, hne]
  · exact h.memberValue?_of_ne hne

end KeyFilled

section

variable {entity : String} {keyColumn : Column} {values values' aside : Named Value}
  {op : Operation} {e : Event}

theorem RowInserts.writesRow (h : RowInserts rules t keyColumn values aside e)
    (ht : rules.keyedTable entity = .ok (t, keyColumn))
    (hfilled : KeyFilled keyColumn values values') (hop : e.operation? = some op) :
    op.WritesRow rules entity values' aside := by
  cases h with
  | explicit hset h =>
      cases hop
      exact .inserted ht (h.forall₂ fun c _ own es hown =>
        hown.contributes (hfilled.memberValue?_eq hset))
  | generating _ h =>
      cases hop
      refine .generated ht (h.forall₂ fun c hc own es hown => ?_)
      have hne : c.member ≠ keyColumn.member := by simpa using (List.mem_filter.mp hc).2
      exact hown.contributes (hfilled.memberValue?_of_ne hne)

/-- A record that has a key is inserted under that key. -/
theorem RowInserted.key_eq {key : Value}
    (h : RowInserted rules t keyColumn values aside (.ok key) es)
    (hset : (Record.valueOf values keyColumn.member).isUnset keyColumn.type = false) :
    key = Record.valueOf values keyColumn.member := by
  cases h with
  | written _ h =>
      cases h with
      | inserted hkey _ _ => exact hkey
      | generated hunset _ _ _ =>
          rw [hset] at hunset
          cases hunset

theorem RowChanges.writesRow
    (h : RowChanges rules t keyColumn values aside (Record.valueOf values keyColumn.member) e)
    (ht : rules.keyedTable entity = .ok (t, keyColumn))
    (hset : (Record.valueOf values keyColumn.member).isUnset keyColumn.type = false)
    (hfilled : KeyFilled keyColumn values values') (hop : e.operation? = some op) :
    op.WritesRow rules entity values' aside := by
  cases h with
  | intro h =>
      cases hop
      have hkey : Record.valueOf values keyColumn.member =
          Record.valueOf values' keyColumn.member := by
        rw [Record.valueOf, Record.valueOf, hfilled.get?_eq hset]
      rw [hkey]
      exact .changed ht (h.forall₂ fun c _ own es hown =>
        hown.contributes (hfilled.memberValue?_eq hset))

end

namespace Cascade

open Writing

variable {σ : Type} [Executor σ]

/-- What an event executes, if it executes anything, writes the row of a record. -/
def RowOperation (rules : CascadeRules) (entity : String) (values aside : Named Value)
    (e : Event) : Prop :=
  ∀ op, e.operation? = some op → op.WritesRow rules entity values aside

theorem RowOperation.of_isAsked {entity : String} {values aside : Named Value} {e : Event}
    (h : e.IsAsked) : RowOperation rules entity values aside e :=
  h.elim fun _ _ _ _ _ hop => by cases hop

theorem writeRow_writesRow : RowsAre σ rules (RowOperation rules) := by
  intro entity t keyColumn ht values aside
  unfold writeRow
  refine Does.get_bind fun c => ?_
  split
  · refine Does.bind (insertRow_does t keyColumn values aside) ?_ fun key es h => .pure ?_
    · exact fun error es h e he => (h.forall_mem e he).elim .of_isAsked
        fun h op => h.writesRow ht .unwritten
    · rw [List.append_nil]
      exact fun e he => (h.forall_mem e he).elim .of_isAsked
        fun hinserts op => hinserts.writesRow ht (.written h.key_eq)
  · rename_i hroute
    have hset : (Record.valueOf values keyColumn.member).isUnset keyColumn.type = false := by
      rw [routesToInsert, Bool.or_eq_true, not_or, Bool.not_eq_true] at hroute
      exact hroute.1
    refine Does.bind (updateRow_does t keyColumn _ values aside) ?_ fun key es h => .pure ?_
    · exact fun error es h e he => (h.2 e he).elim .of_isAsked
        fun h op => h.writesRow ht hset .unwritten
    · rw [List.append_nil]
      exact fun e he => (h.2 e he).elim .of_isAsked
        fun hchanges op => hchanges.writesRow ht hset (.written fun _ => h.1 key rfl)

theorem patch_patches (entity : String) (key : Value) (changes : Named Value) :
    Only rules (patch rules entity key changes : Writing σ Unit)
      fun e => ∀ op, e.operation? = some op → op.Patches rules entity key changes := by
  unfold patch
  refine Only.ofExcept_bind fun ⟨t, keyColumn⟩ ht => Only.ofExcept.bind fun _ => ?_
  dsimp only
  split
  · exact .throw_bind
  · split
    · refine (Asks.mapM (fun _ => patchAssignment_asks t _ _) changes).only_bind
        (fun _ _ _ _ _ hop => by cases hop) fun assignments _ hassigned =>
          executeKeyed_only rfl rfl ?_
      intro s answer _ op hop
      cases hop
      exact .intro ht (hassigned.imp fun change a h => h.assigns)
    · exact .pure

theorem save_saves (r : Record) :
    Saving.Does rules (save rules r : Saving σ _) fun saved es =>
      ∀ e ∈ es, ∀ op, e.operation? = some op → op.Saves rules saved.2 :=
  (saveRecord_placed writeRow_writesRow { entity := r.entity } r).mono
    fun _ _ h e he op hop => (h e he).imp (·.releasesRow hop)
      fun ⟨q, aside, hplaced, hrow⟩ => ⟨q, aside, hplaced, hrow op hop⟩

theorem delete_releasesRow (r : Record) :
    Only rules (delete rules r : Writing σ Unit)
      fun e => ∀ op, e.operation? = some op → op.ReleasesRow rules :=
  (delete_releases r).mono fun _ _ h e he _ hop => (h e he).releasesRow hop

end Cascade

/-! ## Calls of a repository -/

namespace Repository

variable {σ : Type} [Executor σ] {α : Type}

/-- Between its begin and its end, a unit of work executes no other operations than these. -/
def WritesOnly (repository : Repository) (work : UnitOfWork σ) (operations : Operation → Prop) :
    Prop :=
  ∃ es, Carries repository.rules repository.settings.commandTimeoutMs es work ∧
    ∀ e ∈ es, ∀ op, e.operation? = some op → operations op

/-- The tree of a record as a save leaves it, also one that fails. -/
def left (repository : Repository) (connection : σ) (r : Record) : Record :=
  ((Cascade.save repository.rules r).run
    (repository.start (Executor.begin connection).2)).1.2

theorem transact_writesOnly (repository : Repository) (connection : σ)
    {m : Saving σ (Except WriteError α)} {operations : Operation → Prop}
    (h : ∃ es, UnitOfWork.Sends repository.rules
        (repository.start (Executor.begin connection).2).work es
        (m.run (repository.start (Executor.begin connection).2)).2.work ∧
      ∀ e ∈ es, ∀ op, e.operation? = some op → operations op) :
    repository.WritesOnly (repository.transact connection m).2 operations := by
  obtain ⟨es, hsends, hoperations⟩ := h
  rw [transact_eq]
  rcases hbegin : Executor.begin connection with ⟨source | _, start⟩
  · exact ⟨[], ⟨by simp, [], rfl, by simp⟩, by simp⟩
  · rw [hbegin] at hsends
    exact ⟨es, finish_carries hsends _, hoperations⟩

/-- Whatever is saved, deleted or changed, and whatever the connection answers: each operation
assigns just the members that the record, the relationship or the change says, one by one, and the
value of each member that is no lookup is admitted by its column, but for the literal of a default
policy, in an insert, where the row has no value for the member. -/
theorem values_admitted (repository : Repository) (connection : σ) :
    (∀ r : Record, repository.WritesOnly (repository.save connection r).2
      (·.Saves repository.rules (repository.left connection r))) ∧
    (∀ r : Record, repository.WritesOnly (repository.delete connection r).2
      (·.ReleasesRow repository.rules)) ∧
    ∀ (entity : String) (key : Value) (changes : Named Value),
      repository.WritesOnly (repository.patch connection entity key changes).2
        (·.Patches repository.rules entity key changes) := by
  refine ⟨fun r => ?_, fun r => ?_, fun entity key changes => ?_⟩
  · rw [save_eq]
    refine transact_writesOnly repository connection ?_
    rw [Saving.run_map]
    exact (Cascade.save_saves r).run _
  · exact transact_writesOnly repository connection ((Cascade.delete_releasesRow r).run _)
  · exact transact_writesOnly repository connection
      ((Cascade.patch_patches entity key changes).run _)

/-! ## Accounts of a tier -/

/-- The tier of an account, gold unless it is given. -/
def accountTier : Column :=
  { member := "Tier", column := "tier", type := .enumeration "Tier"
    default := .literal (.text "gold") }

/-- Accounts with their tiers, which are stored as integers. -/
def accounts : Definition where
  enumerations := [{ name := "Tier", variants := [("gold", 1), ("standard", 0)] }]
  tables :=
    [{ entity := "Account", table := "accounts"
       columns :=
        [{ member := "Id", column := "id", type := .int64, primaryKey := true
           default := .generated },
         { member := "Name", column := "name", type := .text },
         accountTier]
       relationships := []
       permissions := {} }]

def accountRepository : Repository :=
  { catalog := ⟨accounts.tables, accounts.enumerations⟩, settings := {}, depth := 10 }

/-- An account that is saved without a tier is inserted with the name of the default tier, where a
tier is stored as an integer. -/
theorem tier_by_name :
    accounts.toCatalog = .ok accountRepository.catalog ∧
      (accountRepository.save ({ scalars := [.ok (.int 7)] } : Script)
        (.mk "Account" [("Name", .text "North")] [] [])).2.calls =
          [.timeout 30000, .begin,
            .scalar
              { sql := "INSERT INTO \"accounts\" (\"name\", \"tier\") VALUES (?, ?) " ++
                  "RETURNING \"id\""
                parameters := [.text "North", .text "gold"] },
            .commit] ∧
      ¬accountRepository.catalog.Admits accountTier (.text "gold") := by
  refine ⟨rfl, by decide +kernel, fun hadmits => ?_⟩
  obtain ⟨_, _, -, -, htext⟩ := hadmits.enumeration "Tier" rfl rfl
  cases htext

end Repository

end EntityMap
