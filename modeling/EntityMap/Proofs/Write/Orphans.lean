import EntityMap.Proofs.Write.Release

/-!
# Orphaned rows

A row is orphaned when a sweep over a required foreign key is answered
its key and does not keep it (`Orphaned`). Of all that a save deletes,
`Accounts` gives the reason: what is deleted is doomed (`Doomed`), that
is, it was orphaned by the sweep of a collection or by that of a doomed
row, and all that is orphaned is deleted if the save succeeds.
-/

namespace EntityMap

/-- A sweep over a required foreign key was answered a key that it does not keep. -/
def Orphaned (es : List Event) (entity : String) (key : Value) : Prop :=
  ∃ o parentKey kept s records, Event.swept o parentKey kept s (.ok records) ∈ es ∧
    o.foreignKey.nullable = false ∧ o.child.entity = entity ∧ key ∈ records.storedKeys ∧ key ∉ kept

def Erased (rules : CascadeRules) (es : List Event) (entity : String) (key : Value) : Prop :=
  ∃ t keyColumn s n, rules.keyedTable entity = .ok (t, keyColumn) ∧ n ≠ 0 ∧
    Event.executed (t.deletion keyColumn key) s (.ok n) ∈ es

/-- Why the children of a row are swept: for the sake of a collection, or because the row is
due to be deleted, and then all but the row itself are released. -/
inductive SweepReason (rules : CascadeRules) (due : String → Value → Prop)
    (held : Ownership → Value → List Value → Prop) (o : Ownership) (parentKey : Value) :
    List Value → Prop
  | collection {kept : List Value} (h : held o parentKey kept) :
      SweepReason rules due held o parentKey kept
  | row {entity : String} {t : Table} {keyColumn : Column} {r : Relationship}
      (hdue : due entity parentKey) (ht : rules.keyedTable entity = .ok (t, keyColumn))
      (hr : r ∈ t.relationships) (hinverse : r.isInverseFrom t.entity)
      (ho : rules.ownership r = .ok o) :
      SweepReason rules due held o parentKey (o.selfKey t parentKey)

/-- The rows that some events give a reason to delete. The rows of `due` are to be deleted
already; `held` are the sweeps of collections. -/
inductive Doomed (rules : CascadeRules) (due : String → Value → Prop)
    (held : Ownership → Value → List Value → Prop) (es : List Event) : String → Value → Prop
  | due {entity : String} {key : Value} (h : due entity key) : Doomed rules due held es entity key
  /-- The row is orphaned by a collection. -/
  | orphan {o : Ownership} {parentKey key : Value} {kept : List Value} {s : Statement}
      {records : RecordSet} (hheld : held o parentKey kept)
      (hswept : Event.swept o parentKey kept s (.ok records) ∈ es)
      (hrequired : o.foreignKey.nullable = false) (hstored : key ∈ records.storedKeys)
      (hkept : key ∉ kept) : Doomed rules due held es o.child.entity key
  /-- The row points to a doomed row. -/
  | pointing {entity : String} {t : Table} {keyColumn : Column} {r : Relationship} {o : Ownership}
      {parentKey key : Value} {s : Statement} {records : RecordSet}
      (habove : Doomed rules due held es entity parentKey)
      (ht : rules.keyedTable entity = .ok (t, keyColumn)) (hr : r ∈ t.relationships)
      (hinverse : r.isInverseFrom t.entity) (ho : rules.ownership r = .ok o)
      (hswept : Event.swept o parentKey (o.selfKey t parentKey) s (.ok records) ∈ es)
      (hrequired : o.foreignKey.nullable = false) (hstored : key ∈ records.storedKeys)
      (hself : key ∉ o.selfKey t parentKey) : Doomed rules due held es o.child.entity key

/-- The deletions among some events have a reason, and if nothing failed, all that is orphaned is
deleted. -/
structure Accounts (rules : CascadeRules) (due : String → Value → Prop)
    (held : Ownership → Value → List Value → Prop) (es : List Event) (done : Bool) : Prop where
  deletions : ∀ {op s answer}, Event.executed op s answer ∈ es → op.kind = .delete →
    ∃ entity key t keyColumn, Doomed rules due held es entity key ∧
      rules.keyedTable entity = .ok (t, keyColumn) ∧ op = t.deletion keyColumn key
  complete : done = true → ∀ {entity key}, Orphaned es entity key → Erased rules es entity key

section

variable {rules : CascadeRules} {es es' : List Event} {entity : String} {key : Value}

theorem Erased.mono (h : Erased rules es entity key) (hsub : ∀ e ∈ es, e ∈ es') :
    Erased rules es' entity key := by
  obtain ⟨t, keyColumn, s, n, ht, hn, hmem⟩ := h
  exact ⟨t, keyColumn, s, n, ht, hn, hsub _ hmem⟩

theorem Orphaned.of_mem {w : List Event} (h : Orphaned w entity key)
    (hmem : ∀ e ∈ w, e ∈ es ∨ e ∈ es') : Orphaned es entity key ∨ Orphaned es' entity key := by
  obtain ⟨o, parentKey, kept, s, records, hswept, hrest⟩ := h
  rcases hmem _ hswept with hswept | hswept
  · exact .inl ⟨o, parentKey, kept, s, records, hswept, hrest⟩
  · exact .inr ⟨o, parentKey, kept, s, records, hswept, hrest⟩

theorem orphaned_singleton {o : Ownership} {parentKey : Value} {kept : List Value} {s : Statement}
    {records : RecordSet} : Orphaned [.swept o parentKey kept s (.ok records)] entity key ↔
      o.foreignKey.nullable = false ∧ o.child.entity = entity ∧ key ∈ records.storedKeys ∧
        key ∉ kept := by
  constructor
  · rintro ⟨o', parentKey', kept', s', records', hmem, hrest⟩
    cases List.mem_singleton.mp hmem
    exact hrest
  · exact fun h => ⟨o, parentKey, kept, s, records, List.mem_singleton_self _, h⟩

theorem Doomed.mono {due due' : String → Value → Prop}
    {held held' : Ownership → Value → List Value → Prop} (h : Doomed rules due held es entity key)
    (hdue : ∀ entity key, due entity key → Doomed rules due' held' es' entity key)
    (hheld : ∀ o parentKey kept, held o parentKey kept → held' o parentKey kept)
    (hsub : ∀ e ∈ es, e ∈ es') : Doomed rules due' held' es' entity key := by
  induction h with
  | due h => exact hdue _ _ h
  | orphan h hswept hrequired hstored hkept =>
      exact .orphan (hheld _ _ _ h) (hsub _ hswept) hrequired hstored hkept
  | pointing _ ht hr hinverse ho hswept hrequired hstored hself ih =>
      exact .pointing ih ht hr hinverse ho (hsub _ hswept) hrequired hstored hself

/-- What a sweep with a reason orphans is doomed. -/
theorem SweepReason.doomed {due : String → Value → Prop}
    {held : Ownership → Value → List Value → Prop} {o : Ownership} {parentKey : Value}
    {kept : List Value} {s : Statement} {records : RecordSet}
    (h : SweepReason rules due held o parentKey kept)
    (hswept : Event.swept o parentKey kept s (.ok records) ∈ es)
    (hrequired : o.foreignKey.nullable = false) (hstored : key ∈ records.storedKeys)
    (hkept : key ∉ kept) : Doomed rules due held es o.child.entity key := by
  cases h with
  | collection hheld => exact .orphan hheld hswept hrequired hstored hkept
  | row hdue ht hr hinverse ho =>
      exact .pointing (.due hdue) ht hr hinverse ho hswept hrequired hstored hkept

/-- An event that neither sweeps nor deletes. -/
def Event.Quiet : Event → Prop
  | .swept _ _ _ _ _ => False
  | .executed op _ _ => op.kind ≠ .delete
  | _ => True

theorem Keyed.quiet {op : Operation} {result : Except WriteError Unit} (hkind : op.kind ≠ .delete)
    (h : Keyed op result es) : ∀ e ∈ es, e.Quiet := by
  intro e he
  obtain ⟨s, answer, rfl⟩ := h.eq_executed he
  exact hkind

end

namespace Accounts

variable {rules : CascadeRules} {due due' : String → Value → Prop}
  {held held' : Ownership → Value → List Value → Prop} {es es' : List Event} {done : Bool}

theorem of_quiet (h : ∀ e ∈ es, e.Quiet) : Accounts rules due held es done := by
  constructor
  case deletions => exact fun hmem hkind => absurd hkind (h _ hmem)
  case complete =>
    rintro - entity key ⟨o, parentKey, kept, s, records, hmem, -⟩
    exact (h _ hmem).elim

theorem of_keyed {op : Operation} {result : Except WriteError Unit} (hkind : op.kind ≠ .delete)
    (h : Keyed op result es) : Accounts rules due held es done :=
  of_quiet (h.quiet hkind)

/-- A reason lasts when more is due and more is held. -/
theorem mono (h : Accounts rules due held es done)
    (hdue : ∀ entity key, due entity key → due' entity key)
    (hheld : ∀ o parentKey kept, held o parentKey kept → held' o parentKey kept) :
    Accounts rules due' held' es done := by
  have hdoomed : ∀ entity key, Doomed rules due held es entity key →
      Doomed rules due' held' es entity key := fun _ _ hkey =>
    hkey.mono (fun _ _ h => .due (hdue _ _ h)) hheld fun _ he => he
  constructor
  case deletions =>
    intro op s answer hmem hkind
    obtain ⟨entity, key, t, keyColumn, hkey, hop⟩ := h.deletions hmem hkind
    exact ⟨entity, key, t, keyColumn, hdoomed _ _ hkey, hop⟩
  case complete => exact h.complete

theorem mono_held (h : Accounts rules due held es done)
    (hheld : ∀ o parentKey kept, held o parentKey kept → held' o parentKey kept) :
    Accounts rules due held' es done :=
  h.mono (fun _ _ hdue => hdue) hheld

/-- A success accounts for more than a failure. -/
theorem mono_done {done' : Bool} (h : Accounts rules due held es done)
    (himp : done' = true → done = true) : Accounts rules due held es done' where
  deletions := h.deletions
  complete hdone := h.complete (himp hdone)

/-- Two parts account for what they delete together, in whatever order their events come. -/
theorem join {w : List Event} {done' : Bool} (h : Accounts rules due held es done)
    (h' : Accounts rules due held es' done') (hmem : ∀ e, e ∈ w ↔ e ∈ es ∨ e ∈ es') :
    Accounts rules due held w (done && done') := by
  have hleft : ∀ e ∈ es, e ∈ w := fun e he => (hmem e).mpr (.inl he)
  have hright : ∀ e ∈ es', e ∈ w := fun e he => (hmem e).mpr (.inr he)
  have hdoomed : ∀ {part}, (∀ e ∈ part, e ∈ w) → ∀ entity key,
      Doomed rules due held part entity key → Doomed rules due held w entity key :=
    fun hsub _ _ hkey => hkey.mono (fun _ _ => .due) (fun _ _ _ hheld => hheld) hsub
  constructor
  case deletions =>
    intro op s answer hexecuted hkind
    rcases (hmem _).mp hexecuted with hexecuted | hexecuted
    · obtain ⟨entity, key, t, keyColumn, hkey, hop⟩ := h.deletions hexecuted hkind
      exact ⟨entity, key, t, keyColumn, hdoomed hleft _ _ hkey, hop⟩
    · obtain ⟨entity, key, t, keyColumn, hkey, hop⟩ := h'.deletions hexecuted hkind
      exact ⟨entity, key, t, keyColumn, hdoomed hright _ _ hkey, hop⟩
  case complete =>
    intro hdone entity key horphaned
    obtain ⟨hdone, hdone'⟩ := Bool.and_eq_true_iff.mp hdone
    rcases horphaned.of_mem fun e he => (hmem e).mp he with horphaned | horphaned
    · exact (h.complete hdone horphaned).mono hleft
    · exact (h'.complete hdone' horphaned).mono hright

theorem append (h : Accounts rules due held es true) (h' : Accounts rules due held es' done) :
    Accounts rules due held (es ++ es') done :=
  h.join h' fun _ => List.mem_append

theorem each {α : Type} {P : α → Except WriteError Unit → List Event → Prop} {l : List α}
    {result : Except WriteError Unit} (heach : Each P l result es)
    (h : ∀ a ∈ l, ∀ result es, P a result es → Accounts rules due held es result.isOk) :
    Accounts rules due held es result.isOk := by
  induction heach with
  | nil => exact of_quiet (by simp)
  | cons ha _ ih =>
      exact (h _ (List.mem_cons_self ..) _ _ ha).append
        (ih fun a hmem => h a (List.mem_cons_of_mem _ hmem))
  | stop ha => exact h _ (List.mem_cons_self ..) _ _ ha

end Accounts

theorem Each.exists_of_mem {α : Type} {P : α → Except WriteError Unit → List Event → Prop}
    {l : List α} {result : Except WriteError Unit} {es : List Event} (h : Each P l result es)
    (hok : result.isOk = true) {a : α} (ha : a ∈ l) :
    ∃ es', P a (.ok ()) es' ∧ ∀ e ∈ es', e ∈ es := by
  induction h with
  | nil => cases ha
  | @cons b rest es es' result hb _ ih =>
      rcases List.mem_cons.mp ha with rfl | ha
      · exact ⟨es, hb, fun _ he => List.mem_append_left _ he⟩
      · obtain ⟨es'', hP, hsub⟩ := ih hok ha
        exact ⟨es'', hP, fun e he => List.mem_append_right _ (hsub e he)⟩
  | stop => cases hok

/-! ## Releases account for what they delete -/

/-- A way of deleting rows that accounts for what it deletes, the row being due. -/
structure Accountable (rules : CascadeRules)
    (gone : String → Value → Except WriteError Unit → List Event → Prop) : Prop where
  accounts : ∀ {entity key result es held}, gone entity key result es →
    Accounts rules (fun e k => e = entity ∧ k = key) held es result.isOk
  erased : ∀ {entity key es}, gone entity key (.ok ()) es → Erased rules es entity key

section

variable {rules : CascadeRules}
  {gone : String → Value → Except WriteError Unit → List Event → Prop}
  {held : Ownership → Value → List Value → Prop} {es : List Event}
  {result : Except WriteError Unit} {o : Ownership} {key : Value}

theorem Released.accounts (hgone : Accountable rules gone) (h : Released o gone key result es) :
    Accounts rules (fun e k => o.foreignKey.nullable = false ∧ e = o.child.entity ∧ k = key) held es
      result.isOk := by
  cases h with
  | detached _ _ h => exact .of_keyed (fun hkind => by cases hkind) h
  | forbidden _ _ => exact .of_quiet (by simp)
  | deleted hrequired h =>
      exact (hgone.accounts h).mono (fun _ _ ⟨he, hk⟩ => ⟨hrequired, he, hk⟩) fun _ _ _ h => h

theorem Released.erased (hgone : Accountable rules gone) (hrequired : o.foreignKey.nullable = false)
    (h : Released o gone key (.ok ()) es) : Erased rules es o.child.entity key := by
  cases h with
  | detached hnullable _ _ => rw [hrequired] at hnullable; cases hnullable
  | deleted _ h => exact hgone.erased h

end

/-- Behind an answered sweep that has a reason, the rows that it orphans are due. -/
theorem Accounts.of_swept {rules : CascadeRules} {due : String → Value → Prop}
    {held : Ownership → Value → List Value → Prop} {es : List Event} {done : Bool} {o : Ownership}
    {parentKey : Value} {kept : List Value} {s : Statement}
    {answer : Except ExecutionError RecordSet}
    (hreason : SweepReason rules due held o parentKey kept)
    (h : Accounts rules (Orphaned [.swept o parentKey kept s answer]) held es done)
    (hcomplete : done = true → ∀ {entity key},
      Orphaned [.swept o parentKey kept s answer] entity key → Erased rules es entity key) :
    Accounts rules due held (.swept o parentKey kept s answer :: es) done := by
  have hsub : ∀ e ∈ es, e ∈ .swept o parentKey kept s answer :: es :=
    fun e he => List.mem_cons_of_mem _ he
  -- What is due behind the sweep is what it orphans, and that has the reason of the sweep.
  have hdoomed : ∀ entity key,
      Doomed rules (Orphaned [.swept o parentKey kept s answer]) held es entity key →
        Doomed rules due held (.swept o parentKey kept s answer :: es) entity key := by
    refine fun entity key hkey => hkey.mono ?_ (fun _ _ _ hheld => hheld) hsub
    rintro entity key ⟨o', parentKey', kept', s', records, hmem, hrequired, rfl, hstored, hkept⟩
    cases List.mem_singleton.mp hmem
    exact hreason.doomed (List.mem_cons_self ..) hrequired hstored hkept
  constructor
  case deletions =>
    intro op s' answer' hmem hkind
    rcases List.mem_cons.mp hmem with heq | hmem
    · cases heq
    · obtain ⟨entity, key, t, keyColumn, hkey, hop⟩ := h.deletions hmem hkind
      exact ⟨entity, key, t, keyColumn, hdoomed _ _ hkey, hop⟩
  case complete =>
    intro hdone entity key hkey
    have hsplit : Orphaned [.swept o parentKey kept s answer] entity key ∨
        Orphaned es entity key := hkey.of_mem fun e he => List.mem_append.mp he
    rcases hsplit with hkey | hkey
    · exact (hcomplete hdone hkey).mono hsub
    · exact (h.complete hdone hkey).mono hsub

section

variable {rules : CascadeRules}
  {gone : String → Value → Except WriteError Unit → List Event → Prop}
  {due : String → Value → Prop} {held : Ownership → Value → List Value → Prop}
  {es : List Event} {result : Except WriteError Unit} {o : Ownership} {entity : String}
  {key parentKey : Value} {kept : List Value}

theorem Swept.accounts (hgone : Accountable rules gone)
    (hreason : SweepReason rules due held o parentKey kept)
    (h : Swept rules o gone parentKey kept result es) :
    Accounts rules due held es result.isOk := by
  cases h with
  | unwritten _ => exact .of_quiet (by simp)
  | closed => exact .of_quiet (by simp)
  | unanswered =>
      refine .of_swept hreason (.of_quiet (by simp)) ?_
      intro hok
      cases hok
  | @answered s records _ _ es hkeys heach =>
      obtain rfl := RecordSet.storedKeys_eq hkeys
      refine .of_swept hreason (.each heach ?_) ?_
      · intro key hkey result es hreleased
        obtain ⟨hstored, hkept⟩ := RecordSet.mem_orphans.mp hkey
        refine (hreleased.accounts hgone).mono ?_ fun _ _ _ hheld => hheld
        rintro e k ⟨hrequired, rfl, rfl⟩
        exact orphaned_singleton.mpr ⟨hrequired, rfl, hstored, hkept⟩
      · intro hok entity key horphaned
        obtain ⟨hrequired, rfl, hstored, hkept⟩ := orphaned_singleton.mp horphaned
        have hkey : key ∈ records.orphans kept := RecordSet.mem_orphans.mpr ⟨hstored, hkept⟩
        obtain ⟨es', hreleased, hsub⟩ := heach.exists_of_mem hok hkey
        exact (hreleased.erased hgone hrequired).mono hsub

theorem SweptOver.accounts {t : Table} {keyColumn : Column} {r : Relationship}
    (hgone : Accountable rules gone) (ht : rules.keyedTable entity = .ok (t, keyColumn))
    (hr : r ∈ t.relationships.filter (·.isInverseFrom t.entity)) (hdue : due entity key)
    (h : SweptOver rules gone t key r result es) : Accounts rules due held es result.isOk := by
  obtain ⟨hr, hinverse⟩ := List.mem_filter.mp hr
  cases h with
  | unowned _ => exact .of_quiet (by simp)
  | owned ho h => exact h.accounts hgone (.row hdue ht hr hinverse ho)

/-- A deletion sweeps below its row, and then executes the one statement that is due. -/
theorem DeletedAfter.accountable (hgone : Accountable rules gone) :
    Accountable rules (DeletedAfter rules gone) := by
  constructor
  case accounts =>
    intro entity key result es held h
    cases h with
    | unknown _ => exact .of_quiet (by simp)
    | forbidden _ _ => exact .of_quiet (by simp)
    | keyless _ _ _ => exact .of_quiet (by simp)
    | unswept ht _ _ h =>
        exact .each h fun r hr _ _ hover => hover.accounts hgone ht hr ⟨rfl, rfl⟩
    | @swept t keyColumn _ es es' ht _ _ h hown =>
        have habove : Accounts rules (fun e k => e = entity ∧ k = key) held es true :=
          .each h fun r hr _ _ hover => hover.accounts hgone ht hr ⟨rfl, rfl⟩
        refine habove.append ?_
        constructor
        case deletions =>
          intro op s answer hmem _
          obtain ⟨s', answer', heq⟩ := hown.eq_executed hmem
          cases heq
          exact ⟨entity, key, t, keyColumn, .due ⟨rfl, rfl⟩, ht, rfl⟩
        case complete =>
          rintro - entity key ⟨o, parentKey, kept, s, records, hmem, -⟩
          obtain ⟨s', answer', heq⟩ := hown.eq_executed hmem
          cases heq
  case erased =>
    intro entity key es h
    cases h with
    | @swept t keyColumn _ es es' ht _ _ _ hown =>
        cases hown with
        | @done s n hn =>
            exact ⟨t, keyColumn, s, n, ht, hn, List.mem_append_right _ (List.mem_singleton_self _)⟩

theorem Cascade.deleted_accountable (depth : Nat) : Accountable rules (Deleted rules depth) := by
  induction depth with
  | zero =>
      constructor
      case accounts =>
        rintro entity key result es held ⟨-, rfl⟩
        exact .of_quiet (by simp)
      case erased =>
        rintro entity key es ⟨hok, -⟩
        cases hok
  | succ depth ih => exact DeletedAfter.accountable ih

end

end EntityMap
