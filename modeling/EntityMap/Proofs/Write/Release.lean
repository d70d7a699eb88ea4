import EntityMap.Proofs.Write.Dialogue

/-!
# Released rows

The events by which rows are let go, and what comes of them. A released
row is detached when its foreign key may be null, and else deleted
(`Released`); a deletion first sweeps every relationship that points to
the row, and then executes one statement (`Cascade.Deleted`); a sweep is
one key query, behind which the keys that it answered and that are not
kept are released in the order of the answer (`Swept`).

Where one of these comes to no good end, there is the check that refuses
it, or the statement that fails. `Cascade.deleteRow_halts` and
`Cascade.releaseOrphans_does` say that the cascade does just this,
whatever the connection answers. `Event.Releases` is what all of these
events have in common.
-/

namespace EntityMap

/-- The events of the elements of a list, one after the other; an element that fails
ends them. -/
inductive Each {α : Type} (P : α → Except WriteError Unit → List Event → Prop) :
    List α → Except WriteError Unit → List Event → Prop
  | nil : Each P [] (.ok ()) []
  | cons {a : α} {rest : List α} {es es' : List Event} {result : Except WriteError Unit}
      (h : P a (.ok ()) es) (hrest : Each P rest result es') : Each P (a :: rest) result (es ++ es')
  | stop {a : α} {rest : List α} {es : List Event} {error : WriteError}
      (h : P a (.error error) es) : Each P (a :: rest) (.error error) es

/-- The rows that a sweep releases: those that are answered and not kept. -/
def RecordSet.orphans (records : RecordSet) (kept : List Value) : List Value :=
  records.storedKeys.filter fun key => !kept.contains key

theorem RecordSet.mem_orphans {records : RecordSet} {kept : List Value} {key : Value} :
    key ∈ records.orphans kept ↔ key ∈ records.storedKeys ∧ key ∉ kept := by
  simp [orphans]

/-- How the row of a key is released: detached if its foreign key may be null, else
deleted as `gone` says. -/
inductive Released (o : Ownership)
    (gone : String → Value → Except WriteError Unit → List Event → Prop) (key : Value) :
    Except WriteError Unit → List Event → Prop
  | detached {result : Except WriteError Unit} {es : List Event}
      (hnullable : o.foreignKey.nullable = true) (hpermit : o.child.permit .detach = .ok ())
      (h : Keyed (o.detachment key) result es) : Released o gone key result es
  | forbidden {error : WriteError} (hnullable : o.foreignKey.nullable = true)
      (hpermit : o.child.permit .detach = .error error) : Released o gone key (.error error) []
  | deleted {result : Except WriteError Unit} {es : List Event}
      (hrequired : o.foreignKey.nullable = false) (h : gone o.child.entity key result es) :
      Released o gone key result es

/-- How the children of a row are released: one key query, and then each key that is
answered and not kept, in the order of the answer. -/
inductive Swept (rules : CascadeRules) (o : Ownership)
    (gone : String → Value → Except WriteError Unit → List Event → Prop) (parentKey : Value)
    (kept : List Value) : Except WriteError Unit → List Event → Prop
  | unwritten {error : WriteError}
      (h : rules.keyQuery o.child.entity (o.childrenOf parentKey) = .error error) :
      Swept rules o gone parentKey kept (.error error) []
  | closed : Swept rules o gone parentKey kept (.error (.unitOfWork .closed)) []
  | unanswered {s : Statement} {source : ExecutionError} :
      Swept rules o gone parentKey kept (.error (.unitOfWork (.statement s.sql source)))
        [.swept o parentKey kept s (.error source)]
  | answered {s : Statement} {records : RecordSet} {keys : List Value}
      {result : Except WriteError Unit} {es : List Event}
      (hkeys : FirstSeen (records.cells keyLabel) keys)
      (h : Each (Released o gone) (keys.filter fun key => !kept.contains key) result es) :
      Swept rules o gone parentKey kept result (.swept o parentKey kept s (.ok records) :: es)

/-- A row itself, if it is among its own children. -/
def Ownership.selfKey (o : Ownership) (t : Table) (key : Value) : List Value :=
  if o.child.entity = t.entity then [key] else []

/-- The children of a row over one relationship are swept, but for the row itself. -/
inductive SweptOver (rules : CascadeRules)
    (gone : String → Value → Except WriteError Unit → List Event → Prop) (t : Table) (key : Value)
    (r : Relationship) : Except WriteError Unit → List Event → Prop
  | unowned {error : WriteError} (h : rules.ownership r = .error error) :
      SweptOver rules gone t key r (.error error) []
  | owned {o : Ownership} {result : Except WriteError Unit} {es : List Event}
      (ho : rules.ownership r = .ok o) (h : Swept rules o gone key (o.selfKey t key) result es) :
      SweptOver rules gone t key r result es

/-- How a row is deleted: the rows that point to it are swept, relationship by
relationship, and then its own statement is executed. -/
inductive DeletedAfter (rules : CascadeRules)
    (gone : String → Value → Except WriteError Unit → List Event → Prop) (entity : String)
    (key : Value) : Except WriteError Unit → List Event → Prop
  | unknown {error : WriteError} (h : rules.keyedTable entity = .error error) :
      DeletedAfter rules gone entity key (.error error) []
  | forbidden {t : Table} {keyColumn : Column} {error : WriteError}
      (ht : rules.keyedTable entity = .ok (t, keyColumn))
      (hpermit : t.permit .delete = .error error) :
      DeletedAfter rules gone entity key (.error error) []
  | keyless {t : Table} {keyColumn : Column} (ht : rules.keyedTable entity = .ok (t, keyColumn))
      (hpermit : t.permit .delete = .ok ()) (hunset : key.isUnset keyColumn.type = true) :
      DeletedAfter rules gone entity key (.error (.missingKeyValue t.entity .delete)) []
  /-- A row that points to it is not released, and its own statement is not sent. -/
  | unswept {t : Table} {keyColumn : Column} {error : WriteError} {es : List Event}
      (ht : rules.keyedTable entity = .ok (t, keyColumn)) (hpermit : t.permit .delete = .ok ())
      (hset : key.isUnset keyColumn.type = false)
      (h : Each (SweptOver rules gone t key)
        (t.relationships.filter (·.isInverseFrom t.entity)) (.error error) es) :
      DeletedAfter rules gone entity key (.error error) es
  | swept {t : Table} {keyColumn : Column} {result : Except WriteError Unit} {es es' : List Event}
      (ht : rules.keyedTable entity = .ok (t, keyColumn)) (hpermit : t.permit .delete = .ok ())
      (hset : key.isUnset keyColumn.type = false)
      (h : Each (SweptOver rules gone t key)
        (t.relationships.filter (·.isInverseFrom t.entity)) (.ok ()) es)
      (hown : Keyed (t.deletion keyColumn key) result es') :
      DeletedAfter rules gone entity key result (es ++ es')

namespace Cascade

/-- How a row is deleted with the rows below it, nested at most `depth` deep. -/
def Deleted (rules : CascadeRules) :
    Nat → String → Value → Except WriteError Unit → List Event → Prop
  | 0, entity, key, result, es => result = .error (.nestedTooDeep entity key) ∧ es = []
  | depth + 1, entity, key, result, es =>
    DeletedAfter rules (Deleted rules depth) entity key result es

variable {σ : Type} [Executor σ] {α : Type} {rules : CascadeRules}

open Writing

theorem forM_halts {l : List α} {f : α → Writing σ Unit}
    {P : α → Except WriteError Unit → List Event → Prop} (h : ∀ a, Halts rules (f a) (P a)) :
    Halts rules (l.forM f) (Each P l) := by
  induction l with
  | nil => exact Does.pure ⟨.nil, .nil⟩
  | cons a rest ih =>
      show Does rules (f a >>= fun _ => rest.forM f) _
      refine (h a).bind (fun _ _ ⟨hstop, hends⟩ => ⟨.stop hstop, hends⟩) fun _ es ⟨ha, hends⟩ => ?_
      exact ih.mono fun _ _ ⟨hrest, hends'⟩ => ⟨.cons ha hrest, hends.append hends'⟩

/-! ## Deletions below a row -/

/-- Deletes a row, and the rows below it by `delete`. -/
def deleteBy (rules : CascadeRules) (delete : String → Value → Writing σ Unit) (entity : String)
    (key : Value) : Writing σ Unit := do
  let (table, keyColumn) ← Writing.ofExcept (rules.keyedTable entity)
  Writing.ofExcept (table.permit .delete)
  if key.isUnset keyColumn.type then throw (.missingKeyValue table.entity .delete)
  (table.relationships.filter (·.isInverseFrom table.entity)).forM
    (releaseChildren rules delete table key)
  executeKeyed table (table.deletion keyColumn key) key

theorem deleteRow_succ (rules : CascadeRules) (depth : Nat) :
    (deleteRow rules (depth + 1) : String → Value → Writing σ Unit) =
      deleteBy rules (deleteRow rules depth) :=
  rfl

/-- Releases the stored children of a row that were not kept, where rows are deleted by
`delete`. -/
def releaseOrphansBy (rules : CascadeRules) (delete : String → Value → Writing σ Unit)
    (o : Ownership) (parentKey : Value) (kept : List Value) : Writing σ Unit := do
  let stored ← selectKeys rules o.child.entity (o.childrenOf parentKey)
  (stored.filter fun key => !kept.contains key).forM (release o delete)

theorem releaseChildren_eq (delete : String → Value → Writing σ Unit) (t : Table) (key : Value)
    (r : Relationship) :
    releaseChildren rules delete t key r = (do
      let o ← Writing.ofExcept (rules.ownership r)
      releaseOrphansBy rules delete o key (o.selfKey t key)) := by
  have hkept : ∀ o : Ownership, (fun child => !(o.child.entity = t.entity && child = key)) =
      fun child => !(o.selfKey t key).contains child := by
    intro o
    funext child
    by_cases hentity : o.child.entity = t.entity <;> simp [Ownership.selfKey, hentity]
  unfold releaseChildren releaseOrphansBy
  simp only [hkept]
  rfl

section

variable {delete : String → Value → Writing σ Unit}
  {gone : String → Value → Except WriteError Unit → List Event → Prop}

theorem release_halts {o : Ownership}
    (hdelete : ∀ entity key, Halts rules (delete entity key) (gone entity key)) (key : Value) :
    Halts rules (release o delete key) (Released o gone key) := by
  unfold release
  by_cases hnullable : o.foreignKey.nullable = true
  · rw [hnullable]
    refine Does.ofExcept_bind (fun _ hforbidden => ⟨.forbidden hnullable hforbidden, .nil⟩) ?_
    rintro ⟨⟩ hpermit
    exact (executeKeyed_does (o.detachment key) rfl rfl).mono
      fun _ _ h => ⟨.detached hnullable hpermit h, h.ends⟩
  · rw [Bool.not_eq_true] at hnullable
    rw [hnullable]
    exact (hdelete o.child.entity key).mono fun _ _ ⟨h, hends⟩ => ⟨.deleted hnullable h, hends⟩

theorem sweep_halts {o : Ownership}
    (hdelete : ∀ entity key, Halts rules (delete entity key) (gone entity key))
    (parentKey : Value) (kept : List Value) :
    Halts rules (releaseOrphansBy rules delete o parentKey kept)
      (Swept rules o gone parentKey kept) := by
  unfold releaseOrphansBy
  refine (selectKeys_does (.swept o parentKey kept) (fun _ _ => rfl) (fun _ _ hs => hs)
    fun _ _ => rfl).bind ?_ ?_
  · rintro error es (⟨_, hquery, herror, rfl⟩ | ⟨s, -, ⟨rfl, rfl⟩ | ⟨source, rfl, rfl⟩⟩)
    · cases herror
      exact ⟨.unwritten hquery, .nil⟩
    · exact ⟨.closed, .nil⟩
    · exact ⟨.unanswered, .failed rfl⟩
  · rintro keys es (⟨_, -, h, -⟩ | ⟨s, -, records, rfl, rfl⟩)
    · cases h
    · refine (forM_halts (release_halts hdelete)).mono fun _ _ ⟨h, hends⟩ =>
        ⟨.answered records.firstSeen_storedKeys h, ?_⟩
      exact Ends.append (a := ()) (List.forall_mem_singleton.mpr rfl) hends

theorem releaseChildren_halts
    (hdelete : ∀ entity key, Halts rules (delete entity key) (gone entity key)) (t : Table)
    (key : Value) (r : Relationship) :
    Halts rules (releaseChildren rules delete t key r) (SweptOver rules gone t key r) := by
  rw [releaseChildren_eq]
  refine Does.ofExcept_bind (fun _ hunowned => ⟨.unowned hunowned, .nil⟩) fun o ho => ?_
  exact (sweep_halts hdelete key (o.selfKey t key)).mono fun _ _ ⟨h, hends⟩ => ⟨.owned ho h, hends⟩

theorem deleteBy_halts
    (hdelete : ∀ entity key, Halts rules (delete entity key) (gone entity key)) (entity : String)
    (key : Value) :
    Halts rules (deleteBy rules delete entity key) (DeletedAfter rules gone entity key) := by
  unfold deleteBy
  refine Does.ofExcept_bind (fun _ hunknown => ⟨.unknown hunknown, .nil⟩) fun keyed ht => ?_
  obtain ⟨t, keyColumn⟩ := keyed
  refine Does.ofExcept_bind (fun _ hforbidden => ⟨.forbidden ht hforbidden, .nil⟩) ?_
  rintro ⟨⟩ hpermit
  dsimp only
  split
  · rename_i hunset
    exact Does.throw ⟨.keyless ht hpermit hunset, .nil⟩
  · rename_i hset
    rw [Bool.not_eq_true] at hset
    refine (forM_halts fun r => releaseChildren_halts hdelete t key r).bind ?_ ?_
    · rintro error es ⟨hstop, hends⟩
      exact ⟨.unswept ht hpermit hset hstop, hends⟩
    · rintro ⟨⟩ es ⟨hswept, hheld⟩
      refine (executeKeyed_does (t.deletion keyColumn key) rfl rfl).mono fun _ _ hown => ?_
      exact ⟨.swept ht hpermit hset hswept hown, Ends.append (a := ()) hheld hown.ends⟩

end

/-- Whatever the connection answers, a deletion does what `Deleted` says, and stops at the first
statement that fails. -/
theorem deleteRow_halts (depth : Nat) (entity : String) (key : Value) :
    Halts rules (deleteRow rules depth entity key : Writing σ Unit)
      (Deleted rules depth entity key) := by
  induction depth generalizing entity key with
  | zero => exact Does.throw ⟨⟨rfl, rfl⟩, .nil⟩
  | succ depth ih =>
      rw [deleteRow_succ]
      exact deleteBy_halts ih entity key

theorem releaseOrphans_does (o : Ownership) (parentKey : Value) (kept : List Value) :
    Does rules (releaseOrphans rules o parentKey kept : Writing σ Unit)
      (Swept rules o (Deleted rules rules.depth) parentKey kept) :=
  (sweep_halts (deleteRow_halts rules.depth) parentKey kept).mono fun _ _ h => h.1

end Cascade

/-! ## What releases stored rows -/

theorem Each.forall_mem {α : Type} {P : α → Except WriteError Unit → List Event → Prop}
    {Q : Event → Prop} {l : List α} {result : Except WriteError Unit} {es : List Event}
    (h : Each P l result es) (hP : ∀ a result es, P a result es → ∀ e ∈ es, Q e) :
    ∀ e ∈ es, Q e := by
  induction h with
  | nil => simp
  | cons ha _ ih => exact List.forall_mem_append.mpr ⟨hP _ _ _ ha, ih⟩
  | stop ha => exact hP _ _ _ ha

/-- An event by which stored rows are released, a row being detached over a relationship whose
foreign key may be null. -/
inductive Event.Releases (rules : CascadeRules) : Event → Prop
  | swept {o : Ownership} {parentKey : Value} {kept : List Value} {s : Statement}
      {answer : Except ExecutionError RecordSet} :
      Releases rules (.swept o parentKey kept s answer)
  | detached {r : Relationship} {o : Ownership} {key : Value} {s : Statement}
      {answer : Except ExecutionError Nat} (ho : rules.ownership r = .ok o)
      (hnullable : o.foreignKey.nullable = true) :
      Releases rules (.executed (o.detachment key) s answer)
  | deleted {entity : String} {t : Table} {keyColumn : Column} {key : Value} {s : Statement}
      {answer : Except ExecutionError Nat} (ht : rules.keyedTable entity = .ok (t, keyColumn)) :
      Releases rules (.executed (t.deletion keyColumn key) s answer)

section

variable {rules : CascadeRules}
  {gone : String → Value → Except WriteError Unit → List Event → Prop} {es : List Event}
  {result : Except WriteError Unit} {r : Relationship} {o : Ownership}

theorem Swept.releases (hgone : ∀ {entity key result es}, gone entity key result es →
      ∀ e ∈ es, e.Releases rules) (ho : rules.ownership r = .ok o) {parentKey : Value}
    {kept : List Value} (h : Swept rules o gone parentKey kept result es) :
    ∀ e ∈ es, e.Releases rules := by
  cases h with
  | unwritten _ => simp
  | closed => simp
  | unanswered => exact List.forall_mem_singleton.mpr .swept
  | answered _ heach =>
      refine List.forall_mem_cons.mpr ⟨.swept, heach.forall_mem fun key result es h => ?_⟩
      cases h with
      | detached hnullable _ h =>
          intro e he
          obtain ⟨s, answer, rfl⟩ := h.eq_executed he
          exact .detached ho hnullable
      | forbidden _ _ => simp
      | deleted _ h => exact hgone h

theorem DeletedAfter.releases (hgone : ∀ {entity key result es}, gone entity key result es →
      ∀ e ∈ es, e.Releases rules) {entity : String} {key : Value}
    (h : DeletedAfter rules gone entity key result es) : ∀ e ∈ es, e.Releases rules := by
  have hswept : ∀ {t : Table} {l : List Relationship} {result es},
      Each (SweptOver rules gone t key) l result es → ∀ e ∈ es, e.Releases rules := by
    refine fun heach => heach.forall_mem fun r result es h => ?_
    cases h with
    | unowned _ => simp
    | owned ho h => exact h.releases hgone ho
  cases h with
  | unknown _ => simp
  | forbidden _ _ => simp
  | keyless _ _ _ => simp
  | unswept _ _ _ heach => exact hswept heach
  | swept ht _ _ heach hown =>
      refine List.forall_mem_append.mpr ⟨hswept heach, fun e he => ?_⟩
      obtain ⟨s, answer, rfl⟩ := hown.eq_executed he
      exact .deleted ht

end

namespace Cascade

variable {σ : Type} [Executor σ] {rules : CascadeRules}

theorem Deleted.releases {depth : Nat} {entity : String} {key : Value}
    {result : Except WriteError Unit} {es : List Event}
    (h : Deleted rules depth entity key result es) :
    ∀ e ∈ es, e.Releases rules := by
  induction depth generalizing entity key result es with
  | zero =>
      obtain ⟨-, rfl⟩ := h
      simp
  | succ depth ih => exact DeletedAfter.releases ih h

theorem deleteRow_releases (depth : Nat) (entity : String) (key : Value) :
    Writing.Only rules (deleteRow rules depth entity key : Writing σ Unit) (·.Releases rules) :=
  (deleteRow_halts depth entity key).mono fun _ _ h => h.1.releases

theorem delete_releases (r : Record) :
    Writing.Only rules (delete rules r : Writing σ Unit) (·.Releases rules) := by
  unfold delete
  exact Writing.Only.ofExcept_bind fun _ _ => deleteRow_releases rules.depth r.entity _

theorem releaseOrphans_releases {r : Relationship} {o : Ownership} (ho : rules.ownership r = .ok o)
    (parentKey : Value) (kept : List Value) :
    Writing.Only rules (releaseOrphans rules o parentKey kept : Writing σ Unit)
      (·.Releases rules) :=
  (releaseOrphans_does o parentKey kept).mono fun _ _ h => h.releases Deleted.releases ho

end Cascade

end EntityMap
