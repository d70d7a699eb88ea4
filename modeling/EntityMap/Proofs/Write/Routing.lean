import EntityMap.Proofs.Write.Reconciliation
import EntityMap.Proofs.Write.RowHistory
import EntityMap.Proofs.Write.SaveSteps

/-!
# Inserts and changes

Which records of a cascade are inserted. A cascade remembers the keys under
which it has inserted rows, and its rows are those of the records that it
saves, in the order of their visit (`Cascade.saveRecord_visits`). So the
rows before a record tell whether it is inserted (`Cascade.rows_routed`):
keys that are not unset are inserted only if the rules say so, and no key
twice.
-/

namespace EntityMap

/-! ## Records and their rows -/

/-- The row is that of a record, as the record is left: with the key that the row has then. -/
def RowSave.IsOf (q : Record) (row : RowSave) : Prop :=
  q.entity = row.table.entity ∧
    Record.valueOf q.values row.keyColumn.member = row.answer.toOption.getD row.key

/-- The rows are those of the records, in their order; unless all is done, of the first ones. -/
def RowSave.Follow (done : Bool) (records : List Record) (rows : List RowSave) : Prop :=
  ∃ visited rest, records = visited ++ rest ∧ List.Forall₂ RowSave.IsOf visited rows ∧
    (done = true → rest = [])

namespace RowSave.Follow

variable {done : Bool} {records records' : List Record} {rows rows' : List RowSave}

theorem nil : Follow done [] [] :=
  ⟨[], [], rfl, .nil, fun _ => rfl⟩

theorem unvisited : Follow false records [] :=
  ⟨[], records, rfl, .nil, fun h => by cases h⟩

theorem singleton {q : Record} {row : RowSave} (h : row.IsOf q) : Follow done [q] [row] :=
  ⟨[q], [], rfl, .cons h .nil, fun _ => rfl⟩

theorem append (h : Follow true records rows) (h' : Follow done records' rows') :
    Follow done (records ++ records') (rows ++ rows') := by
  obtain ⟨visited, rest, rfl, hrows, hrest⟩ := h
  obtain ⟨visited', rest', rfl, hrows', hrest'⟩ := h'
  rw [hrest rfl]
  exact ⟨visited ++ visited', rest', by simp, List.rel_append hrows hrows', hrest'⟩

theorem unfinished (h : Follow true records rows) : Follow false records rows := by
  obtain ⟨visited, rest, hrecords, hrows, -⟩ := h
  exact ⟨visited, rest, hrecords, hrows, fun h => by cases h⟩

/-- What stops among the first records visits no more. -/
theorem stopped (h : Follow false records rows) : Follow false (records ++ records') rows := by
  obtain ⟨visited, rest, rfl, hrows, -⟩ := h
  exact ⟨visited, rest ++ records', List.append_assoc .., hrows, fun h => by cases h⟩

end RowSave.Follow

open RowSave

/-! ## Saves visit their records -/

variable {σ : Type} [Executor σ] {α β γ δ : Type} {rules : CascadeRules}

/-- From every cascade, a computation is a run with rows that satisfy `P` with what it answers. -/
def Saving.Visits (rules : CascadeRules) (m : Saving σ α)
    (P : α → List RowSave → Prop) : Prop :=
  ∀ c : Cascade σ, ∃ rows es, Leads rules c rows es (m.run c).2 ∧ P (m.run c).1 rows

namespace Saving.Visits

variable {P : α → List RowSave → Prop} {R : β → List RowSave → Prop}

theorem pure {a : α} (h : P a []) : Visits rules (pure a : Saving σ α) P :=
  fun c => ⟨[], [], .done c, h⟩

theorem bind {m : Saving σ α} {f : α → Saving σ β} (hm : Visits rules m P)
    (hf : ∀ a rows, P a rows → Visits rules (f a) fun b rows' => R b (rows ++ rows')) :
    Visits rules (m >>= f) R := by
  intro c
  obtain ⟨rows, es, hleads, hP⟩ := hm c
  obtain ⟨rows', es', hleads', hR⟩ := hf _ rows hP (m.run c).2
  rw [run_bind]
  exact ⟨rows ++ rows', es ++ es', hleads.trans hleads', hR⟩

/-- What writes no row of a record and remembers no key lies between two rows. -/
theorem between {m : Writing σ α} (hsends : Writing.Only rules m (·.writesRow = false))
    (hkeeps : Writing.Keeps m) :
    Visits rules (m.run : Saving σ (Except WriteError α)) fun _ rows => rows = [] := by
  intro c
  obtain ⟨es, hsends, hquiet⟩ := hsends.run c
  exact ⟨[], es ++ [], .between hsends hquiet (hkeeps c) (.done _), rfl⟩

theorem onward {m : Saving σ (Except WriteError α)} {stop : δ}
    {go : α → Saving σ (Except WriteError γ × δ)}
    {P : Except WriteError α → List RowSave → Prop}
    {R : Except WriteError γ × δ → List RowSave → Prop} (hm : Visits rules m P)
    (hstop : ∀ e rows, P (.error e) rows → R (.error e, stop) rows)
    (hgo : ∀ a rows, P (.ok a) rows →
      Visits rules (go a) fun saved rows' => R saved (rows ++ rows')) :
    Visits rules (m >>= Saving.onward stop go) R := by
  refine hm.bind fun answer rows hP => ?_
  cases answer with
  | error e =>
      refine .pure ?_
      rw [List.append_nil]
      exact hstop e rows hP
  | ok a => exact hgo a rows hP

theorem onwardWith {m : Saving σ (Except WriteError α × β)} {stop : β → δ}
    {go : β → α → Saving σ (Except WriteError γ × δ)}
    {P : Except WriteError α × β → List RowSave → Prop}
    {R : Except WriteError γ × δ → List RowSave → Prop} (hm : Visits rules m P)
    (hstop : ∀ e b rows, P (.error e, b) rows → R (.error e, stop b) rows)
    (hgo : ∀ b a rows, P (.ok a, b) rows →
      Visits rules (go b a) fun saved rows' => R saved (rows ++ rows')) :
    Visits rules (m >>= Saving.onwardWith stop go) R := by
  refine hm.bind fun ⟨answer, b⟩ rows hP => ?_
  cases answer with
  | error e =>
      refine .pure ?_
      rw [List.append_nil]
      exact hstop e b rows hP
  | ok a => exact hgo b a rows hP

end Saving.Visits

namespace Cascade

open Writing Saving

/-- The row of a record is inserted or changed, whether this succeeds or not. -/
theorem writeRow_runs {t : Table} {keyColumn : Column}
    (ht : rules.keyedTable t.entity = .ok (t, keyColumn)) (values aside : Named Value)
    (c : Cascade σ) : ∃ inserts answer events c', RowSave.Runs rules c
        { table := t, keyColumn, values, aside, inserts, answer, events } c' ∧
      (writeRow rules t keyColumn values aside).run c =
        (answer.map fun key => (key, inserts), c') := by
  have hrun : (writeRow rules t keyColumn values aside : Writing σ (Value × Bool)).run c =
      (if routesToInsert rules c.inserted t keyColumn (Record.valueOf values keyColumn.member) then
        insertRow rules t keyColumn (Record.valueOf values keyColumn.member) values aside >>=
          fun key => pure (key, true)
      else updateRow rules t keyColumn (Record.valueOf values keyColumn.member) values aside >>=
          fun key => pure (key, false) : Writing σ (Value × Bool)).run c := rfl
  rw [hrun]
  cases hroute : routesToInsert rules c.inserted t keyColumn
    (Record.valueOf values keyColumn.member) with
  | true =>
      obtain ⟨es, hsends, hsent⟩ := (@insertRow_does σ _ rules t keyColumn values aside).run c
      rw [if_pos rfl, Writing.run_bind]
      rcases hwrite : (insertRow rules t keyColumn (Record.valueOf values keyColumn.member) values
        aside).run c with ⟨answer, c'⟩
      rw [hwrite] at hsends hsent
      refine ⟨true, answer, es, c', ⟨ht, hroute.symm, hwrite, hsends, hsent⟩, ?_⟩
      cases answer <;> rfl
  | false =>
      obtain ⟨es, hsends, -, hsent⟩ := (@updateRow_does σ _ rules t keyColumn
        (Record.valueOf values keyColumn.member) values aside).run c
      rw [if_neg Bool.false_ne_true, Writing.run_bind]
      rcases hwrite : (updateRow rules t keyColumn (Record.valueOf values keyColumn.member) values
        aside).run c with ⟨answer, c'⟩
      rw [hwrite] at hsends
      refine ⟨false, answer, es, c', ⟨ht, hroute.symm, hwrite, hsends, hsent⟩, ?_⟩
      cases answer <;> rfl

/-- What writes the row of a record visits just this row, which is that of the record as it is
left: with its key if the row is written, and as it was if not. -/
theorem writeRow_visits {entity : String} {t : Table} {keyColumn : Column}
    (ht : rules.keyedTable entity = .ok (t, keyColumn)) (values aside : Named Value) :
    Visits rules ((writeRow rules t keyColumn values aside).run : Saving σ _)
      fun written rows => ∃ row : RowSave, rows = [row] ∧
        (∀ e references collections, written = .error e →
          row.IsOf (.mk entity values references collections)) ∧
        ∀ key isNew references collections, written = .ok (key, isNew) →
          row.IsOf (.mk entity (values.insert keyColumn.member key) references collections) := by
  obtain ⟨rfl, ht⟩ := CascadeRules.keyedTable_eq_ok ht
  intro c
  obtain ⟨inserts, answer, es, c', hruns, hrun⟩ := writeRow_runs ht values aside c
  have hanswered : (((writeRow rules t keyColumn values aside).run : Saving σ _).run c) =
      (answer.map fun key => (key, inserts), c') := hrun
  rw [hanswered]
  refine ⟨[_], es ++ [], .row hruns (.done c'), _, rfl, ?_, ?_⟩
  · intro e _ _ herror
    cases answer with
    | error _ => exact ⟨rfl, rfl⟩
    | ok _ => cases herror
  · intro key isNew _ _ hok
    cases answer with
    | error _ => cases hok
    | ok _ =>
        cases hok
        exact ⟨rfl, Record.valueOf_insert⟩

theorem reconcile_visits {t : Table} {name : String} {o : Ownership}
    (ho : collectionOf rules t name = .ok o) (parentKey : Value) (isNew : Bool)
    (kept : List Value) :
    Visits rules (reconcile rules o parentKey isNew kept : Saving σ _)
      fun _ rows => rows = [] := by
  obtain ⟨r, -, ho⟩ := Except.bind_eq_ok_iff.mp ho
  cases isNew with
  | true => exact .pure rfl
  | false =>
      exact .between ((releaseOrphans_releases ho parentKey kept).mono fun _ _ h e he =>
        (h e he).unwritten) (releaseOrphans_keeps o parentKey kept)

-- The recursion is that of the records, as in `saveRecord_only`.
mutual

/-- Where collections are saved one after the other, from every cascade, whatever the connection
answers: the rows of a save are those of the records of its tree in the order of their visit, up to
the one where it stops. -/
theorem saveRecord_visits (hturn : rules.maxParallelCollections ≤ 1) (p : Placement) :
    (r : Record) → Visits rules (saveRecord rules p r : Saving σ _) fun saved rows =>
      Follow saved.1.isOk saved.2.sequence rows
  | .mk name values references collections => by
      cases ht : rules.keyedTable p.entity with
      | error e =>
          rw [saveRecord, ht]
          exact .pure .unvisited
      | ok keyed =>
          obtain ⟨t, keyColumn⟩ := keyed
          rw [saveRecord_eq ht]
          refine (saveReferences_visits hturn t _ references).onwardWith
            (fun _ _ _ hreferred => hreferred.stopped) fun referred _ rows hreferred => ?_
          refine (writeRow_visits ht referred.1 p.aside).onward ?_ ?_
          · rintro e rows' ⟨row, rfl, herror, -⟩
            have hown : Follow true [Record.mk p.entity referred.1 referred.2 collections] [row] :=
              .singleton (herror e referred.2 collections rfl)
            rw [Record.sequence]
            exact hreferred.append hown.unfinished.stopped
          · rintro ⟨key, isNew⟩ rows' ⟨row, rfl, -, hok⟩
            refine (saveCollections_visits hturn t _ isNew collections).bind ?_
            rintro ⟨owned, collections'⟩ rows' howned
            refine .pure ?_
            rw [List.append_nil, Record.sequence]
            have hown : Follow true [Record.mk p.entity (referred.1.insert keyColumn.member key)
                referred.2 collections'] [row] :=
              .singleton (hok key isNew referred.2 collections' rfl)
            cases owned with
            | error _ => exact hreferred.append (hown.append howned)
            | ok _ => exact hreferred.append (hown.append howned)
termination_by structural r => r

theorem saveReferences_visits (hturn : rules.maxParallelCollections ≤ 1) (t : Table)
    (values : Named Value) :
    (references : List (String × Option Record)) →
      Visits rules (saveReferences rules t values references : Saving σ _)
        fun saved rows => Follow saved.1.isOk (Record.sequenceOfReferences saved.2.2) rows
  | [] => by
      rw [saveReferences]
      exact .pure .nil
  | (name, none) :: rest => by
      rw [saveReferences]
      split
      · exact .pure .unvisited
      · refine (saveReferences_visits hturn t _ rest).bind fun saved rows hsaved => .pure ?_
        rw [List.append_nil]
        exact hsaved
  | (name, some r) :: rest => by
      cases hname : referenceOf t name with
      | error e =>
          rw [saveReferences, hname]
          exact .pure .unvisited
      | ok reference =>
          cases hadopt : adopt t name .referenceTarget reference.1.primaryKey.entity r with
          | error e =>
              rw [saveReferences, hname]
              dsimp only
              rw [hadopt]
              exact .pure .unvisited
          | ok placement =>
              rw [saveReferences_cons_eq hname hadopt]
              refine (saveRecord_visits hturn placement r).onwardWith
                (fun _ _ _ hsaved => hsaved.stopped) fun r _ rows hsaved => ?_
              refine (saveReferences_visits hturn t _ rest).bind
                fun others rows' hothers => .pure ?_
              rw [List.append_nil]
              exact hsaved.append hothers
termination_by structural references => references

theorem saveCollections_visits (hturn : rules.maxParallelCollections ≤ 1) (t : Table)
    (values : Named Value) (isNew : Bool) :
    (collections : List (String × List Record)) →
      Visits rules (saveCollections rules t values isNew collections : Saving σ _)
        fun saved rows => Follow saved.1.isOk (Record.sequenceOfCollections saved.2) rows
  | [] => by
      rw [saveCollections_nil]
      exact .pure .nil
  | (name, items) :: rest => by
      cases ho : collectionOf rules t name with
      | error e =>
          rw [saveCollections_cons_eq hturn, ho]
          exact .pure .unvisited
      | ok o =>
          rw [saveCollections_cons_eq hturn, ho]
          refine (saveItems_visits hturn t name o _ items).bind ?_
          rintro ⟨_ | kept, items⟩ rows hsaved
          · refine .pure ?_
            rw [List.append_nil]
            exact hsaved.stopped
          · refine (reconcile_visits ho _ isNew kept).bind ?_
            rintro (_ | ⟨⟩) _ rfl
            · refine .pure ?_
              rw [List.append_nil, List.append_nil]
              exact hsaved.unfinished.stopped
            · refine (saveCollections_visits hturn t values isNew rest).bind ?_
              rintro ⟨saved, rest⟩ rows' hothers
              refine .pure ?_
              rw [List.append_nil]
              exact hsaved.append hothers
termination_by structural collections => collections

theorem saveItems_visits (hturn : rules.maxParallelCollections ≤ 1) (t : Table) (name : String)
    (o : Ownership) (parentKey : Value) :
    (items : List Record) →
      Visits rules (saveItems rules t name o parentKey items : Saving σ _)
        fun saved rows => Follow saved.1.isOk (Record.sequenceOfItems saved.2) rows
  | [] => by
      rw [saveItems]
      exact .pure .nil
  | item :: rest => by
      cases hadopt : adopt t name .collectionItem o.child.entity item with
      | error e =>
          rw [saveItems, hadopt]
          exact .pure .unvisited
      | ok placement =>
          rw [saveItems_cons_eq hadopt]
          refine (saveRecord_visits hturn _ item).onwardWith
            (fun _ _ _ hsaved => hsaved.stopped) fun item _ rows hsaved => ?_
          refine (saveItems_visits hturn t name o parentKey rest).bind ?_
          rintro ⟨kept, rest'⟩ rows' hothers
          refine .pure ?_
          rw [List.append_nil]
          cases kept with
          | error _ => exact hsaved.append hothers
          | ok _ => exact hsaved.append hothers
termination_by structural items => items

end

end Cascade

/-! ## Calls of a cascade -/

/-- A call of a cascade. -/
inductive WriteCall where
  | save (r : Record)
  | delete (r : Record)
  | patch (entity : String) (key : Value) (changes : Named Value)

/-- Makes a call, whatever it answers. -/
def WriteCall.make (rules : CascadeRules) : WriteCall → Saving σ Unit
  | save r => do
    let _ ← Cascade.save rules r
  | delete r => do
    let _ ← (Cascade.delete rules r).run
  | patch entity key changes => do
    let _ ← (Cascade.patch rules entity key changes).run

/-- A new cascade in a unit of work, after some calls. -/
def Cascade.after (rules : CascadeRules) (calls : List WriteCall) (work : UnitOfWork σ) :
    Cascade σ :=
  ((calls.forM (WriteCall.make rules)).run { work }).2

theorem WriteCall.make_visits (hturn : rules.maxParallelCollections ≤ 1) (call : WriteCall) :
    Saving.Visits rules (call.make rules : Saving σ Unit) fun _ _ => True := by
  cases call with
  | save r => exact (Cascade.saveRecord_visits hturn _ r).bind fun _ _ _ => .pure trivial
  | delete r =>
      have hquiet : Writing.Only rules (Cascade.delete rules r : Writing σ Unit)
          (·.writesRow = false) :=
        (Cascade.delete_releases r).mono fun _ _ h e he => (h e he).unwritten
      exact (Saving.Visits.between hquiet (Cascade.delete_keeps r)).bind fun _ _ _ => .pure trivial
  | patch entity key changes =>
      have hquiet : Writing.Only rules (Cascade.patch rules entity key changes : Writing σ Unit)
          (·.writesRow = false) :=
        Cascade.patch_only (fun _ _ _ _ => rfl) changes fun _ _ _ _ _ _ _ => rfl
      exact (Saving.Visits.between hquiet (Cascade.patch_keeps entity key changes)).bind
        fun _ _ _ => .pure trivial

theorem Saving.Visits.forM {f : α → Saving σ Unit}
    (h : ∀ a, Visits rules (f a) fun _ _ => True) (l : List α) :
    Visits rules (l.forM f) fun _ _ => True := by
  induction l with
  | nil => exact .pure trivial
  | cons a rest ih => exact (h a).bind fun _ _ _ => ih

/-! ## Which records are inserted -/

/-- A row is inserted just if its key is unset, or if keys are inserted and no row before it was
inserted under the same key of the entity. -/
def RowSave.Routed (rules : CascadeRules) (rows : List RowSave) : Prop :=
  ∀ before row after, rows = before ++ row :: after →
    (row.inserts = true ↔ row.key.isUnset row.keyColumn.type = true ∨
      rules.identityInsert = true ∧ ∀ earlier ∈ before, ¬earlier.InsertsAs row.table.entity row.key)

/-- An insert is sent for a row that writes its key. -/
def RowSave.InsertsKey (row : RowSave) : Prop :=
  ∃ e ∈ row.events, ∃ op, e.operation? = some op ∧ op.kind = .insert ∧ op.returning = none

/-- An insert of the row writes no value of the key column, but asks for the one that is
generated. -/
def RowSave.LeavesKey (rules : CascadeRules) (row : RowSave) (op : Operation) : Prop :=
  ∃ assignments asked, op = row.table.insertion assignments (some row.keyColumn.column) ∧
    Assigned (InsertAssigned rules row.table row.values row.aside)
      (row.table.columns.filter (·.member ≠ row.keyColumn.member)) assignments asked

theorem Leads.routed {c : Cascade σ} {work : UnitOfWork σ} {rows : List RowSave} {es : List Event}
    (h : Leads rules { work } rows es c) : Routed rules rows := by
  rintro before row after rfl
  obtain ⟨c₁, c₂, _, hbefore, hrow⟩ := h.exists_runs
  have hremembered : (row.table.entity, row.key) ∈ c₁.inserted ↔
      ∃ earlier ∈ before, earlier.InsertsAs row.table.entity row.key := by
    rw [hbefore.mem_inserted_iff]
    exact or_iff_left (List.not_mem_nil)
  rw [hrow.routed, Cascade.routesToInsert, Bool.or_eq_true, Bool.and_eq_true, Bool.not_eq_true',
    ← Bool.not_eq_true, List.contains_iff_mem, hremembered]
  simp only [not_exists, not_and]

/-- A key that is not unset is inserted only if the rules say so, and if no row before it was
inserted under that key. -/
theorem RowSave.Routed.of_insertsKey {before after : List RowSave} {row : RowSave}
    (h : Routed rules (before ++ row :: after)) (hsent : row.Sent rules) (hkey : row.InsertsKey) :
    rules.identityInsert = true ∧
      ∀ earlier ∈ before, ¬earlier.InsertsAs row.table.entity row.key := by
  obtain ⟨e, he, op, hop, hkind, hreturning⟩ := hkey
  obtain ⟨hinserts, hrow⟩ := hsent.rowInserts he hop hkind
  cases hrow with
  | explicit hset _ =>
      refine ((h before row after rfl).mp hinserts).resolve_left fun hunset => ?_
      rw [RowSave.key, hset] at hunset
      cases hunset
  | generating _ _ =>
      cases hop
      cases hreturning

theorem Leads.insertsKey {c c' : Cascade σ} {rows : List RowSave} {es : List Event}
    (h : Leads rules c rows es c') (hrouted : Routed rules rows) :
    rows.Pairwise fun earlier row =>
      row.InsertsKey → ¬earlier.InsertsAs row.table.entity row.key := by
  rw [List.pairwise_iff_getElem]
  intro i j hi hj hij hkey
  have hsplit : rows = rows.take j ++ rows[j] :: rows.drop (j + 1) := by
    rw [List.getElem_cons_drop, List.take_append_drop]
  rw [hsplit] at hrouted h
  obtain ⟨_, _, _, -, hrow⟩ := h.exists_runs
  exact (hrouted.of_insertsKey hrow.sent hkey).2 _
    (List.mem_take_iff_getElem.mpr ⟨i, by omega, rfl⟩)

/-- Where keys are not inserted, every insert asks for the key that is generated. -/
theorem Leads.leavesKey {c c' : Cascade σ} {rows : List RowSave} {es : List Event}
    (h : Leads rules c rows es c') (hrouted : Routed rules rows)
    (hidentity : rules.identityInsert = false) {e : Event} (he : e ∈ es) {op : Operation}
    (hop : e.operation? = some op) (hkind : op.kind = .insert) :
    ∃ row ∈ rows, row.key.isUnset row.keyColumn.type = true ∧ row.LeavesKey rules op := by
  have hwrites : e.writesRow = true := by
    cases e with
    | executed op' _ _ =>
        cases hop
        simp [Event.writesRow, hkind]
    | generated _ _ _ => rfl
    | asked => cases hop
    | swept => cases hop
  obtain ⟨row, hmem, hsent, he⟩ := h.exists_row_of_writesRow he hwrites
  obtain ⟨before, after, rfl⟩ := List.append_of_mem hmem
  obtain ⟨-, hrow⟩ := hsent.rowInserts he hop hkind
  cases hrow with
  | explicit _ _ =>
      cases hop
      have hkey : row.InsertsKey := ⟨_, he, _, rfl, rfl, rfl⟩
      rw [(hrouted.of_insertsKey hsent hkey).1] at hidentity
      cases hidentity
  | generating hunset hassigned =>
      cases hop
      exact ⟨row, hmem, hunset, _, _, rfl, hassigned⟩

namespace Cascade

/-- For every catalog, where collections are saved one after the other, after any calls of one
cascade, and whatever the connection answers: a save writes the rows of its records in the order of
their visit, and a row is inserted just if its key is unset, or if keys are inserted and no row of
the same entity has been inserted under the same key by this cascade before. So where keys are not
inserted every insert leaves its key to the store, and where they are, no key is inserted that this
cascade has inserted already. -/
theorem rows_routed (rules : CascadeRules) (hturn : rules.maxParallelCollections ≤ 1)
    (calls : List WriteCall) (r : Record) (work : UnitOfWork σ) : ∃ earlier rows es es',
      Leads rules { work } earlier es (after rules calls work) ∧
      Leads rules (after rules calls work) rows es'
        ((save rules r).run (after rules calls work)).2 ∧
      Follow ((save rules r).run (after rules calls work)).1.1.isOk
        ((save rules r).run (after rules calls work)).1.2.sequence rows ∧
      Routed rules (earlier ++ rows) ∧
      (rules.identityInsert = false → ∀ e ∈ es ++ es', ∀ op, e.operation? = some op →
        op.kind = .insert → ∃ row ∈ earlier ++ rows,
          row.key.isUnset row.keyColumn.type = true ∧ row.LeavesKey rules op) ∧
      (earlier ++ rows).Pairwise fun first row =>
        row.InsertsKey → ¬first.InsertsAs row.table.entity row.key := by
  obtain ⟨earlier, es, hearlier, -⟩ :=
    Saving.Visits.forM (WriteCall.make_visits (σ := σ) hturn) calls { work }
  obtain ⟨rows, es', hrows, hfollow⟩ :=
    saveRecord_visits hturn { entity := r.entity } r (after rules calls work)
  have hall := hearlier.trans hrows
  refine ⟨earlier, rows, es, es', hearlier, hrows, hfollow, hall.routed, ?_, ?_⟩
  · exact fun hidentity e he op hop hkind => hall.leavesKey hall.routed hidentity he hop hkind
  · exact hall.insertsKey hall.routed

def companyKeyRules : CascadeRules :=
  { companyRules with identityInsert := true }

/-- The company is saved twice in one cascade: it is inserted under its key, and then changed. -/
theorem rows_routed_company :
    companyKeyRules.maxParallelCollections ≤ 1 ∧ ∃ earlier rows es es',
      Leads companyKeyRules { work := companyStart.work } earlier es
        (after companyKeyRules [.save company] companyStart.work) ∧
      Leads companyKeyRules (after companyKeyRules [.save company] companyStart.work) rows es'
        ((save companyKeyRules company).run
          (after companyKeyRules [.save company] companyStart.work)).2 ∧
      Routed companyKeyRules (earlier ++ rows) ∧
      (es.map Event.call).head? = some (.execute
        ⟨"INSERT INTO \"companies\" (\"id\", \"name\") VALUES (?, ?)",
          [.int 1, .text "North"]⟩) ∧
      (es'.map Event.call).head? = some (.execute
        ⟨"UPDATE \"companies\" SET \"name\" = ? WHERE \"id\" = ?",
          [.text "North", .int 1]⟩) := by
  obtain ⟨earlier, rows, es, es', hearlier, hrows, -, hrouted, -⟩ :=
    rows_routed companyKeyRules (Nat.le_refl 1) [.save company] company companyStart.work
  have hinserted := hearlier.sends.calls_eq
  have hchanged := hrows.sends.calls_eq
  have hrun : (after companyKeyRules [.save company] companyStart.work).work.calls.head? =
        some (.execute ⟨"INSERT INTO \"companies\" (\"id\", \"name\") VALUES (?, ?)",
          [.int 1, .text "North"]⟩) ∧
      (((save companyKeyRules company).run
          (after companyKeyRules [.save company] companyStart.work)).2.work.calls.drop
        (after companyKeyRules [.save company] companyStart.work).work.calls.length).head? =
        some (.execute ⟨"UPDATE \"companies\" SET \"name\" = ? WHERE \"id\" = ?",
          [.text "North", .int 1]⟩) := by
    decide +kernel
  rw [hchanged, List.drop_left, hinserted] at hrun
  exact ⟨Nat.le_refl 1, earlier, rows, es, es', hearlier, hrows, hrouted, hrun.1, hrun.2⟩

end Cascade

end EntityMap
