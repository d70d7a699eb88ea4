import EntityMap.Proofs.Write.LockstepTrees

/-!
# How keys are represented

Two records that differ in the representation of their keys are saved in
lockstep, and deleted in lockstep, as long as no comparison tells their
keys apart (`Cascade.save_delete_lockstep`). Without that they are not:
a team that is saved under the key `11.0` is updated, and then released
as a stored child that was not kept, when the connection answers the key
`11` (`Cascade.saved_team_released`).
-/

namespace EntityMap

/-- The deletion of the row of a record, by its key in one representation and in another. -/
def Record.DeletedAs (rules : CascadeRules) (r r' : Record) (kind : OperationKind) (entity : String)
    (key key' : Value) : Prop :=
  ∃ t keyColumn, rules.keyedTable r.entity = .ok (t, keyColumn) ∧ kind = .delete ∧
    entity = r.entity ∧ key = valueOf r.values keyColumn.member ∧
    key' = valueOf r'.values keyColumn.member

namespace Cascade

open Writing

variable {σ : Type} [Executor σ] {rules : CascadeRules} {held : σ → Prop}
  {same : String → Value → Value → Prop}

/-- From twin cascades, two saves run beside each other. -/
abbrev SavedAbreast {α β : Type} (rules : CascadeRules) (held : σ → Prop)
    (same : String → Value → Value → Prop) (m m' : Saving σ (Except WriteError α × β))
    (R : Except WriteError α × β → Except WriteError α × β → Prop) : Prop :=
  Saving.RunsAbreast rules (Twin held same) (Event.Alike same (Updated same))
    (fun saved => failure? saved.1) m m' R

/-- From twin cascades, the deletions of two records run beside each other. -/
abbrev DeletedAbreast (rules : CascadeRules) (held : σ → Prop)
    (same : String → Value → Value → Prop) (r r' : Record) : Prop :=
  Saving.RunsAbreast (σ := σ) rules (Twin held same) (Event.Alike same (r.DeletedAs rules r'))
    failure? (delete rules r).run (delete rules r').run fun _ _ => True

/-- From twin cascades, two records whose keys are told apart by no comparison are saved in
lockstep, and they are deleted in lockstep. -/
theorem save_delete_lockstep {d : Definition} (hd : d.toCatalog = .ok rules.catalog)
    (hoblivious : Executor.Oblivious σ) (h : Indistinct rules held same) {r r' : Record}
    (hr : r.Same rules same r.entity r') :
    SavedAbreast rules held same (save rules r) (save rules r') (SameSaved same r.entity) ∧
      DeletedAbreast rules held same r r' := by
  have hentity := hr.entity_eq
  constructor
  · have hp : Placement.Paired rules same { entity := r.entity } { entity := r.entity } :=
      .alone rfl
    unfold save
    rw [hentity]
    exact (saveRecord_paired hoblivious h (Definition.accepted_of_toCatalog hd)
      (Definition.keyed_of_toCatalog hd) hp r hr).run
  · have hdeleted : Paired rules held same (r.DeletedAs rules r') (delete rules r)
        (delete rules r') fun _ _ => True := by
      unfold delete
      rw [hentity]
      refine .ofExcept_bind fun keyed ht => ?_
      obtain ⟨t, keyColumn⟩ := keyed
      exact deleteRow_paired hoblivious h rules.depth
        (.inr ⟨hr.key ht, t, keyColumn, ht, rfl, rfl, rfl, rfl⟩)
    exact (Saving.Lockstep.mono hdeleted fun _ _ _ => trivial).run

end Cascade

/-! ## Connections by the keys that they have stored -/

namespace Script

variable {P : Value → Prop}

/-- Whatever is asked for is answered by stored keys, each of which satisfies `P`. -/
structure Stores (P : Value → Prop) (s : Script) : Prop where
  queries : s.queries = []
  stored : ∀ entry ∈ s.stored, ∀ keys ∈ entry.2, ∀ key ∈ keys, P key

theorem takeStored_stores (table : String) {stored : List (String × List (List Value))}
    (h : ∀ entry ∈ stored, ∀ keys ∈ entry.2, ∀ key ∈ keys, P key) :
    (∀ key ∈ (takeStored table stored).1, P key) ∧
      ∀ entry ∈ (takeStored table stored).2, ∀ keys ∈ entry.2, ∀ key ∈ keys, P key := by
  induction stored with
  | nil => exact ⟨List.forall_mem_nil _, h⟩
  | cons entry rest ih =>
      obtain ⟨other, queue⟩ := entry
      obtain ⟨hqueue, hrest⟩ := List.forall_mem_cons.mp h
      unfold takeStored
      split
      · cases queue with
        | nil => exact ⟨List.forall_mem_nil _, h⟩
        | cons keys later =>
            obtain ⟨hkeys, hlater⟩ := List.forall_mem_cons.mp hqueue
            exact ⟨hkeys, List.forall_mem_cons.mpr ⟨hlater, hrest⟩⟩
      · obtain ⟨htaken, hleft⟩ := ih hrest
        exact ⟨htaken, List.forall_mem_cons.mpr ⟨hqueue, hleft⟩⟩

theorem query_eq {s : Script} (h : s.queries = []) (statement : Statement) :
    Executor.query statement s =
      (.ok (keySet (takeStored (tableOf statement.sql) s.stored).1),
        { s with stored := (takeStored (tableOf statement.sql) s.stored).2 }) := by
  obtain ⟨begins, commits, rollbacks, queries, scalars, executions, nextKey, stored⟩ := s
  cases h
  rfl

theorem Stores.closed : Executor.Closed (Stores P) where
  query {s} h statement := by
    rw [query_eq h.queries]
    exact ⟨h.queries, (takeStored_stores _ h.stored).2⟩
  scalar {s} h statement := by
    obtain ⟨begins, commits, rollbacks, queries, scalars, executions, nextKey, stored⟩ := s
    cases scalars <;> exact ⟨h.queries, h.stored⟩
  execute {s} h statement := by
    obtain ⟨begins, commits, rollbacks, queries, scalars, executions, nextKey, stored⟩ := s
    cases executions <;> exact ⟨h.queries, h.stored⟩

theorem Stores.of_reports {rules : CascadeRules} {o : Ownership} {parentKey key : Value}
    (h : o.Reports rules (Stores P) parentKey key) : P key := by
  obtain ⟨connection, s, records, hheld, -, hanswer, hkey⟩ := h
  rw [query_eq hheld.queries] at hanswer
  cases hanswer
  exact (takeStored_stores _ hheld.stored).1 key (Ledger.mem_of_mem_storedKeys hkey)

end Script

namespace Cascade

open Writing

/-! ## A team under the key 11 -/

/-- 11 as a floating-point number. -/
def elevenFloat : Value :=
  .float ⟨0x4026000000000000⟩

/-- The key 11 stands for 11 as a floating-point number, too. -/
def elevenSame (_entity : String) (v w : Value) : Prop :=
  v = w ∨ v = .int 11 ∧ w = elevenFloat

theorem companyKey_of_keyedTable {entity : String} {t : Table} {keyColumn : Column}
    (h : companyRules.keyedTable entity = .ok (t, keyColumn)) : keyColumn = companyKey := by
  have ht := (CascadeRules.mem_of_keyedTable h).1
  have hkey := (CascadeRules.table_of_keyedTable h).2
  have hkeys : ∀ t ∈ companyTables, t.key = .ok companyKey := by
    simp only [companyTables, List.forall_mem_cons, List.not_mem_nil]
    exact ⟨rfl, rfl, rfl, fun _ h => h.elim⟩
  rw [hkeys t ht] at hkey
  cases hkey
  rfl

/-- Where only the key 12 is stored, no comparison tells the two keys apart. -/
theorem indistinct_eleven :
    Indistinct companyRules (Script.Stores (· = .int 12)) elevenSame where
  toClosed := Script.Stores.closed
  coerces {_ v w _ _} ht hsame := by
    obtain rfl := companyKey_of_keyedTable ht
    obtain rfl | ⟨rfl, rfl⟩ := hsame
    · exact .inl rfl
    · exact .inr ⟨.int 11, by decide, by decide +kernel⟩
  unset ht hsame := by
    obtain rfl := companyKey_of_keyedTable ht
    obtain rfl | ⟨rfl, rfl⟩ := hsame
    · rfl
    · decide
  inserted hinserts := by cases hinserts
  generated _ _ _ _ := .inl rfl
  shared _ _ hsame := hsame
  reported {_ _ _ _ key v w} _ hreports hsame := by
    have hkey : key = .int 12 := Script.Stores.of_reports (P := (· = .int 12)) hreports
    subst hkey
    obtain rfl | ⟨rfl, rfl⟩ := hsame
    · exact .rfl
    · decide

/-- A company with one team, under a key. -/
def companyOf (key : Value) : Record :=
  .mk "Company" [("Id", .int 1), ("Name", .text "North")] []
    [("Teams", [.mk "Team" [("Id", key)] [] []])]

theorem companyOf_same :
    (companyOf (.int 11)).Same companyRules elevenSame "Company" (companyOf elevenFloat) := by
  have heleven : (Value.int 11).Same elevenFloat :=
    ⟨.int64, .inr ⟨.int 11, by decide, by decide +kernel⟩⟩
  refine .mk (.refl _) (fun _ => .inl rfl) (fun _ => .nil) fun _ => .cons (fun _ => ?_) .nil
  refine .cons (.mk ?_ ?_ (fun _ => .nil) fun _ => .nil) .nil
  · exact (Named.Same.refl []).insert "Id" heleven
  · intro t keyColumn ht
    obtain rfl := companyKey_of_keyedTable ht
    exact .inr ⟨rfl, rfl⟩

/-- A connection that has one team stored. -/
def storedTeam (key : Value) : Cascade Script :=
  { work := { connection := { stored := [("teams", [[key]])] } } }

theorem save_delete_lockstep_team :
    Definition.toCatalog ⟨[], companyTables⟩ = .ok companyRules.catalog ∧
      Twin (Script.Stores (· = .int 12)) elevenSame (storedTeam (.int 12)) (storedTeam (.int 12)) ∧
      SavedAbreast companyRules (Script.Stores (· = .int 12)) elevenSame
        (save companyRules (companyOf (.int 11))) (save companyRules (companyOf elevenFloat))
        (SameSaved elevenSame "Company") ∧
      DeletedAbreast companyRules (Script.Stores (· = .int 12)) elevenSame (companyOf (.int 11))
        (companyOf elevenFloat) := by
  have hsame : (companyOf (.int 11)).Same companyRules elevenSame (companyOf (.int 11)).entity
      (companyOf elevenFloat) := companyOf_same
  have hheld : Script.Stores (· = .int 12) (storedTeam (.int 12)).work.connection :=
    ⟨rfl, by simp [storedTeam]⟩
  refine ⟨rfl, ⟨hheld, rfl, rfl, .nil, rfl⟩, ?_⟩
  exact save_delete_lockstep (d := ⟨[], companyTables⟩) rfl Script.oblivious indistinct_eleven
    hsame

/-- Where the key 11 is stored itself, the team is released that was just saved under that key as a
floating-point number. -/
theorem saved_team_released :
    Definition.toCatalog ⟨[], companyTables⟩ = .ok companyRules.catalog ∧
      elevenFloat.coerce? .int64 = some (.int 11) ∧
      ((save companyRules (companyOf (.int 11))).run (storedTeam (.int 11))).2.work.calls = [
        .execute ⟨"UPDATE \"companies\" SET \"name\" = ? WHERE \"id\" = ?",
          [.text "North", .int 1]⟩,
        .execute ⟨"UPDATE \"teams\" SET \"company_id\" = ? WHERE \"id\" = ?",
          [.int 1, .int 11]⟩,
        .query ⟨"SELECT t0.\"id\" AS \"__key\" FROM \"teams\" AS t0 WHERE (t0.\"company_id\" = ?)",
          [.int 1]⟩] ∧
      ((save companyRules (companyOf elevenFloat)).run (storedTeam (.int 11))).2.work.calls = [
        .execute ⟨"UPDATE \"companies\" SET \"name\" = ? WHERE \"id\" = ?",
          [.text "North", .int 1]⟩,
        .execute ⟨"UPDATE \"teams\" SET \"company_id\" = ? WHERE \"id\" = ?",
          [.int 1, elevenFloat]⟩,
        .query ⟨"SELECT t0.\"id\" AS \"__key\" FROM \"teams\" AS t0 WHERE (t0.\"company_id\" = ?)",
          [.int 1]⟩,
        .query ⟨"SELECT t0.\"id\" AS \"__key\" FROM \"members\" AS t0 WHERE (t0.\"team_id\" = ?)",
          [.int 11]⟩,
        .execute ⟨"DELETE FROM \"teams\" WHERE \"id\" = ?", [.int 11]⟩] := by
  refine ⟨rfl, by decide +kernel, ?_, ?_⟩
  · decide +kernel
  · decide +kernel

end Cascade

end EntityMap
