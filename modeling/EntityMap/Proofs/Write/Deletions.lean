import EntityMap.Catalog.Definition
import EntityMap.Proofs.Write.Reconciliation

/-!
# Deletions of a save

Which rows a save deletes, in whatever order its collections go on: those
that a collection of its tree does not hold although the store has them
there, and those that point to such a row (`Cascade.save_deletions`). What
a collection releases are none of its own items, but no record that sits
elsewhere in the tree is kept for its sake: one that was moved from a
parent to another is deleted for its old parent's sake
(`Cascade.moved_record_deleted`).
-/

namespace EntityMap

/-! ## Statements that delete -/

/-- The letter that the statements of a kind start with. -/
def OperationKind.initial : OperationKind → Char
  | insert => 'I'
  | update | patch | detach => 'U'
  | delete => 'D'

theorem Statement.head?_sql (c : Char) (text : String) (rest : List Sql.Piece)
    (h : text.toList.head? = some c) :
    (Statement.ofPieces (.text text :: rest)).sql.toList.head? = some c := by
  simp only [ofPieces, List.map_cons, String.join_cons, String.toList_append, Sql.Piece.sql,
    List.head?_append, h, Option.some_or]

namespace Operation

theorem head?_sql {op : Operation} {s : Statement} (h : op.statement = .ok s) :
    s.sql.toList.head? = some op.kind.initial := by
  have hupdate : ∀ pieces, op.updatePieces = .ok pieces →
      (Statement.ofPieces pieces).sql.toList.head? = some 'U' := by
    intro pieces hpieces
    unfold updatePieces at hpieces
    split at hpieces
    · cases hpieces
    · obtain ⟨key, -, heq⟩ := Except.bind_eq_ok_iff.mp hpieces
      cases heq
      exact Statement.head?_sql 'U' _ _ rfl
  have hdelete : ∀ pieces, op.deletePieces = .ok pieces →
      (Statement.ofPieces pieces).sql.toList.head? = some 'D' := by
    intro pieces hpieces
    obtain ⟨key, -, heq⟩ := Except.bind_eq_ok_iff.mp hpieces
    cases heq
    exact Statement.head?_sql 'D' _ _ rfl
  unfold statement pieces at h
  cases hkind : op.kind <;> rw [hkind] at h
  case insert =>
    cases h
    exact Statement.head?_sql 'I' _ _ rfl
  case delete =>
    obtain ⟨pieces, hpieces, rfl⟩ := Except.map_eq_ok_iff.mp h
    exact hdelete pieces hpieces
  all_goals
    obtain ⟨pieces, hpieces, rfl⟩ := Except.map_eq_ok_iff.mp h
    exact hupdate pieces hpieces

end Operation

def CascadeRules.deletion (rules : CascadeRules) (entity : String) (key : Value) :
    Except WriteError Statement := do
  let (t, keyColumn) ← rules.keyedTable entity
  (t.deletion keyColumn key).statement.mapError .statement

theorem Table.statement_deletion (t : Table) (keyColumn : Column) (key : Value) :
    ∃ s, (t.deletion keyColumn key).statement = .ok s ∧ s.parameters = [key] :=
  ⟨_, rfl, rfl⟩

/-- The execution of a deletion's statement is that of an operation that deletes. -/
theorem Event.deletes_of_call {rules : CascadeRules} {e : Event} {t : Table} {keyColumn : Column}
    {key : Value} {s : Statement} (hgenuine : e.Genuine rules)
    (hs : (t.deletion keyColumn key).statement = .ok s) (hcall : e.call = .execute s) :
    ∃ op answer, e = .executed op s answer ∧ op.kind = .delete ∧ op.statement = .ok s := by
  cases e with
  | asked => cases hcall
  | swept => cases hcall
  | generated => cases hcall
  | executed op s' answer =>
      cases hcall
      refine ⟨op, answer, rfl, ?_, hgenuine⟩
      have hinitial : op.kind.initial = 'D' :=
        Option.some.inj ((Operation.head?_sql hgenuine).symm.trans (Operation.head?_sql hs))
      cases hkind : op.kind with
      | delete => rfl
      | insert | update | patch | detach =>
          rw [hkind] at hinitial
          exact absurd hinitial (by decide)

namespace Cascade

variable {σ : Type} [Executor σ] {rules : CascadeRules}

/-- The rows that a save gives a reason to delete: those that the store has among the children of
a record of the tree, but not the collection of that record, and those that point to such a row. -/
def Displaced (rules : CascadeRules) (tree : Record) (es : List Event) : String → Value → Prop :=
  Doomed rules (fun _ _ => False) (tree.Holds rules) es

theorem displaced_of_sent {tree : Record} {es : List Event} {done : Bool} {entity : String}
    {key : Value} {s : Statement} (haccounts : SaveAccounts rules (tree.Holds rules) es done)
    (hgenuine : ∀ e ∈ es, e.Genuine rules) (hs : rules.deletion entity key = .ok s)
    (hsent : Call.execute s ∈ es.map Event.call) :
    ∃ entity', Displaced rules tree es entity' key ∧ rules.deletion entity' key = .ok s := by
  obtain ⟨⟨t, keyColumn⟩, -, hs⟩ := Except.bind_eq_ok_iff.mp hs
  have hs := Except.mapError_eq_ok_iff.mp hs
  obtain ⟨e, hmem, hcall⟩ := List.mem_map.mp hsent
  obtain ⟨op, answer, rfl, hkind, hop⟩ := Event.deletes_of_call (hgenuine e hmem) hs hcall
  obtain ⟨entity', key', t', keyColumn', hdoomed, ht', rfl⟩ := haccounts.deletions hmem hkind
  -- Another entity may have the same table, but the key is a parameter of the statement.
  have hkey : key' = key := by
    obtain ⟨s', hs', hparameters⟩ := t.statement_deletion keyColumn key
    obtain ⟨s'', hs'', hparameters'⟩ := t'.statement_deletion keyColumn' key'
    cases hs.symm.trans hs'
    cases hop.symm.trans hs''
    exact List.singleton_inj.mp (hparameters'.symm.trans hparameters)
  subst hkey
  refine ⟨entity', hdoomed, Except.bind_eq_ok_iff.mpr ⟨(t', keyColumn'), ht', ?_⟩⟩
  exact Except.mapError_eq_ok_iff.mpr hop

theorem sent_of_displaced {tree : Record} {es : List Event} {entity : String} {key : Value}
    (haccounts : SaveAccounts rules (tree.Holds rules) es true)
    (hgenuine : ∀ e ∈ es, e.Genuine rules) (h : Displaced rules tree es entity key) :
    ∃ s, rules.deletion entity key = .ok s ∧ Call.execute s ∈ es.map Event.call := by
  have horphaned : Orphaned es entity key := by
    cases h with
    | due h => exact h.elim
    | orphan hheld hswept hrequired hstored hkept =>
        exact ⟨_, _, _, _, _, hswept, hrequired, rfl, hstored, hkept⟩
    | pointing _ _ _ _ _ hswept hrequired hstored hself =>
        exact ⟨_, _, _, _, _, hswept, hrequired, rfl, hstored, hself⟩
  obtain ⟨t, keyColumn, s, n, ht, -, hmem⟩ := haccounts.complete rfl horphaned
  refine ⟨s, Except.bind_eq_ok_iff.mpr ⟨(t, keyColumn), ht, ?_⟩, List.mem_map_of_mem hmem⟩
  exact Except.mapError_eq_ok_iff.mpr (hgenuine _ hmem)

/-- Whatever the connection answers, a save sends the deletion of no row but a displaced one, and
if it succeeds that of each displaced row. -/
theorem save_deletions (rules : CascadeRules) (r : Record) (c : Cascade σ) :
    ∃ es, UnitOfWork.Sends rules c.work es ((save rules r).run c).2.work ∧
      ((save rules r).run c).2.work.calls = c.work.calls ++ es.map Event.call ∧
      (∀ entity key s, rules.deletion entity key = .ok s → Call.execute s ∈ es.map Event.call →
        ∃ entity', Displaced rules ((save rules r).run c).1.2 es entity' key ∧
          rules.deletion entity' key = .ok s) ∧
      (((save rules r).run c).1.1.isOk = true →
        ∀ entity key, Displaced rules ((save rules r).run c).1.2 es entity key →
          ∃ s, rules.deletion entity key = .ok s ∧ Call.execute s ∈ es.map Event.call) := by
  obtain ⟨es, hsends, hsaved⟩ := (@saveRecord_does σ _ rules { entity := r.entity } r).run c
  have hgenuine := hsends.genuine
  refine ⟨es, hsends, hsends.calls_eq, ?_, ?_⟩
  · intro entity key s hs hsent
    exact displaced_of_sent hsaved.accounts hgenuine hs hsent
  · intro hok entity key hdisplaced
    have haccounts : SaveAccounts rules (((save rules r).run c).1.2.Holds rules) es true := by
      have haccounts := hsaved.accounts
      rwa [show ((saveRecord rules { entity := r.entity } r).run c).1.1.isOk = true from hok]
        at haccounts
    exact sent_of_displaced haccounts hgenuine hdisplaced

end Cascade

/-! ## A member who changed teams -/

def Record.item? (name : String) (i : Nat) (r : Record) : Option Record := do
  (← r.collections.get? name)[i]?

theorem Record.within_of_item? {q r s : Record} {name : String} {i : Nat}
    (h : r.item? name i = some s) (hq : q.Within s) : q.Within r := by
  obtain ⟨items, hitems, hs⟩ := Option.bind_eq_some_iff.mp h
  obtain ⟨before, after, hcollections, -⟩ := List.lookup_eq_some_iff.mp hitems
  have hmem : (name, items) ∈ r.collections := by
    rw [hcollections]
    exact List.mem_append_right _ (List.mem_cons_self ..)
  exact .item hmem (List.mem_of_getElem? hs) hq

namespace Cascade

/-- The member of the second team, found in the first one, is deleted. -/
theorem saved_company :
    let saved := (save companyRules company).run companyStart
    saved.1.1.isOk = true ∧
      (((saved.1.2.item? "Teams" 1).bind (·.item? "Members" 0)).map fun member =>
        (member.entity, Record.valueOf member.values "Id")) = some ("Member", .int 7) ∧
      .execute ⟨"DELETE FROM \"members\" WHERE \"id\" = ?", [.int 7]⟩ ∈ saved.2.work.calls := by
  decide +kernel

/-- A save that succeeds may delete the row of a record of its own tree. -/
theorem moved_record_deleted :
    ¬ ∀ (rules : CascadeRules) (r : Record) (c : Cascade Script),
      (∃ d : Definition, d.toCatalog = .ok rules.catalog) → c.work.calls = [] →
      ((save rules r).run c).1.1.isOk = true →
      ∀ q : Record, q.Within ((save rules r).run c).1.2 →
        ∀ t keyColumn s, rules.keyedTable q.entity = .ok (t, keyColumn) →
          rules.deletion q.entity (Record.valueOf q.values keyColumn.member) = .ok s →
          Call.execute s ∉ ((save rules r).run c).2.work.calls := by
  intro h
  obtain ⟨hok, hmember, hdeleted⟩ := saved_company
  obtain ⟨member, hmember, hrow⟩ := Option.map_eq_some_iff.mp hmember
  obtain ⟨team, hteam, hmember⟩ := Option.bind_eq_some_iff.mp hmember
  obtain ⟨hentity, hkey⟩ := Prod.mk.inj hrow
  have haccepted : Definition.toCatalog ⟨[], companyTables⟩ = .ok companyRules.catalog := rfl
  have hwithin : member.Within ((save companyRules company).run companyStart).1.2 :=
    Record.within_of_item? hteam (Record.within_of_item? hmember .here)
  have hkeyed : companyRules.keyedTable member.entity = .ok (companyTables[2], companyKey) := by
    rw [hentity]
    rfl
  refine h companyRules company companyStart ⟨_, haccepted⟩ rfl hok member hwithin _ _ _ hkeyed ?_
    hdeleted
  rw [hentity]
  show companyRules.deletion "Member" (Record.valueOf member.values "Id") = _
  rw [hkey]
  rfl

end Cascade

end EntityMap
