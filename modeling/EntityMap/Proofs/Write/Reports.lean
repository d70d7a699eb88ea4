import EntityMap.Execution.Script
import EntityMap.Proofs.Write.Dialogue
import EntityMap.Proofs.Write.Rules
import Mathlib.Data.List.Perm.Subperm
import Mathlib.Logic.Relation

/-!
# Connections with finitely many rows

What the rows of a store have to do with the deletions of a cascade: a
connection reports, for a row, the rows that point to it over a required
foreign key (`Reports`), and these are deleted first. A way down from
row to row (`Descent`) visits no row twice when no rows point to each
other in a circle (`CircleFree`), and then it is no longer than there are
rows. Every `Ledger`, a store that never changes, is such a connection
(`Ledger.reports`).
-/

namespace EntityMap

section

variable {σ : Type} [Executor σ]

/-- The states of a connection that it does not leave by the statements of a cascade. -/
structure Executor.Closed (held : σ → Prop) : Prop where
  query : ∀ {connection}, held connection → ∀ s, held (Executor.query s connection).2
  scalar : ∀ {connection}, held connection → ∀ s, held (Executor.scalar s connection).2
  execute : ∀ {connection}, held connection → ∀ s, held (Executor.execute s connection).2

theorem Executor.Closed.answered {held : σ → Prop} {connection connection' : σ} {e : Event}
    (h : Executor.Closed held) (hheld : held connection)
    (hanswered : e.Answered connection connection') : held connection' := by
  cases e with
  | asked _ _ s _ =>
      have hafter := h.query hheld s
      rwa [show Executor.query s connection = _ from hanswered] at hafter
  | swept _ _ _ s _ =>
      have hafter := h.query hheld s
      rwa [show Executor.query s connection = _ from hanswered] at hafter
  | executed _ s _ =>
      have hafter := h.execute hheld s
      rwa [show Executor.execute s connection = _ from hanswered] at hafter
  | generated _ s _ =>
      have hafter := h.scalar hheld s
      rwa [show Executor.scalar s connection = _ from hanswered] at hafter

/-- What a connection answers, asked for the rows that point to a row by a required foreign key:
some of `rows` that do (`points`), and perhaps the row itself. -/
structure Reports (rules : CascadeRules) (held : σ → Prop) (rows : List (String × Value))
    (points : String × Value → String × Value → Prop) : Prop extends Executor.Closed held where
  children : ∀ {connection : σ} {entity : String} {key child : Value} {t : Table}
    {keyColumn : Column} {r : Relationship} {o : Ownership} {s : Statement} {records : RecordSet},
    held connection → rules.keyedTable entity = .ok (t, keyColumn) → r ∈ t.relationships →
    r.isInverseFrom t.entity → rules.ownership r = .ok o → o.foreignKey.nullable = false →
    rules.keyQuery o.child.entity (o.childrenOf key) = .ok s →
    (Executor.query s connection).1 = .ok records → child ∈ records.storedKeys →
    (o.child.entity, child) = (entity, key) ∨
      (o.child.entity, child) ∈ rows ∧ points (entity, key) (o.child.entity, child)

end

/-- Stored rows: the keys of the rows of a table that point to a key. -/
structure Ledger where
  stored : List (String × Value × List Value)

namespace Ledger

/-- The rows that a statement asks for, by its table and its one parameter. -/
def keys (l : Ledger) (s : Statement) : List Value :=
  match l.stored.find? fun (table, parent, _) =>
    table = Script.tableOf s.sql ∧ s.parameters = [parent] with
  | some (_, _, keys) => keys
  | none => []

/-- A connection to rows that never change. -/
instance : Executor Ledger where
  begin l := (.ok (), l)
  commit l := (.ok (), l)
  rollback l := (.ok (), l)
  query s l := (.ok (Script.keySet (l.keys s)), l)
  scalar _ l := (.ok (.int 1), l)
  execute _ l := (.ok 1, l)

variable {l : Ledger}

theorem exists_of_mem_keys {s : Statement} {key : Value} (h : key ∈ l.keys s) :
    ∃ table parent keys, (table, parent, keys) ∈ l.stored ∧ key ∈ keys ∧
      s.parameters = [parent] := by
  unfold keys at h
  split at h
  · rename_i table parent keys hfind
    have hfound := List.find?_some hfind
    simp only [decide_eq_true_eq] at hfound
    exact ⟨table, parent, keys, List.mem_of_find?_eq_some hfind, h, hfound.2⟩
  · cases h

/-- Every key that points somewhere, as a row of every entity. -/
def rows (rules : CascadeRules) (l : Ledger) : List (String × Value) :=
  rules.catalog.tables.flatMap fun t => l.stored.flatMap fun (_, _, keys) => keys.map (t.entity, ·)

/-- A row points to another one by a required foreign key, as the ledger has it. -/
def Points (rules : CascadeRules) (l : Ledger) (above row : String × Value) : Prop :=
  ∃ t keyColumn r o s, rules.keyedTable above.1 = .ok (t, keyColumn) ∧ r ∈ t.relationships ∧
    r.isInverseFrom t.entity ∧ rules.ownership r = .ok o ∧ o.foreignKey.nullable = false ∧
    rules.keyQuery o.child.entity (o.childrenOf above.2) = .ok s ∧
    row.1 = o.child.entity ∧ row.2 ∈ l.keys s ∧ row ≠ above

theorem cells_keySet (keys : List Value) : (Script.keySet keys).cells keyLabel = keys := by
  rw [RecordSet.cells_eq (show (Script.keySet keys).columnIndex? keyLabel = some 0 from rfl)]
  simp [Script.keySet]

theorem mem_of_mem_storedKeys {keys : List Value} {key : Value}
    (h : key ∈ (Script.keySet keys).storedKeys) : key ∈ keys := by
  obtain ⟨hcell, -⟩ := ((Script.keySet keys).firstSeen_storedKeys.mem_iff key).mp h
  rwa [cells_keySet] at hcell

theorem closed (l : Ledger) : Executor.Closed (· = l) where
  query h _ := h
  scalar h _ := h
  execute h _ := h

theorem reports (rules : CascadeRules) (l : Ledger) :
    Reports rules (· = l) (l.rows rules) (l.Points rules) where
  toClosed := l.closed
  children := by
    intro connection entity key child t keyColumn r o s records hheld ht hr hinverse ho hrequired hs
      hanswer hchild
    obtain rfl : connection = l := hheld
    obtain rfl : Script.keySet (connection.keys s) = records := Except.ok.inj hanswer
    have hkey := mem_of_mem_storedKeys hchild
    by_cases hself : (o.child.entity, child) = (entity, key)
    · exact .inl hself
    · refine .inr ⟨?_, t, keyColumn, r, o, s, ht, hr, hinverse, ho, hrequired, hs, rfl, hkey, hself⟩
      obtain ⟨table, parent, keys, hmem, hin, -⟩ := exists_of_mem_keys hkey
      have hchildTable := (CascadeRules.mem_of_keyedTable (CascadeRules.keyedTable_child ho)).1
      exact List.mem_flatMap.mpr
        ⟨o.child, hchildTable, List.mem_flatMap.mpr ⟨_, hmem, List.mem_map_of_mem hin⟩⟩

end Ledger

/-! ## Rows on the way down -/

/-- Rows that are being deleted, the last first: each but the first of all is one of `rows` and
points to the one above it. -/
inductive Descent (rows : List (String × Value)) (points : String × Value → String × Value → Prop)
    (start : String × Value) : List (String × Value) → Prop
  | start : Descent rows points start [start]
  | step {above row : String × Value} {path : List (String × Value)}
      (h : Descent rows points start (above :: path)) (hrow : row ∈ rows)
      (hpoints : points above row) : Descent rows points start (row :: above :: path)

/-- No row that is reached from a row points, over other rows, to itself. -/
def CircleFree (points : String × Value → String × Value → Prop) (start : String × Value) : Prop :=
  ∀ row, Relation.ReflTransGen points start row → ¬ Relation.TransGen points row row

/-- A rank that grows from row to row leaves no circle. -/
theorem CircleFree.of_rank {points : String × Value → String × Value → Prop}
    (rank : String × Value → Nat) (h : ∀ above row, points above row → rank above < rank row)
    (start : String × Value) : CircleFree points start := by
  have htrans : ∀ above row, Relation.TransGen points above row → rank above < rank row := by
    intro above row hpoints
    induction hpoints with
    | single hpoints => exact h _ _ hpoints
    | tail _ hpoints ih => exact Nat.lt_trans ih (h _ _ hpoints)
  exact fun row _ hcircle => Nat.lt_irrefl _ (htrans row row hcircle)

namespace Descent

variable {rows path : List (String × Value)} {points : String × Value → String × Value → Prop}
  {start row : String × Value}

theorem mem (h : Descent rows points start path) : ∀ x ∈ path, x ∈ start :: rows := by
  induction h with
  | start => exact fun x hx => List.mem_cons.mpr (.inl (List.mem_singleton.mp hx))
  | step _ hrow _ ih =>
      intro x hx
      rcases List.mem_cons.mp hx with rfl | hx
      · exact List.mem_cons_of_mem _ hrow
      · exact ih x hx

theorem reaches (h : Descent rows points start path) :
    ∀ x ∈ path, Relation.ReflTransGen points start x := by
  induction h with
  | start =>
      intro x hx
      rw [List.mem_singleton.mp hx]
  | step _ _ hpoints ih =>
      intro x hx
      rcases List.mem_cons.mp hx with rfl | hx
      · exact (ih _ (List.mem_cons_self ..)).tail hpoints
      · exact ih x hx

/-- The last row points, over other rows perhaps, to each row above it. -/
theorem points_of_mem (h : Descent rows points start path) :
    ∀ row above, path = row :: above → ∀ x ∈ above, Relation.TransGen points x row := by
  induction h with
  | start =>
      rintro row above heq x hx
      cases heq
      cases hx
  | step _ _ hpoints ih =>
      rintro row above heq x hx
      cases heq
      rcases List.mem_cons.mp hx with rfl | hx
      · exact .single hpoints
      · exact (ih _ _ rfl x hx).tail hpoints

theorem notMem (h : Descent rows points start (row :: path)) (hfree : CircleFree points start) :
    row ∉ path := fun hrow =>
  hfree row (h.reaches row (List.mem_cons_self ..)) (h.points_of_mem row path rfl row hrow)

theorem nodup (h : Descent rows points start path) (hfree : CircleFree points start) :
    path.Nodup := by
  induction h with
  | start => exact List.nodup_singleton _
  | step h hrow hpoints ih => exact List.nodup_cons.mpr ⟨(h.step hrow hpoints).notMem hfree, ih⟩

/-- So there are not more rows on a path than there are rows. -/
theorem length_le (h : Descent rows points start path) (hfree : CircleFree points start) :
    path.length ≤ rows.length + 1 :=
  ((h.nodup hfree).subperm h.mem).length_le

end Descent

end EntityMap
