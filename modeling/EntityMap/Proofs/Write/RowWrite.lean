import EntityMap.Proofs.Write.Rows

/-!
# The statement of a row

What a save sends for the row of one record when it succeeds. The storage
forms of its values become the assignments of one statement
(`RowWritten`): an insert, an insert that answers the generated key, or a
change; with nothing to assign the row is asked for instead.
-/

namespace EntityMap

variable {σ : Type} [Executor σ] {α β : Type} {rules : CascadeRules}

/-- From every cascade, the answer of a computation that succeeds satisfies `P` with its events. -/
def Writing.Yields (rules : CascadeRules) (m : Writing σ α) (P : α → List Event → Prop) : Prop :=
  Writing.Does rules m fun result es => ∀ a, result = .ok a → P a es

namespace Writing.Yields

variable {P : α → List Event → Prop} {R : β → List Event → Prop}

theorem pure {a : α} (h : P a []) : Yields rules (pure a : Writing σ α) P :=
  Does.pure fun a' ha => by cases ha; exact h

theorem throw_bind {e : WriteError} {f : α → Writing σ β} :
    Yields rules (MonadExcept.throw e >>= f : Writing σ β) R :=
  Does.throw_bind fun b hb => by cases hb

theorem bind {m : Writing σ α} {f : α → Writing σ β} (hm : Yields rules m P)
    (hf : ∀ a es, P a es → Yields rules (f a) fun b es' => R b (es ++ es')) :
    Yields rules (m >>= f) R :=
  Does.bind hm (fun e es _ b hb => by cases hb) fun a es h => hf a es (h a rfl)

theorem ofExcept_bind {answer : Except WriteError α} {f : α → Writing σ β}
    (hf : ∀ a, answer = .ok a → Yields rules (f a) R) :
    Yields rules (Writing.ofExcept answer >>= f) R :=
  Does.ofExcept_bind (fun e _ b hb => by cases hb) hf

theorem mono {m : Writing σ α} {P' : α → List Event → Prop} (h : Yields rules m P)
    (himp : ∀ a es, P a es → P' a es) : Yields rules m P' :=
  Does.mono h fun _ es hP a ha => himp a es (hP a ha)

theorem of_sent {m : Writing σ α} {s : Statement} {e : Except ExecutionError α → Event}
    (h : Does rules m (Sent s e)) : Yields rules m fun a es => es = [e (.ok a)] :=
  Does.mono h fun _ es hsent a ha => by cases ha; exact hsent

end Writing.Yields

theorem Writing.Asks.yields {m : Writing σ α} {P : α → List Event → Prop} (h : Asks rules m P) :
    Yields rules m P :=
  Does.mono h fun _ _ h => h.2

/-- How the row of a record is written: the key that it has then, whether it is a new row, what
is asked for its values, and the event by which it is written. -/
inductive RowWritten (rules : CascadeRules) (t : Table) (keyColumn : Column)
    (values aside : Named Value) : Value → Bool → List Event → Event → Prop
  | inserted {key : Value} {assignments : List Assignment} {s : Statement} {n : Nat}
      {es : List Event} (hkey : key = Record.valueOf values keyColumn.member)
      (hset : key.isUnset keyColumn.type = false)
      (h : Assigned (InsertAssigned rules t values aside) t.columns assignments es) :
      RowWritten rules t keyColumn values aside key true es
        (.executed (t.insertion assignments none) s (.ok n))
  | generated {generated : Value} {assignments : List Assignment} {s : Statement}
      {es : List Event}
      (hunset : (Record.valueOf values keyColumn.member).isUnset keyColumn.type = true)
      (hgenerated : keyColumn.isGenerated = true) (hnull : generated.isNull = false)
      (h : Assigned (InsertAssigned rules t values aside)
        (t.columns.filter (·.member ≠ keyColumn.member)) assignments es) :
      RowWritten rules t keyColumn values aside
        ((generated.coerce? keyColumn.type).getD generated) true es
        (.generated (t.insertion assignments (some keyColumn.column)) s (.ok generated))
  | updated {key : Value} {assignments : List Assignment} {s : Statement} {n : Nat}
      {es : List Event} (hkey : key = Record.valueOf values keyColumn.member)
      (hset : key.isUnset keyColumn.type = false)
      (h : Assigned (UpdateAssigned rules t values aside) (t.columns.filter (!·.primaryKey))
        assignments es) (hsome : assignments ≠ []) (hn : n ≠ 0) :
      RowWritten rules t keyColumn values aside key false es
        (.executed (t.change assignments keyColumn key) s (.ok n))
  /-- Nothing is to be assigned; the row must be there. -/
  | found {key : Value} {s : Statement} {records : RecordSet} {es : List Event}
      (hkey : key = Record.valueOf values keyColumn.member)
      (hset : key.isUnset keyColumn.type = false)
      (h : Assigned (UpdateAssigned rules t values aside) (t.columns.filter (!·.primaryKey)) [] es)
      (hfound : records.storedKeys ≠ []) :
      RowWritten rules t keyColumn values aside key false es
        (.asked t.entity (.compare keyColumn.member .eq key) s (.ok records))

namespace Cascade

open Writing

theorem executeKeyed_yields {t : Table} {op : Operation} {key : Value} {keyColumn : String}
    (hentity : op.entity = t.entity) (hkey : op.key = some ⟨keyColumn, key⟩) :
    Yields rules (executeKeyed t op key : Writing σ Unit) fun _ es =>
      ∃ s n, n ≠ 0 ∧ es = [.executed op s (.ok n)] := by
  refine (executeKeyed_does _ hentity hkey).mono fun result es h a ha => ?_
  cases h with
  | done hn => exact ⟨_, _, hn, rfl⟩
  | unwritten _ => cases ha
  | closed => cases ha
  | failed _ => cases ha

/-- How an insert ends that answers the generated key: unsent, in vain, or with a key. -/
inductive KeyGenerated (keyColumn : Column) (op : Operation) (s : Statement) :
    Except WriteError Value → List Event → Prop
  | unsent {error : WriteError} : KeyGenerated keyColumn op s (.error error) []
  | failed {error : WriteError} {answer : Except ExecutionError Value} :
      KeyGenerated keyColumn op s (.error error) [.generated op s answer]
  | done {generated : Value} (hnull : generated.isNull = false) :
      KeyGenerated keyColumn op s (.ok ((generated.coerce? keyColumn.type).getD generated))
        [.generated op s (.ok generated)]

theorem executeGenerating_does (t : Table) (keyColumn : Column) {op : Operation} {s : Statement}
    (hs : op.statement = .ok s) :
    Does rules (executeGenerating t keyColumn s : Writing σ Value)
      (KeyGenerated keyColumn op s) := by
  unfold executeGenerating
  refine (scalar_does hs).bind ?_ ?_
  · rintro error es (⟨-, rfl⟩ | ⟨source, -, rfl⟩)
    · exact .unsent
    · exact .failed
  · rintro generated es rfl
    split
    · exact Does.throw_bind .failed
    · rename_i hnull
      rw [Bool.not_eq_true] at hnull
      exact .pure (.done hnull)

theorem executeGenerating_yields (t : Table) (keyColumn : Column) {op : Operation} {s : Statement}
    (hs : op.statement = .ok s) :
    Yields rules (executeGenerating t keyColumn s : Writing σ Value) fun key es =>
      ∃ generated, generated.isNull = false ∧ es = [.generated op s (.ok generated)] ∧
        key = (generated.coerce? keyColumn.type).getD generated := by
  refine (executeGenerating_does t keyColumn hs).mono fun result es h key hkey => ?_
  cases h with
  | unsent => cases hkey
  | failed => cases hkey
  | done hnull =>
      cases hkey
      exact ⟨_, hnull, rfl, rfl⟩

/-! ## Rows -/

/-- What is sent for a row that is written: what is asked for its values, and one more statement. -/
def RowSent (rules : CascadeRules) (t : Table) (keyColumn : Column) (values aside : Named Value)
    (isNew : Bool) (key : Value) (es : List Event) : Prop :=
  ∃ asked write, RowWritten rules t keyColumn values aside key isNew asked write ∧
    es = asked ++ [write]

theorem updateRow_yields (t : Table) (keyColumn : Column) (values aside : Named Value)
    (hset : (Record.valueOf values keyColumn.member).isUnset keyColumn.type = false) :
    Yields rules (updateRow rules t keyColumn (Record.valueOf values keyColumn.member) values
      aside : Writing σ Value) (RowSent rules t keyColumn values aside false) := by
  unfold updateRow
  refine Yields.ofExcept_bind fun _ _ => ?_
  refine (collectAssignments_asks (updateAssignment_asks t values aside) _).yields.bind ?_
  intro assignments es hassigned
  split
  · rename_i hempty
    rw [List.isEmpty_iff.mp hempty] at hassigned
    refine (selectKeys_asks _ _).yields.bind ?_
    rintro found esFound ⟨s, records, rfl, rfl⟩
    split
    · exact .throw_bind
    · rename_i hfound
      refine .pure ⟨es, _, .found rfl hset hassigned ?_, rfl⟩
      simpa using hfound
  · rename_i hempty
    refine (executeKeyed_yields rfl rfl).bind ?_
    rintro _ esOwn ⟨s, n, hn, rfl⟩
    refine .pure ⟨es, _, .updated rfl hset hassigned ?_ hn, rfl⟩
    simpa using hempty

theorem insertRow_yields (t : Table) (keyColumn : Column) (values aside : Named Value) :
    Yields rules (insertRow rules t keyColumn (Record.valueOf values keyColumn.member) values
      aside : Writing σ Value) (RowSent rules t keyColumn values aside true) := by
  unfold insertRow
  refine Yields.ofExcept_bind fun _ _ => ?_
  have hinserted : ∀ key : Value, Yields rules (do
      modify fun c => { c with inserted := (t.entity, key) :: c.inserted }
      return key : Writing σ Value) fun answer es => answer = key ∧ es = [] := by
    intro key c
    exact ⟨[], .done c.work, fun answer hanswer => by cases hanswer; exact ⟨rfl, rfl⟩⟩
  dsimp only
  split
  · exact .throw_bind
  · rename_i hgenerates
    refine (collectAssignments_asks (insertAssignment_asks t values aside) _).yields.bind ?_
    intro assignments es hassigned
    refine Yields.ofExcept_bind fun s hs => ?_
    have hs := Except.mapError_eq_ok_iff.mp hs
    by_cases hunset : (Record.valueOf values keyColumn.member).isUnset keyColumn.type = true
    · rw [hunset] at hs hgenerates hassigned ⊢
      have hcolumns : (t.columns.filter fun c => !(true && decide (c.member = keyColumn.member))) =
          t.columns.filter (·.member ≠ keyColumn.member) := by
        simp
      rw [hcolumns] at hassigned
      refine (executeGenerating_yields t keyColumn hs).bind ?_
      rintro key esOwn ⟨generated, hnull, rfl, rfl⟩
      refine (hinserted _).mono ?_
      rintro key esRest ⟨rfl, rfl⟩
      exact ⟨es, _, .generated hunset (by simpa using hgenerates) hnull hassigned, rfl⟩
    · rw [Bool.not_eq_true] at hunset
      rw [hunset] at hs hassigned ⊢
      have hcolumns : (t.columns.filter fun c => !(false && decide (c.member = keyColumn.member))) =
          t.columns := by
        simp
      rw [hcolumns] at hassigned
      refine (Yields.of_sent (execute_does hs)).bind ?_
      rintro n esOwn rfl
      refine (hinserted _).mono ?_
      rintro key esRest ⟨rfl, rfl⟩
      exact ⟨es, _, .inserted rfl hunset hassigned, rfl⟩

/-- A row that is written is written by one statement, behind what is asked for its values. -/
theorem writeRow_yields (t : Table) (keyColumn : Column) (values aside : Named Value) :
    Yields rules (writeRow rules t keyColumn values aside : Writing σ (Value × Bool))
      fun written es => RowSent rules t keyColumn values aside written.2 written.1 es := by
  unfold writeRow
  refine Does.get_bind fun c => ?_
  split
  · refine (insertRow_yields t keyColumn values aside).bind fun key es hsent => .pure ?_
    rwa [List.append_nil]
  · rename_i hroute
    have hset : (Record.valueOf values keyColumn.member).isUnset keyColumn.type = false := by
      rw [routesToInsert, Bool.or_eq_true, not_or, Bool.not_eq_true] at hroute
      exact hroute.1
    refine (updateRow_yields t keyColumn values aside hset).bind fun key es hsent => .pure ?_
    rwa [List.append_nil]

end Cascade

end EntityMap
