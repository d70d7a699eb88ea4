import EntityMap.Proofs.Write.Dialogue

/-!
# What is asked for a row

Before a row is inserted or changed, its values are brought into storage
form. This sends nothing but key queries, each for a label that has to be
resolved (`Writing.Asks`), whether it succeeds or not; what it answers when
it succeeds is the storage form of each value (`Stored`), and with it the
assignments of the row.
-/

namespace EntityMap

/-- The keys of some rows are queried for a record's own sake. -/
def Event.IsAsked : Event → Prop
  | .asked .. => True
  | _ => False

/-- What holds of every key query holds of all events that ask. -/
theorem Event.IsAsked.elim {e : Event} (h : e.IsAsked) {Q : Event → Prop}
    (hQ : ∀ entity filter s answer, Q (.asked entity filter s answer)) : Q e := by
  cases e with
  | asked entity filter s answer => exact hQ entity filter s answer
  | _ => exact False.elim h

variable {σ : Type} [Executor σ] {α β : Type} {rules : CascadeRules}

/-- From every cascade, a computation only asks for keys, and what it answers if it succeeds
satisfies `P` with its events. -/
def Writing.Asks (rules : CascadeRules) (m : Writing σ α) (P : α → List Event → Prop) : Prop :=
  Writing.Does rules m fun result es =>
    (∀ e ∈ es, e.IsAsked) ∧ ∀ a, result = .ok a → P a es

namespace Writing.Asks

variable {P : α → List Event → Prop} {R : β → List Event → Prop}

theorem ofExcept {answer : Except WriteError α} (h : ∀ a, answer = .ok a → P a []) :
    Asks rules (Writing.ofExcept answer : Writing σ α) P :=
  Does.ofExcept ⟨by simp, h⟩

theorem pure {a : α} (h : P a []) : Asks rules (pure a : Writing σ α) P :=
  Does.pure ⟨by simp, fun a' ha => by cases ha; exact h⟩

theorem throw {e : WriteError} : Asks rules (throw e : Writing σ α) P :=
  Does.throw ⟨by simp, fun a ha => by cases ha⟩

theorem bind {m : Writing σ α} {f : α → Writing σ β} (hm : Asks rules m P)
    (hf : ∀ a es, P a es → Asks rules (f a) fun b es' => R b (es ++ es')) :
    Asks rules (m >>= f) R := by
  refine Does.bind hm (fun e es ⟨hasked, _⟩ => ⟨hasked, fun b hb => by cases hb⟩) ?_
  rintro a es ⟨hasked, h⟩
  exact (hf a es (h a rfl)).mono fun result es' ⟨hasked', h'⟩ =>
    ⟨List.forall_mem_append.mpr ⟨hasked, hasked'⟩, h'⟩

theorem ofExcept_bind {answer : Except WriteError α} {f : α → Writing σ β}
    (hf : ∀ a, answer = .ok a → Asks rules (f a) R) :
    Asks rules (Writing.ofExcept answer >>= f) R :=
  Does.ofExcept_bind (fun e _ => ⟨by simp, fun b hb => by cases hb⟩) hf

theorem only {m : Writing σ α} (h : Asks rules m P) {Q : Event → Prop}
    (hQ : ∀ entity filter s answer, Q (.asked entity filter s answer)) : Only rules m Q :=
  Does.mono h fun _ _ ⟨hasked, _⟩ e he => (hasked e he).elim hQ

theorem only_bind {m : Writing σ α} {f : α → Writing σ β} (h : Asks rules m P) {Q : Event → Prop}
    (hQ : ∀ entity filter s answer, Q (.asked entity filter s answer))
    (hf : ∀ a es, P a es → Only rules (f a) Q) : Only rules (m >>= f) Q := by
  refine Does.bind h (fun _ _ ⟨hasked, _⟩ e he => (hasked e he).elim hQ) fun a es ⟨hasked, hP⟩ => ?_
  exact (hf a es (hP a rfl)).mono fun _ _ hrest =>
    List.forall_mem_append.mpr ⟨fun e he => (hasked e he).elim hQ, hrest⟩

/-- A list is answered element by element. -/
theorem mapM {f : α → Writing σ β} {R : α → β → Prop} (h : ∀ a, Asks rules (f a) fun b _ => R a b)
    (l : List α) : Asks rules (l.mapM f) fun bs _ => List.Forall₂ R l bs := by
  induction l with
  | nil => exact .pure .nil
  | cons a rest ih =>
      rw [List.mapM_cons]
      exact (h a).bind fun b _ hb => ih.bind fun bs _ hbs => .pure (.cons hb hbs)

end Writing.Asks

/-- A value in the storage form of a column, and what is asked for it. -/
inductive Stored (rules : CascadeRules) (t : Table) (c : Column) (v : Value) :
    Value → List Event → Prop
  | null (h : v.isNull = true) : Stored rules t c v .null []
  | resolved {lookup : Lookup} {s : Statement} {records : RecordSet} {key : Value}
      {keys : List Value} (hvalue : v.isNull = false) (hlookup : c.lookup = some lookup)
      (hkeys : records.storedKeys = key :: keys) :
      Stored rules t c v key
        [.asked lookup.entity (.compare lookup.valueMember .eq v) s (.ok records)]
  | converted {stored : Value} (hvalue : v.isNull = false) (hlookup : c.lookup = none)
      (h : rules.convert t c v = .ok stored) : Stored rules t c v stored []

/-- What a column contributes to a change: the value of its member, if there is one. -/
inductive UpdateAssigned (rules : CascadeRules) (t : Table) (values aside : Named Value)
    (c : Column) : Option Assignment → List Event → Prop
  | absent (h : Cascade.memberValue? values aside c = none) :
      UpdateAssigned rules t values aside c none []
  | assigned {v stored : Value} {es : List Event} (h : Cascade.memberValue? values aside c = some v)
      (hstored : Stored rules t c v stored es) (hrequired : t.requireValue c stored = .ok ()) :
      UpdateAssigned rules t values aside c (some ⟨c.column, stored⟩) es

/-- What a column contributes to an insert: the value of its member, or else what its default
policy says. -/
inductive InsertAssigned (rules : CascadeRules) (t : Table) (values aside : Named Value)
    (c : Column) : Option Assignment → List Event → Prop
  | assigned {v stored : Value} {es : List Event} (h : Cascade.memberValue? values aside c = some v)
      (hvalue : v.isNull = false) (hstored : Stored rules t c v stored es) :
      InsertAssigned rules t values aside c (some ⟨c.column, stored⟩) es
  | left (h : ∀ v, Cascade.memberValue? values aside c = some v → v.isNull = true)
      (hdefault : c.default = .generated ∨ c.default = .database) :
      InsertAssigned rules t values aside c none []
  | literal {v : Value} (h : ∀ v, Cascade.memberValue? values aside c = some v → v.isNull = true)
      (hdefault : c.default = .literal v) :
      InsertAssigned rules t values aside c (some ⟨c.column, v⟩) []
  | null (h : ∀ v, Cascade.memberValue? values aside c = some v → v.isNull = true)
      (hdefault : c.default = .required) (hnullable : c.nullable = true) :
      InsertAssigned rules t values aside c (some ⟨c.column, .null⟩) []

/-- What a patched member contributes, which is none of the key. -/
inductive PatchAssigned (rules : CascadeRules) (t : Table) (member : String) : Assignment → Prop
  | assigned {c : Column} {v stored : Value} {es : List Event} (hc : c ∈ t.columns)
      (hmember : c.member = member) (hprimary : c.primaryKey = false)
      (hstored : Stored rules t c v stored es) (hrequired : t.requireValue c stored = .ok ()) :
      PatchAssigned rules t member ⟨c.column, stored⟩

/-- The assignments of the columns of a list, in their order, and what is asked for them. -/
inductive Assigned (assigned : Column → Option Assignment → List Event → Prop) :
    List Column → List Assignment → List Event → Prop
  | nil : Assigned assigned [] [] []
  | cons {c : Column} {rest : List Column} {own : Option Assignment}
      {assignments : List Assignment} {es es' : List Event} (h : assigned c own es)
      (hrest : Assigned assigned rest assignments es') :
      Assigned assigned (c :: rest) (own.toList ++ assignments) (es ++ es')

namespace Cascade

open Writing

theorem selectKeys_asks (entity : String) (filter : Filter) :
    Asks rules (selectKeys rules entity filter : Writing σ (List Value)) fun keys es =>
      ∃ s records, es = [.asked entity filter s (.ok records)] ∧ keys = records.storedKeys := by
  refine (selectKeys_does (.asked entity filter) (fun _ _ => rfl) (fun _ _ hs => hs)
    fun _ _ => rfl).mono ?_
  rintro result es (⟨_, -, rfl, rfl⟩ | ⟨s, -, hsent⟩)
  · exact ⟨by simp, fun keys hkeys => by cases hkeys⟩
  · cases result with
    | ok keys =>
        obtain ⟨records, rfl, rfl⟩ := hsent
        refine ⟨List.forall_mem_singleton.mpr trivial, fun keys hkeys => ?_⟩
        cases hkeys
        exact ⟨s, records, rfl, rfl⟩
    | error error =>
        refine ⟨?_, fun keys hkeys => by cases hkeys⟩
        obtain ⟨-, rfl⟩ | ⟨source, -, rfl⟩ := hsent
        · simp
        · exact List.forall_mem_singleton.mpr trivial

theorem storageValue_asks (t : Table) (c : Column) (v : Value) :
    Asks rules (storageValue rules t c v : Writing σ Value) (Stored rules t c v) := by
  unfold storageValue
  split
  · rename_i hnull
    exact .pure (.null hnull)
  · rename_i hvalue
    rw [Bool.not_eq_true] at hvalue
    split
    · rename_i lookup hlookup
      unfold resolveLookup
      refine (selectKeys_asks _ _).bind ?_
      rintro keys es ⟨s, records, rfl, rfl⟩
      split
      · rename_i hkeys
        exact .pure (.resolved hvalue hlookup hkeys)
      · exact .throw
    · rename_i hlookup
      exact .ofExcept fun stored hstored => .converted hvalue hlookup hstored

theorem collectAssignments_asks {assign : Column → Writing σ (Option Assignment)}
    {assigned : Column → Option Assignment → List Event → Prop}
    (h : ∀ c, Asks rules (assign c) (assigned c)) (columns : List Column) :
    Asks rules (collectAssignments assign columns) (Assigned assigned columns) := by
  induction columns with
  | nil => exact .pure .nil
  | cons c rest ih =>
      refine (h c).bind fun own es hown => ih.bind fun assignments es' hrest => .pure ?_
      rw [List.append_nil]
      exact .cons hown hrest

theorem updateAssignment_asks (t : Table) (values aside : Named Value) (c : Column) :
    Asks rules (updateAssignment rules t values aside c : Writing σ (Option Assignment))
      (UpdateAssigned rules t values aside c) := by
  unfold updateAssignment
  split
  · rename_i hvalue
    exact .pure (.absent hvalue)
  · rename_i v hvalue
    refine (storageValue_asks t c v).bind fun stored es hstored => ?_
    refine Asks.ofExcept_bind fun _ hrequired => .pure ?_
    rw [List.append_nil]
    exact .assigned hvalue hstored hrequired

theorem insertAssignment_asks (t : Table) (values aside : Named Value) (c : Column) :
    Asks rules (insertAssignment rules t values aside c : Writing σ (Option Assignment))
      (InsertAssigned rules t values aside c) := by
  unfold insertAssignment
  split
  · rename_i v hvalue
    obtain ⟨hvalue, hset⟩ := Option.filter_eq_some_iff.mp hvalue
    refine (storageValue_asks t c v).bind fun stored es hstored => .pure ?_
    rw [List.append_nil]
    exact .assigned hvalue (by simpa using hset) hstored
  · rename_i hnone
    have hnull : ∀ v, memberValue? values aside c = some v → v.isNull = true := by
      intro v hv
      simpa using Option.filter_eq_none_iff.mp hnone v hv
    split
    · rename_i hdefault
      exact .pure (.left hnull (.inl hdefault))
    · rename_i hdefault
      exact .pure (.left hnull (.inr hdefault))
    · rename_i hdefault
      exact .pure (.literal hnull hdefault)
    · rename_i hdefault
      split
      · rename_i hnullable
        exact .pure (.null hnull hdefault hnullable)
      · exact .throw

theorem patchAssignment_asks (t : Table) (member : String) (v : Value) :
    Asks rules (patchAssignment rules t member v : Writing σ Assignment)
      fun a _ => PatchAssigned rules t member a := by
  unfold patchAssignment
  split
  · exact .throw
  · rename_i c hc
    refine (storageValue_asks t c v).bind fun stored es hstored => ?_
    refine Asks.ofExcept_bind fun _ hrequired => .pure ?_
    obtain ⟨hcolumn, hkind⟩ := Option.filter_eq_some_iff.mp hc
    obtain ⟨hmem, hmember⟩ := Table.mem_of_column (Table.column_eq_ok_iff.mpr hcolumn)
    simp only [Bool.and_eq_true, Bool.not_eq_true'] at hkind
    exact .assigned hmem hmember hkind.1 hstored hrequired

end Cascade

end EntityMap
