import EntityMap.Proofs.Query.Selected
import EntityMap.Proofs.Write.Rows
import EntityMap.Proofs.Write.SaveEvents

/-!
# Everything has a statement

A statement cannot be written when it selects nothing, assigns nothing or
lacks the key of its row. A cascade never comes to that: a key query
selects the key, a row is changed only if something is assigned, and the
operations on a row carry its key. So no call of a cascade fails for want
of a statement (`Writing.Stated`).
-/

namespace EntityMap

/-- Whether an error says that something has no statement. -/
def WriteError.isStatement : WriteError → Bool
  | .statement _ => true
  | _ => false

/-- An answer is no error that says that something has no statement. -/
def Expressible {α : Type} (answer : Except WriteError α) : Prop :=
  ∀ error, answer = .error error → error.isStatement = false

namespace Expressible

variable {α β ε : Type}

theorem ok {a : α} : Expressible (.ok a : Except WriteError α) :=
  fun _ h => by cases h

theorem error {error : WriteError} (h : error.isStatement = false) :
    Expressible (.error error : Except WriteError α) :=
  fun _ heq => by cases heq; exact h

theorem bind {answer : Except WriteError α} {f : α → Except WriteError β} (h : Expressible answer)
    (hf : ∀ a, answer = .ok a → Expressible (f a)) : Expressible (answer >>= f) := by
  cases answer with
  | error e => exact error (h e rfl)
  | ok a => exact hf a rfl

theorem mapError {answer : Except ε α} {f : ε → WriteError} (h : ∀ e, (f e).isStatement = false) :
    Expressible (answer.mapError f) := by
  cases answer with
  | error e => exact error (h e)
  | ok a => exact ok

end Expressible

/-! ## Queries and conversions -/

namespace CascadeRules

variable {rules : CascadeRules}

theorem keyedTable_expressible (entity : String) : Expressible (rules.keyedTable entity) :=
  Expressible.bind (.mapError fun _ => rfl) fun _ _ =>
    Expressible.bind (.mapError fun _ => rfl) fun _ _ => .ok

theorem ownership_expressible (r : Relationship) : Expressible (rules.ownership r) :=
  Expressible.bind (keyedTable_expressible _) fun _ _ =>
    Expressible.bind (.mapError fun _ => rfl) fun _ _ => .ok

/-- A key query selects the key. -/
theorem keyQuery_expressible (entity : String) (filter : Filter) :
    Expressible (rules.keyQuery entity filter) := by
  refine Expressible.bind (keyedTable_expressible entity) fun ⟨t, key⟩ _ => ?_
  refine Expressible.bind (.mapError fun _ => rfl) fun ctx _ => ?_
  refine Expressible.bind (.mapError fun _ => rfl) fun plan hplan => ?_
  have hplan := Except.mapError_eq_ok_iff.mp hplan
  have hentries : ((({} : Request).projecting key.member keyLabel).filtered filter).selection =
      .projection [⟨key.member, keyLabel⟩] := rfl
  have hselects := (Request.plan_projects .outer hentries (List.cons_ne_nil _ _)).answer plan hplan
  have hstatement : plan.statement .limitOffset = .ok _ :=
    if_neg (by
      rw [List.isEmpty_iff]
      exact List.ne_nil_of_length_pos (by rw [hselects]; exact Nat.one_pos))
  rw [hstatement]
  exact .ok

theorem convert_expressible (t : Table) (c : Column) (v : Value) :
    Expressible (rules.convert t c v) := by
  unfold convert
  split
  · split
    · exact .mapError fun _ => rfl
    · exact .error rfl
  · split
    · exact .mapError fun _ => rfl
    · split
      · exact .ok
      · exact .error rfl

end CascadeRules

theorem Table.permit_expressible (t : Table) (kind : OperationKind) :
    Expressible (t.permit kind) := by
  unfold permit
  cases kind with
  | insert | update | patch | detach | delete =>
      dsimp only
      split
      · exact .ok
      · exact .error rfl

theorem Table.requireValue_expressible (t : Table) (c : Column) (v : Value) :
    Expressible (t.requireValue c v) := by
  unfold requireValue
  split
  · exact .error rfl
  · exact .ok

theorem Table.navigation_expressible (t : Table) (name : String) (isCollection : Bool) :
    Expressible (t.navigation name isCollection) := by
  unfold navigation
  split
  · exact .error rfl
  · split
    · exact .ok
    · exact .error rfl

/-! ## Computations -/

variable {σ : Type} {α β : Type}

/-- The answers of a computation satisfy `P`, in whatever states the cascade is at its steps. -/
def Saving.Answers (P : α → Prop) : Saving σ α → Prop
  | done a => P a
  | step _ rest => ∀ c, (rest c).Answers P

namespace Saving.Answers

variable {m : Saving σ α} {P P' : α → Prop}

theorem trivial (m : Saving σ α) : m.Answers fun _ => True := by
  induction m with
  | done a => exact True.intro
  | step after rest ih => exact fun c => ih c

theorem and (h : m.Answers P) (h' : m.Answers P') : m.Answers fun a => P a ∧ P' a := by
  induction m with
  | done a => exact ⟨h, h'⟩
  | step after rest ih => exact fun c => ih c (h c) (h' c)

theorem bind {f : α → Saving σ β} {R : β → Prop} (hm : m.Answers P)
    (hf : ∀ a, P a → (f a).Answers R) : (m >>= f).Answers R := by
  induction m with
  | done a => exact hf a hm
  | step after rest ih => exact fun c => ih c (hm c)

end Saving.Answers

/-- What a computation says besides its answer. -/
theorem Saving.Does.and_answers [Executor σ] {rules : CascadeRules} {m : Saving σ α}
    {P : α → List Event → Prop} {R : α → Prop} (h : Does rules m P) (hanswers : m.Answers R) :
    Does rules m fun a es => P a es ∧ R a := by
  induction m generalizing P with
  | done a => exact ⟨h, hanswers⟩
  | step after rest ih =>
      intro c
      obtain ⟨es, hsends, hrest⟩ := h c
      exact ⟨es, hsends, ih c hrest (hanswers c)⟩

/-- From every cascade, a computation does not fail for want of a statement. -/
def Writing.Stated (m : Writing σ α) : Prop :=
  Saving.Answers Expressible m.run

namespace Writing.Stated

theorem ofExcept {answer : Except WriteError α} (h : Expressible answer) :
    Stated (Writing.ofExcept answer : Writing σ α) :=
  h

theorem pure {a : α} : Stated (pure a : Writing σ α) :=
  Expressible.ok

theorem throw {e : WriteError} (h : e.isStatement = false) : Stated (throw e : Writing σ α) :=
  Expressible.error h

theorem throw_bind {e : WriteError} {f : α → Writing σ β} (h : e.isStatement = false) :
    Stated (MonadExcept.throw e >>= f : Writing σ β) :=
  Expressible.error h

theorem inWork {m : Working σ UnitOfWorkError α} : Stated (Writing.inWork m) :=
  fun _ => .mapError fun _ => rfl

/-- After a success the rest goes on. -/
theorem bind_of {m : Writing σ α} {f : α → Writing σ β} {P : Except WriteError α → Prop}
    (hm : Stated m) (hanswers : m.run.Answers P) (hf : ∀ a, P (.ok a) → Stated (f a)) :
    Stated (m >>= f) := by
  refine Saving.Answers.bind (hm.and hanswers) ?_
  rintro (e | a) ⟨hstated, hP⟩
  · exact Expressible.error (hstated e rfl)
  · exact hf a hP

theorem bind {m : Writing σ α} {f : α → Writing σ β} (hm : Stated m) (hf : ∀ a, Stated (f a)) :
    Stated (m >>= f) :=
  hm.bind_of hm fun a _ => hf a

theorem get_bind {f : Cascade σ → Writing σ β} (h : ∀ c, Stated (f c)) : Stated (get >>= f) :=
  h

theorem forM {f : α → Writing σ Unit} (hf : ∀ a, Stated (f a)) (l : List α) :
    Stated (l.forM f) := by
  induction l with
  | nil => exact pure
  | cons a rest ih => exact bind (hf a) fun _ => ih

theorem mapM {f : α → Writing σ β} (hf : ∀ a, Stated (f a)) (l : List α) : Stated (l.mapM f) := by
  induction l with
  | nil => exact pure
  | cons a rest ih =>
      rw [List.mapM_cons]
      exact bind (hf a) fun _ => bind ih fun _ => pure

end Writing.Stated

/-- A list yields an answer for each element. -/
theorem Writing.mapM_answers (f : α → Writing σ β) (l : List α) :
    Saving.Answers (fun answer => ∀ bs, answer = .ok bs → bs.length = l.length)
      (l.mapM f : Writing σ (List β)).run := by
  induction l with
  | nil =>
      rintro _ ⟨⟩
      rfl
  | cons a rest ih =>
      rw [List.mapM_cons]
      refine Saving.Answers.bind (.trivial (f a).run) ?_
      rintro (e | b) -
      · rintro _ ⟨⟩
      · refine Saving.Answers.bind ih ?_
        rintro (e | bs) hlength
        · rintro _ ⟨⟩
        · rintro _ ⟨⟩
          rw [List.length_cons, List.length_cons, hlength bs rfl]

variable [Executor σ] {rules : CascadeRules}

namespace Cascade

open Writing

theorem selectKeys_stated (entity : String) (filter : Filter) :
    Stated (selectKeys rules entity filter : Writing σ (List Value)) :=
  (Stated.ofExcept (CascadeRules.keyQuery_expressible entity filter)).bind fun _ =>
    Stated.inWork.bind fun _ => .pure

theorem executeKeyed_stated {op : Operation} (hop : ∃ s, op.statement = .ok s) (t : Table)
    (key : Value) : Stated (executeKeyed t op key : Writing σ Unit) := by
  obtain ⟨s, hs⟩ := hop
  unfold executeKeyed
  rw [hs]
  refine (Stated.ofExcept .ok).bind fun _ => Stated.inWork.bind fun affected => ?_
  split
  · exact .throw rfl
  · exact .pure

theorem storageValue_stated (t : Table) (c : Column) (v : Value) :
    Stated (storageValue rules t c v : Writing σ Value) := by
  unfold storageValue
  split
  · exact .pure
  · split
    · refine (selectKeys_stated _ _).bind fun keys => ?_
      cases keys with
      | nil => exact .throw rfl
      | cons key _ => exact .pure
    · exact .ofExcept (CascadeRules.convert_expressible t c v)

/-! ## Rows -/

omit [Executor σ] in
theorem collectAssignments_stated {assign : Column → Writing σ (Option Assignment)}
    (h : ∀ c, Stated (assign c)) (columns : List Column) :
    Stated (collectAssignments assign columns) := by
  induction columns with
  | nil => exact .pure
  | cons c rest ih => exact (h c).bind fun _ => ih.bind fun _ => .pure

theorem updateAssignment_stated (t : Table) (values aside : Named Value) (c : Column) :
    Stated (updateAssignment rules t values aside c : Writing σ (Option Assignment)) := by
  unfold updateAssignment
  split
  · exact .pure
  · exact (storageValue_stated t c _).bind fun stored =>
      (Stated.ofExcept (t.requireValue_expressible c stored)).bind fun _ => .pure

theorem insertAssignment_stated (t : Table) (values aside : Named Value) (c : Column) :
    Stated (insertAssignment rules t values aside c : Writing σ (Option Assignment)) := by
  unfold insertAssignment
  split
  · exact (storageValue_stated t c _).bind fun _ => .pure
  · split
    · exact .pure
    · exact .pure
    · exact .pure
    · split
      · exact .pure
      · exact .throw rfl

theorem changeRow_stated (t : Table) (keyColumn : Column) (key : Value)
    (assignments : List Assignment) :
    Stated (changeRow rules t keyColumn key assignments : Writing σ Value) := by
  unfold changeRow
  split
  · refine (selectKeys_stated _ _).bind fun found => ?_
    split
    · exact .throw_bind rfl
    · exact .pure
  · rename_i hassigns
    refine (executeKeyed_stated (Operation.exists_statement rfl (.inr ?_)) t key).bind
      fun _ => .pure
    simpa using hassigns

theorem updateRow_stated (t : Table) (keyColumn : Column) (key : Value)
    (values aside : Named Value) :
    Stated (updateRow rules t keyColumn key values aside : Writing σ Value) := by
  rw [updateRow_eq]
  refine (Stated.ofExcept (t.permit_expressible .update)).bind fun _ => ?_
  exact (collectAssignments_stated (updateAssignment_stated t values aside) _).bind
    fun assignments => changeRow_stated t keyColumn key assignments

/-- An insert has a statement, whatever it assigns. -/
theorem addRow_stated (t : Table) (keyColumn : Column) (key : Value) (generates : Bool)
    (assignments : List Assignment) :
    Stated (addRow t keyColumn key generates assignments : Writing σ Value) := by
  unfold addRow
  refine (Stated.ofExcept .ok).bind fun s => ?_
  cases generates with
  | true =>
      refine Stated.bind (Stated.inWork.bind fun generated => ?_) fun _ _ => .ok
      split
      · exact .throw_bind rfl
      · exact .pure
  | false => exact Stated.bind .inWork fun _ _ => .ok

theorem insertRow_stated (t : Table) (keyColumn : Column) (key : Value)
    (values aside : Named Value) :
    Stated (insertRow rules t keyColumn key values aside : Writing σ Value) := by
  rw [insertRow_eq]
  refine (Stated.ofExcept (t.permit_expressible .insert)).bind fun _ => ?_
  dsimp only
  split
  · exact .throw_bind rfl
  · exact (collectAssignments_stated (insertAssignment_stated t values aside) _).bind
      fun assignments => addRow_stated t keyColumn key _ assignments

theorem writeRow_stated (t : Table) (keyColumn : Column) (values aside : Named Value) :
    Stated (writeRow rules t keyColumn values aside : Writing σ (Value × Bool)) := by
  have hrow : ∀ {m : Writing σ Value} {isNew : Bool}, Stated m →
      Stated (m >>= fun key => pure (key, isNew)) := fun hm => hm.bind fun _ => .pure
  unfold writeRow
  refine Stated.get_bind fun c => ?_
  split
  · exact hrow (insertRow_stated t keyColumn _ values aside)
  · exact hrow (updateRow_stated t keyColumn _ values aside)

theorem patch_stated (entity : String) (key : Value) (changes : Named Value) :
    Stated (patch rules entity key changes : Writing σ Unit) := by
  refine (Stated.ofExcept (CascadeRules.keyedTable_expressible entity)).bind
    fun ⟨t, keyColumn⟩ => ?_
  refine (Stated.ofExcept (t.permit_expressible .patch)).bind fun _ => ?_
  dsimp only
  split
  · exact .throw_bind rfl
  · split
    · rename_i hchanges
      refine Stated.bind_of (.mapM (fun change => ?_) changes) (mapM_answers _ changes)
        fun assignments hlength => ?_
      · unfold patchAssignment
        split
        · exact .throw rfl
        · exact (storageValue_stated t _ _).bind fun stored =>
            (Stated.ofExcept (t.requireValue_expressible _ stored)).bind fun _ => .pure
      · refine executeKeyed_stated (Operation.exists_statement rfl (.inr ?_)) t key
        rw [← List.length_pos_iff, hlength assignments rfl, List.length_pos_iff]
        simpa using hchanges
    · exact .pure

/-! ## Deletions -/

theorem release_stated {delete : String → Value → Writing σ Unit}
    (hdelete : ∀ entity key, Stated (delete entity key)) (o : Ownership) (key : Value) :
    Stated (release o delete key) := by
  unfold release
  split
  · exact hdelete _ _
  · exact (Stated.ofExcept (o.child.permit_expressible .detach)).bind fun _ =>
      executeKeyed_stated (Operation.exists_statement rfl (.inr (List.cons_ne_nil _ _))) _ _

theorem deleteRow_stated (depth : Nat) (entity : String) (key : Value) :
    Stated (deleteRow rules depth entity key : Writing σ Unit) := by
  induction depth generalizing entity key with
  | zero => exact .throw rfl
  | succ depth ih =>
      unfold deleteRow
      refine (Stated.ofExcept (CascadeRules.keyedTable_expressible entity)).bind fun keyed => ?_
      obtain ⟨t, keyColumn⟩ := keyed
      refine (Stated.ofExcept (t.permit_expressible .delete)).bind fun _ => ?_
      dsimp only
      split
      · exact .throw_bind rfl
      · refine (Stated.forM (fun r => ?_) _).bind fun _ =>
          executeKeyed_stated (Operation.exists_statement rfl (.inl rfl)) _ _
        exact (Stated.ofExcept (CascadeRules.ownership_expressible r)).bind fun o =>
          (selectKeys_stated _ _).bind fun _ => .forM (release_stated ih o) _

theorem delete_stated (r : Record) : Stated (delete rules r : Writing σ Unit) :=
  (Stated.ofExcept (CascadeRules.keyedTable_expressible _)).bind fun _ => deleteRow_stated _ _ _

theorem releaseOrphans_stated (o : Ownership) (parentKey : Value) (kept : List Value) :
    Stated (releaseOrphans rules o parentKey kept : Writing σ Unit) :=
  (selectKeys_stated _ _).bind fun _ => .forM (release_stated (deleteRow_stated rules.depth) o) _

/-! ## Trees -/

theorem referenceOf_expressible (t : Table) (name : String) : Expressible (referenceOf t name) := by
  refine Expressible.bind (t.navigation_expressible name false) fun r _ => ?_
  refine Expressible.bind (.mapError fun _ => rfl) fun foreignKey _ => ?_
  dsimp only
  split
  · exact .error rfl
  · exact .ok

theorem adopt_expressible (t : Table) (name : String) (expected : NavigationRole) (entity : String)
    (r : Record) : Expressible (adopt t name expected entity r) := by
  unfold adopt
  split
  · exact .ok
  · exact .error rfl

theorem collectionOf_expressible (t : Table) (name : String) :
    Expressible (collectionOf rules t name) :=
  Expressible.bind (t.navigation_expressible name true) fun r _ =>
    CascadeRules.ownership_expressible r

end Cascade

end EntityMap
