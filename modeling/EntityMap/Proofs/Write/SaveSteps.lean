import EntityMap.Proofs.Write.LockstepRows

/-!
# The steps of a save

A save stops at the first error and hands it on, together with the record
as far as it came (`Saving.onward`). What comes behind each of its steps
has a name here, for two runs beside each other may part: where one stops,
for a value that has no storage form, the other goes on, and then all that
can be said of it is what it sends.
-/

namespace EntityMap

variable {σ : Type} [Executor σ] {α β γ δ : Type}

/-! ## Errors are handed on -/

namespace Saving

open Writing

variable {rules : CascadeRules} {twin : Cascade σ → Cascade σ → Prop}
  {alike : Event → Event → Prop}

omit [Executor σ] in
/-- An error is handed on as it is. -/
theorem exists_onward_eq (stop : δ) (go : α → Saving σ (Except WriteError γ × δ))
    {answer : Except WriteError α} {e : WriteError} (h : failure? answer = some e) :
    ∃ b, onward stop go answer = Pure.pure b ∧ failure? b.1 = some e := by
  cases answer with
  | ok a => cases h
  | error e' => exact ⟨_, rfl, h⟩

theorem onward_sends {stop : δ} {go : α → Saving σ (Except WriteError γ × δ)}
    (h : ∀ a, Sends rules (go a)) (answer : Except WriteError α) :
    Sends rules (onward stop go answer) := by
  cases answer with
  | error e => exact Does.pure trivial
  | ok a => exact h a

namespace Lockstep

variable {S : Except WriteError γ × δ → Except WriteError γ × δ → Prop}

/-- Behind a step of two rows. -/
theorem onward {m m' : Saving σ (Except WriteError α)}
    {R : Except WriteError α → Except WriteError α → Prop} {stop stop' : δ}
    {go go' : α → Saving σ (Except WriteError γ × δ)}
    (hm : Lockstep rules twin alike failure? m m' R) (hsends : ∀ a, Sends rules (go a))
    (hsends' : ∀ a, Sends rules (go' a))
    (hgo : ∀ a a', R (.ok a) (.ok a') →
      Lockstep rules twin alike (fun saved => failure? saved.1) (go a) (go' a') S) :
    Lockstep rules twin alike (fun saved => failure? saved.1) (m >>= onward stop go)
      (m' >>= onward stop' go') S := by
  refine hm.bind (fun answer e he => exists_onward_eq stop go he)
    (fun answer e he => exists_onward_eq stop' go' he) (onward_sends hsends)
    (onward_sends hsends') ?_
  rintro (e | a) (e' | a') hok hok' hR
  · cases hok
  · cases hok
  · cases hok'
  · exact hgo a a' hR

/-- Behind a step of two records. -/
theorem onwardWith {m m' : Saving σ (Except WriteError α × β)}
    {R : Except WriteError α × β → Except WriteError α × β → Prop} {stop stop' : β → δ}
    {go go' : β → α → Saving σ (Except WriteError γ × δ)}
    (hm : Lockstep rules twin alike (fun saved => failure? saved.1) m m' R)
    (hsends : ∀ b a, Sends rules (go b a)) (hsends' : ∀ b a, Sends rules (go' b a))
    (hgo : ∀ a b a' b', R (.ok a, b) (.ok a', b') →
      Lockstep rules twin alike (fun saved => failure? saved.1) (go b a) (go' b' a') S) :
    Lockstep rules twin alike (fun saved => failure? saved.1) (m >>= onwardWith stop go)
      (m' >>= onwardWith stop' go') S := by
  refine hm.bind (fun saved e he => exists_onward_eq (stop saved.2) (go saved.2) he)
    (fun saved e he => exists_onward_eq (stop' saved.2) (go' saved.2) he)
    (fun saved => onward_sends (hsends saved.2) saved.1)
    (fun saved => onward_sends (hsends' saved.2) saved.1) ?_
  rintro ⟨e | a, b⟩ ⟨e' | a', b'⟩ hok hok' hR
  · cases hok
  · cases hok
  · cases hok'
  · exact hgo a b a' b' hR

end Lockstep

end Saving

variable {rules : CascadeRules}

namespace Cascade

open Writing Saving

/-! ## What comes behind a step -/

/-- Saves the collections of a record whose row is written. -/
def saveOwned (rules : CascadeRules) (p : Placement) (t : Table) (keyColumn : Column)
    (values : Named Value) (references : List (String × Option Record))
    (collections : List (String × List Record)) (row : Value × Bool) :
    Saving σ (Except WriteError Value × Record) := do
  let values := values.insert keyColumn.member row.1
  let (owned, collections) ← saveCollections rules t values row.2 collections
  return (owned.map fun () => row.1, .mk p.entity values references collections)

/-- Saves a record whose references are saved: its row, and then its collections. -/
def saveOwn (rules : CascadeRules) (p : Placement) (t : Table) (keyColumn : Column)
    (collections : List (String × List Record))
    (referred : Named Value × List (String × Option Record)) (_done : Unit) :
    Saving σ (Except WriteError Value × Record) :=
  (writeRow rules t keyColumn referred.1 p.aside).run >>=
    onward (.mk p.entity referred.1 referred.2 collections)
      (saveOwned rules p t keyColumn referred.1 referred.2 collections)

theorem saveRecord_eq {p : Placement} {t : Table} {keyColumn : Column}
    (ht : rules.keyedTable p.entity = .ok (t, keyColumn)) (name : String) (values : Named Value)
    (references : List (String × Option Record)) (collections : List (String × List Record)) :
    (saveRecord rules p (.mk name values references collections) : Saving σ _) =
      saveReferences rules t (p.place values) references >>=
        onwardWith (fun referred => .mk p.entity referred.1 referred.2 collections)
          (saveOwn rules p t keyColumn collections) := by
  rw [saveRecord, ht]
  dsimp only
  congr 1
  funext saved
  obtain ⟨referred, values, references⟩ := saved
  cases referred with
  | error e => rfl
  | ok =>
      show _ = saveOwn rules p t keyColumn collections (values, references) ()
      unfold saveOwn
      dsimp only
      congr 1
      funext written
      cases written <;> rfl

/-- Takes over the key of a referenced record, and saves the other references. -/
def takeOver (rules : CascadeRules) (t : Table) (values : Named Value) (name : String)
    (foreignKey : Column) (rest : List (String × Option Record)) (r : Record) (key : Value) :
    Saving σ (Except WriteError Unit × Named Value × List (String × Option Record)) := do
  let (saved, values, rest) ← saveReferences rules t (values.insert foreignKey.member key) rest
  return (saved, values, (name, some r) :: rest)

theorem saveReferences_cons_eq {t : Table} {name : String} {relationship : Relationship}
    {foreignKey : Column} {placement : Placement} {r : Record}
    (hname : referenceOf t name = .ok (relationship, foreignKey))
    (hadopt : adopt t name .referenceTarget relationship.primaryKey.entity r = .ok placement)
    (values : Named Value) (rest : List (String × Option Record)) :
    (saveReferences rules t values ((name, some r) :: rest) : Saving σ _) =
      saveRecord rules placement r >>=
        onwardWith (fun r => (values, (name, some r) :: rest))
          (takeOver rules t values name foreignKey rest) := by
  rw [saveReferences, hname]
  dsimp only
  rw [hadopt]
  dsimp only
  congr 1
  funext saved
  obtain ⟨e | key, r⟩ := saved
  · rfl
  · rfl

/-- Keeps the key of an item, and saves the other items. -/
def keepItem (rules : CascadeRules) (t : Table) (name : String) (o : Ownership) (parentKey : Value)
    (rest : List Record) (item : Record) (key : Value) :
    Saving σ (Except WriteError (List Value) × List Record) := do
  let (kept, rest) ← saveItems rules t name o parentKey rest
  return (kept.map (key :: ·), item :: rest)

theorem saveItems_cons_eq {t : Table} {name : String} {o : Ownership} {parentKey : Value}
    {placement : Placement} {item : Record}
    (hadopt : adopt t name .collectionItem o.child.entity item = .ok placement)
    (rest : List Record) :
    (saveItems rules t name o parentKey (item :: rest) : Saving σ _) =
      saveRecord rules { placement with foreignKey := some (o.foreignKey, parentKey) } item >>=
        onwardWith (fun item => item :: rest) (keepItem rules t name o parentKey rest) := by
  rw [saveItems, hadopt]
  dsimp only
  congr 1
  funext saved
  obtain ⟨e | key, item⟩ := saved
  · rfl
  · rfl

/-- Releases the stored children of a row behind the items of a collection. -/
def reconcileItems (rules : CascadeRules) (values : Named Value) (isNew : Bool) (name : String)
    (o : Ownership) (items : List Record) (kept : List Value) :
    Saving σ (Except WriteError Unit × String × List Record) := do
  let released ← reconcile rules o (Record.valueOf values o.parentMember) isNew kept
  return (released, name, items)

theorem collectionSaves_eq_map (t : Table) (values : Named Value) (isNew : Bool)
    (collections : List (String × List Record)) :
    (collectionSaves rules t values isNew collections : List (Strand σ _)) =
      collections.map fun collection =>
        .waiting collection (saveCollection rules t values isNew collection) := by
  induction collections with
  | nil => rw [collectionSaves, List.map_nil]
  | cons collection rest ih => rw [collectionSaves, List.map_cons, ih]

theorem saveCollection_ok {t : Table} {name : String} {o : Ownership}
    (ho : collectionOf rules t name = .ok o) (values : Named Value) (isNew : Bool)
    (items : List Record) :
    (saveCollection rules t values isNew (name, items) : Saving σ _) =
      saveItems rules t name o (Record.valueOf values o.parentMember) items >>=
        onwardWith (fun items => (name, items)) (reconcileItems rules values isNew name o) := by
  rw [saveCollection_eq, ho]
  dsimp only
  congr 1
  funext saved
  obtain ⟨e | kept, items⟩ := saved
  · rfl
  · rfl

/-! ## What it sends -/

theorem saveOwned_sends (p : Placement) (t : Table) (keyColumn : Column) (values : Named Value)
    (references : List (String × Option Record)) (collections : List (String × List Record))
    (row : Value × Bool) : Saving.Sends rules
      (saveOwned rules p t keyColumn values references collections row : Saving σ _) :=
  (saveCollections_step (collectionSaves_meet t _ row.2 collections)).bind fun _ _ _ =>
    Saving.Does.pure trivial

theorem saveOwn_sends (p : Placement) (t : Table) (keyColumn : Column)
    (collections : List (String × List Record))
    (referred : Named Value × List (String × Option Record)) (done : Unit) :
    Saving.Sends rules
      (saveOwn rules p t keyColumn collections referred done : Saving σ _) := by
  have hrow : Saving.Sends rules ((writeRow rules t keyColumn referred.1 p.aside).run :
      Saving σ _) := (writeRow_quiet t keyColumn referred.1 p.aside).sends
  exact Saving.Does.bind hrow fun written _ _ =>
    onward_sends (saveOwned_sends p t keyColumn referred.1 referred.2 collections) written

theorem takeOver_sends (t : Table) (values : Named Value) (name : String) (foreignKey : Column)
    (rest : List (String × Option Record)) (r : Record) (key : Value) : Saving.Sends rules
      (takeOver rules t values name foreignKey rest r key : Saving σ _) :=
  (saveReferences_does t _ rest).bind fun _ _ _ => Saving.Does.pure trivial

theorem keepItem_sends {t : Table} {name : String} {o : Ownership} {parentKey : Value}
    (ho : rules.keyedTable o.child.entity = .ok (o.child, o.childKey)) (rest : List Record)
    (item : Record) (key : Value) : Saving.Sends rules
      (keepItem rules t name o parentKey rest item key : Saving σ _) :=
  (saveItems_does t name o parentKey ho rest).bind fun _ _ _ => Saving.Does.pure trivial

theorem reconcile_sends (o : Ownership) (parentKey : Value) (isNew : Bool) (kept : List Value) :
    Saving.Sends rules (reconcile rules o parentKey isNew kept : Saving σ _) := by
  cases isNew with
  | true => exact Saving.Does.pure trivial
  | false => exact releaseOrphansBy_sends rules.depth o parentKey kept

theorem reconcileItems_sends (values : Named Value) (isNew : Bool) (name : String) (o : Ownership)
    (items : List Record) (kept : List Value) : Saving.Sends rules
      (reconcileItems rules values isNew name o items kept : Saving σ _) :=
  Saving.Does.bind (reconcile_sends o _ isNew kept) fun _ _ _ => Saving.Does.pure trivial

theorem saveCollection_sends (t : Table) (values : Named Value) (isNew : Bool)
    (collection : String × List Record) : Saving.Sends rules
      (saveCollection rules t values isNew collection : Saving σ _) := by
  obtain ⟨name, items⟩ := collection
  cases ho : collectionOf rules t name with
  | error e =>
      rw [saveCollection, ho]
      exact Saving.Does.pure trivial
  | ok o =>
      rw [saveCollection_ok ho]
      exact (saveItems_does t name o _ (ownership_of_collectionOf ho) items).bind
        fun saved _ _ => onward_sends (reconcileItems_sends values isNew name o saved.2) saved.1

end Cascade

end EntityMap
