import EntityMap.Proofs.Write.SaveSteps

/-!
# The events and errors of a save

All that a save sends is sent for the row of a record of its tree, or to
release stored children behind a collection, and when it fails, then
there or since the tree does not fit the catalog. So what holds of each
of these events and errors holds of all of them (`Cascade.saveRecord_within`).
-/

namespace EntityMap

/-- What is made of an answer leaves an error as it is. -/
theorem Except.forall_error_map {ε α β : Type} {E : ε → Prop} {answer : Except ε α} {f : α → β}
    (h : ∀ error, answer = .error error → E error) :
    ∀ error, answer.map f = .error error → E error := by
  cases answer with
  | error e =>
      rintro _ ⟨⟩
      exact h e rfl
  | ok a => exact fun _ heq => by cases heq

variable {σ : Type} [Executor σ] {α β γ δ : Type} {rules : CascadeRules} {Q : Event → Prop}
  {E : WriteError → Prop}

/-- From every cascade, every event of a computation satisfies `Q`, and its error `E` if it
fails. -/
def Writing.Within (rules : CascadeRules) (m : Writing σ α) (Q : Event → Prop)
    (E : WriteError → Prop) : Prop :=
  Writing.Does rules m fun result es =>
    (∀ e ∈ es, Q e) ∧ ∀ error, result = .error error → E error

/-- The same of a save, which says in its answer how it ended. -/
def Saving.Within (rules : CascadeRules) (m : Saving σ (Except WriteError α × β))
    (Q : Event → Prop) (E : WriteError → Prop) : Prop :=
  Saving.Does rules m fun saved es =>
    (∀ e ∈ es, Q e) ∧ ∀ error, saved.1 = .error error → E error

namespace Saving.Within

variable {m : Saving σ (Except WriteError α × β)}

theorem pure {saved : Except WriteError α × β} (h : ∀ error, saved.1 = .error error → E error) :
    Within rules (pure saved : Saving σ _) Q E :=
  Does.pure ⟨by simp, h⟩

/-- What stops by an error. -/
theorem stop {error : WriteError} {b : β} (h : E error) :
    Within rules (Pure.pure (.error error, b) : Saving σ (Except WriteError α × β)) Q E :=
  pure fun _ heq => by cases heq; exact h

theorem bind {f : Except WriteError α × β → Saving σ (Except WriteError γ × δ)}
    (hm : Within rules m Q E)
    (hf : ∀ saved, (∀ error, saved.1 = .error error → E error) → Within rules (f saved) Q E) :
    Within rules (m >>= f) Q E :=
  Does.bind hm fun saved _ h => (hf saved h.2).mono fun _ _ h' =>
    ⟨List.forall_mem_append.mpr ⟨h.1, h'.1⟩, h'.2⟩

theorem onward {m : Writing σ α} {stop : δ}
    {go : α → Saving σ (Except WriteError γ × δ)} (hm : Writing.Within rules m Q E)
    (hgo : ∀ a, Within rules (go a) Q E) : Within rules (m.run >>= Saving.onward stop go) Q E := by
  have hrun : Saving.Does rules m.run fun result es =>
      (∀ e ∈ es, Q e) ∧ ∀ error, result = .error error → E error := hm
  refine hrun.bind fun result es ⟨hevents, herror⟩ => ?_
  have hrest : Within rules (Saving.onward stop go result) Q E := by
    cases result with
    | error error => exact .stop (herror error rfl)
    | ok a => exact hgo a
  exact hrest.mono fun _ _ h => ⟨List.forall_mem_append.mpr ⟨hevents, h.1⟩, h.2⟩

theorem onwardWith {stop : β → δ} {go : β → α → Saving σ (Except WriteError γ × δ)}
    (hm : Within rules m Q E) (hgo : ∀ b a, Within rules (go b a) Q E) :
    Within rules (m >>= Saving.onwardWith stop go) Q E := by
  refine hm.bind fun ⟨answer, b⟩ herror => ?_
  cases answer with
  | error error => exact .stop (herror error rfl)
  | ok a => exact hgo b a

end Saving.Within

/-! ## Beside each other -/

/-- The events of a computation satisfy `Q`, and its error `E` if it fails. -/
def Demand.within (Q : Event → Prop) (E : WriteError → Prop) : Demand β :=
  fun answer es => (∀ e ∈ es, Q e) ∧ ∀ error, answer.1 = some (.error error) → E error

omit [Executor σ] in
theorem Demand.within_of_joined {n : Nat} {strands : List (Strand σ β)}
    {results : List (Option (Except WriteError Unit))} {items : List β} {es : List Event}
    (h : Joined n (strands.map fun _ => Demand.within Q E) results items es) :
    (∀ e ∈ es, Q e) ∧ ∀ error, some (.error error) ∈ results → E error := by
  induction strands generalizing results items es with
  | nil =>
      cases h
      exact ⟨by simp, by simp⟩
  | cons strand strands ih =>
      cases h with
      | cons h hrest hbeside =>
          obtain ⟨hevents, herrors⟩ := ih hrest
          refine ⟨fun e he => ?_, fun error herror => ?_⟩
          · exact (hbeside.mem_iff.mp he).elim (h.1 e) (hevents e)
          · rcases List.mem_cons.mp herror with heq | hmem
            · exact h.2 error heq.symm
            · exact herrors error hmem

namespace Saving.Within

theorem meets {todo : Saving σ (Except WriteError Unit × β)} (h : Within rules todo Q E)
    (item : β) : (Strand.waiting item todo).Meets rules (Demand.within Q E) := by
  refine ⟨⟨by simp, fun _ herror => by cases herror⟩, Does.mono h fun _ _ h => ⟨h.1, ?_⟩⟩
  exact fun error herror => h.2 error (Option.some.inj herror)

theorem together {strands : List (Strand σ β)}
    (h : ∀ strand ∈ strands, strand.Meets rules (Demand.within Q E)) (n : Nat) :
    Within rules (Saving.together n strands) Q E := by
  have hmeets : List.Forall₂ (Strand.Meets rules) (strands.map fun _ => Demand.within Q E)
      strands := by
    rw [List.forall₂_map_left_iff, List.forall₂_same]
    exact h
  refine (together_does (n := n) hmeets).mono ?_
  rintro ⟨result, items⟩ es ⟨results, hjoined, hsettled⟩
  obtain ⟨hevents, herrors⟩ := Demand.within_of_joined hjoined
  refine ⟨hevents, ?_⟩
  rintro error rfl
  exact herrors error hsettled

end Saving.Within

namespace Cascade

open Writing Saving

/-- Properties that the events and errors of each step of a save have: of the rows of its records,
of what releases stored children, and of a tree that does not fit the catalog. -/
structure CoversSteps (σ : Type) [Executor σ] (rules : CascadeRules) (Q : Event → Prop)
    (E : WriteError → Prop) : Prop where
  row : ∀ {entity t keyColumn}, rules.keyedTable entity = .ok (t, keyColumn) → ∀ values aside,
    Writing.Within rules (writeRow rules t keyColumn values aside : Writing σ (Value × Bool)) Q E
  release : ∀ {r o}, rules.ownership r = .ok o → ∀ parentKey kept,
    Writing.Within rules (releaseOrphans rules o parentKey kept : Writing σ Unit) Q E
  table : ∀ {entity error}, rules.keyedTable entity = .error error → E error
  reference : ∀ {t name error}, referenceOf t name = .error error → E error
  adoption : ∀ {t name role entity r error}, adopt t name role entity r = .error error → E error
  collection : ∀ {t name error}, collectionOf rules t name = .error error → E error

theorem reconcile_within (hcovers : CoversSteps σ rules Q E) {t : Table} {name : String}
    {o : Ownership} (ho : collectionOf rules t name = .ok o) (parentKey : Value) (isNew : Bool)
    (kept : List Value) : Writing.Within rules
      (reconcile rules o parentKey isNew kept : Writing σ Unit) Q E := by
  obtain ⟨r, -, ho⟩ := Except.bind_eq_ok_iff.mp ho
  cases isNew with
  | true => exact Does.pure ⟨by simp, fun _ h => by cases h⟩
  | false => exact hcovers.release ho parentKey kept

-- The recursion is that of the records: a step's own events and errors are those of `CoversSteps`.
mutual

/-- What holds of the events and errors of the steps holds of all those of a save. -/
theorem saveRecord_within (hcovers : CoversSteps σ rules Q E) (p : Placement) : (r : Record) →
    Saving.Within rules (saveRecord rules p r : Saving σ _) Q E
  | .mk name values references collections => by
      cases ht : rules.keyedTable p.entity with
      | error e =>
          rw [saveRecord, ht]
          exact .stop (hcovers.table ht)
      | ok keyed =>
          obtain ⟨t, keyColumn⟩ := keyed
          rw [saveRecord_eq ht]
          refine (saveReferences_within hcovers t _ references).onwardWith fun referred _ => ?_
          refine Saving.Within.onward (hcovers.row ht referred.1 p.aside) fun row => ?_
          exact (Saving.Within.together (collectionSaves_within hcovers t _ row.2 collections)
            rules.maxParallelCollections).bind
              fun _ howned => .pure (Except.forall_error_map howned)
termination_by structural r => r

theorem saveReferences_within (hcovers : CoversSteps σ rules Q E) (t : Table)
    (values : Named Value) : (references : List (String × Option Record)) →
      Saving.Within rules (saveReferences rules t values references : Saving σ _) Q E
  | [] => by
      rw [saveReferences]
      exact .pure fun _ h => by cases h
  | (name, none) :: rest => by
      cases hname : referenceOf t name with
      | error e =>
          rw [saveReferences, hname]
          exact .stop (hcovers.reference hname)
      | ok reference =>
          rw [saveReferences, hname]
          exact (saveReferences_within hcovers t _ rest).bind fun _ h => .pure h
  | (name, some r) :: rest => by
      cases hname : referenceOf t name with
      | error e =>
          rw [saveReferences, hname]
          exact .stop (hcovers.reference hname)
      | ok reference =>
          cases hadopt : adopt t name .referenceTarget reference.1.primaryKey.entity r with
          | error e =>
              rw [saveReferences, hname]
              dsimp only
              rw [hadopt]
              exact .stop (hcovers.adoption hadopt)
          | ok placement =>
              rw [saveReferences_cons_eq hname hadopt]
              exact (saveRecord_within hcovers placement r).onwardWith fun _ _ =>
                (saveReferences_within hcovers t _ rest).bind fun _ h => .pure h
termination_by structural references => references

theorem collectionSaves_within (hcovers : CoversSteps σ rules Q E) (t : Table)
    (values : Named Value) (isNew : Bool) : (collections : List (String × List Record)) →
      ∀ strand ∈ (collectionSaves rules t values isNew collections : List (Strand σ _)),
        strand.Meets rules (Demand.within Q E)
  | [] => by
      rw [collectionSaves]
      exact List.forall_mem_nil _
  | (name, items) :: rest => by
      rw [collectionSaves]
      refine List.forall_mem_cons.mpr ⟨Saving.Within.meets ?_ _,
        collectionSaves_within hcovers t values isNew rest⟩
      cases ho : collectionOf rules t name with
      | error e =>
          rw [saveCollection, ho]
          exact .stop (hcovers.collection ho)
      | ok o =>
          rw [saveCollection_ok ho]
          refine (saveItems_within hcovers t name o _ items).onwardWith fun items kept => ?_
          exact Does.bind (reconcile_within hcovers ho _ isNew kept) fun released _ h =>
            Does.pure (List.append_nil _ ▸ h)
termination_by structural collections => collections

theorem saveItems_within (hcovers : CoversSteps σ rules Q E) (t : Table) (name : String)
    (o : Ownership) (parentKey : Value) : (items : List Record) →
      Saving.Within rules (saveItems rules t name o parentKey items : Saving σ _) Q E
  | [] => by
      rw [saveItems]
      exact .pure fun _ h => by cases h
  | item :: rest => by
      cases hadopt : adopt t name .collectionItem o.child.entity item with
      | error e =>
          rw [saveItems, hadopt]
          exact .stop (hcovers.adoption hadopt)
      | ok placement =>
          rw [saveItems_cons_eq hadopt]
          refine (saveRecord_within hcovers _ item).onwardWith fun _ _ => ?_
          exact (saveItems_within hcovers t name o parentKey rest).bind fun _ hkept =>
            .pure (Except.forall_error_map hkept)
termination_by structural items => items

end

end Cascade

end EntityMap
