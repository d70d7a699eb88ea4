import EntityMap.Proofs.Write.Tree

/-!
# The rows of a tree

Each statement of a save is sent for the row of one record of its tree, or
to release stored children behind a collection. The record is found in the
tree as the save leaves it, with its key and its foreign keys filled in,
also when the save fails (`Cascade.saveRecord_placed`). What else the row
is given is a foreign key that records do not have as a member, which
comes from the record that owns the collection (`Record.PlacedIn`).
-/

namespace EntityMap

/-- What comes with an item of a collection: the key of its parent, if records do not have the
foreign key as a member. -/
def Ownership.aside (o : Ownership) (parentKey : Value) : Named Value :=
  if o.foreignKey.shadow then [(o.foreignKey.member, parentKey)] else []

namespace Record

/-- A record of a tree and what comes with it, or the root of the tree and what comes with that. -/
inductive PlacedIn (rules : CascadeRules) (q : Record) (aside : Named Value) :
    Record → Named Value → Prop
  | here : PlacedIn rules q aside q aside
  | reference {r s : Record} {given : Named Value} {name : String}
      (hmem : (name, some s) ∈ r.references) (h : PlacedIn rules q aside s []) :
      PlacedIn rules q aside r given
  | item {r s : Record} {given : Named Value} {name : String} {items : List Record} {t : Table}
      {keyColumn : Column} {o : Ownership} (hmem : (name, items) ∈ r.collections)
      (hitem : s ∈ items) (ht : rules.keyedTable r.entity = .ok (t, keyColumn))
      (ho : Cascade.collectionOf rules t name = .ok o)
      (h : PlacedIn rules q aside s (o.aside (valueOf r.values o.parentMember))) :
      PlacedIn rules q aside r given

/-- The values of a record as the write of its row leaves them: with the key, once it is known. -/
def keyed (keyColumn : Column) (values : Named Value) :
    Except WriteError (Value × Bool) → Named Value
  | .ok (key, _) => values.insert keyColumn.member key
  | .error _ => values

/-- An event releases stored children, or it is one for the row of a record of the tree, which has
an entity, values and what comes with it. -/
def Sends (rules : CascadeRules) (Row : String → Named Value → Named Value → Event → Prop)
    (r : Record) (given : Named Value) (e : Event) : Prop :=
  e.Releases rules ∨ ∃ (q : Record) (aside : Named Value),
    q.PlacedIn rules aside r given ∧ Row q.entity q.values aside e

variable {rules : CascadeRules} {Row : String → Named Value → Named Value → Event → Prop}
  {r s : Record} {given : Named Value} {name : String} {e : Event}

theorem Sends.here (h : Row r.entity r.values given e) : r.Sends rules Row given e :=
  .inr ⟨r, given, .here, h⟩

theorem Sends.reference (hmem : (name, some s) ∈ r.references) (h : s.Sends rules Row [] e) :
    r.Sends rules Row given e :=
  h.imp_right fun ⟨q, aside, hplaced, hrow⟩ => ⟨q, aside, .reference hmem hplaced, hrow⟩

theorem Sends.item {items : List Record} {t : Table} {keyColumn : Column} {o : Ownership}
    (hmem : (name, items) ∈ r.collections) (hitem : s ∈ items)
    (ht : rules.keyedTable r.entity = .ok (t, keyColumn))
    (ho : Cascade.collectionOf rules t name = .ok o)
    (h : s.Sends rules Row (o.aside (valueOf r.values o.parentMember)) e) :
    r.Sends rules Row given e :=
  h.imp_right fun ⟨q, aside, hplaced, hrow⟩ => ⟨q, aside, .item hmem hitem ht ho hplaced, hrow⟩

end Record

variable {σ : Type} [Executor σ] {rules : CascadeRules}
  {Row : String → Named Value → Named Value → Event → Prop}

namespace Cascade

/-- What is sent for the row of a record satisfies `Row` of the record as it is left. -/
def RowsAre (σ : Type) [Executor σ] (rules : CascadeRules)
    (Row : String → Named Value → Named Value → Event → Prop) : Prop :=
  ∀ {entity t keyColumn}, rules.keyedTable entity = .ok (t, keyColumn) → ∀ values aside,
    Writing.Does rules (writeRow rules t keyColumn values aside : Writing σ (Value × Bool))
      fun result es => ∀ e ∈ es, Row entity (Record.keyed keyColumn values result) aside e

/-- An event is one for an item of a collection, or releases stored children. -/
def CollectionSends (rules : CascadeRules)
    (Row : String → Named Value → Named Value → Event → Prop) (t : Table) (values : Named Value)
    (collection : String × List Record) (e : Event) : Prop :=
  e.Releases rules ∨ ∃ o, collectionOf rules t collection.1 = .ok o ∧
    ∃ s ∈ collection.2, s.Sends rules Row (o.aside (Record.valueOf values o.parentMember)) e

/-- What is demanded of the save of one collection. -/
def CollectionPlaced (rules : CascadeRules)
    (Row : String → Named Value → Named Value → Event → Prop) (t : Table) (values : Named Value) :
    Demand (String × List Record) :=
  fun (_, collection) es => ∀ e ∈ es, CollectionSends rules Row t values collection e

/-! ## One record, one reference, one collection, one item -/

theorem saveRecord_placed_step (hrow : RowsAre σ rules Row) {entity : String}
    {values : Named Value} {references : List (String × Option Record)}
    {collections : List (String × List Record)} (p : Placement)
    (hreferences : ∀ t values, Saving.Does rules
      (saveReferences rules t values references : Saving σ _) fun result es =>
        ∀ e ∈ es, ∃ name s, (name, some s) ∈ result.2.2 ∧ s.Sends rules Row [] e)
    (hcollections : ∀ t values isNew, Saving.Does rules
      (saveCollections rules t values isNew collections : Saving σ _) fun result es =>
        ∀ e ∈ es, ∃ collection ∈ result.2, CollectionSends rules Row t values collection e) :
    Saving.Does rules
      (saveRecord rules p (.mk entity values references collections) : Saving σ _)
      fun result es => ∀ e ∈ es, result.2.Sends rules Row p.aside e := by
  rw [saveRecord]
  dsimp only
  split
  · exact .pure (by simp)
  · rename_i t keyColumn ht
    refine (hreferences t (p.place values)).bind ?_
    rintro ⟨referred, values, references⟩ es hreferred
    have hreferences' : ∀ values collections, ∀ e ∈ es,
        (Record.mk p.entity values references collections).Sends rules Row p.aside e := by
      intro values collections e he
      obtain ⟨name, s, hmem, hs⟩ := hreferred e he
      exact hs.reference hmem
    cases referred with
    | error e =>
        refine .pure ?_
        rw [List.append_nil]
        exact hreferences' values collections
    | ok =>
        have hown : Saving.Does rules
            ((writeRow rules t keyColumn values p.aside).run : Saving σ _) fun result es =>
              ∀ e ∈ es, Row p.entity (Record.keyed keyColumn values result) p.aside e :=
          hrow ht values p.aside
        refine hown.bind ?_
        rintro (e | ⟨key, isNew⟩) esRow hsent
        · refine .pure ?_
          rw [List.append_nil]
          exact List.forall_mem_append.mpr ⟨hreferences' values collections,
            fun e he => .here (hsent e he)⟩
        · refine (hcollections t (values.insert keyColumn.member key) isNew).bind ?_
          rintro ⟨owned, collections⟩ esOwned howned
          refine .pure ?_
          rw [List.append_nil, List.forall_mem_append, List.forall_mem_append]
          refine ⟨hreferences' _ collections, fun e he => .here (hsent e he), ?_⟩
          intro e he
          obtain ⟨⟨name, items⟩, hmem, hreleases | ⟨o, ho, s, hitem, hs⟩⟩ := howned e he
          · exact Or.inl hreleases
          · exact hs.item hmem hitem ht ho

theorem saveReferences_placed_step {t : Table} {values : Named Value} {name : String} {r : Record}
    {rest : List (String × Option Record)}
    (hrecord : ∀ p, Saving.Does rules (saveRecord rules p r : Saving σ _) fun result es =>
      ∀ e ∈ es, result.2.Sends rules Row p.aside e)
    (hrest : ∀ values, Saving.Does rules
      (saveReferences rules t values rest : Saving σ _) fun result es =>
        ∀ e ∈ es, ∃ name s, (name, some s) ∈ result.2.2 ∧ s.Sends rules Row [] e) :
    Saving.Does rules
      (saveReferences rules t values ((name, some r) :: rest) : Saving σ _) fun result es =>
        ∀ e ∈ es, ∃ name s, (name, some s) ∈ result.2.2 ∧ s.Sends rules Row [] e := by
  rw [saveReferences]
  split
  · exact .pure (by simp)
  · split
    · exact .pure (by simp)
    · rename_i placement hadopt
      refine (hrecord placement).bind ?_
      rw [adopt_eq_ok hadopt]
      rintro ⟨saved | key, s⟩ es hs
      · refine .pure ?_
        rw [List.append_nil]
        exact fun e he => ⟨name, s, List.mem_cons_self .., hs e he⟩
      · refine (hrest _).bind ?_
        rintro ⟨saved, values, rest⟩ es' hrest
        refine .pure ?_
        rw [List.append_nil, List.forall_mem_append]
        refine ⟨fun e he => ⟨name, s, List.mem_cons_self .., hs e he⟩, fun e he => ?_⟩
        obtain ⟨name', s', hmem, hs'⟩ := hrest e he
        exact ⟨name', s', List.mem_cons_of_mem _ hmem, hs'⟩

theorem saveReferences_placed_none {t : Table} {values : Named Value} {name : String}
    {rest : List (String × Option Record)}
    (hrest : ∀ values, Saving.Does rules
      (saveReferences rules t values rest : Saving σ _) fun result es =>
        ∀ e ∈ es, ∃ name s, (name, some s) ∈ result.2.2 ∧ s.Sends rules Row [] e) :
    Saving.Does rules
      (saveReferences rules t values ((name, none) :: rest) : Saving σ _) fun result es =>
        ∀ e ∈ es, ∃ name s, (name, some s) ∈ result.2.2 ∧ s.Sends rules Row [] e := by
  rw [saveReferences]
  split
  · exact .pure (by simp)
  · refine (hrest _).bind ?_
    rintro ⟨saved, values, rest⟩ es hrest
    refine .pure ?_
    rw [List.append_nil]
    intro e he
    obtain ⟨name', s', hmem, hs'⟩ := hrest e he
    exact ⟨name', s', List.mem_cons_of_mem _ hmem, hs'⟩

theorem saveItems_placed_step {t : Table} {name : String} {o : Ownership} {parentKey : Value}
    {r : Record} {rest : List Record}
    (hrecord : ∀ p, Saving.Does rules (saveRecord rules p r : Saving σ _) fun result es =>
      ∀ e ∈ es, result.2.Sends rules Row p.aside e)
    (hrest : Saving.Does rules (saveItems rules t name o parentKey rest : Saving σ _)
      fun result es => ∀ e ∈ es, ∃ s ∈ result.2, s.Sends rules Row (o.aside parentKey) e) :
    Saving.Does rules (saveItems rules t name o parentKey (r :: rest) : Saving σ _)
      fun result es => ∀ e ∈ es, ∃ s ∈ result.2, s.Sends rules Row (o.aside parentKey) e := by
  rw [saveItems]
  split
  · exact .pure (by simp)
  · rename_i placement hadopt
    refine (hrecord _).bind ?_
    rintro ⟨saved | key, s⟩ es hs
    · refine .pure ?_
      rw [List.append_nil]
      exact fun e he => ⟨s, List.mem_cons_self .., hs e he⟩
    · refine hrest.bind ?_
      rintro ⟨kept, rest⟩ es' hrest
      refine .pure ?_
      rw [List.append_nil, List.forall_mem_append]
      refine ⟨fun e he => ⟨s, List.mem_cons_self .., hs e he⟩, fun e he => ?_⟩
      obtain ⟨s', hmem, hs'⟩ := hrest e he
      exact ⟨s', List.mem_cons_of_mem _ hmem, hs'⟩

theorem reconcile_releases {r : Relationship} {o : Ownership} (ho : rules.ownership r = .ok o)
    (parentKey : Value) (isNew : Bool) (kept : List Value) :
    Saving.Does rules (reconcile rules o parentKey isNew kept : Saving σ _)
      fun _ es => ∀ e ∈ es, e.Releases rules := by
  cases isNew with
  | true => exact .pure (by simp)
  | false => exact releaseOrphans_releases ho parentKey kept

theorem saveCollection_placed_step {t : Table} {values : Named Value} {isNew : Bool} {name : String}
    {items : List Record}
    (hitems : ∀ o parentKey, Saving.Does rules
      (saveItems rules t name o parentKey items : Saving σ _) fun result es =>
        ∀ e ∈ es, ∃ s ∈ result.2, s.Sends rules Row (o.aside parentKey) e) :
    Strand.Meets rules (CollectionPlaced rules Row t values)
      (.waiting (name, items) (saveCollection rules t values isNew (name, items)) :
        Strand σ (String × List Record)) := by
  refine ⟨List.forall_mem_nil _, ?_⟩
  rw [saveCollection_eq]
  split
  · exact .pure (List.forall_mem_nil _)
  · rename_i o ho
    refine (hitems o (Record.valueOf values o.parentMember)).bind ?_
    rintro ⟨saved, items⟩ es hitems
    have hsent : ∀ e ∈ es, CollectionSends rules Row t values (name, items) e :=
      fun e he => Or.inr ⟨o, ho, hitems e he⟩
    cases saved with
    | error e =>
        refine .pure ?_
        rw [List.append_nil]
        exact hsent
    | ok kept =>
        obtain ⟨relationship, -, hownership⟩ := Except.bind_eq_ok_iff.mp ho
        refine (reconcile_releases hownership _ isNew kept).bind ?_
        intro released esReleased hreleased
        refine .pure ?_
        rw [List.append_nil]
        exact List.forall_mem_append.mpr ⟨hsent, fun e he => Or.inl (hreleased e he)⟩

omit [Executor σ] in
theorem collectionSends_of_joined {n : Nat} {t : Table} {values : Named Value}
    {collections items : List (String × List Record)}
    {results : List (Option (Except WriteError Unit))} {es : List Event}
    (h : Joined n (collections.map fun _ => CollectionPlaced rules Row t values) results items es) :
    ∀ e ∈ es, ∃ collection ∈ items, CollectionSends rules Row t values collection e := by
  induction collections generalizing items results es with
  | nil =>
      cases h
      simp
  | cons _ rest ih =>
      cases h with
      | cons h hrest hbeside =>
          intro e he
          rcases hbeside.mem_iff.mp he with he | he
          · exact ⟨_, List.mem_cons_self .., h e he⟩
          · obtain ⟨collection, hmem, hsent⟩ := ih hrest e he
            exact ⟨collection, List.mem_cons_of_mem _ hmem, hsent⟩

theorem saveCollections_placed_step {t : Table} {values : Named Value} {isNew : Bool}
    {collections : List (String × List Record)}
    (h : List.Forall₂ (Strand.Meets rules)
      (collections.map fun _ => CollectionPlaced rules Row t values)
      (collectionSaves rules t values isNew collections : List (Strand σ _))) :
    Saving.Does rules (saveCollections rules t values isNew collections : Saving σ _)
      fun result es =>
        ∀ e ∈ es, ∃ collection ∈ result.2, CollectionSends rules Row t values collection e := by
  refine (Saving.together_does h).mono ?_
  rintro ⟨result, items⟩ es ⟨results, hjoined, -⟩
  exact collectionSends_of_joined hjoined

/-! ## The whole tree -/

-- The recursion is that of the records: each case is the lemma of its step.
mutual

/-- From every cascade, whatever the connection answers: all that a save sends is sent for the row
of a record of the tree that it leaves, or releases stored children. -/
theorem saveRecord_placed (hrow : RowsAre σ rules Row) (p : Placement) : (r : Record) →
    Saving.Does rules (saveRecord rules p r : Saving σ _) fun result es =>
      ∀ e ∈ es, result.2.Sends rules Row p.aside e
  | .mk _ _ references collections =>
      saveRecord_placed_step hrow p (fun t values => saveReferences_placed hrow t values references)
        fun t values isNew =>
          saveCollections_placed_step (collectionSaves_placed hrow t values isNew collections)

theorem saveReferences_placed (hrow : RowsAre σ rules Row) (t : Table) (values : Named Value) :
    (references : List (String × Option Record)) → Saving.Does rules
      (saveReferences rules t values references : Saving σ _) fun result es =>
        ∀ e ∈ es, ∃ name s, (name, some s) ∈ result.2.2 ∧ s.Sends rules Row [] e
  | [] => by
      rw [saveReferences]
      exact .pure (by simp)
  | (_, none) :: rest =>
      saveReferences_placed_none fun values => saveReferences_placed hrow t values rest
  | (_, some r) :: rest =>
      saveReferences_placed_step (fun p => saveRecord_placed hrow p r) fun values =>
        saveReferences_placed hrow t values rest

theorem collectionSaves_placed (hrow : RowsAre σ rules Row) (t : Table) (values : Named Value)
    (isNew : Bool) : (collections : List (String × List Record)) →
      List.Forall₂ (Strand.Meets rules)
        (collections.map fun _ => CollectionPlaced rules Row t values)
        (collectionSaves rules t values isNew collections : List (Strand σ _))
  | [] => by
      rw [collectionSaves]
      exact .nil
  | (name, items) :: rest => by
      rw [collectionSaves]
      exact .cons
        (saveCollection_placed_step fun o parentKey =>
          saveItems_placed hrow t name o parentKey items)
        (collectionSaves_placed hrow t values isNew rest)

theorem saveItems_placed (hrow : RowsAre σ rules Row) (t : Table) (name : String) (o : Ownership)
    (parentKey : Value) : (items : List Record) → Saving.Does rules
      (saveItems rules t name o parentKey items : Saving σ _) fun result es =>
        ∀ e ∈ es, ∃ s ∈ result.2, s.Sends rules Row (o.aside parentKey) e
  | [] => by
      rw [saveItems]
      exact .pure (by simp)
  | r :: rest =>
      saveItems_placed_step (fun p => saveRecord_placed hrow p r)
        (saveItems_placed hrow t name o parentKey rest)

end

end Cascade

end EntityMap
