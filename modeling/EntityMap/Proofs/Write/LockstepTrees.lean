import EntityMap.Proofs.Write.LockstepBeside

/-!
# Records in lockstep

The saves of two records that are the same go beside each other through
their references, their rows and their collections
(`Cascade.saveRecord_paired`): the keys that they answer stand for each
other, and so do the foreign keys that are taken over. Behind a
collection the same stored children are released, since the keys of its
items are the same to every comparison (`Cascade.reconcile_paired`). The
collections of a record go on beside each other in the order that both
saves have in common (`Saving.together_lockstep`).
-/

namespace EntityMap

variable {σ : Type} [Executor σ] {rules : CascadeRules} {held : σ → Prop}
  {same : String → Value → Value → Prop}

namespace Cascade

open Writing Saving

theorem adopt_eq {t : Table} {name entity : String} {expected : NavigationRole} {r r' : Record}
    (hentity : r'.entity = r.entity) :
    adopt t name expected entity r' = adopt t name expected entity r := by
  unfold adopt
  rw [hentity]

theorem foreignKey_of_adopt {t : Table} {name entity : String} {expected : NavigationRole}
    {r : Record} {p : Placement} (h : adopt t name expected entity r = .ok p) :
    p.foreignKey = none := by
  unfold adopt at h
  split at h
  · cases h
    rfl
  · cases h

/-- Two saves beside each other, which end by what they answer first. -/
abbrev SavedPaired {α β : Type} (rules : CascadeRules) (held : σ → Prop)
    (same : String → Value → Value → Prop) (m m' : Saving σ (Except WriteError α × β))
    (R : Except WriteError α × β → Except WriteError α × β → Prop) : Prop :=
  Saving.Lockstep rules (Twin held same) (Event.Alike same (Updated same))
    (fun saved => failure? saved.1) m m' R

/-- The keys that two saves answer. -/
def SameKeys (R : Value → Value → Prop) (saved saved' : Except WriteError Value × Record) : Prop :=
  ∀ key key', saved.1 = .ok key → saved'.1 = .ok key' → R key key'

/-- The keys that the saves of two records answer. -/
abbrev SameSaved (same : String → Value → Value → Prop) (entity : String) :
    Except WriteError Value × Record → Except WriteError Value × Record → Prop :=
  SameKeys fun key key' => key.Same key' ∧ same entity key key'

/-- The rows that the references of two records leave. -/
abbrev SameReferred (same : String → Value → Value → Prop) (t : Table) (keyColumn : Column)
    (saved saved' : Except WriteError Unit × Named Value × List (String × Option Record)) : Prop :=
  SameRow same t keyColumn saved.2.1 saved'.2.1

/-! ## Behind a step -/

variable (hoblivious : Executor.Oblivious σ) (h : Indistinct rules held same)

include hoblivious h

theorem saveOwn_paired {p p' : Placement} {t : Table} {keyColumn : Column}
    (hp : p.Paired rules same p') (ht : rules.keyedTable p.entity = .ok (t, keyColumn))
    {collections collections' : List (String × List Record)}
    (hcollections : ∀ values values' isNew,
      same t.entity (Record.valueOf values keyColumn.member)
        (Record.valueOf values' keyColumn.member) →
      SavedPaired rules held same (saveCollections rules t values isNew collections)
        (saveCollections rules t values' isNew collections') fun _ _ => True)
    {values values' : Named Value} {references references' : List (String × Option Record)}
    (hrow : SameRow same t keyColumn values values') :
    SavedPaired rules held same (saveOwn rules p t keyColumn collections (values, references) ())
      (saveOwn rules p' t keyColumn collections' (values', references') ())
      (SameKeys (same t.entity)) := by
  obtain ⟨-, ht⟩ := CascadeRules.keyedTable_eq_ok ht
  have hrow := writeRow_paired hoblivious h ht hrow.key hrow.members hp.foreignKey.aside
  unfold saveOwn
  refine Saving.Lockstep.onward hrow (saveOwned_sends p t keyColumn values references _)
    (saveOwned_sends p' t keyColumn values' references' _) ?_
  rintro ⟨key, isNew⟩ ⟨key', isNew'⟩ hwritten
  obtain ⟨rfl, hkeys⟩ : isNew' = isNew ∧ same t.entity key key' := hwritten _ _ rfl rfl
  have howned := hcollections (values.insert keyColumn.member key)
    (values'.insert keyColumn.member key') isNew'
    (by rwa [Record.valueOf_insert, Record.valueOf_insert])
  refine Saving.Lockstep.bind_pure
    (f := fun owned => (owned.1.map fun () => key, Record.mk p.entity _ references owned.2))
    (g := fun owned => (owned.1.map fun () => key', Record.mk p'.entity _ references' owned.2))
    howned ?_ ?_ ?_
  · exact fun _ => failure?_map ..
  · exact fun _ => failure?_map ..
  · intro owned owned' _ _ _ k k' hk hk'
    obtain ⟨-, -, rfl⟩ := Except.map_eq_ok_iff.mp hk
    obtain ⟨-, -, rfl⟩ := Except.map_eq_ok_iff.mp hk'
    exact hkeys

omit hoblivious h

theorem takeOver_paired {t : Table} {keyColumn foreignKey : Column} {values values' : Named Value}
    {name : String} {rest rest' : List (String × Option Record)} {key key' : Value} {s s' : Record}
    (hrow : SameRow same t keyColumn values values') (hkey : key.Same key')
    (hmember : keyColumn.member ≠ foreignKey.member)
    (hrest : ∀ values values', SameRow same t keyColumn values values' →
      SavedPaired rules held same (saveReferences rules t values rest)
        (saveReferences rules t values' rest') (SameReferred same t keyColumn)) :
    SavedPaired rules held same (takeOver rules t values name foreignKey rest s key)
      (takeOver rules t values' name foreignKey rest' s' key') (SameReferred same t keyColumn) := by
  refine Saving.Lockstep.bind_pure
    (f := fun saved => (saved.1, saved.2.1, (name, some s) :: saved.2.2))
    (g := fun saved => (saved.1, saved.2.1, (name, some s') :: saved.2.2))
    (hrest _ _ (hrow.insert hmember hkey)) ?_ ?_ ?_
  · exact fun _ => rfl
  · exact fun _ => rfl
  · exact fun _ _ _ _ hrow => hrow

/-- The keys of the items that two saves keep. -/
def SameKept (R : Value → Value → Prop)
    (saved saved' : Except WriteError (List Value) × List Record) : Prop :=
  ∀ kept kept', saved.1 = .ok kept → saved'.1 = .ok kept' → List.Forall₂ R kept kept'

theorem keepItem_paired {R : Value → Value → Prop} {t : Table} {name : String} {o : Ownership}
    {parentKey parentKey' : Value} {rest rest' : List Record} {key key' : Value}
    {item item' : Record} (hkey : R key key')
    (hrest : SavedPaired rules held same (saveItems rules t name o parentKey rest)
      (saveItems rules t name o parentKey' rest') (SameKept R)) :
    SavedPaired rules held same (keepItem rules t name o parentKey rest item key)
      (keepItem rules t name o parentKey' rest' item' key') (SameKept R) := by
  refine Saving.Lockstep.bind_pure (f := fun saved => (saved.1.map (key :: ·), item :: saved.2))
    (g := fun saved => (saved.1.map (key' :: ·), item' :: saved.2)) hrest ?_ ?_ ?_
  · exact fun _ => failure?_map ..
  · exact fun _ => failure?_map ..
  · intro saved saved' _ _ hkept all all' hall hall'
    obtain ⟨kept, hsaved, rfl⟩ := Except.map_eq_ok_iff.mp hall
    obtain ⟨kept', hsaved', rfl⟩ := Except.map_eq_ok_iff.mp hall'
    exact .cons hkey (hkept kept kept' hsaved hsaved')

include hoblivious h

omit hoblivious in
/-- Of the keys that the connection answers, the same are kept. -/
theorem mem_kept_iff {t : Table} {r : Relationship} {o : Ownership} {parentKey child : Value}
    (ho : rules.Declares t r o) (hreports : o.Reports rules held parentKey child)
    {kept kept' : List Value} (hkept : List.Forall₂ (same o.child.entity) kept kept') :
    child ∈ kept' ↔ child ∈ kept := by
  induction hkept with
  | nil => rfl
  | @cons key key' _ _ hkey _ ih =>
      have hreported := h.reported ho hreports hkey
      rw [List.mem_cons, List.mem_cons, ih, eq_comm (a := child), eq_comm (a := child), hreported]

theorem reconcile_paired {t : Table} {r : Relationship} {o : Ownership}
    {parentKey parentKey' : Value} {isNew : Bool} {kept kept' : List Value}
    (ho : rules.Declares t r o)
    (hnull : parentKey'.isNull = parentKey.isNull)
    (hkept : List.Forall₂ (same o.child.entity) kept kept') :
    Saving.Lockstep rules (Twin held same) (Event.Alike same (Updated same)) failure?
      (reconcile rules o parentKey isNew kept) (reconcile rules o parentKey' isNew kept')
      fun _ _ => True := by
  cases isNew with
  | true => exact .pure rfl rfl trivial
  | false =>
      have hreleased : Paired rules held same (Updated same)
          (releaseOrphans rules o parentKey kept) (releaseOrphans rules o parentKey' kept')
          fun _ _ => True :=
        releaseOrphansBy_paired hoblivious h
          (fun _ _ => deleteRow_paired hoblivious h rules.depth (.inl rfl)) ho hnull
          fun child hreports => mem_kept_iff h ho hreports hkept
      exact Saving.Lockstep.mono hreleased fun _ _ _ => trivial

/-! ## One record, one reference, one item, one collection -/

theorem saveRecord_step_paired {p p' : Placement} (hp : p.Paired rules same p') {name : String}
    {values values' : Named Value} {references references' : List (String × Option Record)}
    {collections collections' : List (String × List Record)} (hvalues : Named.Same values values')
    (hkey : ∀ {t keyColumn}, rules.keyedTable p.entity = .ok (t, keyColumn) →
      same p.entity (Record.valueOf values keyColumn.member)
        (Record.valueOf values' keyColumn.member))
    (hreferences : ∀ t keyColumn, rules.keyedTable p.entity = .ok (t, keyColumn) →
      ∀ values values', SameRow same t keyColumn values values' →
        SavedPaired rules held same (saveReferences rules t values references)
          (saveReferences rules t values' references') (SameReferred same t keyColumn))
    (hcollections : ∀ t keyColumn, rules.keyedTable p.entity = .ok (t, keyColumn) →
      ∀ values values' isNew, same t.entity (Record.valueOf values keyColumn.member)
        (Record.valueOf values' keyColumn.member) →
        SavedPaired rules held same (saveCollections rules t values isNew collections)
          (saveCollections rules t values' isNew collections') fun _ _ => True) :
    SavedPaired rules held same (saveRecord rules p (.mk name values references collections))
      (saveRecord rules p' (.mk name values' references' collections'))
      (SameSaved same p.entity) := by
  cases ht : rules.keyedTable p.entity with
  | error e =>
      have ht' : rules.keyedTable p'.entity = .error e := hp.entity.symm ▸ ht
      rw [saveRecord, saveRecord, ht, ht']
      exact .fail rfl rfl
  | ok keyed =>
      obtain ⟨t, keyColumn⟩ := keyed
      have ht' : rules.keyedTable p'.entity = .ok (t, keyColumn) := hp.entity.symm ▸ ht
      obtain ⟨hentity, -⟩ := CascadeRules.keyedTable_eq_ok ht
      have hrow : SameRow same t keyColumn (p.place values) (p'.place values') :=
        hp.place ht hvalues (hkey ht)
      have hsaved := hreferences t keyColumn ht _ _ hrow
      rw [saveRecord_eq ht, saveRecord_eq ht']
      refine Saving.Lockstep.onwardWith hsaved (saveOwn_sends p t keyColumn collections)
        (saveOwn_sends p' t keyColumn collections') ?_
      rintro ⟨⟩ ⟨values, references⟩ ⟨⟩ ⟨values', references'⟩ hrow
      refine (saveOwn_paired hoblivious h hp ht (hcollections t keyColumn ht) hrow).mono ?_
      intro _ _ hkeys key key' hkey hkey'
      have hsame := hentity ▸ hkeys key key' hkey hkey'
      exact ⟨⟨_, h.coerces ht hsame⟩, hsame⟩

omit hoblivious h

variable (haccepted : rules.catalog.Accepted)

include haccepted

/-- A reference does not write the key. -/
theorem member_ne_of_referenceOf {t : Table} {keyColumn foreignKey : Column} {name : String}
    {r : Relationship} (ht : rules.keyedTable t.entity = .ok (t, keyColumn))
    (hname : referenceOf t name = .ok (r, foreignKey)) : keyColumn.member ≠ foreignKey.member := by
  obtain ⟨hcolumn, hprimary⟩ := foreignKey_of_referenceOf hname
  exact (CascadeRules.member_ne_of_keyedTable haccepted ht hcolumn hprimary).symm

theorem saveReferences_absent_paired {t : Table} {keyColumn : Column} {name : String}
    {rest rest' : List (String × Option Record)}
    (ht : rules.keyedTable t.entity = .ok (t, keyColumn)) {values values' : Named Value}
    (hrow : SameRow same t keyColumn values values')
    (hrest : ∀ values values', SameRow same t keyColumn values values' →
      SavedPaired rules held same (saveReferences rules t values rest)
        (saveReferences rules t values' rest') (SameReferred same t keyColumn)) :
    SavedPaired rules held same (saveReferences rules t values ((name, none) :: rest))
      (saveReferences rules t values' ((name, none) :: rest')) (SameReferred same t keyColumn) := by
  rw [saveReferences, saveReferences]
  cases hname : referenceOf t name with
  | error e => exact .fail rfl rfl
  | ok reference =>
      have hmember := member_ne_of_referenceOf haccepted ht hname
      refine Saving.Lockstep.bind_pure
        (f := fun saved => (saved.1, saved.2.1, (name, none) :: saved.2.2))
        (g := fun saved => (saved.1, saved.2.1, (name, none) :: saved.2.2))
        (hrest _ _ (hrow.insert hmember (.refl .null))) ?_ ?_ ?_
      · exact fun _ => rfl
      · exact fun _ => rfl
      · exact fun _ _ _ _ hrow => hrow

theorem saveReferences_present_paired {t : Table} {keyColumn : Column} {name : String}
    {s s' : Record} {rest rest' : List (String × Option Record)}
    (ht : rules.keyedTable t.entity = .ok (t, keyColumn)) {values values' : Named Value}
    (hrow : SameRow same t keyColumn values values')
    (hsame : ∀ {r c}, referenceOf t name = .ok (r, c) →
      s.Same rules same r.primaryKey.entity s')
    (hrecord : ∀ p : Placement, p.Paired rules same p → s.Same rules same p.entity s' →
      SavedPaired rules held same (saveRecord rules p s) (saveRecord rules p s')
        (SameSaved same p.entity))
    (hrest : ∀ values values', SameRow same t keyColumn values values' →
      SavedPaired rules held same (saveReferences rules t values rest)
        (saveReferences rules t values' rest') (SameReferred same t keyColumn)) :
    SavedPaired rules held same (saveReferences rules t values ((name, some s) :: rest))
      (saveReferences rules t values' ((name, some s') :: rest'))
      (SameReferred same t keyColumn) := by
  cases hname : referenceOf t name with
  | error e =>
      rw [saveReferences, saveReferences, hname]
      exact .fail rfl rfl
  | ok reference =>
      obtain ⟨r, foreignKey⟩ := reference
      have hsame := hsame hname
      have hentity := hsame.entity_eq
      cases hadopt : adopt t name .referenceTarget r.primaryKey.entity s with
      | error e =>
          have hadopt' := (adopt_eq hentity).trans hadopt
          rw [saveReferences, saveReferences, hname]
          dsimp only
          rw [hadopt, hadopt']
          exact .fail rfl rfl
      | ok placement =>
          have hadopt' := (adopt_eq hentity).trans hadopt
          have hsaved := hrecord placement (.alone (foreignKey_of_adopt hadopt))
            ((congrArg Placement.entity (adopt_eq_ok hadopt)).symm ▸ hsame)
          rw [saveReferences_cons_eq hname hadopt, saveReferences_cons_eq hname hadopt']
          refine Saving.Lockstep.onwardWith hsaved
            (takeOver_sends t values name foreignKey rest)
            (takeOver_sends t values' name foreignKey rest') fun key s key' s' hkeys => ?_
          exact takeOver_paired hrow (hkeys key key' rfl rfl).1
            (member_ne_of_referenceOf haccepted ht hname) hrest

omit haccepted

/-- A collection is that of an ownership which its table declares. -/
theorem declares_of_collectionOf {t : Table} {name : String} {o : Ownership}
    (ht : t ∈ rules.catalog.tables) (ho : collectionOf rules t name = .ok o) :
    ∃ r, rules.Declares t r o := by
  obtain ⟨r, hnavigation, howns⟩ := Except.bind_eq_ok_iff.mp ho
  obtain ⟨hr, hinverse⟩ := Table.navigation_eq_ok hnavigation
  exact ⟨r, ht, hr, hinverse, howns⟩

include h

theorem saveItems_cons_paired {t : Table} {r : Relationship} {o : Ownership} {name : String}
    {parentKey parentKey' : Value} {item item' : Record} {rest rest' : List Record}
    (ho : rules.Declares t r o) (hparent : same t.entity parentKey parentKey')
    (hvw : parentKey.Same parentKey') (hitem : item.Same rules same o.child.entity item')
    (hrecord : ∀ p p' : Placement, p.Paired rules same p' → item.Same rules same p.entity item' →
      SavedPaired rules held same (saveRecord rules p item) (saveRecord rules p' item')
        (SameSaved same p.entity))
    (hrest : SavedPaired rules held same (saveItems rules t name o parentKey rest)
      (saveItems rules t name o parentKey' rest') (SameKept (same o.child.entity))) :
    SavedPaired rules held same (saveItems rules t name o parentKey (item :: rest))
      (saveItems rules t name o parentKey' (item' :: rest'))
      (SameKept (same o.child.entity)) := by
  have hchild := CascadeRules.keyedTable_child ho.ownership
  have hentity := hitem.entity_eq
  cases hadopt : adopt t name .collectionItem o.child.entity item with
  | error e =>
      have hadopt' := (adopt_eq hentity).trans hadopt
      rw [saveItems, saveItems, hadopt, hadopt']
      exact .fail rfl rfl
  | ok placement =>
      have hadopt' := (adopt_eq hentity).trans hadopt
      have hplacement : placement.entity = o.child.entity :=
        congrArg Placement.entity (adopt_eq_ok hadopt)
      have hsaved := hrecord { placement with foreignKey := some (o.foreignKey, parentKey) }
        { placement with foreignKey := some (o.foreignKey, parentKey') }
        (.under h ho hplacement hparent hvw) (hplacement.symm ▸ hitem)
      rw [saveItems_cons_eq hadopt, saveItems_cons_eq hadopt']
      refine Saving.Lockstep.onwardWith hsaved (keepItem_sends hchild rest)
        (keepItem_sends hchild rest') fun key item key' item' hkeys => ?_
      exact keepItem_paired (hplacement ▸ (hkeys key key' rfl rfl).2) hrest

variable (hkeyed : rules.catalog.Keyed)

include hoblivious haccepted hkeyed

theorem saveCollection_step_paired {t : Table} {keyColumn : Column}
    {values values' : Named Value} {isNew : Bool} {name : String} {items items' : List Record}
    (ht : rules.keyedTable t.entity = .ok (t, keyColumn))
    (hkey : same t.entity (Record.valueOf values keyColumn.member)
      (Record.valueOf values' keyColumn.member))
    (hitems : ∀ r o, rules.Declares t r o → collectionOf rules t name = .ok o →
      ∀ parentKey parentKey', same t.entity parentKey parentKey' → parentKey.Same parentKey' →
        SavedPaired rules held same (saveItems rules t name o parentKey items)
          (saveItems rules t name o parentKey' items') (SameKept (same o.child.entity))) :
    SavedPaired rules held same (saveCollection rules t values isNew (name, items))
      (saveCollection rules t values' isNew (name, items')) fun _ _ => True := by
  cases ho : collectionOf rules t name with
  | error e =>
      rw [saveCollection, saveCollection, ho]
      exact .fail rfl rfl
  | ok o =>
      obtain ⟨r, hdeclares⟩ := declares_of_collectionOf (CascadeRules.mem_of_keyedTable ht).1 ho
      have hvw : Value.Same _ _ := ⟨_, h.coerces ht hkey⟩
      have hsaved := hitems r o hdeclares ho _ _ hkey hvw
      rw [← parentMember_of_collectionOf haccepted hkeyed ht ho] at hsaved hvw
      rw [saveCollection_ok ho, saveCollection_ok ho]
      refine Saving.Lockstep.onwardWith hsaved (reconcileItems_sends values isNew name o)
        (reconcileItems_sends values' isNew name o) fun kept items kept' items' hkept => ?_
      have hreleased : Saving.Lockstep rules (Twin held same) (Event.Alike same (Updated same))
          failure? (reconcile rules o _ isNew kept) (reconcile rules o _ isNew kept')
          fun _ _ => True :=
        reconcile_paired hoblivious h hdeclares hvw.isNull_eq (hkept kept kept' rfl rfl)
      exact hreleased.bind_pure (f := fun released => (released, name, items))
        (g := fun released => (released, name, items')) (fun _ => rfl) (fun _ => rfl)
        fun _ _ _ _ _ => trivial

omit hoblivious h haccepted hkeyed

/-! ## The whole tree -/

-- The recursion is that of the records: each case is the lemma of its step.
mutual

/-- The saves of two records that are the same go in lockstep. -/
theorem saveRecord_paired (hoblivious : Executor.Oblivious σ) (h : Indistinct rules held same)
    (haccepted : rules.catalog.Accepted) (hkeyed : rules.catalog.Keyed) {p p' : Placement}
    (hp : p.Paired rules same p') : (r : Record) → {r' : Record} → r.Same rules same p.entity r' →
    SavedPaired rules held same (saveRecord rules p r) (saveRecord rules p' r')
      (SameSaved same p.entity)
  | .mk _ _ references collections, _, hr => by
      cases hr with
      | mk hvalues hkey hreferences hcollections =>
        exact saveRecord_step_paired hoblivious h hp hvalues hkey
          (fun _ _ ht _ _ hrow => saveReferences_paired hoblivious h haccepted hkeyed
            (CascadeRules.keyedTable_eq_ok ht).2 hrow references (hreferences ht))
          fun _ _ ht _ _ _ hkey => Saving.together_lockstep rules.maxParallelCollections
            (collectionSaves_paired hoblivious h haccepted hkeyed
              (CascadeRules.keyedTable_eq_ok ht).2 hkey collections (hcollections ht))
termination_by structural r => r

theorem saveReferences_paired (hoblivious : Executor.Oblivious σ)
    (h : Indistinct rules held same) (haccepted : rules.catalog.Accepted)
    (hkeyed : rules.catalog.Keyed) {t : Table} {keyColumn : Column} {values values' : Named Value}
    (ht : rules.keyedTable t.entity = .ok (t, keyColumn))
    (hrow : SameRow same t keyColumn values values') :
    (references : List (String × Option Record)) → {references' : List (String × Option Record)} →
    SameReferences rules same t references references' →
    SavedPaired rules held same (saveReferences rules t values references)
      (saveReferences rules t values' references') (SameReferred same t keyColumn)
  | [], _, hreferences => by
      cases hreferences
      rw [saveReferences, saveReferences]
      exact .pure rfl rfl hrow
  | (_, none) :: rest, _, hreferences => by
      cases hreferences with
      | none hrest =>
        exact saveReferences_absent_paired haccepted ht hrow fun _ _ hrow =>
          saveReferences_paired hoblivious h haccepted hkeyed ht hrow rest hrest
  | (_, some s) :: rest, _, hreferences => by
      cases hreferences with
      | some hsame hrest =>
        exact saveReferences_present_paired haccepted ht hrow hsame
          (fun _ hp hsame => saveRecord_paired hoblivious h haccepted hkeyed hp s hsame)
          fun _ _ hrow => saveReferences_paired hoblivious h haccepted hkeyed ht hrow rest hrest
termination_by structural references => references

theorem collectionSaves_paired (hoblivious : Executor.Oblivious σ)
    (h : Indistinct rules held same) (haccepted : rules.catalog.Accepted)
    (hkeyed : rules.catalog.Keyed) {t : Table} {keyColumn : Column} {values values' : Named Value}
    {isNew : Bool} (ht : rules.keyedTable t.entity = .ok (t, keyColumn))
    (hkey : same t.entity (Record.valueOf values keyColumn.member)
      (Record.valueOf values' keyColumn.member)) :
    (collections : List (String × List Record)) → {collections' : List (String × List Record)} →
    SameCollections rules same t collections collections' →
    List.Forall₂ (Strand.Lockstep rules (Twin held same) (Event.Alike same (Updated same)))
      (collectionSaves rules t values isNew collections : List (Strand σ _))
      (collectionSaves rules t values' isNew collections')
  | [], _, hcollections => by
      cases hcollections
      rw [collectionSaves, collectionSaves]
      exact .nil
  | (_, items) :: rest, _, hcollections => by
      cases hcollections with
      | cons hitems hrest =>
        rw [collectionSaves, collectionSaves]
        refine .cons (.waiting (saveCollection_sends t values isNew _)
          (saveCollection_sends t values' isNew _) ?_)
          (collectionSaves_paired hoblivious h haccepted hkeyed ht hkey rest hrest)
        exact saveCollection_step_paired hoblivious h haccepted hkeyed ht hkey
          fun _ _ ho hname _ _ hparent hvw => saveItems_paired hoblivious h haccepted hkeyed ho
            hparent hvw items (hitems hname)
termination_by structural collections => collections

theorem saveItems_paired (hoblivious : Executor.Oblivious σ) (h : Indistinct rules held same)
    (haccepted : rules.catalog.Accepted) (hkeyed : rules.catalog.Keyed) {t : Table}
    {r : Relationship} {o : Ownership} {name : String} {parentKey parentKey' : Value}
    (ho : rules.Declares t r o) (hparent : same t.entity parentKey parentKey')
    (hvw : parentKey.Same parentKey') : (items : List Record) → {items' : List Record} →
    SameItems rules same o.child.entity items items' →
    SavedPaired rules held same (saveItems rules t name o parentKey items)
      (saveItems rules t name o parentKey' items') (SameKept (same o.child.entity))
  | [], _, hitems => by
      cases hitems
      rw [saveItems, saveItems]
      refine .pure rfl rfl ?_
      rintro _ _ ⟨⟩ ⟨⟩
      exact .nil
  | item :: rest, _, hitems => by
      cases hitems with
      | cons hitem hrest =>
        exact saveItems_cons_paired h ho hparent hvw hitem
          (fun _ _ hp hitem => saveRecord_paired hoblivious h haccepted hkeyed hp item hitem)
          (saveItems_paired hoblivious h haccepted hkeyed ho hparent hvw rest hrest)
termination_by structural items => items

end

end Cascade

end EntityMap
