import EntityMap.Proofs.Write.Beside
import EntityMap.Proofs.Write.Rows
import EntityMap.Proofs.Write.Rules

/-!
# What a save deletes

A save sweeps for the collections of its tree, and each of these sweeps
keeps the keys of the items of its collection (`Record.Holds`). Nothing
else is swept but what points to a row that is deleted already, so that
a save accounts for all that it deletes (`Cascade.saveRecord_does`).
-/

namespace EntityMap

theorem Named.get?_insert_self {α : Type} {name : String} {a : α} {entries : Named α} :
    (entries.insert name a).get? name = some a := by
  unfold get?
  induction entries with
  | nil => simp [insert]
  | cons entry rest ih =>
      obtain ⟨other, b⟩ := entry
      unfold insert
      split
      · exact List.lookup_cons_self
      · split
        · exact List.lookup_cons_self
        · rename_i hne
          rw [List.lookup_cons, beq_eq_false_iff_ne.mpr hne]
          exact ih

/-- An entry that is put in its place leaves those of other names alone. -/
theorem Named.get?_insert_of_ne {α : Type} {name member : String} {a : α} {entries : Named α}
    (h : member ≠ name) : (entries.insert name a).get? member = entries.get? member := by
  have hbeq : (member == name) = false := beq_eq_false_iff_ne.mpr h
  unfold get?
  induction entries with
  | nil => rw [insert, List.lookup_cons, hbeq]
  | cons entry rest ih =>
      obtain ⟨other, b⟩ := entry
      unfold insert
      split
      · rw [List.lookup_cons, hbeq]
      · split
        · rename_i heq
          rw [List.lookup_cons, List.lookup_cons, hbeq, ← heq, hbeq]
        · rw [List.lookup_cons, List.lookup_cons, ih]

namespace Record

/-- A record of the tree below another one, or that record itself. -/
inductive Within (q : Record) : Record → Prop
  | here : Within q q
  | reference {r s : Record} {name : String} (hmem : (name, some s) ∈ r.references)
      (h : Within q s) : Within q r
  | item {r s : Record} {name : String} {items : List Record} (hmem : (name, items) ∈ r.collections)
      (hitem : s ∈ items) (h : Within q s) : Within q r

/-- A collection among those of a row is that of an ownership: it hangs on the key of the row,
and `kept` are the keys of its items. -/
def Owns (rules : CascadeRules) (t : Table) (values : Named Value)
    (collections : List (String × List Record)) (o : Ownership) (parentKey : Value)
    (kept : List Value) : Prop :=
  ∃ name items, (name, items) ∈ collections ∧ Cascade.collectionOf rules t name = .ok o ∧
    parentKey = valueOf values o.parentMember ∧
    kept = items.map fun item => valueOf item.values o.childKey.member

/-- A record of the tree has the collection. -/
def Holds (rules : CascadeRules) (r : Record) (o : Ownership) (parentKey : Value)
    (kept : List Value) : Prop :=
  ∃ (q : Record) (t : Table) (keyColumn : Column), q.Within r ∧
    rules.keyedTable q.entity = .ok (t, keyColumn) ∧
    Owns rules t q.values q.collections o parentKey kept

theorem valueOf_eq {member : String} {v : Value} {values : Named Value}
    (h : values.get? member = some v) : valueOf values member = v := by
  rw [valueOf, h]
  rfl

/-- The value of a member that has just been set. -/
theorem valueOf_insert {member : String} {v : Value} {values : Named Value} :
    valueOf (values.insert member v) member = v :=
  valueOf_eq Named.get?_insert_self

variable {rules : CascadeRules} {r s : Record} {o : Ownership} {parentKey : Value}
  {kept : List Value} {name : String}

theorem Holds.reference (hmem : (name, some s) ∈ r.references)
    (h : s.Holds rules o parentKey kept) : r.Holds rules o parentKey kept := by
  obtain ⟨q, t, keyColumn, hq, hrest⟩ := h
  exact ⟨q, t, keyColumn, .reference hmem hq, hrest⟩

theorem Holds.item {items : List Record} (hmem : (name, items) ∈ r.collections) (hitem : s ∈ items)
    (h : s.Holds rules o parentKey kept) : r.Holds rules o parentKey kept := by
  obtain ⟨q, t, keyColumn, hq, hrest⟩ := h
  exact ⟨q, t, keyColumn, .item hmem hitem hq, hrest⟩

end Record

variable {σ : Type} [Executor σ] {rules : CascadeRules}

namespace Cascade

theorem adopt_eq_ok {t : Table} {name entity : String} {expected : NavigationRole} {r : Record}
    {p : Placement} (h : adopt t name expected entity r = .ok p) : p = { entity } := by
  unfold adopt at h
  split at h
  · cases h; rfl
  · cases h

theorem ownership_of_collectionOf {t : Table} {name : String} {o : Ownership}
    (h : collectionOf rules t name = .ok o) :
    rules.keyedTable o.child.entity = .ok (o.child, o.childKey) := by
  obtain ⟨rel, -, ho⟩ := Except.bind_eq_ok_iff.mp h
  exact CascadeRules.keyedTable_child ho

/-- Reasons that no row is due. -/
abbrev SaveAccounts (rules : CascadeRules) (held : Ownership → Value → List Value → Prop)
    (es : List Event) (done : Bool) : Prop :=
  Accounts rules (fun _ _ => False) held es done

/-- What is known of a saved record. -/
structure SavedRecord (rules : CascadeRules) (p : Placement)
    (result : Except WriteError Value × Record) (es : List Event) : Prop where
  accounts : SaveAccounts rules (result.2.Holds rules) es result.1.isOk
  key : ∀ key, result.1 = .ok key → ∃ t keyColumn,
    rules.keyedTable p.entity = .ok (t, keyColumn) ∧
    Record.valueOf result.2.values keyColumn.member = key

def SavedReferences (rules : CascadeRules)
    (result : Except WriteError Unit × Named Value × List (String × Option Record))
    (es : List Event) : Prop :=
  SaveAccounts rules (fun o parentKey kept => ∃ name s, (name, some s) ∈ result.2.2 ∧
    s.Holds rules o parentKey kept) es result.1.isOk

/-- A collection of a row, or of a record in such a collection. -/
def HeldIn (rules : CascadeRules) (t : Table) (values : Named Value)
    (collections : List (String × List Record)) (o : Ownership) (parentKey : Value)
    (kept : List Value) : Prop :=
  Record.Owns rules t values collections o parentKey kept ∨
    ∃ name items s, (name, items) ∈ collections ∧ s ∈ items ∧ s.Holds rules o parentKey kept

theorem HeldIn.mono {t : Table} {values : Named Value}
    {collections collections' : List (String × List Record)} {o : Ownership} {parentKey : Value}
    {kept : List Value} (h : HeldIn rules t values collections o parentKey kept)
    (hsub : ∀ collection ∈ collections, collection ∈ collections') :
    HeldIn rules t values collections' o parentKey kept := by
  rcases h with ⟨name, items, hmem, hrest⟩ | ⟨name, items, s, hmem, hrest⟩
  · exact .inl ⟨name, items, hsub _ hmem, hrest⟩
  · exact .inr ⟨name, items, s, hsub _ hmem, hrest⟩

def SavedCollections (rules : CascadeRules) (t : Table) (values : Named Value)
    (result : Except WriteError Unit × List (String × List Record)) (es : List Event) : Prop :=
  SaveAccounts rules (HeldIn rules t values result.2) es result.1.isOk

/-- What is demanded of the save of one collection. -/
def SavedCollection (rules : CascadeRules) (t : Table) (values : Named Value) :
    Demand (String × List Record) := fun (result, collection) es =>
  SaveAccounts rules (HeldIn rules t values [collection]) es (result.any (·.isOk))

structure SavedItems (rules : CascadeRules) (o : Ownership)
    (result : Except WriteError (List Value) × List Record) (es : List Event) : Prop where
  accounts : SaveAccounts rules (fun o parentKey kept => ∃ s ∈ result.2,
    s.Holds rules o parentKey kept) es result.1.isOk
  keys : ∀ kept, result.1 = .ok kept →
    kept = result.2.map fun item => Record.valueOf item.values o.childKey.member

/-! ## One record, one reference, one collection, one item -/

/-- The collections are the last that is saved of a record. -/
theorem savedRecord_of_collections {p : Placement} {t : Table} {keyColumn : Column} {key : Value}
    {values : Named Value} {references : List (String × Option Record)}
    {collections : List (String × List Record)} {owned : Except WriteError Unit}
    {es esOwned : List Event} (ht : rules.keyedTable p.entity = .ok (t, keyColumn))
    (hbefore : SaveAccounts rules ((Record.mk p.entity (values.insert keyColumn.member key)
      references collections).Holds rules) es true)
    (howned : SavedCollections rules t (values.insert keyColumn.member key) (owned, collections)
      esOwned) :
    SavedRecord rules p (owned.map fun _ => key,
      .mk p.entity (values.insert keyColumn.member key) references collections)
      (es ++ esOwned) := by
  constructor
  case accounts =>
    have hisOk : (owned.map fun _ => key).isOk = owned.isOk := by
      cases owned <;> rfl
    rw [hisOk]
    refine hbefore.append (Accounts.mono_held howned ?_)
    rintro o parentKey kept (hown | ⟨name, items, s, hmem, hitem, hs⟩)
    · exact ⟨_, t, keyColumn, .here, ht, hown⟩
    · exact hs.item hmem hitem
  case key =>
    intro saved hsaved
    cases owned with
    | error e => cases hsaved
    | ok =>
        cases hsaved
        exact ⟨t, keyColumn, ht, Record.valueOf_insert⟩

theorem saveRecord_step {values : Named Value} {references : List (String × Option Record)}
    {collections : List (String × List Record)} {entity : String} (p : Placement)
    (hreferences : ∀ t values, Saving.Does rules
      (saveReferences rules t values references : Saving σ _) (SavedReferences rules))
    (hcollections : ∀ t values isNew, Saving.Does rules
      (saveCollections rules t values isNew collections : Saving σ _)
      (SavedCollections rules t values)) :
    Saving.Does rules
      (saveRecord rules p (.mk entity values references collections) : Saving σ _)
      (SavedRecord rules p) := by
  rw [saveRecord]
  dsimp only
  split
  · exact .pure ⟨.of_quiet (by simp), fun key hkey => by cases hkey⟩
  · rename_i t keyColumn ht
    refine (hreferences t (p.place values)).bind ?_
    rintro ⟨referred, values, references⟩ es hreferred
    -- The references account for the record whatever its row and its collections become.
    have hreferences' : ∀ values collections,
        SaveAccounts rules ((Record.mk p.entity values references collections).Holds rules) es
          referred.isOk := by
      intro values collections
      refine Accounts.mono_held hreferred ?_
      rintro o parentKey kept ⟨name, s, hmem, hs⟩
      exact hs.reference hmem
    cases referred with
    | error e =>
        refine .pure ⟨?_, fun key hkey => by cases hkey⟩
        rw [List.append_nil]
        exact hreferences' values collections
    | ok =>
        have hown : Saving.Does rules
            ((writeRow rules t keyColumn values p.aside).run : Saving σ _)
            fun _ es => ∀ e ∈ es, e.Quiet :=
          writeRow_quiet t keyColumn values p.aside
        refine hown.bind ?_
        rintro (e | ⟨key, isNew⟩) esRow hrow
        · refine .pure ⟨?_, fun key hkey => by cases hkey⟩
          rw [List.append_nil]
          exact (hreferences' values collections).append (.of_quiet hrow)
        · refine (hcollections t (values.insert keyColumn.member key) isNew).bind ?_
          rintro ⟨owned, collections⟩ esOwned howned
          have hbefore : SaveAccounts rules ((Record.mk p.entity
              (values.insert keyColumn.member key) references collections).Holds rules)
              (es ++ esRow) true :=
            (hreferences' (values.insert keyColumn.member key) collections).append (.of_quiet hrow)
          have hsaved := savedRecord_of_collections ht hbefore howned
          rw [List.append_assoc] at hsaved
          refine .pure ?_
          rwa [List.append_nil]

theorem saveReferences_cons {t : Table} {values : Named Value} {name : String} {r : Record}
    {rest : List (String × Option Record)}
    (hrecord : ∀ p, Saving.Does rules (saveRecord rules p r : Saving σ _)
      (SavedRecord rules p))
    (hrest : ∀ values, Saving.Does rules
      (saveReferences rules t values rest : Saving σ _) (SavedReferences rules)) :
    Saving.Does rules
      (saveReferences rules t values ((name, some r) :: rest) : Saving σ _)
      (SavedReferences rules) := by
  rw [saveReferences]
  split
  · exact .pure (.of_quiet (by simp))
  · split
    · exact .pure (.of_quiet (by simp))
    · rename_i placement hadopt
      refine (hrecord placement).bind ?_
      rintro ⟨saved | key, s⟩ es hs
      · refine .pure ?_
        rw [List.append_nil]
        refine Accounts.mono_held hs.accounts ?_
        intro o parentKey kept hheld
        exact ⟨name, s, List.mem_cons_self .., hheld⟩
      · refine (hrest _).bind ?_
        rintro ⟨saved, values, rest⟩ es' hrest
        refine .pure ?_
        rw [List.append_nil]
        refine (Accounts.mono_held hs.accounts ?_).append
          (Accounts.mono_held hrest ?_)
        · intro o parentKey kept hheld
          exact ⟨name, s, List.mem_cons_self .., hheld⟩
        · rintro o parentKey kept ⟨name', s', hmem, hheld⟩
          exact ⟨name', s', List.mem_cons_of_mem _ hmem, hheld⟩

theorem saveReferences_cons_none {t : Table} {values : Named Value} {name : String}
    {rest : List (String × Option Record)}
    (hrest : ∀ values, Saving.Does rules
      (saveReferences rules t values rest : Saving σ _) (SavedReferences rules)) :
    Saving.Does rules
      (saveReferences rules t values ((name, none) :: rest) : Saving σ _)
      (SavedReferences rules) := by
  rw [saveReferences]
  split
  · exact .pure (.of_quiet (by simp))
  · refine (hrest _).bind ?_
    rintro ⟨saved, values, rest⟩ es hrest
    refine .pure ?_
    rw [List.append_nil]
    refine Accounts.mono_held hrest ?_
    rintro o parentKey kept ⟨name', s', hmem, hheld⟩
    exact ⟨name', s', List.mem_cons_of_mem _ hmem, hheld⟩

theorem saveItems_cons {t : Table} {name : String} {o : Ownership} {parentKey : Value} {r : Record}
    {rest : List Record} (ho : rules.keyedTable o.child.entity = .ok (o.child, o.childKey))
    (hrecord : ∀ p, Saving.Does rules (saveRecord rules p r : Saving σ _)
      (SavedRecord rules p))
    (hrest : Saving.Does rules
      (saveItems rules t name o parentKey rest : Saving σ _) (SavedItems rules o)) :
    Saving.Does rules
      (saveItems rules t name o parentKey (r :: rest) : Saving σ _)
      (SavedItems rules o) := by
  rw [saveItems]
  split
  · exact .pure ⟨.of_quiet (by simp), fun kept hkept => by cases hkept⟩
  · rename_i placement hadopt
    refine (hrecord _).bind ?_
    rintro ⟨saved | key, s⟩ es hs
    · refine .pure ⟨?_, fun kept hkept => by cases hkept⟩
      rw [List.append_nil]
      refine Accounts.mono_held hs.accounts ?_
      intro o parentKey kept hheld
      exact ⟨s, List.mem_cons_self .., hheld⟩
    · refine hrest.bind ?_
      rintro ⟨kept, rest⟩ es' hrest
      refine .pure ⟨?_, ?_⟩
      · rw [List.append_nil]
        have hisOk : (kept.map (key :: ·)).isOk = kept.isOk := by
          cases kept <;> rfl
        rw [hisOk]
        refine (Accounts.mono_held hs.accounts ?_).append
          (Accounts.mono_held hrest.accounts ?_)
        · intro o parentKey kept hheld
          exact ⟨s, List.mem_cons_self .., hheld⟩
        · rintro o parentKey kept ⟨s', hmem, hheld⟩
          exact ⟨s', List.mem_cons_of_mem _ hmem, hheld⟩
      · intro all hall
        cases kept with
        | error e => cases hall
        | ok kept =>
            cases hall
            obtain ⟨child, childKey, hchild, hkey⟩ := hs.key key rfl
            have hentity : placement.entity = o.child.entity :=
              congrArg Placement.entity (adopt_eq_ok hadopt)
            rw [hentity, ho] at hchild
            cases hchild
            rw [List.map_cons, hkey, hrest.keys kept rfl]

/-- What is released behind a collection: nothing for a new row. -/
def reconcile (rules : CascadeRules) (o : Ownership) (parentKey : Value) (isNew : Bool)
    (kept : List Value) : Saving σ (Except WriteError Unit) :=
  if isNew then pure (.ok ()) else (releaseOrphans rules o parentKey kept).run

theorem reconcile_does {o : Ownership} {parentKey : Value} {isNew : Bool} {kept : List Value}
    {held : Ownership → Value → List Value → Prop} (hheld : held o parentKey kept) :
    Saving.Does rules (reconcile rules o parentKey isNew kept : Saving σ _)
      fun result es => SaveAccounts rules held es result.isOk := by
  cases isNew with
  | true => exact .pure (.of_quiet (by simp))
  | false =>
      have hswept : Saving.Does rules
          ((releaseOrphans rules o parentKey kept).run : Saving σ _) fun result es =>
            Swept rules o (Deleted rules rules.depth) parentKey kept result es :=
        releaseOrphans_does o parentKey kept
      exact hswept.mono fun _ _ h =>
        h.accounts (deleted_accountable rules.depth) (.collection hheld)

theorem saveCollections_nil (t : Table) (values : Named Value) (isNew : Bool) :
    (saveCollections rules t values isNew [] : Saving σ _) = pure (.ok (), []) := by
  rw [saveCollections, collectionSaves, Saving.together_of_few (by simp), Saving.inTurn]

theorem saveCollection_eq (t : Table) (values : Named Value) (isNew : Bool) (name : String)
    (items : List Record) :
    (saveCollection rules t values isNew (name, items) : Saving σ _) =
      match collectionOf rules t name with
      | .error e => return (.error e, name, items)
      | .ok o => do
        match ← saveItems rules t name o (Record.valueOf values o.parentMember) items with
        | (.error e, items) => return (.error e, name, items)
        | (.ok kept, items) =>
          let released ← reconcile rules o (Record.valueOf values o.parentMember) isNew kept
          return (released, name, items) := by
  rw [saveCollection]
  cases isNew <;> rfl

theorem saveCollection_step {t : Table} {values : Named Value} {isNew : Bool} {name : String}
    {items : List Record}
    (hitems : ∀ o parentKey, rules.keyedTable o.child.entity = .ok (o.child, o.childKey) →
      Saving.Does rules (saveItems rules t name o parentKey items : Saving σ _)
        (SavedItems rules o)) :
    Strand.Meets rules (SavedCollection rules t values)
      (.waiting (name, items) (saveCollection rules t values isNew (name, items)) :
        Strand σ (String × List Record)) := by
  refine ⟨.of_quiet (by simp), ?_⟩
  rw [saveCollection_eq]
  split
  · exact .pure (.of_quiet (by simp))
  · rename_i o ho
    refine (hitems o _ (ownership_of_collectionOf ho)).bind ?_
    rintro ⟨saved, items⟩ es hitems
    have hbelow : SaveAccounts rules (HeldIn rules t values [(name, items)]) es saved.isOk := by
      refine Accounts.mono_held hitems.accounts ?_
      rintro o' parentKey kept ⟨s, hmem, hheld⟩
      exact .inr ⟨name, items, s, List.mem_singleton_self _, hmem, hheld⟩
    cases saved with
    | error e =>
        refine .pure ?_
        rw [List.append_nil]
        exact hbelow
    | ok kept =>
        have howns : HeldIn rules t values [(name, items)] o
            (Record.valueOf values o.parentMember) kept :=
          .inl ⟨name, items, List.mem_singleton_self _, ho, rfl, hitems.keys kept rfl⟩
        refine (reconcile_does howns).bind ?_
        intro released esReleased hreleased
        refine .pure ?_
        rw [List.append_nil]
        exact hbelow.append hreleased

/-- Collections account together for what each of them deletes. -/
theorem savedCollections_of_joined {n : Nat} {t : Table} {values : Named Value}
    {collections items : List (String × List Record)}
    {results : List (Option (Except WriteError Unit))} {es : List Event}
    (h : Joined n (collections.map fun _ => SavedCollection rules t values) results items es) :
    SaveAccounts rules (HeldIn rules t values items) es
      (results.all (·.any (·.isOk))) := by
  induction collections generalizing results items es with
  | nil =>
      cases h
      exact .of_quiet (by simp)
  | cons _ rest ih =>
      cases h with
      | cons h hrest hbeside =>
          refine Accounts.join (Accounts.mono_held h ?_) (Accounts.mono_held (ih hrest) ?_)
            fun _ => hbeside.mem_iff
          · exact fun o parentKey kept hheld => hheld.mono fun _ hmem =>
              List.mem_cons.mpr (.inl (List.mem_singleton.mp hmem))
          · exact fun o parentKey kept hheld => hheld.mono fun _ => List.mem_cons_of_mem _

theorem saveCollections_step {t : Table} {values : Named Value} {isNew : Bool}
    {collections : List (String × List Record)}
    (h : List.Forall₂ (Strand.Meets rules)
      (collections.map fun _ => SavedCollection rules t values)
      (collectionSaves rules t values isNew collections : List (Strand σ _))) :
    Saving.Does rules (saveCollections rules t values isNew collections : Saving σ _)
      (SavedCollections rules t values) := by
  refine (Saving.together_does h).mono ?_
  rintro ⟨result, items⟩ es ⟨results, hjoined, hsettled⟩
  refine (savedCollections_of_joined hjoined).mono_done fun hok => ?_
  cases result with
  | error e => cases hok
  | ok => exact List.all_eq_true.mpr fun result hmem => by rw [hsettled result hmem]; rfl

/-! ## The whole tree -/

-- The recursion is that of the records: each case is the lemma of its step.
mutual

/-- From every cascade, whatever the connection answers, a save accounts for what it deletes. -/
theorem saveRecord_does (p : Placement) : (r : Record) →
    Saving.Does rules (saveRecord rules p r : Saving σ _) (SavedRecord rules p)
  | .mk _ _ references collections =>
      saveRecord_step p (fun t values => saveReferences_does t values references)
        fun t values isNew => saveCollections_step (collectionSaves_meet t values isNew collections)

theorem saveReferences_does (t : Table) (values : Named Value) :
    (references : List (String × Option Record)) → Saving.Does rules
      (saveReferences rules t values references : Saving σ _) (SavedReferences rules)
  | [] => by
      rw [saveReferences]
      exact .pure (.of_quiet (by simp))
  | (_, none) :: rest => saveReferences_cons_none fun values => saveReferences_does t values rest
  | (_, some r) :: rest =>
      saveReferences_cons (fun p => saveRecord_does p r) fun values =>
        saveReferences_does t values rest

theorem collectionSaves_meet (t : Table) (values : Named Value) (isNew : Bool) :
    (collections : List (String × List Record)) → List.Forall₂ (Strand.Meets rules)
      (collections.map fun _ => SavedCollection rules t values)
      (collectionSaves rules t values isNew collections : List (Strand σ _))
  | [] => by
      rw [collectionSaves]
      exact .nil
  | (name, items) :: rest => by
      rw [collectionSaves]
      exact .cons
        (saveCollection_step fun o parentKey ho => saveItems_does t name o parentKey ho items)
        (collectionSaves_meet t values isNew rest)

theorem saveItems_does (t : Table) (name : String) (o : Ownership) (parentKey : Value)
    (ho : rules.keyedTable o.child.entity = .ok (o.child, o.childKey)) : (items : List Record) →
    Saving.Does rules (saveItems rules t name o parentKey items : Saving σ _)
      (SavedItems rules o)
  | [] => by
      rw [saveItems]
      exact .pure ⟨.of_quiet (by simp), fun kept hkept => by cases hkept; rfl⟩
  | r :: rest =>
      saveItems_cons ho (fun p => saveRecord_does p r) (saveItems_does t name o parentKey ho rest)

end

end Cascade

end EntityMap
