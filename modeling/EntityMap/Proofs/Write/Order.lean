import EntityMap.Proofs.Write.Reconciliation
import EntityMap.Proofs.Write.RowWrite

/-!
# The order of a save

A save that succeeds, as what it makes of a tree of records and what it
sends for it (`Saves`): the records that a record refers to come first,
each with its own tree, then the row of the record, and then its
collections, each with its items and what is released behind them. The
events of one collection come beside those of the others; where
collections are saved one after the other, the rows of the tree are
written in one order (`WrittenInOrder`).
-/

namespace EntityMap

/-- A record that names no entity, or this one. -/
def Record.Fits (r : Record) (entity : String) : Prop :=
  r.entity = "" ∨ r.entity = entity

mutual

/-- A record is saved: what it refers to, then its own row, and then its collections. -/
inductive Saves (rules : CascadeRules) : Placement → Record → Value → Record → List Event → Prop
  | intro {p : Placement} {entity : String} {values values' : Named Value}
      {references references' : List (String × Option Record)}
      {collections collections' : List (String × List Record)} {t : Table} {keyColumn : Column}
      {key : Value} {isNew : Bool} {es asked es' : List Event} {write : Event}
      (ht : rules.keyedTable p.entity = .ok (t, keyColumn))
      (hreferences : SavesReferences rules t (p.place values) references values' references' es)
      (hrow : RowWritten rules t keyColumn values' p.aside key isNew asked write)
      (hcollections : SavesCollections rules t (values'.insert keyColumn.member key) isNew
        collections collections' es') :
      Saves rules p (.mk entity values references collections) key
        (.mk p.entity (values'.insert keyColumn.member key) references' collections')
        (es ++ (asked ++ write :: es'))

/-- The references of a record are saved in their order, and their keys are taken over. -/
inductive SavesReferences (rules : CascadeRules) : Table → Named Value →
    List (String × Option Record) → Named Value → List (String × Option Record) →
    List Event → Prop
  | nil {t : Table} {values : Named Value} : SavesReferences rules t values [] values [] []
  | absent {t : Table} {values values' : Named Value} {name : String}
      {rest rest' : List (String × Option Record)} {r : Relationship} {foreignKey : Column}
      {es : List Event} (hname : Cascade.referenceOf t name = .ok (r, foreignKey))
      (hrest : SavesReferences rules t (values.insert foreignKey.member .null) rest values' rest'
        es) :
      SavesReferences rules t values ((name, none) :: rest) values' ((name, none) :: rest') es
  | present {t : Table} {values values' : Named Value} {name : String} {s s' : Record}
      {rest rest' : List (String × Option Record)} {r : Relationship} {foreignKey : Column}
      {key : Value} {es es' : List Event}
      (hname : Cascade.referenceOf t name = .ok (r, foreignKey))
      (hfits : s.Fits r.primaryKey.entity)
      (hrecord : Saves rules { entity := r.primaryKey.entity } s key s' es)
      (hrest : SavesReferences rules t (values.insert foreignKey.member key) rest values' rest'
        es') :
      SavesReferences rules t values ((name, some s) :: rest) values' ((name, some s') :: rest')
        (es ++ es')

/-- The collections of a row are saved, the events of each beside those of the others. -/
inductive SavesCollections (rules : CascadeRules) : Table → Named Value → Bool →
    List (String × List Record) → List (String × List Record) → List Event → Prop
  | nil {t : Table} {values : Named Value} {isNew : Bool} :
      SavesCollections rules t values isNew [] [] []
  | cons {t : Table} {values : Named Value} {isNew : Bool}
      {collection collection' : String × List Record} {rest rest' : List (String × List Record)}
      {es es' w : List Event}
      (hcollection : SavesCollection rules t values isNew collection collection' es)
      (hrest : SavesCollections rules t values isNew rest rest' es')
      (hbeside : Beside rules.maxParallelCollections es es' w) :
      SavesCollections rules t values isNew (collection :: rest) (collection' :: rest') w

/-- A collection of a row is saved, and behind its last item, unless the row is new, its orphans
are released. -/
inductive SavesCollection (rules : CascadeRules) : Table → Named Value → Bool →
    String × List Record → String × List Record → List Event → Prop
  | intro {t : Table} {values : Named Value} {isNew : Bool} {name : String}
      {items items' : List Record} {o : Ownership} {kept : List Value} {es swept : List Event}
      (hname : Cascade.collectionOf rules t name = .ok o)
      (hitems : SavesItems rules o (Record.valueOf values o.parentMember) items kept items' es)
      (hnew : isNew = true → swept = [])
      (hchanged : isNew = false → Swept rules o (Cascade.Deleted rules rules.depth)
        (Record.valueOf values o.parentMember) kept (.ok ()) swept) :
      SavesCollection rules t values isNew (name, items) (name, items') (es ++ swept)

/-- The items of a collection are saved in their order, with the key of their parent. -/
inductive SavesItems (rules : CascadeRules) : Ownership → Value → List Record → List Value →
    List Record → List Event → Prop
  | nil {o : Ownership} {parentKey : Value} : SavesItems rules o parentKey [] [] [] []
  | cons {o : Ownership} {parentKey key : Value} {item item' : Record} {rest rest' : List Record}
      {kept : List Value} {es es' : List Event} (hfits : item.Fits o.child.entity)
      (hrecord : Saves rules
        { entity := o.child.entity, foreignKey := some (o.foreignKey, parentKey) } item key item'
        es)
      (hrest : SavesItems rules o parentKey rest kept rest' es') :
      SavesItems rules o parentKey (item :: rest) (key :: kept) (item' :: rest') (es ++ es')

end

variable {σ : Type} [Executor σ] {rules : CascadeRules}

namespace Cascade

theorem fits_of_adopt {t : Table} {name entity : String} {expected : NavigationRole} {r : Record}
    {p : Placement} (h : adopt t name expected entity r = .ok p) : r.Fits entity := by
  unfold adopt at h
  split at h
  · rename_i hfits
    simpa [Record.Fits] using hfits
  · cases h

/-! ## One record, one reference, one collection, one item -/

theorem saveRecord_saves_step {values : Named Value} {references : List (String × Option Record)}
    {collections : List (String × List Record)} {entity : String} (p : Placement)
    (hreferences : ∀ t values, Saving.Does rules
      (saveReferences rules t values references : Saving σ _) fun result es =>
        result.1 = .ok () →
          SavesReferences rules t values references result.2.1 result.2.2 es)
    (hcollections : ∀ t values isNew, Saving.Does rules
      (saveCollections rules t values isNew collections : Saving σ _) fun result es =>
        result.1 = .ok () → SavesCollections rules t values isNew collections result.2 es) :
    Saving.Does rules
      (saveRecord rules p (.mk entity values references collections) : Saving σ _)
      fun result es => ∀ key, result.1 = .ok key →
        Saves rules p (.mk entity values references collections) key result.2 es := by
  rw [saveRecord]
  dsimp only
  split
  · exact .pure fun key hkey => by cases hkey
  · rename_i t keyColumn ht
    refine (hreferences t (p.place values)).bind ?_
    rintro ⟨referred, values', references'⟩ es hreferred
    cases referred with
    | error e => exact .pure fun key hkey => by cases hkey
    | ok =>
        have hrow : Saving.Does rules
            ((writeRow rules t keyColumn values' p.aside).run : Saving σ _)
            fun result es => ∀ written, result = .ok written →
              RowSent rules t keyColumn values' p.aside written.2 written.1 es :=
          writeRow_yields t keyColumn values' p.aside
        refine hrow.bind ?_
        rintro (e | ⟨key, isNew⟩) esRow hrow
        · exact .pure fun key hkey => by cases hkey
        · refine (hcollections t (values'.insert keyColumn.member key) isNew).bind ?_
          rintro ⟨owned, collections'⟩ esOwned howned
          refine .pure fun saved hsaved => ?_
          cases owned with
          | error e => cases hsaved
          | ok =>
              cases hsaved
              obtain ⟨asked, write, hwritten, rfl⟩ := hrow _ rfl
              rw [List.append_nil, List.append_assoc]
              exact .intro ht (hreferred rfl) hwritten (howned rfl)

theorem saveReferences_saves_none {t : Table} {values : Named Value} {name : String}
    {rest : List (String × Option Record)}
    (hrest : ∀ values, Saving.Does rules
      (saveReferences rules t values rest : Saving σ _) fun result es =>
        result.1 = .ok () → SavesReferences rules t values rest result.2.1 result.2.2 es) :
    Saving.Does rules
      (saveReferences rules t values ((name, none) :: rest) : Saving σ _)
      fun result es => result.1 = .ok () →
        SavesReferences rules t values ((name, none) :: rest) result.2.1 result.2.2 es := by
  rw [saveReferences]
  split
  · exact .pure fun hok => by cases hok
  · rename_i hname
    refine (hrest _).bind ?_
    rintro ⟨saved, values', rest'⟩ es hsaved
    refine .pure fun hok => ?_
    rw [List.append_nil]
    exact .absent hname (hsaved hok)

theorem saveReferences_saves_some {t : Table} {values : Named Value} {name : String} {s : Record}
    {rest : List (String × Option Record)}
    (hrecord : ∀ p, Saving.Does rules (saveRecord rules p s : Saving σ _) fun result es =>
      ∀ key, result.1 = .ok key → Saves rules p s key result.2 es)
    (hrest : ∀ values, Saving.Does rules
      (saveReferences rules t values rest : Saving σ _) fun result es =>
        result.1 = .ok () → SavesReferences rules t values rest result.2.1 result.2.2 es) :
    Saving.Does rules
      (saveReferences rules t values ((name, some s) :: rest) : Saving σ _)
      fun result es => result.1 = .ok () →
        SavesReferences rules t values ((name, some s) :: rest) result.2.1 result.2.2 es := by
  rw [saveReferences]
  split
  · exact .pure fun hok => by cases hok
  · rename_i hname
    split
    · exact .pure fun hok => by cases hok
    · rename_i placement hadopt
      have hfits := fits_of_adopt hadopt
      obtain rfl := adopt_eq_ok hadopt
      refine (hrecord _).bind ?_
      rintro ⟨saved | key, s'⟩ es hs
      · exact .pure fun hok => by cases hok
      · refine (hrest _).bind ?_
        rintro ⟨saved, values', rest'⟩ es' hsaved
        refine .pure fun hok => ?_
        rw [List.append_nil]
        exact .present hname hfits (hs key rfl) (hsaved hok)

theorem saveItems_saves_cons {t : Table} {name : String} {o : Ownership} {parentKey : Value}
    {item : Record} {rest : List Record}
    (hrecord : ∀ p, Saving.Does rules (saveRecord rules p item : Saving σ _)
      fun result es => ∀ key, result.1 = .ok key → Saves rules p item key result.2 es)
    (hrest : Saving.Does rules (saveItems rules t name o parentKey rest : Saving σ _)
      fun result es => ∀ kept, result.1 = .ok kept →
        SavesItems rules o parentKey rest kept result.2 es) :
    Saving.Does rules
      (saveItems rules t name o parentKey (item :: rest) : Saving σ _)
      fun result es => ∀ kept, result.1 = .ok kept →
        SavesItems rules o parentKey (item :: rest) kept result.2 es := by
  rw [saveItems]
  split
  · exact .pure fun kept hkept => by cases hkept
  · rename_i placement hadopt
    have hfits := fits_of_adopt hadopt
    obtain rfl := adopt_eq_ok hadopt
    refine (hrecord _).bind ?_
    rintro ⟨saved | key, item'⟩ es hitem
    · exact .pure fun kept hkept => by cases hkept
    · refine hrest.bind ?_
      rintro ⟨saved, rest'⟩ es' hsaved
      refine .pure fun kept hkept => ?_
      cases saved with
      | error e => cases hkept
      | ok kept' =>
          cases hkept
          rw [List.append_nil]
          exact .cons hfits (hitem key rfl) (hsaved kept' rfl)

theorem reconcile_swept (o : Ownership) (parentKey : Value) (isNew : Bool) (kept : List Value) :
    Saving.Does rules (reconcile rules o parentKey isNew kept : Saving σ _)
      fun result es => result = .ok () → (isNew = true → es = []) ∧
        (isNew = false → Swept rules o (Deleted rules rules.depth) parentKey kept (.ok ()) es) := by
  cases isNew with
  | true => exact .pure fun _ => ⟨fun _ => rfl, fun h => by cases h⟩
  | false =>
      have hswept : Saving.Does rules
          ((releaseOrphans rules o parentKey kept).run : Saving σ _) fun result es =>
            Swept rules o (Deleted rules rules.depth) parentKey kept result es :=
        releaseOrphans_does o parentKey kept
      refine hswept.mono fun result es h hok => ⟨fun h => (by cases h), fun _ => ?_⟩
      rwa [hok] at h

theorem saveCollection_saves_step {t : Table} {values : Named Value} {isNew : Bool} {name : String}
    {items : List Record}
    (hitems : ∀ o parentKey, Saving.Does rules
      (saveItems rules t name o parentKey items : Saving σ _) fun result es =>
        ∀ kept, result.1 = .ok kept → SavesItems rules o parentKey items kept result.2 es) :
    Strand.Meets rules (fun result es => result.1 = some (.ok ()) →
        SavesCollection rules t values isNew (name, items) result.2 es)
      (.waiting (name, items) (saveCollection rules t values isNew (name, items)) :
        Strand σ (String × List Record)) := by
  refine ⟨fun hbegun => (by cases hbegun), ?_⟩
  rw [saveCollection_eq]
  split
  · exact .pure fun hok => by cases hok
  · rename_i o hname
    refine (hitems o _).bind ?_
    rintro ⟨saved | kept, items'⟩ es hsaved
    · exact .pure fun hok => by cases hok
    · refine (reconcile_swept o _ isNew kept).bind ?_
      intro released swept hreconciled
      refine .pure fun hok => ?_
      rw [List.append_nil]
      obtain ⟨hnew, hchanged⟩ := hreconciled (Option.some.inj hok)
      exact .intro hname (hsaved kept rfl) hnew hchanged

theorem savesCollections_of_joined {t : Table} {values : Named Value} {isNew : Bool}
    {collections collections' : List (String × List Record)}
    {results : List (Option (Except WriteError Unit))} {es : List Event}
    (h : Joined rules.maxParallelCollections
      (collections.map fun collection result es => result.1 = some (.ok ()) →
        SavesCollection rules t values isNew collection result.2 es) results collections' es)
    (hok : ∀ result ∈ results, result = some (.ok ())) :
    SavesCollections rules t values isNew collections collections' es := by
  induction collections generalizing results collections' es with
  | nil =>
      cases h
      exact .nil
  | cons collection rest ih =>
      cases h with
      | cons h hrest hbeside =>
          obtain ⟨hfirst, hok⟩ := List.forall_mem_cons.mp hok
          exact .cons (h hfirst) (ih hrest hok) hbeside

theorem saveCollections_saves_step {t : Table} {values : Named Value} {isNew : Bool}
    {collections : List (String × List Record)}
    (h : List.Forall₂ (Strand.Meets rules)
      (collections.map fun collection result es => result.1 = some (.ok ()) →
        SavesCollection rules t values isNew collection result.2 es)
      (collectionSaves rules t values isNew collections : List (Strand σ _))) :
    Saving.Does rules (saveCollections rules t values isNew collections : Saving σ _)
      fun result es => result.1 = .ok () →
        SavesCollections rules t values isNew collections result.2 es := by
  refine (Saving.together_does h).mono ?_
  rintro ⟨result, collections'⟩ es ⟨results, hjoined, hsettled⟩ hok
  obtain rfl : result = .ok () := hok
  exact savesCollections_of_joined hjoined hsettled

/-! ## The whole tree -/

mutual

/-- From every cascade, whatever the connection answers: a save that succeeds is one of `Saves`. -/
theorem saveRecord_saves (p : Placement) : (r : Record) →
    Saving.Does rules (saveRecord rules p r : Saving σ _) fun result es =>
      ∀ key, result.1 = .ok key → Saves rules p r key result.2 es
  | .mk _ _ references collections =>
      saveRecord_saves_step p (fun t values => saveReferences_saves t values references)
        fun t values isNew =>
          saveCollections_saves_step (collectionSaves_save t values isNew collections)

theorem saveReferences_saves (t : Table) (values : Named Value) :
    (references : List (String × Option Record)) → Saving.Does rules
      (saveReferences rules t values references : Saving σ _) fun result es =>
        result.1 = .ok () →
          SavesReferences rules t values references result.2.1 result.2.2 es
  | [] => by
      rw [saveReferences]
      exact .pure fun _ => .nil
  | (_, none) :: rest => saveReferences_saves_none fun values => saveReferences_saves t values rest
  | (_, some s) :: rest =>
      saveReferences_saves_some (fun p => saveRecord_saves p s) fun values =>
        saveReferences_saves t values rest

theorem collectionSaves_save (t : Table) (values : Named Value) (isNew : Bool) :
    (collections : List (String × List Record)) → List.Forall₂ (Strand.Meets rules)
      (collections.map fun collection result es => result.1 = some (.ok ()) →
        SavesCollection rules t values isNew collection result.2 es)
      (collectionSaves rules t values isNew collections : List (Strand σ _))
  | [] => by
      rw [collectionSaves]
      exact .nil
  | (name, items) :: rest => by
      rw [collectionSaves]
      exact .cons
        (saveCollection_saves_step fun o parentKey => saveItems_saves t name o parentKey items)
        (collectionSaves_save t values isNew rest)

theorem saveItems_saves (t : Table) (name : String) (o : Ownership) (parentKey : Value) :
    (items : List Record) → Saving.Does rules
      (saveItems rules t name o parentKey items : Saving σ _) fun result es =>
        ∀ kept, result.1 = .ok kept → SavesItems rules o parentKey items kept result.2 es
  | [] => by
      rw [saveItems]
      exact .pure fun kept hkept => by cases hkept; exact .nil
  | item :: rest =>
      saveItems_saves_cons (fun p => saveRecord_saves p item)
        (saveItems_saves t name o parentKey rest)

end

end Cascade

/-! ## What is written, and in which order -/

mutual

/-- The records of a tree, each behind those that it refers to and before those of its
collections. -/
def Record.sequence : Record → List Record
  | .mk entity values references collections =>
    Record.sequenceOfReferences references ++
      .mk entity values references collections :: Record.sequenceOfCollections collections

def Record.sequenceOfReferences : List (String × Option Record) → List Record
  | [] => []
  | (_, none) :: rest => Record.sequenceOfReferences rest
  | (_, some s) :: rest => s.sequence ++ Record.sequenceOfReferences rest

def Record.sequenceOfCollections : List (String × List Record) → List Record
  | [] => []
  | (_, items) :: rest => Record.sequenceOfItems items ++ Record.sequenceOfCollections rest

def Record.sequenceOfItems : List Record → List Record
  | [] => []
  | item :: rest => item.sequence ++ Record.sequenceOfItems rest

end

/-- An event by which the row of a record is written: one insert, one change, or, with nothing to
assign, one key query that is answered the row. -/
inductive Writes (rules : CascadeRules) (q : Record) : Event → Prop
  | inserted {t : Table} {keyColumn : Column} {assignments : List Assignment} {s : Statement}
      {n : Nat} (ht : rules.keyedTable q.entity = .ok (t, keyColumn)) :
      Writes rules q (.executed (t.insertion assignments none) s (.ok n))
  | generated {t : Table} {keyColumn : Column} {assignments : List Assignment} {s : Statement}
      {generated : Value} (ht : rules.keyedTable q.entity = .ok (t, keyColumn))
      (hkey : Record.valueOf q.values keyColumn.member =
        (generated.coerce? keyColumn.type).getD generated) :
      Writes rules q
        (.generated (t.insertion assignments (some keyColumn.column)) s (.ok generated))
  | updated {t : Table} {keyColumn : Column} {assignments : List Assignment} {s : Statement}
      {n : Nat} (ht : rules.keyedTable q.entity = .ok (t, keyColumn)) (hn : n ≠ 0) :
      Writes rules q (.executed (t.change assignments keyColumn
        (Record.valueOf q.values keyColumn.member)) s (.ok n))
  | found {t : Table} {keyColumn : Column} {s : Statement} {records : RecordSet}
      (ht : rules.keyedTable q.entity = .ok (t, keyColumn)) (hfound : records.storedKeys ≠ []) :
      Writes rules q (.asked t.entity
        (.compare keyColumn.member .eq (Record.valueOf q.values keyColumn.member)) s (.ok records))

/-- Whether an event inserts a row or changes one. -/
def Event.writesRow : Event → Bool
  | .executed op _ _ => op.kind = .insert || op.kind = .update
  | .generated _ _ _ => true
  | _ => false

/-- The rows of records are written in their order, each one once, and no others. -/
def WrittenInOrder (rules : CascadeRules) (records : List Record) (es : List Event) : Prop :=
  ∃ writes, List.Forall₂ (Writes rules) records writes ∧ writes.Sublist es ∧
    es.filter Event.writesRow = writes.filter Event.writesRow

namespace WrittenInOrder

variable {records records' : List Record} {es es' : List Event}

theorem append (h : WrittenInOrder rules records es) (h' : WrittenInOrder rules records' es') :
    WrittenInOrder rules (records ++ records') (es ++ es') := by
  obtain ⟨writes, hwrites, hsub, hfilter⟩ := h
  obtain ⟨writes', hwrites', hsub', hfilter'⟩ := h'
  refine ⟨writes ++ writes', List.rel_append hwrites hwrites', hsub.append hsub', ?_⟩
  rw [List.filter_append, List.filter_append, hfilter, hfilter']

theorem of_unwritten (h : ∀ e ∈ es, e.writesRow = false) : WrittenInOrder rules [] es := by
  refine ⟨[], .nil, List.nil_sublist _, ?_⟩
  rw [List.filter_nil, List.filter_eq_nil_iff]
  exact fun e he => by rw [h e he]; exact Bool.false_ne_true

theorem singleton {q : Record} {e : Event} (h : Writes rules q e) :
    WrittenInOrder rules [q] [e] :=
  ⟨[e], .cons h .nil, List.Sublist.refl _, rfl⟩

end WrittenInOrder

/-! ### What releases rows writes none -/

section

variable {gone : String → Value → Bool → List Event → Prop} {o : Ownership} {key parentKey : Value}
  {kept : List Value} {done : Bool} {es : List Event}

theorem Event.Releases.unwritten {e : Event} (h : e.Releases rules) : e.writesRow = false := by
  cases h <;> rfl

theorem Stored.unwritten {t : Table} {c : Column} {v stored : Value}
    (h : Stored rules t c v stored es) : ∀ e ∈ es, e.writesRow = false := by
  cases h with
  | null => simp
  | resolved => exact List.forall_mem_singleton.mpr rfl
  | converted => simp

theorem Assigned.unwritten {assigned : Column → Option Assignment → List Event → Prop}
    {columns : List Column} {assignments : List Assignment}
    (hassigned : ∀ c own es, assigned c own es → ∀ e ∈ es, e.writesRow = false)
    (h : Assigned assigned columns assignments es) : ∀ e ∈ es, e.writesRow = false := by
  induction h with
  | nil => simp
  | cons h _ ih => exact List.forall_mem_append.mpr ⟨hassigned _ _ _ h, ih⟩

theorem RowWritten.unwritten {t : Table} {keyColumn : Column} {values aside : Named Value}
    {key : Value} {isNew : Bool} {write : Event}
    (h : RowWritten rules t keyColumn values aside key isNew es write) :
    ∀ e ∈ es, e.writesRow = false := by
  have hinsert : ∀ c own es, InsertAssigned rules t values aside c own es →
      ∀ e ∈ es, e.writesRow = false := by
    intro c own es hassigned
    cases hassigned with
    | assigned _ _ hstored => exact hstored.unwritten
    | left => simp
    | literal => simp
    | null => simp
  have hupdate : ∀ c own es, UpdateAssigned rules t values aside c own es →
      ∀ e ∈ es, e.writesRow = false := by
    intro c own es hassigned
    cases hassigned with
    | absent => simp
    | assigned _ hstored _ => exact hstored.unwritten
  cases h with
  | inserted _ _ h => exact h.unwritten hinsert
  | generated _ _ _ h => exact h.unwritten hinsert
  | updated _ _ h _ _ => exact h.unwritten hupdate
  | found _ _ h _ => exact h.unwritten hupdate

end

theorem RowWritten.writes {t : Table} {keyColumn : Column} {values aside : Named Value}
    {key : Value} {isNew : Bool} {es : List Event} {write : Event} {q : Record}
    (h : RowWritten rules t keyColumn values aside key isNew es write)
    (ht : rules.keyedTable q.entity = .ok (t, keyColumn))
    (hkey : Record.valueOf q.values keyColumn.member = key) : Writes rules q write := by
  cases h with
  | inserted _ _ _ => exact .inserted ht
  | generated _ _ _ _ => exact .generated ht hkey
  | updated _ _ _ _ hn => exact hkey ▸ .updated ht hn
  | found _ _ _ hfound => exact hkey ▸ .found ht hfound

theorem WrittenInOrder.of_reconciled {r : Relationship} {o : Ownership} {parentKey : Value}
    {kept : List Value} {isNew : Bool} {es : List Event} (ho : rules.ownership r = .ok o)
    (hnew : isNew = true → es = [])
    (hchanged : isNew = false →
      Swept rules o (Cascade.Deleted rules rules.depth) parentKey kept (.ok ()) es) :
    WrittenInOrder rules [] es := by
  refine of_unwritten ?_
  cases isNew with
  | true =>
      rw [hnew rfl]
      simp
  | false => exact fun e he => ((hchanged rfl).releases Cascade.Deleted.releases ho e he).unwritten

theorem WrittenInOrder.record {p : Placement} {values aside : Named Value}
    {references : List (String × Option Record)} {collections : List (String × List Record)}
    {t : Table} {keyColumn : Column} {key : Value} {isNew : Bool} {es asked es' : List Event}
    {write : Event} (ht : rules.keyedTable p.entity = .ok (t, keyColumn))
    (hreferences : WrittenInOrder rules (Record.sequenceOfReferences references) es)
    (hrow : RowWritten rules t keyColumn values aside key isNew asked write)
    (hcollections : WrittenInOrder rules (Record.sequenceOfCollections collections) es') :
    WrittenInOrder rules
      (Record.mk p.entity (values.insert keyColumn.member key) references collections).sequence
      (es ++ (asked ++ write :: es')) := by
  have hwrite : WrittenInOrder rules
      [Record.mk p.entity (values.insert keyColumn.member key) references collections] [write] :=
    .singleton (hrow.writes ht Record.valueOf_insert)
  have hown := (of_unwritten hrow.unwritten).append (hwrite.append hcollections)
  exact hreferences.append hown

mutual

theorem Saves.writtenInOrder (hturn : rules.maxParallelCollections ≤ 1) {p : Placement}
    {r r' : Record} {key : Value} {es : List Event} :
    Saves rules p r key r' es → WrittenInOrder rules r'.sequence es
  | .intro ht hreferences hrow hcollections =>
      .record ht (hreferences.writtenInOrder hturn) hrow (hcollections.writtenInOrder hturn)

theorem SavesReferences.writtenInOrder (hturn : rules.maxParallelCollections ≤ 1) {t : Table}
    {values values' : Named Value} {references references' : List (String × Option Record)}
    {es : List Event} :
    SavesReferences rules t values references values' references' es →
      WrittenInOrder rules (Record.sequenceOfReferences references') es
  | .nil => .of_unwritten (by simp)
  | .absent _ hrest => hrest.writtenInOrder hturn
  | .present _ _ hrecord hrest =>
      (hrecord.writtenInOrder hturn).append (hrest.writtenInOrder hturn)

theorem SavesCollections.writtenInOrder (hturn : rules.maxParallelCollections ≤ 1) {t : Table}
    {values : Named Value} {isNew : Bool} {collections collections' : List (String × List Record)}
    {es : List Event} : SavesCollections rules t values isNew collections collections' es →
      WrittenInOrder rules (Record.sequenceOfCollections collections') es
  | .nil => .of_unwritten (by simp)
  | .cons hcollection hrest hbeside => by
      rw [hbeside.eq_append hturn]
      exact (hcollection.writtenInOrder hturn).append (hrest.writtenInOrder hturn)

theorem SavesCollection.writtenInOrder (hturn : rules.maxParallelCollections ≤ 1) {t : Table}
    {values : Named Value} {isNew : Bool} {collection collection' : String × List Record}
    {es : List Event} : SavesCollection rules t values isNew collection collection' es →
      WrittenInOrder rules (Record.sequenceOfItems collection'.2) es
  | .intro hname hitems hnew hchanged => by
      obtain ⟨_, _, ho⟩ := Except.bind_eq_ok_iff.mp hname
      have h := (hitems.writtenInOrder hturn).append (.of_reconciled ho hnew hchanged)
      rwa [List.append_nil] at h

theorem SavesItems.writtenInOrder (hturn : rules.maxParallelCollections ≤ 1) {o : Ownership}
    {parentKey : Value} {items items' : List Record} {kept : List Value} {es : List Event} :
    SavesItems rules o parentKey items kept items' es →
      WrittenInOrder rules (Record.sequenceOfItems items') es
  | .nil => .of_unwritten (by simp)
  | .cons _ hrecord hrest => (hrecord.writtenInOrder hturn).append (hrest.writtenInOrder hturn)

end

namespace Cascade

/-- Whatever the connection answers: a save that succeeds is one of `Saves`, and where collections
are saved one after the other, it writes the rows of its tree in their order, each one once, and no
others. -/
theorem save_in_order {r r' : Record} {key : Value} {c c' : Cascade σ}
    (h : (save rules r).run c = ((.ok key, r'), c')) :
    ∃ es, UnitOfWork.Sends rules c.work es c'.work ∧
      c'.work.calls = c.work.calls ++ es.map Event.call ∧
      Saves rules { entity := r.entity } r key r' es ∧
      (rules.maxParallelCollections ≤ 1 → WrittenInOrder rules r'.sequence es) := by
  obtain ⟨es, hsends, hsaves⟩ := (@saveRecord_saves σ _ rules { entity := r.entity } r).run c
  have hrun : (saveRecord rules { entity := r.entity } r).run c = ((.ok key, r'), c') := h
  rw [hrun] at hsends hsaves
  have hsaves := hsaves key rfl
  exact ⟨es, hsends, hsends.calls_eq, hsaves, fun hturn => hsaves.writtenInOrder hturn⟩

theorem company_in_order : ∃ key r c', (save companyRules company).run companyStart =
      ((.ok key, r), c') ∧
    ∃ es, UnitOfWork.Sends companyRules companyStart.work es c'.work ∧
      c'.work.calls = companyStart.work.calls ++ es.map Event.call ∧
      Saves companyRules { entity := "Company" } company key r es ∧
      WrittenInOrder companyRules r.sequence es := by
  have hsaved : ((save companyRules company).run companyStart).1.1.isOk = true := by
    decide +kernel
  rcases hrun : (save companyRules company).run companyStart with ⟨⟨saved, r⟩, c'⟩
  rw [hrun] at hsaved
  cases saved with
  | error e => cases hsaved
  | ok key =>
      obtain ⟨es, hsends, hcalls, hsaves, hwritten⟩ := save_in_order hrun
      exact ⟨key, r, c', rfl, es, hsends, hcalls, hsaves, hwritten (Nat.le_refl 1)⟩

end Cascade

end EntityMap
