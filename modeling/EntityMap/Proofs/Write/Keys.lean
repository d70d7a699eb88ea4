import EntityMap.Proofs.Catalog.Accepted
import EntityMap.Proofs.Write.Order
import EntityMap.Proofs.Write.StorageForm

/-!
# Where keys go in a save

When a save succeeds, each record of its tree holds the key under which
it is stored, and the keys of its neighbours where they belong
(`Propagated`): a foreign key of its own takes the key of the record
that it refers to, and an item of a collection the key of its parent,
as a member of the item or, if records have no such member, in the
statement by which the item is written. All other members are left alone.
-/

namespace EntityMap

/-! ## Where a key has to be -/

/-- The members that references write: the foreign keys behind their names. -/
def Table.foreignKeys (t : Table) (references : List (String × Option Record)) : List String :=
  references.filterMap fun (name, _) =>
    match Cascade.referenceOf t name with
    | .ok (_, foreignKey) => some foreignKey.member
    | .error _ => none

/-- A statement assigns the storage form of a value to a column. -/
inductive Binds (rules : CascadeRules) (t : Table) (c : Column) (v : Value) : Event → Prop
  | executed {op : Operation} {s : Statement} {n : Nat} {stored : Value} {es : List Event}
      (hkind : op.kind = .insert ∨ op.kind = .update) (hstored : Stored rules t c v stored es)
      (h : ⟨c.column, stored⟩ ∈ op.assignments) : Binds rules t c v (.executed op s (.ok n))
  | generated {op : Operation} {s : Statement} {answer stored : Value} {es : List Event}
      (hkind : op.kind = .insert) (hstored : Stored rules t c v stored es)
      (h : ⟨c.column, stored⟩ ∈ op.assignments) :
      Binds rules t c v (.generated op s (.ok answer))

/-- The key of the parent is where it belongs: in the foreign key of the item, unless one of the
item's references is over the same member, or, if records have no such member, in the statement of
the item's row. A foreign key that is the key of the item as well has to be set by then: it is
otherwise generated, or does not change. -/
structure Placement.Bound (rules : CascadeRules) (p : Placement) (t : Table) (keyColumn : Column)
    (references : List (String × Option Record)) (values : Named Value) (write : Event) : Prop where
  member : ∀ {c parentKey}, p.foreignKey = some (c, parentKey) → c.shadow = false →
    c.member ∉ t.foreignKeys references →
    (c.member = keyColumn.member → parentKey.isUnset keyColumn.type = false) →
    values.get? c.member = some parentKey
  aside : ∀ {c parentKey}, p.foreignKey = some (c, parentKey) → c.shadow = true →
    c.primaryKey = false → Binds rules t c parentKey write

/-- The member that a record takes over from its parent. -/
def Placement.member? (p : Placement) : Option String :=
  match p.foreignKey with
  | some (c, _) => if c.shadow then none else some c.member
  | none => none

mutual

/-- The keys in a record that is saved with its tree, and what is sent for that. -/
inductive Propagated (rules : CascadeRules) :
    Placement → Record → Value → Record → List Event → Prop
  | intro {p : Placement} {r r' : Record} {t : Table} {keyColumn : Column} {key : Value}
      {es asked es' : List Event} {write : Event}
      (ht : rules.keyedTable p.entity = .ok (t, keyColumn)) (hentity : r'.entity = p.entity)
      (hkey : r'.values.get? keyColumn.member = some key)
      (hbound : p.Bound rules t keyColumn r.references r'.values write)
      (hother : ∀ member, member ≠ keyColumn.member → member ∉ t.foreignKeys r.references →
        p.member? ≠ some member → r'.values.get? member = r.values.get? member)
      (hreferences : ReferencesPropagated rules t r'.values r.references r'.references es)
      (hwrite : Writes rules r' write)
      (hcollections : CollectionsPropagated rules t key r.collections r'.collections es') :
      Propagated rules p r key r' (es ++ (asked ++ write :: es'))

/-- The keys of the records that a record refers to, in the values of that record. Where two
references are over one member, the last one counts. -/
inductive ReferencesPropagated (rules : CascadeRules) : Table → Named Value →
    List (String × Option Record) → List (String × Option Record) → List Event → Prop
  | nil {t : Table} {values : Named Value} : ReferencesPropagated rules t values [] [] []
  | absent {t : Table} {values : Named Value} {name : String}
      {rest rest' : List (String × Option Record)} {r : Relationship} {foreignKey : Column}
      {es : List Event} (hname : Cascade.referenceOf t name = .ok (r, foreignKey))
      (hkey : foreignKey.member ∉ t.foreignKeys rest → values.get? foreignKey.member = some .null)
      (hrest : ReferencesPropagated rules t values rest rest' es) :
      ReferencesPropagated rules t values ((name, none) :: rest) ((name, none) :: rest') es
  | present {t : Table} {values : Named Value} {name : String} {s s' : Record}
      {rest rest' : List (String × Option Record)} {r : Relationship} {foreignKey : Column}
      {key : Value} {es es' : List Event}
      (hname : Cascade.referenceOf t name = .ok (r, foreignKey))
      (hrecord : Propagated rules { entity := r.primaryKey.entity } s key s' es)
      (hkey : foreignKey.member ∉ t.foreignKeys rest → values.get? foreignKey.member = some key)
      (hrest : ReferencesPropagated rules t values rest rest' es') :
      ReferencesPropagated rules t values ((name, some s) :: rest) ((name, some s') :: rest')
        (es ++ es')

/-- The key of a record in the items of its collections. -/
inductive CollectionsPropagated (rules : CascadeRules) : Table → Value →
    List (String × List Record) → List (String × List Record) → List Event → Prop
  | nil {t : Table} {key : Value} : CollectionsPropagated rules t key [] [] []
  | cons {t : Table} {key : Value} {name : String} {items items' : List Record}
      {rest rest' : List (String × List Record)} {o : Ownership} {es swept es' w : List Event}
      (hname : Cascade.collectionOf rules t name = .ok o)
      (hitems : ItemsPropagated rules o key items items' es)
      (hrest : CollectionsPropagated rules t key rest rest' es')
      (hbeside : Beside rules.maxParallelCollections (es ++ swept) es' w) :
      CollectionsPropagated rules t key ((name, items) :: rest) ((name, items') :: rest') w

inductive ItemsPropagated (rules : CascadeRules) : Ownership → Value → List Record → List Record →
    List Event → Prop
  | nil {o : Ownership} {parentKey : Value} : ItemsPropagated rules o parentKey [] [] []
  | cons {o : Ownership} {parentKey key : Value} {item item' : Record} {rest rest' : List Record}
      {es es' : List Event}
      (hrecord : Propagated rules
        { entity := o.child.entity, foreignKey := some (o.foreignKey, parentKey) } item key item'
        es)
      (hrest : ItemsPropagated rules o parentKey rest rest' es') :
      ItemsPropagated rules o parentKey (item :: rest) (item' :: rest') (es ++ es')

end

variable {rules : CascadeRules}

/-! ## What the mapping says of keys -/

theorem Table.navigation_eq_ok {t : Table} {name : String} {isCollection : Bool} {r : Relationship}
    (h : t.navigation name isCollection = .ok r) :
    r ∈ t.relationships ∧ r.isInverseFrom t.entity = isCollection := by
  unfold navigation at h
  split at h
  · cases h
  · rename_i r' hr
    split at h
    · rename_i hinverse
      cases h
      exact ⟨(Table.mem_of_relationship? hr).1, hinverse⟩
    · cases h

namespace Cascade

theorem foreignKey_of_referenceOf {t : Table} {name : String} {r : Relationship} {c : Column}
    (h : referenceOf t name = .ok (r, c)) : c ∈ t.columns ∧ c.primaryKey = false := by
  obtain ⟨r', -, h⟩ := Except.bind_eq_ok_iff.mp h
  obtain ⟨c', hcolumn, h⟩ := Except.bind_eq_ok_iff.mp h
  have hcolumn := Except.mapError_eq_ok_iff.mp hcolumn
  by_cases hset : (c'.shadow || c'.primaryKey) = true
  · rw [if_pos hset] at h
    cases h
  · rw [if_neg hset] at h
    cases h
    rw [Bool.or_eq_true, not_or, Bool.not_eq_true, Bool.not_eq_true] at hset
    exact ⟨(Table.mem_of_column hcolumn).1, hset.2⟩

theorem foreignKey_of_collectionOf {t : Table} {name : String} {o : Ownership}
    (h : collectionOf rules t name = .ok o) : o.foreignKey ∈ o.child.columns := by
  obtain ⟨r, -, ho⟩ := Except.bind_eq_ok_iff.mp h
  exact CascadeRules.foreignKey_mem ho

/-- The items of a collection hang on the key of their parent. -/
theorem parentMember_of_collectionOf {entity name : String} {t : Table} {keyColumn : Column}
    {o : Ownership} (haccepted : rules.catalog.Accepted) (hkeyed : rules.catalog.Keyed)
    (ht : rules.keyedTable entity = .ok (t, keyColumn)) (h : collectionOf rules t name = .ok o) :
    o.parentMember = keyColumn.member := by
  obtain ⟨ht, hkey⟩ := CascadeRules.table_of_keyedTable ht
  obtain ⟨hmem, hentity⟩ := Catalog.mem_of_table ht
  obtain ⟨r, hnavigation, h⟩ := Except.bind_eq_ok_iff.mp h
  obtain ⟨_, -, h⟩ := Except.bind_eq_ok_iff.mp h
  obtain ⟨_, -, h⟩ := Except.bind_eq_ok_iff.mp h
  cases h
  obtain ⟨hr, hinverse⟩ := Table.navigation_eq_ok hnavigation
  obtain ⟨target, key, htarget, htargetKey, hmember⟩ := hkeyed t hmem r hr
  have hprimary := Relationship.primaryKey_entity (haccepted.touches t hmem r hr) hinverse
  rw [hprimary, hentity, ht] at htarget
  cases htarget
  rw [hkey] at htargetKey
  cases htargetKey
  exact hmember.symm

end Cascade

/-! ## The row of one record -/

theorem Table.foreignKeys_cons {t : Table} {name : String} {reference : Option Record}
    {rest : List (String × Option Record)} {r : Relationship} {c : Column}
    (h : Cascade.referenceOf t name = .ok (r, c)) :
    t.foreignKeys ((name, reference) :: rest) = c.member :: t.foreignKeys rest := by
  rw [foreignKeys, List.filterMap_cons_some (b := c.member) (by simp only [h])]
  rfl

/-- References write no member but their foreign keys. -/
theorem SavesReferences.get?_of_notMem {t : Table} {values values' : Named Value}
    {references references' : List (String × Option Record)} {es : List Event} {member : String}
    (hmember : member ∉ t.foreignKeys references) :
    SavesReferences rules t values references values' references' es →
      values'.get? member = values.get? member
  | .nil => rfl
  | .absent hname hrest => by
      rw [Table.foreignKeys_cons hname, List.mem_cons, not_or] at hmember
      rw [hrest.get?_of_notMem hmember.2, Named.get?_insert_of_ne hmember.1]
  | .present hname _ _ hrest => by
      rw [Table.foreignKeys_cons hname, List.mem_cons, not_or] at hmember
      rw [hrest.get?_of_notMem hmember.2, Named.get?_insert_of_ne hmember.1]

theorem Value.isNull_of_set {v : Value} {type : DataType} (hset : v.isUnset type = false) :
    v.isNull = false := by
  rw [isUnset, Bool.or_eq_false_iff] at hset
  exact hset.1

/-- The key of a row that is written is a value. -/
theorem RowWritten.isNull_key {t : Table} {keyColumn : Column} {values aside : Named Value}
    {key : Value} {isNew : Bool} {es : List Event} {write : Event}
    (h : RowWritten rules t keyColumn values aside key isNew es write) : key.isNull = false := by
  cases h with
  | inserted _ hset _ => exact Value.isNull_of_set hset
  | @generated generated _ _ _ _ _ hnull _ =>
      cases hcoerced : generated.coerce? keyColumn.type with
      | none => exact hnull
      | some key => exact isNull_of_coerce? hnull hcoerced
  | updated _ hset _ _ _ => exact Value.isNull_of_set hset
  | found _ hset _ _ => exact Value.isNull_of_set hset

/-- A key that is set already is the one under which the row is written. -/
theorem RowWritten.key_eq {t : Table} {keyColumn : Column} {values aside : Named Value}
    {key : Value} {isNew : Bool} {es : List Event} {write : Event}
    (h : RowWritten rules t keyColumn values aside key isNew es write)
    (hset : (Record.valueOf values keyColumn.member).isUnset keyColumn.type = false) :
    key = Record.valueOf values keyColumn.member := by
  cases h with
  | inserted hkey _ _ => exact hkey
  | generated hunset _ _ _ => rw [hset] at hunset; cases hunset
  | updated hkey _ _ _ _ => exact hkey
  | found hkey _ _ _ => exact hkey

theorem Assigned.of_mem {assigned : Column → Option Assignment → List Event → Prop}
    {columns : List Column} {assignments : List Assignment} {es : List Event} {c : Column}
    (h : Assigned assigned columns assignments es) (hc : c ∈ columns) :
    ∃ own es', assigned c own es' ∧ ∀ a ∈ own, a ∈ assignments := by
  induction h with
  | nil => cases hc
  | @cons c' rest own assignments es es' hown _ ih =>
      rcases List.mem_cons.mp hc with rfl | hc
      · exact ⟨own, es, hown, fun a ha =>
          List.mem_append_left _ (Option.mem_toList.mpr ha)⟩
      · obtain ⟨own', es'', hown', hsub⟩ := ih hc
        exact ⟨own', es'', hown', fun a ha => List.mem_append_right _ (hsub a ha)⟩

/-- An insert assigns the storage form of a value that is not null. -/
theorem Assigned.exists_stored {t : Table} {c : Column} {values aside : Named Value} {v : Value}
    {columns : List Column} {assignments : List Assignment} {es : List Event}
    (h : Assigned (InsertAssigned rules t values aside) columns assignments es) (hc : c ∈ columns)
    (hvalue : Cascade.memberValue? values aside c = some v) (hnull : v.isNull = false) :
    ∃ stored es', Stored rules t c v stored es' ∧ ⟨c.column, stored⟩ ∈ assignments := by
  obtain ⟨own, es', hown, hsub⟩ := h.of_mem hc
  cases hown with
  | assigned hv _ hstored =>
      rw [hvalue] at hv
      cases hv
      exact ⟨_, _, hstored, hsub _ rfl⟩
  | left hnone _ => rw [hnone v hvalue] at hnull; cases hnull
  | literal hnone _ => rw [hnone v hvalue] at hnull; cases hnull
  | null hnone _ _ => rw [hnone v hvalue] at hnull; cases hnull

/-- A value that a record has no member for is assigned by the statement of its row. -/
theorem RowWritten.binds {t : Table} {keyColumn c : Column} {values aside : Named Value}
    {key v : Value} {isNew : Bool} {es : List Event} {write : Event}
    (h : RowWritten rules t keyColumn values aside key isNew es write) (hc : c ∈ t.columns)
    (hvalue : Cascade.memberValue? values aside c = some v) (hnull : v.isNull = false)
    (hprimary : c.primaryKey = false) (hkey : c.member ≠ keyColumn.member) :
    Binds rules t c v write := by
  have hupdated : ∀ {assignments es}, Assigned (UpdateAssigned rules t values aside)
      (t.columns.filter (!·.primaryKey)) assignments es → ∃ stored es',
        Stored rules t c v stored es' ∧ ⟨c.column, stored⟩ ∈ assignments := by
    intro assignments es hassigned
    have hmem : c ∈ t.columns.filter (!·.primaryKey) :=
      List.mem_filter.mpr ⟨hc, by rw [hprimary]; rfl⟩
    obtain ⟨own, es', hown, hsub⟩ := hassigned.of_mem hmem
    cases hown with
    | absent hnone => rw [hvalue] at hnone; cases hnone
    | assigned hv hstored _ =>
        rw [hvalue] at hv
        cases hv
        exact ⟨_, _, hstored, hsub _ rfl⟩
  cases h with
  | inserted _ _ h =>
      obtain ⟨stored, es', hstored, hmem⟩ := h.exists_stored hc hvalue hnull
      exact .executed (.inl rfl) hstored hmem
  | generated _ _ _ h =>
      have hmem : c ∈ t.columns.filter (·.member ≠ keyColumn.member) :=
        List.mem_filter.mpr ⟨hc, by simpa using hkey⟩
      obtain ⟨stored, es', hstored, hmem⟩ := h.exists_stored hmem hvalue hnull
      exact .generated rfl hstored hmem
  | updated _ _ h _ _ =>
      obtain ⟨stored, es', hstored, hmem⟩ := hupdated h
      exact .executed (.inr rfl) hstored hmem
  | found _ _ h _ =>
      obtain ⟨stored, es', -, hmem⟩ := hupdated h
      cases hmem

namespace Placement

variable {p : Placement} {values : Named Value} {c : Column} {parentKey : Value}

/-- The key of a parent is a value, and there is a column for it. -/
def Sound (rules : CascadeRules) (p : Placement) : Prop :=
  ∀ {c parentKey}, p.foreignKey = some (c, parentKey) → parentKey.isNull = false ∧
    ∀ {t keyColumn}, rules.keyedTable p.entity = .ok (t, keyColumn) → c ∈ t.columns

theorem get?_place (h : p.foreignKey = some (c, parentKey)) (hshadow : c.shadow = false) :
    (p.place values).get? c.member = some parentKey := by
  rw [place, h]
  dsimp only
  rw [hshadow]
  exact Named.get?_insert_self

theorem get?_place_of_ne {member : String} (h : p.member? ≠ some member) :
    (p.place values).get? member = values.get? member := by
  unfold place
  unfold member? at h
  split
  · rename_i c parentKey hforeignKey
    rw [hforeignKey] at h
    dsimp only at h
    split
    · rfl
    · rename_i hshadow
      rw [if_neg hshadow] at h
      exact Named.get?_insert_of_ne fun heq => h (congrArg some heq.symm)
  · rfl

theorem memberValue?_aside {values : Named Value} (h : p.foreignKey = some (c, parentKey))
    (hshadow : c.shadow = true) : Cascade.memberValue? values p.aside c = some parentKey := by
  have haside : p.aside = [(c.member, parentKey)] := by
    rw [aside, h]
    dsimp only
    rw [if_pos hshadow]
  rw [Cascade.memberValue?, if_pos hshadow, haside]
  exact List.lookup_cons_self

end Placement

/-- The items of a collection take over the key of their parent. -/
theorem sound_of_collectionOf {t : Table} {name : String} {o : Ownership} {parentKey : Value}
    (hname : Cascade.collectionOf rules t name = .ok o) (hnull : parentKey.isNull = false) :
    Placement.Sound rules
      { entity := o.child.entity, foreignKey := some (o.foreignKey, parentKey) } := by
  intro c key hforeignKey
  cases hforeignKey
  refine ⟨hnull, fun {t keyColumn} ht => ?_⟩
  have hchild := Cascade.ownership_of_collectionOf hname
  rw [hchild] at ht
  cases ht
  exact Cascade.foreignKey_of_collectionOf hname

/-! ## The whole tree -/

section

variable (haccepted : rules.catalog.Accepted)

include haccepted

theorem bound_of_written {p : Placement} {t : Table} {keyColumn : Column}
    {values values' : Named Value} {references references' : List (String × Option Record)}
    {key : Value} {isNew : Bool} {es asked : List Event} {write : Event} (hp : p.Sound rules)
    (ht : rules.keyedTable p.entity = .ok (t, keyColumn))
    (hreferences : SavesReferences rules t (p.place values) references values' references' es)
    (hrow : RowWritten rules t keyColumn values' p.aside key isNew asked write) :
    p.Bound rules t keyColumn references (values'.insert keyColumn.member key) write := by
  constructor
  case member =>
    intro c parentKey hforeignKey hshadow hmember hset
    have hplaced : values'.get? c.member = some parentKey := by
      rw [hreferences.get?_of_notMem hmember, Placement.get?_place hforeignKey hshadow]
    by_cases hown : c.member = keyColumn.member
    · rw [hown] at hplaced ⊢
      have hvalue := Record.valueOf_eq hplaced
      rw [hrow.key_eq (hvalue ▸ hset hown), hvalue]
      exact Named.get?_insert_self
    · rw [Named.get?_insert_of_ne hown, hplaced]
  case aside =>
    intro c parentKey hforeignKey hshadow hprimary
    obtain ⟨hnull, hcolumn⟩ := hp hforeignKey
    have hne := CascadeRules.member_ne_of_keyedTable haccepted ht (hcolumn ht) hprimary
    exact hrow.binds (hcolumn ht) (Placement.memberValue?_aside hforeignKey hshadow) hnull hprimary
      hne

theorem propagated_of_saved {p : Placement} {entity : String} {t : Table} {keyColumn : Column}
    {values values' : Named Value} {references references' : List (String × Option Record)}
    {collections collections' : List (String × List Record)} {key : Value} {isNew : Bool}
    {es asked es' : List Event} {write : Event} (hp : p.Sound rules)
    (ht : rules.keyedTable p.entity = .ok (t, keyColumn))
    (hsaved : SavesReferences rules t (p.place values) references values' references' es)
    (hrow : RowWritten rules t keyColumn values' p.aside key isNew asked write)
    (hreferences : ReferencesPropagated rules t (values'.insert keyColumn.member key) references
      references' es)
    (hcollections : CollectionsPropagated rules t key collections collections' es') :
    Propagated rules p (.mk entity values references collections) key
      (.mk p.entity (values'.insert keyColumn.member key) references' collections')
      (es ++ (asked ++ write :: es')) := by
  refine .intro ht rfl Named.get?_insert_self ?_ ?_ hreferences
    (hrow.writes ht Record.valueOf_insert) hcollections
  · exact bound_of_written haccepted hp ht hsaved hrow
  · intro member hkey hforeign hplaced
    show (values'.insert keyColumn.member key).get? member = values.get? member
    rw [Named.get?_insert_of_ne hkey, hsaved.get?_of_notMem hforeign,
      Placement.get?_place_of_ne hplaced]

/-- The foreign key of a reference is not the key of its record, and so it is left alone when that
is taken over. -/
theorem get?_foreignKey {entity name : String} {t : Table} {keyColumn c : Column}
    {r : Relationship} {values values' : Named Value}
    {rest rest' : List (String × Option Record)} {key own : Value} {es : List Event}
    (ht : rules.keyedTable entity = .ok (t, keyColumn))
    (hname : Cascade.referenceOf t name = .ok (r, c))
    (hrest : SavesReferences rules t (values.insert c.member key) rest values' rest' es)
    (hmember : c.member ∉ t.foreignKeys rest) :
    (values'.insert keyColumn.member own).get? c.member = some key := by
  obtain ⟨hcolumn, hprimary⟩ := Cascade.foreignKey_of_referenceOf hname
  have hne := CascadeRules.member_ne_of_keyedTable haccepted ht hcolumn hprimary
  rw [Named.get?_insert_of_ne hne, hrest.get?_of_notMem hmember, Named.get?_insert_self]

end

mutual

theorem Saves.propagated {p : Placement} {r r' : Record} {key : Value} {es : List Event}
    (haccepted : rules.catalog.Accepted) (hkeyed : rules.catalog.Keyed) (hp : p.Sound rules) :
    Saves rules p r key r' es → Propagated rules p r key r' es
  | .intro ht hreferences hrow hcollections =>
      propagated_of_saved haccepted hp ht hreferences hrow
        (hreferences.propagated haccepted hkeyed ht)
        (hcollections.propagated haccepted hkeyed ht Record.valueOf_insert hrow.isNull_key)

theorem SavesReferences.propagated {entity : String} {t : Table} {keyColumn : Column}
    {values values' : Named Value} {references references' : List (String × Option Record)}
    {own : Value} {es : List Event} (haccepted : rules.catalog.Accepted)
    (hkeyed : rules.catalog.Keyed) (ht : rules.keyedTable entity = .ok (t, keyColumn)) :
    SavesReferences rules t values references values' references' es →
      ReferencesPropagated rules t (values'.insert keyColumn.member own) references references' es
  | .nil => .nil
  | .absent hname hrest =>
      .absent hname (get?_foreignKey haccepted ht hname hrest)
        (hrest.propagated haccepted hkeyed ht)
  | .present hname _ hrecord hrest =>
      .present hname (hrecord.propagated haccepted hkeyed fun h => by cases h)
        (get?_foreignKey haccepted ht hname hrest) (hrest.propagated haccepted hkeyed ht)

theorem SavesCollections.propagated {entity : String} {t : Table} {keyColumn : Column}
    {values : Named Value} {isNew : Bool} {collections collections' : List (String × List Record)}
    {key : Value} {es : List Event} (haccepted : rules.catalog.Accepted)
    (hkeyed : rules.catalog.Keyed) (ht : rules.keyedTable entity = .ok (t, keyColumn))
    (hkey : Record.valueOf values keyColumn.member = key) (hnull : key.isNull = false) :
    SavesCollections rules t values isNew collections collections' es →
      CollectionsPropagated rules t key collections collections' es
  | .nil => .nil
  | .cons (.intro hname hitems _ _) hrest hbeside => by
      have hparent : Record.valueOf values _ = key :=
        Cascade.parentMember_of_collectionOf haccepted hkeyed ht hname ▸ hkey
      have hitems := hitems.propagated haccepted hkeyed hname (hparent ▸ hnull)
      exact .cons hname (hparent ▸ hitems) (hrest.propagated haccepted hkeyed ht hkey hnull) hbeside

theorem SavesItems.propagated {t : Table} {name : String} {o : Ownership} {parentKey : Value}
    {items items' : List Record} {kept : List Value} {es : List Event}
    (haccepted : rules.catalog.Accepted) (hkeyed : rules.catalog.Keyed)
    (hname : Cascade.collectionOf rules t name = .ok o) (hnull : parentKey.isNull = false) :
    SavesItems rules o parentKey items kept items' es →
      ItemsPropagated rules o parentKey items items' es
  | .nil => .nil
  | .cons _ hrecord hrest =>
      .cons (hrecord.propagated haccepted hkeyed (sound_of_collectionOf hname hnull))
        (hrest.propagated haccepted hkeyed hname hnull)

end

namespace Cascade

variable {σ : Type} [Executor σ]

/-- Whatever the connection answers: when a save under an accepted mapping succeeds, the keys of
its records are where they belong. -/
theorem save_propagates {d : Definition} (hd : d.toCatalog = .ok rules.catalog) {r r' : Record}
    {key : Value} {c c' : Cascade σ} (h : (save rules r).run c = ((.ok key, r'), c')) :
    ∃ es, UnitOfWork.Sends rules c.work es c'.work ∧
      c'.work.calls = c.work.calls ++ es.map Event.call ∧
      Propagated rules { entity := r.entity } r key r' es := by
  obtain ⟨es, hsends, hsaves⟩ := (@saveRecord_saves σ _ rules { entity := r.entity } r).run c
  have hrun : (saveRecord rules { entity := r.entity } r).run c = ((.ok key, r'), c') := h
  rw [hrun] at hsends hsaves
  exact ⟨es, hsends, hsends.calls_eq, (hsaves key rfl).propagated
    (Definition.accepted_of_toCatalog hd) (Definition.keyed_of_toCatalog hd) fun h => by cases h⟩

/-! ## An invoice, and an account whose key its profiles share -/

/-- Invoices of clients, whose lines have no member for the invoice that they stand on. -/
def invoiceTables : List Table :=
  [{ entity := "Client", table := "clients"
     columns := [companyKey, { member := "Name", column := "name", type := .text }]
     relationships := []
     permissions := {} },
   { entity := "Invoice", table := "invoices"
     columns := [companyKey, { member := "ClientId", column := "client_id", type := .int64 }]
     relationships := [
       { name := "Client", kind := .manyToOne, foreignKey := ⟨"Invoice", "ClientId"⟩
         primaryKey := ⟨"Client", "Id"⟩ },
       { name := "Lines", kind := .oneToMany, foreignKey := ⟨"Line", "InvoiceId"⟩
         primaryKey := ⟨"Invoice", "Id"⟩ }]
     permissions := {} },
   { entity := "Line", table := "lines"
     columns := [companyKey, { member := "Text", column := "text", type := .text },
       { member := "InvoiceId", column := "invoice_id", type := .int64, shadow := true }]
     relationships := []
     permissions := {} }]

def invoiceRules : CascadeRules :=
  { catalog := ⟨invoiceTables, []⟩, identityInsert := false, depth := 10 }

/-- A new invoice of a new client, with one new line. -/
def invoice : Record :=
  .mk "Invoice" [] [("Client", some (.mk "" [("Name", .text "North")] [] []))]
    [("Lines", [.mk "" [("Text", .text "Paper")] [] []])]

/-- A connection that generates keys. -/
def freshStart : Cascade Script :=
  { work := { connection := {} } }

theorem propagated_invoice :
    Definition.toCatalog ⟨[], invoiceTables⟩ = .ok invoiceRules.catalog ∧
      ∃ key r c', (save invoiceRules invoice).run freshStart = ((.ok key, r), c') ∧
        ∃ es, UnitOfWork.Sends invoiceRules freshStart.work es c'.work ∧
          c'.work.calls = freshStart.work.calls ++ es.map Event.call ∧
          Propagated invoiceRules { entity := "Invoice" } invoice key r es := by
  have hd : Definition.toCatalog ⟨[], invoiceTables⟩ = .ok invoiceRules.catalog := rfl
  have hsaved : ((save invoiceRules invoice).run freshStart).1.1.isOk = true := by
    decide +kernel
  rcases hrun : (save invoiceRules invoice).run freshStart with ⟨⟨saved, r⟩, c'⟩
  rw [hrun] at hsaved
  cases saved with
  | error e => cases hsaved
  | ok key => exact ⟨hd, key, r, c', rfl, save_propagates hd hrun⟩

/-- Accounts with profiles, which are stored under the key of their account, but have no member
for it. -/
def accountTables : List Table :=
  [{ entity := "Account", table := "accounts"
     columns := [companyKey, { member := "Name", column := "name", type := .text }]
     relationships := [
       { name := "Profiles", kind := .oneToMany, foreignKey := ⟨"Profile", "AccountId"⟩
         primaryKey := ⟨"Account", "Id"⟩ }]
     permissions := {} },
   { entity := "Profile", table := "profiles"
     columns := [
       { member := "AccountId", column := "account_id", type := .int64, primaryKey := true
         default := .generated, shadow := true },
       { member := "Bio", column := "bio", type := .text }]
     relationships := []
     permissions := {} }]

def accountRules : CascadeRules :=
  { catalog := ⟨accountTables, []⟩, identityInsert := false, depth := 10 }

def account : Record :=
  .mk "Account" [("Id", .int 1), ("Name", .text "North")] []
    [("Profiles", [.mk "Profile" [("Bio", .text "x")] [] []])]

/-- The key of the account is not among what is inserted for its profile: the key of the profile
is generated. -/
theorem profile_without_account :
    Definition.toCatalog ⟨[], accountTables⟩ = .ok accountRules.catalog ∧
      ((save accountRules account).run freshStart).1.1 = .ok (.int 1) ∧
      ((save accountRules account).run freshStart).2.work.calls = [
        .execute ⟨"UPDATE \"accounts\" SET \"name\" = ? WHERE \"id\" = ?", [.text "North", .int 1]⟩,
        .scalar ⟨"INSERT INTO \"profiles\" (\"bio\") VALUES (?) RETURNING \"account_id\"",
          [.text "x"]⟩,
        .query ⟨"SELECT t0.\"account_id\" AS \"__key\" FROM \"profiles\" AS t0 " ++
          "WHERE (t0.\"account_id\" = ?)", [.int 1]⟩] := by
  refine ⟨rfl, ?_⟩
  decide +kernel

end Cascade

end EntityMap
