import EntityMap.Proofs.Write.Keys
import EntityMap.Proofs.Write.Reports

/-!
# Keys in two representations

A key arrives as the document or the connection has it, and its type has
one form for it: `11` and `11.0` are one key of an integer column
(`Value.SameIn`). But a cascade compares keys as they are: with the unset
mark of their type, with the keys that it has inserted, and with the
stored keys that a sweep is answered.

`Indistinct` says of a relation of keys that none of these comparisons
tells apart what it relates, for the answers of the connections that are
held. Two records are the same up to such a relation (`Record.Same`) when
they have one shape and, member by member, one value. So integer keys may
be floating-point numbers in the one and not in the other, as long as the
connection answers neither.
-/

namespace EntityMap

/-! ## Values in two representations -/

namespace Value

/-- One value of a type, in two representations perhaps. -/
def SameIn (type : DataType) (v w : Value) : Prop :=
  v = w ∨ ∃ stored, v.coerce? type = some stored ∧ w.coerce? type = some stored

/-- One value of some type. -/
def Same (v w : Value) : Prop :=
  ∃ type, SameIn type v w

theorem Same.refl (v : Value) : Same v v :=
  ⟨.bool, .inl rfl⟩

theorem isNull_of_coerce?_null {v : Value} {type : DataType} (h : v.coerce? type = some .null) :
    v.isNull = true := by
  cases hv : v.isNull with
  | true => rfl
  | false => cases isNull_of_coerce? hv h

theorem SameIn.isNull_eq {type : DataType} {v w : Value} (h : SameIn type v w) :
    w.isNull = v.isNull := by
  obtain rfl | ⟨stored, hv, hw⟩ := h
  · rfl
  · cases hstored : stored.isNull with
    | true =>
        obtain rfl : stored = .null := by cases stored <;> first | rfl | cases hstored
        rw [isNull_of_coerce?_null hv, isNull_of_coerce?_null hw]
    | false =>
        have hnull : ∀ {u : Value}, u.coerce? type = some stored → u.isNull = false := by
          intro u hu
          cases u <;> first | rfl | (cases hu; cases hstored)
        rw [hnull hv, hnull hw]

theorem Same.isNull_eq {v w : Value} (h : Same v w) : w.isNull = v.isNull :=
  h.elim fun _ h => h.isNull_eq

theorem Same.filter_isNull {v w : Option Value} (h : Option.Rel Same v w) :
    Option.Rel Same (v.filter fun v => !v.isNull) (w.filter fun w => !w.isNull) := by
  cases h with
  | none => exact .none
  | @some v w hvw =>
      rw [Option.filter_some, Option.filter_some, hvw.isNull_eq]
      split
      · exact .some hvw
      · exact .none

end Value

/-- Members of the same names, each with one value. -/
def Named.Same (values values' : Named Value) : Prop :=
  ∀ member, Option.Rel Value.Same (values.get? member) (values'.get? member)

namespace Named.Same

variable {values values' aside aside' : Named Value} {v w : Value}

theorem refl (values : Named Value) : Named.Same values values := by
  intro member
  cases values.get? member with
  | none => exact .none
  | some v => exact .some (.refl v)

theorem insert (h : Named.Same values values') (member : String) (hvw : v.Same w) :
    Named.Same (values.insert member v) (values'.insert member w) := by
  intro other
  by_cases hother : other = member
  · subst hother
    rw [get?_insert_self, get?_insert_self]
    exact .some hvw
  · rw [get?_insert_of_ne hother, get?_insert_of_ne hother]
    exact h other

theorem memberValue? (h : Named.Same values values') (haside : Named.Same aside aside')
    (c : Column) :
    Option.Rel Value.Same (Cascade.memberValue? values aside c)
      (Cascade.memberValue? values' aside' c) := by
  unfold Cascade.memberValue?
  split
  · exact haside c.member
  · have hvalue := h c.member
    generalize values.get? c.member = v at hvalue ⊢
    generalize values'.get? c.member = w at hvalue ⊢
    cases hvalue with
    | none => exact haside c.member
    | some hvw => exact .some hvw

end Named.Same

namespace Placement

variable {p p' : Placement} {values values' : Named Value}

/-- One column, with one value. -/
def Same (p p' : Placement) : Prop :=
  Option.Rel (fun fk fk' => fk'.1 = fk.1 ∧ fk.2.Same fk'.2) p.foreignKey p'.foreignKey

theorem Same.place (h : p.Same p') (hvalues : Named.Same values values') :
    Named.Same (p.place values) (p'.place values') := by
  unfold Placement.place
  unfold Same at h
  generalize p.foreignKey = fk at h ⊢
  generalize p'.foreignKey = fk' at h ⊢
  cases h with
  | none => exact hvalues
  | @some fk fk' h =>
    obtain ⟨c, v⟩ := fk
    obtain ⟨c', w⟩ := fk'
    obtain ⟨rfl, hvw⟩ := h
    dsimp only
    split
    · exact hvalues
    · exact hvalues.insert _ hvw

theorem Same.aside (h : p.Same p') : Named.Same p.aside p'.aside := by
  unfold Placement.aside
  unfold Same at h
  generalize p.foreignKey = fk at h ⊢
  generalize p'.foreignKey = fk' at h ⊢
  cases h with
  | none => exact .refl _
  | @some fk fk' h =>
    obtain ⟨c, v⟩ := fk
    obtain ⟨c', w⟩ := fk'
    obtain ⟨rfl, hvw⟩ := h
    dsimp only
    split
    · exact (Named.Same.refl []).insert _ hvw
    · exact .refl _

end Placement

/-! ## What is asked of a representation -/

/-- A held connection answers a key, asked for the children of a row. -/
def Ownership.Reports {σ : Type} [Executor σ] (o : Ownership) (rules : CascadeRules)
    (held : σ → Prop) (parentKey key : Value) : Prop :=
  ∃ (connection : σ) (s : Statement) (records : RecordSet), held connection ∧
    rules.keyQuery o.child.entity (o.childrenOf parentKey) = .ok s ∧
    (Executor.query s connection).1 = .ok records ∧ key ∈ records.storedKeys

/-- Keys that are compared with each other as they are represented. `same entity v w` says that `v`
in the one run stands for `w` in the other as a key of `entity`; it relates what the comparisons
cannot tell apart. -/
structure Indistinct {σ : Type} [Executor σ] (rules : CascadeRules) (held : σ → Prop)
    (same : String → Value → Value → Prop) : Prop extends Executor.Closed held where
  /-- The two are one value of the type of the key. -/
  coerces : ∀ {entity v w t keyColumn}, rules.keyedTable entity = .ok (t, keyColumn) →
    same entity v w → v.SameIn keyColumn.type w
  /-- Both are unset, or neither. -/
  unset : ∀ {entity v w t keyColumn}, rules.keyedTable entity = .ok (t, keyColumn) →
    same entity v w → w.isUnset keyColumn.type = v.isUnset keyColumn.type
  /-- Where the keys that were inserted are remembered, one stands for one. -/
  inserted : rules.identityInsert = true → ∀ {entity v w v' w'}, same entity v w →
    same entity v' w' → (v = v' ↔ w = w')
  /-- A generated key stands for itself. -/
  generated : ∀ {entity t keyColumn s} {connection : σ} {key : Value},
    rules.keyedTable entity = .ok (t, keyColumn) → held connection →
    (Executor.scalar s connection).1 = .ok key → key.isNull = false →
    same entity ((key.coerce? keyColumn.type).getD key) ((key.coerce? keyColumn.type).getD key)
  /-- A key that is the foreign key, too, is the key of the parent. -/
  shared : ∀ {t r o v w}, rules.Declares t r o → o.foreignKey.member = o.childKey.member →
    same t.entity v w → same o.child.entity v w
  /-- A child that is stored under the one key is stored under the other. -/
  reported : ∀ {t r o parentKey key v w}, rules.Declares t r o →
    o.Reports rules held parentKey key → same o.child.entity v w → (v = key ↔ w = key)

section

variable {σ : Type} [Executor σ] {rules : CascadeRules} {held : σ → Prop}
  {same : String → Value → Value → Prop}

/-- No stored child is released that stands for a kept one. -/
theorem Indistinct.not_same_of_mem_orphans (h : Indistinct rules held same) {t : Table}
    {r : Relationship} {o : Ownership} (ho : rules.Declares t r o) {parentKey child key : Value}
    {records : RecordSet} {kept : List Value}
    (hreports : ∀ child ∈ records.storedKeys, o.Reports rules held parentKey child)
    (hchild : child ∈ records.orphans kept) (hkey : key ∈ kept) :
    ¬same o.child.entity child key := by
  intro hsame
  obtain ⟨hstored, hfree⟩ := RecordSet.mem_orphans.mp hchild
  have hreported := h.reported ho (hreports child hstored) hsame
  exact hfree (hreported.mp rfl ▸ hkey)

end

/-! ## Records in two representations -/

-- One relation for each list that a record holds.
mutual

/-- Two records to be saved as one of `entity`: of the same shape and with the same values, in two
representations perhaps, whose keys stand for each other. -/
inductive Record.Same (rules : CascadeRules) (same : String → Value → Value → Prop) :
    String → Record → Record → Prop
  | mk {entity name : String} {values values' : Named Value}
      {references references' : List (String × Option Record)}
      {collections collections' : List (String × List Record)}
      (hvalues : Named.Same values values')
      (hkey : ∀ {t keyColumn}, rules.keyedTable entity = .ok (t, keyColumn) →
        same entity (Record.valueOf values keyColumn.member)
          (Record.valueOf values' keyColumn.member))
      (hreferences : ∀ {t keyColumn}, rules.keyedTable entity = .ok (t, keyColumn) →
        SameReferences rules same t references references')
      (hcollections : ∀ {t keyColumn}, rules.keyedTable entity = .ok (t, keyColumn) →
        SameCollections rules same t collections collections') :
      Record.Same rules same entity (.mk name values references collections)
        (.mk name values' references' collections')

inductive SameReferences (rules : CascadeRules) (same : String → Value → Value → Prop) :
    Table → List (String × Option Record) → List (String × Option Record) → Prop
  | nil {t : Table} : SameReferences rules same t [] []
  | none {t : Table} {name : String} {rest rest' : List (String × Option Record)}
      (hrest : SameReferences rules same t rest rest') :
      SameReferences rules same t ((name, none) :: rest) ((name, none) :: rest')
  | some {t : Table} {name : String} {s s' : Record} {rest rest' : List (String × Option Record)}
      (hrecord : ∀ {r c}, Cascade.referenceOf t name = .ok (r, c) →
        Record.Same rules same r.primaryKey.entity s s')
      (hrest : SameReferences rules same t rest rest') :
      SameReferences rules same t ((name, some s) :: rest) ((name, some s') :: rest')

inductive SameCollections (rules : CascadeRules) (same : String → Value → Value → Prop) :
    Table → List (String × List Record) → List (String × List Record) → Prop
  | nil {t : Table} : SameCollections rules same t [] []
  | cons {t : Table} {name : String} {items items' : List Record}
      {rest rest' : List (String × List Record)}
      (hitems : ∀ {o}, Cascade.collectionOf rules t name = .ok o →
        SameItems rules same o.child.entity items items')
      (hrest : SameCollections rules same t rest rest') :
      SameCollections rules same t ((name, items) :: rest) ((name, items') :: rest')

inductive SameItems (rules : CascadeRules) (same : String → Value → Value → Prop) :
    String → List Record → List Record → Prop
  | nil {entity : String} : SameItems rules same entity [] []
  | cons {entity : String} {item item' : Record} {rest rest' : List Record}
      (hitem : Record.Same rules same entity item item')
      (hrest : SameItems rules same entity rest rest') :
      SameItems rules same entity (item :: rest) (item' :: rest')

end

namespace Record.Same

variable {rules : CascadeRules} {same : String → Value → Value → Prop} {entity : String}
  {r r' : Record}

theorem entity_eq (h : r.Same rules same entity r') : r'.entity = r.entity := by
  cases h with
  | mk => rfl

theorem key {t : Table} {keyColumn : Column} (h : r.Same rules same entity r')
    (ht : rules.keyedTable entity = .ok (t, keyColumn)) :
    same entity (valueOf r.values keyColumn.member) (valueOf r'.values keyColumn.member) := by
  cases h with
  | mk _ hkey => exact hkey ht

end Record.Same

/-- The values of a row in two representations, with keys that stand for each other. -/
structure SameRow (same : String → Value → Value → Prop) (t : Table) (keyColumn : Column)
    (values values' : Named Value) : Prop where
  members : Named.Same values values'
  key : same t.entity (Record.valueOf values keyColumn.member)
    (Record.valueOf values' keyColumn.member)

/-- A member that is not the key. -/
theorem SameRow.insert {same : String → Value → Value → Prop} {t : Table} {keyColumn : Column}
    {values values' : Named Value} {member : String} {v w : Value}
    (h : SameRow same t keyColumn values values') (hmember : keyColumn.member ≠ member)
    (hvw : v.Same w) :
    SameRow same t keyColumn (values.insert member v) (values'.insert member w) where
  members := h.members.insert member hvw
  key := by
    have hkey := h.key
    unfold Record.valueOf at hkey ⊢
    rwa [Named.get?_insert_of_ne hmember, Named.get?_insert_of_ne hmember]

/-- Placements in one entity, under one column, of keys that stand for each other. -/
structure Placement.Paired (rules : CascadeRules) (same : String → Value → Value → Prop)
    (p p' : Placement) : Prop where
  entity : p'.entity = p.entity
  foreignKey : p.Same p'
  key : ∀ {c c' v w t keyColumn}, p.foreignKey = some (c, v) → p'.foreignKey = some (c', w) →
    rules.keyedTable p.entity = .ok (t, keyColumn) → c.member = keyColumn.member →
    same p.entity v w

namespace Placement.Paired

variable {rules : CascadeRules} {same : String → Value → Value → Prop} {p p' : Placement}

/-- A placement under no column. -/
theorem alone (hforeignKey : p.foreignKey = none) : p.Paired rules same p where
  entity := rfl
  foreignKey := by
    unfold Placement.Same
    rw [hforeignKey]
    exact .none
  key hc := by
    rw [hforeignKey] at hc
    cases hc

/-- The key of a row is its own, or the one that it is placed under. -/
theorem place {t : Table} {keyColumn : Column} {values values' : Named Value}
    (hp : p.Paired rules same p') (ht : rules.keyedTable p.entity = .ok (t, keyColumn))
    (hvalues : Named.Same values values')
    (hkey : same p.entity (Record.valueOf values keyColumn.member)
      (Record.valueOf values' keyColumn.member)) :
    SameRow same t keyColumn (p.place values) (p'.place values') := by
  obtain ⟨hentity, -⟩ := CascadeRules.keyedTable_eq_ok ht
  refine ⟨hp.foreignKey.place hvalues, hentity ▸ ?_⟩
  have hforeignKey := hp.foreignKey
  unfold Placement.Same at hforeignKey
  unfold Placement.place
  rcases hfk : p.foreignKey with _ | ⟨c, v⟩
  · rw [hfk] at hforeignKey
    rcases hfk' : p'.foreignKey with _ | ⟨c', w⟩
    · exact hkey
    · rw [hfk'] at hforeignKey
      cases hforeignKey
  · rw [hfk] at hforeignKey
    rcases hfk' : p'.foreignKey with _ | ⟨c', w⟩
    · rw [hfk'] at hforeignKey
      cases hforeignKey
    · rw [hfk'] at hforeignKey
      obtain ⟨rfl, -⟩ : c' = c ∧ v.Same w := by
        cases hforeignKey with
        | some hfk => exact hfk
      dsimp only
      split
      · exact hkey
      · by_cases hmember : c'.member = keyColumn.member
        · rw [← hmember, Record.valueOf_insert, Record.valueOf_insert]
          exact hp.key hfk hfk' ht hmember
        · unfold Record.valueOf at hkey ⊢
          rwa [Named.get?_insert_of_ne (Ne.symm hmember),
            Named.get?_insert_of_ne (Ne.symm hmember)]

/-- The placement of an item under the key of its parent. -/
theorem under {σ : Type} [Executor σ] {held : σ → Prop} {t : Table} {r : Relationship}
    {o : Ownership} {v w : Value} (h : Indistinct rules held same) (ho : rules.Declares t r o)
    (hentity : p.entity = o.child.entity) (hparent : same t.entity v w)
    (hvw : v.Same w) :
    Paired rules same { p with foreignKey := some (o.foreignKey, v) }
      { p with foreignKey := some (o.foreignKey, w) } where
  entity := rfl
  foreignKey := .some ⟨rfl, hvw⟩
  key hc hc' ht hmember := by
    cases hc
    cases hc'
    dsimp only at ht ⊢
    rw [hentity, CascadeRules.keyedTable_child ho.ownership] at ht
    cases ht
    rw [hentity]
    exact h.shared ho hmember hparent

end Placement.Paired

end EntityMap
