import EntityMap.Proofs.Catalog.Accepted
import EntityMap.Execution.Script
import EntityMap.Proofs.Context.Growing
import EntityMap.Proofs.Write.Dialogue

/-!
# Storage forms

A value comes to a column in two ways: a save or a patch binds it, and a
filter compares the column with it. Each way has a conversion of its own.
`Written` and `Compared` say what either binds, and `storage_forms` what
the two have to do with each other: they bind the same value, but where
the type is an enumeration a filter applies the adapter of the column to
the stored integer, and a write does not.
-/

namespace EntityMap

/-- The storage form of a value under the adapter of a column, or else under its type. -/
def Column.stored? (c : Column) (v : Value) : Option Value :=
  match c.adapter with
  | some adapter => (adapter.toStorage v).toOption
  | none => v.coerce? c.type

/-- What a filter makes of the stored integer of an enumeration: the adapter of the column is
applied to it. Other types are left alone. -/
def Column.adaptEnumeration? (c : Column) (stored : Value) : Option Value :=
  if c.type.isEnumeration then (c.toStorage stored).toOption else some stored

/-- What saves and patches bind for a value in a column, if they can: the column of a record's
member that has the value, or of a patched member. Null is for columns that may be null, and an
insert takes it for a missing value. -/
structure Written (σ : Type) [Executor σ] (rules : CascadeRules) (t : Table) (c : Column)
    (v : Value) (stored : Option Value) : Prop where
  converted : ∀ start : Cascade σ,
    ((Cascade.storageValue rules t c v).run start).2 = start ∧
      ((Cascade.storageValue rules t c v).run start).1.toOption = stored
  patched : c.primaryKey = false → c.shadow = false → (v.isNull → c.nullable) →
    ∀ start : Cascade σ, ((Cascade.patchAssignment rules t c.member v).run start).1.toOption =
      stored.map (⟨c.column, ·⟩)
  updated : ∀ values aside, Cascade.memberValue? values aside c = some v →
    (v.isNull → c.nullable) →
    ∀ start : Cascade σ,
      ((Cascade.updateAssignment rules t values aside c).run start).1.toOption =
        stored.map fun w => some ⟨c.column, w⟩
  inserted : ∀ values aside, Cascade.memberValue? values aside c = some v → v.isNull = false →
    ∀ start : Cascade σ,
      ((Cascade.insertAssignment rules t values aside c).run start).1.toOption =
        stored.map fun w => some ⟨c.column, w⟩

/-- What a filter binds, if it can, for a value on either side of a comparison with the column
that a path leads to. -/
structure Compared (ctx : Context) (target : Nat) (path : String) (column : NodeColumn)
    (v : Value) (literal : Option Value) : Prop where
  right : ∀ op : Operator, op.isLogical = false →
    ((Filter.bind target (.binary op (.member path) (.literal v))).run ctx).1.toOption =
      literal.map fun w => .binary op (.member column) (.literal w)
  left : ∀ op : Operator, op.isLogical = false →
    ((Filter.bind target (.binary op (.literal v) (.member path))).run ctx).1.toOption =
      literal.map fun w => .binary op (.literal w) (.member column)

variable {σ : Type} [Executor σ] {rules : CascadeRules} {t : Table} {c : Column} {v : Value}

/-! ## Conversions -/

theorem Value.coerce?_enumeration (v : Value) (name : String) :
    v.coerce? (.enumeration name) = some v := by
  cases v <;> rfl

theorem isNull_of_coerce? {v stored : Value} {type : DataType} (hvalue : v.isNull = false)
    (h : v.coerce? type = some stored) : stored.isNull = false := by
  unfold Value.coerce? at h
  split at h
  · cases hvalue
  · cases h
    exact hvalue
  all_goals first
    | (cases h; done)
    | (cases h; rfl)
    | (obtain ⟨_, _, rfl⟩ := Option.map_eq_some_iff.mp h; rfl)

theorem Enumeration.isNull_of_toStorage {e : Enumeration} {stored : Value}
    (hvalue : v.isNull = false) (h : e.toStorage v = .ok stored) : stored.isNull = false := by
  unfold Enumeration.toStorage at h
  dsimp only at h
  split at h
  · cases hvalue
  · split at h <;> cases h
    rfl
  · split at h <;> cases h
    rfl
  · cases h

theorem Adapter.isNull_of_toStorage {a : Adapter} {stored : Value} (hvalue : v.isNull = false)
    (h : a.toStorage v = .ok stored) : stored.isNull = false := by
  unfold Adapter.toStorage at h
  split at h
  · cases hvalue
  · cases h; rfl
  · cases h; rfl
  · split at h <;> cases h
    rfl
  · split at h <;> cases h
    rfl
  · cases h; rfl
  · cases h; rfl
  · cases h

/-- A value that is not null has no storage form that is. -/
theorem CascadeRules.isNull_of_convert {stored : Value} (hvalue : v.isNull = false)
    (h : rules.convert t c v = .ok stored) : stored.isNull = false := by
  unfold convert at h
  split at h
  · split at h
    · exact Enumeration.isNull_of_toStorage hvalue (Except.mapError_eq_ok_iff.mp h)
    · cases h
  · split at h
    · exact Adapter.isNull_of_toStorage hvalue (Except.mapError_eq_ok_iff.mp h)
    · split at h
      · rename_i hcoerced
        cases h
        exact isNull_of_coerce? hvalue hcoerced
      · cases h

theorem Except.toOption_mapError {ε ε' α : Type} (x : Except ε α) (f : ε → ε') :
    (x.mapError f).toOption = x.toOption := by
  cases x <;> rfl

theorem CascadeRules.convert_enumeration {name : String} (htype : c.type = .enumeration name) :
    (rules.convert t c v).toOption =
      (rules.catalog.enumeration? name).bind fun e => (e.toStorage v).toOption := by
  unfold convert
  rw [htype]
  dsimp only
  cases rules.catalog.enumeration? name with
  | none => rfl
  | some e => exact Except.toOption_mapError ..

theorem CascadeRules.convert_plain (htype : c.type.isEnumeration = false) :
    (rules.convert t c v).toOption = c.stored? v := by
  unfold convert
  split
  · rename_i htype'
    rw [htype'] at htype
    cases htype
  · unfold Column.stored?
    cases c.adapter with
    | some adapter => exact Except.toOption_mapError ..
    | none => cases v.coerce? c.type <;> rfl

/-- What a filter does with a literal that is not null, where the column is found. -/
theorem Context.storedLiteral_eq {ctx : Context} {column : NodeColumn}
    (hcolumn : ctx.column column.node column.member = .ok c) (hvalue : v.isNull = false) :
    (ctx.storedLiteral column v).toOption =
      (ctx.enumerationLiteral column.member c.type v).toOption.bind c.stored? := by
  unfold storedLiteral
  rw [hvalue, hcolumn]
  show (ctx.enumerationLiteral column.member c.type v >>= _).toOption = _
  cases ctx.enumerationLiteral column.member c.type v with
  | error e => rfl
  | ok w =>
      show _ = c.stored? w
      unfold Column.stored?
      dsimp only [bind, Except.bind]
      cases c.adapter with
      | some adapter => exact Except.toOption_mapError ..
      | none =>
          dsimp only
          cases w.coerce? c.type <;> rfl

/-- The adapter of an enumeration makes the difference, and nothing else. -/
theorem Context.storedLiteral_eq_bind {ctx : Context} {column : NodeColumn}
    (hcatalog : ctx.catalog = rules.catalog)
    (hcolumn : ctx.column column.node column.member = .ok c) (hvalue : v.isNull = false) :
    (ctx.storedLiteral column v).toOption =
      (rules.convert t c v).toOption.bind c.adaptEnumeration? := by
  rw [storedLiteral_eq hcolumn hvalue]
  by_cases htype : c.type.isEnumeration
  · obtain ⟨name, hname⟩ : ∃ name, c.type = .enumeration name := by
      cases hname : c.type <;> simp_all [DataType.isEnumeration]
    have hadapt : c.adaptEnumeration? = c.stored? := by
      funext w
      unfold Column.adaptEnumeration? Column.toStorage Column.stored?
      rw [if_pos htype, hname, Value.coerce?_enumeration]
      cases c.adapter <;> rfl
    rw [CascadeRules.convert_enumeration hname, hadapt]
    congr 1
    unfold enumerationLiteral
    rw [hname, hcatalog]
    dsimp only
    cases rules.catalog.enumeration? name with
    | none => rfl
    | some e => exact Except.toOption_mapError ..
  · rw [Bool.not_eq_true] at htype
    have hliteral : ctx.enumerationLiteral column.member c.type v = .ok v := by
      unfold enumerationLiteral
      split
      · rename_i hname
        rw [hname] at htype
        cases htype
      · rfl
    have hadapt : c.adaptEnumeration? = some := by
      funext w
      simp [Column.adaptEnumeration?, htype]
    rw [CascadeRules.convert_plain htype, hliteral, hadapt, Option.bind_fun_some]
    rfl

/-! ## Writes -/

namespace Cascade

/-- A value for a column that is no lookup is converted without asking for anything. -/
theorem run_storageValue (hlookup : c.lookup = none) (start : Cascade σ) :
    (storageValue rules t c v).run start =
      (if v.isNull then .ok .null else rules.convert t c v, start) := by
  unfold storageValue
  split
  · rfl
  · rw [hlookup]
    rfl

/-- A value that is not null, and null where it may be, passes the check of what is stored. -/
theorem run_requireValue {α : Type} (hlookup : c.lookup = none) (hnull : v.isNull → c.nullable)
    (assigned : Value → α) (start : Cascade σ) :
    ((do
      let stored ← storageValue rules t c v
      Writing.ofExcept (t.requireValue c stored)
      return assigned stored : Writing σ α).run start).1.toOption =
        ((storageValue rules t c v).run start).1.toOption.map assigned := by
  rw [Writing.run_bind, run_storageValue hlookup]
  have hrequired : ∀ stored, (if v.isNull then .ok .null else rules.convert t c v) = .ok stored →
      t.requireValue c stored = .ok () := by
    intro stored hstored
    refine if_neg fun hmissing => ?_
    obtain ⟨hisNull, hnullable⟩ := (Bool.and_eq_true ..).mp hmissing
    split at hstored
    · rename_i hv
      rw [hnull hv] at hnullable
      cases hnullable
    · rename_i hv
      rw [CascadeRules.isNull_of_convert (by simpa using hv) hstored] at hisNull
      cases hisNull
  cases hstored : (if v.isNull then .ok .null else rules.convert t c v) with
  | error e => rfl
  | ok stored =>
      dsimp only
      rw [hrequired stored hstored]
      rfl

theorem run_memberAssigned {α : Type} (assigned : Value → α) (hlookup : c.lookup = none)
    (start : Cascade σ) :
    ((do return assigned (← storageValue rules t c v) : Writing σ α).run start).1.toOption =
      ((storageValue rules t c v).run start).1.toOption.map assigned := by
  rw [Writing.run_bind, run_storageValue hlookup]
  cases (if v.isNull then .ok .null else rules.convert t c v) with
  | error e => rfl
  | ok stored => rfl

theorem written_storageValue (hlookup : c.lookup = none)
    (hcolumn : t.column c.member = .ok c) :
    Written σ rules t c v (if v.isNull then some .null else (rules.convert t c v).toOption) := by
  have hconverted : ∀ start : Cascade σ,
      ((storageValue rules t c v).run start).1.toOption =
        if v.isNull then some .null else (rules.convert t c v).toOption := by
    intro start
    rw [run_storageValue hlookup]
    split <;> rfl
  constructor
  case converted => exact fun start => ⟨by rw [run_storageValue hlookup], hconverted start⟩
  case patched =>
    intro hkey hshadow hnull start
    unfold patchAssignment
    rw [Table.column_eq_ok_iff.mp hcolumn, Option.filter_some, if_pos (by simp [hkey, hshadow]),
      ← hconverted start]
    exact run_requireValue hlookup hnull _ start
  case updated =>
    intro values aside hmember hnull start
    unfold updateAssignment
    rw [hmember, ← hconverted start]
    exact run_requireValue hlookup hnull _ start
  case inserted =>
    intro values aside hmember hvalue start
    unfold insertAssignment
    rw [hmember, Option.filter_some, if_pos (by simp [hvalue]), ← hconverted start]
    exact run_memberAssigned _ hlookup start

end Cascade

/-! ## Comparisons -/

namespace Filter

open Growing

variable {ctx ctx' : Context} {target : Nat} {path : String} {column : NodeColumn}

theorem run_bind_member (hpath : (Context.resolvePath target path).run ctx = (.ok column, ctx')) :
    (Filter.bind target (.member path)).run ctx = (.ok (.member column), ctx') := by
  rw [Filter.bind, run_bind, run_adapt, hpath]
  rfl

theorem run_bind_comparison {op : Operator} {left right : Filter} {l r : BoundFilter}
    {middle : Context} (hop : op.isLogical = false)
    (hleft : (Filter.bind target left).run ctx = (.ok l, middle))
    (hright : (Filter.bind target right).run middle = (.ok r, ctx')) :
    ((Filter.bind target (.binary op left right)).run ctx).1.toOption =
      (ctx'.comparison l r).toOption.map fun sides => .binary op sides.1 sides.2 := by
  rw [Filter.bind, run_bind, hleft]
  dsimp only
  rw [run_bind, hright]
  dsimp only
  rw [hop, if_neg Bool.false_ne_true, run_look_bind]
  cases ctx'.comparison l r with
  | error e => rfl
  | ok sides => rfl

theorem compared_storedLiteral
    (hpath : (Context.resolvePath target path).run ctx = (.ok column, ctx')) :
    Compared ctx target path column v (ctx'.storedLiteral column v).toOption := by
  constructor
  case right =>
    intro op hop
    rw [run_bind_comparison hop (run_bind_member hpath) rfl]
    show (ctx'.storedLiteral column v >>= _).toOption.map _ = _
    cases ctx'.storedLiteral column v with
    | error e => rfl
    | ok w => rfl
  case left =>
    intro op hop
    rw [run_bind_comparison hop rfl (run_bind_member hpath)]
    show (ctx'.storedLiteral column v >>= _).toOption.map _ = _
    cases ctx'.storedLiteral column v with
    | error e => rfl
    | ok w => rfl

end Filter

/-! ## Both -/

theorem Column.adaptEnumeration?_null (c : Column) : c.adaptEnumeration? .null = some .null := by
  unfold adaptEnumeration? toStorage
  cases c.adapter with
  | none => split <;> rfl
  | some adapter =>
      have hnull : adapter.toStorage .null = .ok .null := by cases adapter <;> rfl
      dsimp only
      rw [hnull]
      split <;> rfl

theorem Column.adaptEnumeration?_of_plain {c : Column}
    (hplain : c.type.isEnumeration → c.adapter = none) : c.adaptEnumeration? = some := by
  funext w
  unfold adaptEnumeration?
  split
  · rename_i htype
    rw [toStorage, hplain htype]
    rfl
  · rfl

/-- For every column of an accepted catalog that is no lookup, and every value: a filter binds what
a write binds, and fails when the write fails, but on an enumeration with an adapter, which only
the filter applies. -/
theorem storage_forms {d : Definition} (hd : d.toCatalog = .ok rules.catalog)
    (ht : t ∈ rules.catalog.tables) (hc : c ∈ t.columns) (hlookup : c.lookup = none)
    {ctx ctx' : Context} (hcatalog : ctx.catalog = rules.catalog) {target : Nat} {path : String}
    {column : NodeColumn}
    (hpath : (Context.resolvePath target path).run ctx = (.ok column, ctx'))
    (hcolumn : ctx'.column column.node column.member = .ok c) (v : Value) :
    ∃ stored literal, Written σ rules t c v stored ∧ Compared ctx target path column v literal ∧
      literal = stored.bind c.adaptEnumeration? ∧
      ((c.type.isEnumeration → c.adapter = none) → literal = stored) := by
  have hcatalog' : ctx'.catalog = rules.catalog := by
    have hgrows := (@Context.resolvePath_leads ctx target path).grows
    rw [hpath] at hgrows
    rw [Context.Grows.catalog hgrows, hcatalog]
  have haccepted := Definition.accepted_of_toCatalog hd
  have hadapted : (ctx'.storedLiteral column v).toOption =
      (if v.isNull then some .null else (rules.convert t c v).toOption).bind
        c.adaptEnumeration? := by
    split
    · rename_i hnull
      obtain rfl : v = .null := by cases v <;> first | rfl | cases hnull
      exact (c.adaptEnumeration?_null).symm
    · rename_i hvalue
      exact Context.storedLiteral_eq_bind hcatalog' hcolumn (by simpa using hvalue)
  refine ⟨_, _, Cascade.written_storageValue hlookup (haccepted.column_eq ht hc),
    Filter.compared_storedLiteral hpath, hadapted, fun hplain => ?_⟩
  rw [hadapted, Column.adaptEnumeration?_of_plain hplain, Option.bind_fun_some]

/-- Tickets, whose amount is stored in hundredths, and whose status in tenfold integers. -/
def ticketTable : Table where
  entity := "Ticket"
  table := "tickets"
  columns := [
    { member := "Id", column := "id", type := .int64, primaryKey := true, default := .generated },
    { member := "Amount", column := "amount", type := .int64, adapter := some (.scale 100) },
    { member := "Status", column := "status", type := .enumeration "Status"
      adapter := some (.scale 10) }]
  relationships := []
  permissions := {}

def ticketEnumerations : List Enumeration :=
  [{ name := "Status", variants := [("open", 1), ("closed", 2)] }]

def ticketRules : CascadeRules :=
  { catalog := ⟨[ticketTable], ticketEnumerations⟩, identityInsert := false, depth := 10 }

def ticketContext : Context where
  catalog := ticketRules.catalog
  nodes := #[{ index := 0, entity := "Ticket", table := "tickets", level := 0, link := none
               joinKind := .inner, children := [] }]

def ticketStart : Cascade Script :=
  { work := { connection := {} } }

theorem storage_forms_amount :
    Definition.toCatalog ⟨ticketEnumerations, [ticketTable]⟩ = .ok ticketRules.catalog ∧
      ∃ c ∈ ticketTable.columns, c.lookup = none ∧ ∃ column ctx',
        (Context.resolvePath 0 "Amount").run ticketContext = (.ok column, ctx') ∧
          ctx'.column column.node column.member = .ok c ∧
          ∃ stored literal, Written Script ticketRules ticketTable c (.int 3) stored ∧
            Compared ticketContext 0 "Amount" column (.int 3) literal ∧
            literal = stored.bind c.adaptEnumeration? ∧
            ((c.type.isEnumeration → c.adapter = none) → literal = stored) := by
  have hd : Definition.toCatalog ⟨ticketEnumerations, [ticketTable]⟩ = .ok ticketRules.catalog :=
    rfl
  have hpath : (Context.resolvePath 0 "Amount").run ticketContext =
      (.ok { node := 0, member := "Amount", column := "amount" }, ticketContext) := rfl
  have hc : ticketTable.columns[1] ∈ ticketTable.columns := List.getElem_mem _
  exact ⟨hd, _, hc, rfl, _, _, hpath, rfl,
    storage_forms hd (List.mem_cons_self ..) hc rfl rfl hpath rfl (.int 3)⟩

/-- A patch stores the status as its integer, but a filter looks for ten times as much: no filter on
a status finds the rows that were stored with it. -/
theorem status_not_found :
    Definition.toCatalog ⟨ticketEnumerations, [ticketTable]⟩ = .ok ticketRules.catalog ∧
      ((Cascade.patchAssignment ticketRules ticketTable "Status" (.text "open")).run
        ticketStart).1 = .ok ⟨"status", .int 1⟩ ∧
      ((Filter.bind 0 (.compare "Status" .eq (.text "open"))).run ticketContext).1 =
        .ok (.compare { node := 0, member := "Status", column := "status" } .eq (.int 10)) :=
  ⟨rfl, by decide +kernel, by decide +kernel⟩

end EntityMap
