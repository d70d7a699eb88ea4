import EntityMap.Proofs.Query.Resolved
import EntityMap.Proofs.Query.Sufficiency

/-!
# What binding makes of a filter

Binding grows the context while it descends into a filter, but what comes
out is a plain function of the filter (`Filter.boundBy?`) once it is said
to which column each path leads: operators and members stay where they
are, and a literal becomes the storage form for the column beside it, on
whichever side of the comparison it stands. That form takes the literal,
the mapping of the column and the catalog (`Catalog.storedForm?`), so
nothing else of the tree or of the context has a say in it.

In the context that is left all paths are there, so binding once more
gives the same tree (`Filter.run_bind_of_boundTo`).
-/

namespace EntityMap

open Growing

namespace Catalog

/-- The integer that an enumeration stores for a literal, if it has one; literals of other types
stay as they are. -/
def enumerated? (catalog : Catalog) (type : DataType) (v : Value) : Option Value :=
  match type with
  | .enumeration name =>
    (catalog.enumeration? name).bind fun enumeration => (enumeration.toStorage v).toOption
  | _ => some v

/-- The storage form of a literal for a mapped column, if it has one: by the enumeration of its
type, then by its adapter or else its type. Null stays null. -/
def storedForm? (catalog : Catalog) (mapped : Column) (v : Value) : Option Value :=
  if v.isNull then some v
  else
    (catalog.enumerated? mapped.type v).bind fun v =>
      match mapped.adapter with
      | some adapter => (adapter.toStorage v).toOption
      | none => v.coerce? mapped.type

end Catalog

/-- The tree of a condition, without what stands at its leaves. -/
def Condition.shape {α : Type} : Condition α → Condition Unit
  | .binary op left right => .binary op left.shape right.shape
  | .member _ => .member ()
  | .literal _ => .literal .null

namespace Filter

section

variable (catalog : Catalog) (resolved : String → NodeColumn × Column)

/-- What a bound operand of a comparison becomes beside the other operand: a literal beside a member
its storage form for the column of the member, and everything else stays. -/
def beside? (other : Filter) : BoundFilter → Option BoundFilter
  | .literal v =>
    match other with
    | .member path => (catalog.storedForm? (resolved path).2 v).map .literal
    | _ => some (.literal v)
  | bound => some bound

/-- The bound filter, by the column that each path is resolved to and the mapping of that column. -/
def boundBy? : Filter → Option BoundFilter
  | .member path => some (.member (resolved path).1)
  | .literal v => some (.literal v)
  | .binary op left right => do
    let boundLeft ← boundBy? left
    let boundRight ← boundBy? right
    if op.isLogical then return .binary op boundLeft boundRight
    else
      return .binary op (← beside? catalog resolved right boundLeft)
        (← beside? catalog resolved left boundRight)

end

end Filter

namespace Context

variable {ctx : Context} {target : Nat} {path : String} {c : NodeColumn} {mapped : Column}
  {v w : Value}

theorem ResolvesPath.unique {c' : NodeColumn} (h : ctx.ResolvesPath target path c)
    (h' : ctx.ResolvesPath target path c') : c' = c := by
  obtain ⟨nodePath, member, i, hsplit, ⟨segments, hsegments, hi⟩, hc⟩ := h
  obtain ⟨nodePath', member', k, hsplit', ⟨segments', hsegments', hk⟩, hc'⟩ := h'
  cases hsplit.symm.trans hsplit'
  cases hsegments.symm.trans hsegments'
  cases hi.symm.trans hk
  exact hc.unique hc'

theorem enumerated?_of_enumerationLiteral {member : String} {type : DataType}
    (h : ctx.enumerationLiteral member type v = .ok w) :
    ctx.catalog.enumerated? type v = some w := by
  cases type with
  | enumeration name =>
      unfold enumerationLiteral at h
      dsimp only at h
      cases henumeration : ctx.catalog.enumeration? name with
      | none =>
          rw [henumeration] at h
          cases h
      | some enumeration =>
          rw [henumeration] at h
          rw [Catalog.enumerated?, henumeration]
          exact Except.toOption_eq_some_iff.mpr (Except.mapError_eq_ok_iff.mp h)
  | bool | int32 | int64 | float64 | text | timestamp | uuid =>
      cases h
      rfl

/-- The storage form of a literal depends on the mapping of the column, and on nothing else of the
context but its catalog. -/
theorem storedForm?_of_storedLiteral (hmapped : ctx.column c.node c.member = .ok mapped)
    (h : ctx.storedLiteral c v = .ok w) : ctx.catalog.storedForm? mapped v = some w := by
  unfold storedLiteral at h
  by_cases hnull : v.isNull
  · rw [if_pos hnull] at h
    cases h
    exact if_pos hnull
  · rw [if_neg hnull] at h
    obtain ⟨mapped', hmapped', h⟩ := Except.bind_eq_ok_iff.mp h
    cases hmapped.symm.trans (Except.mapError_eq_ok_iff.mp hmapped')
    obtain ⟨named, hnamed, h⟩ := Except.bind_eq_ok_iff.mp h
    rw [Catalog.storedForm?, if_neg hnull, enumerated?_of_enumerationLiteral hnamed]
    cases hadapter : mapped.adapter with
    | some adapter =>
        rw [hadapter] at h
        exact Except.toOption_eq_some_iff.mpr (Except.mapError_eq_ok_iff.mp h)
    | none =>
        rw [hadapter] at h
        dsimp only at h
        cases hcoerced : named.coerce? mapped.type with
        | none =>
            rw [hcoerced] at h
            cases h
        | some stored =>
            rw [hcoerced] at h
            cases h
            exact hcoerced

end Context

namespace Filter

variable {ctx ctx' : Context} {anchor : Nat} {filter left right : Filter}
  {bound boundLeft boundRight : BoundFilter} {resolved : String → NodeColumn × Column}

/-- The columns that the paths of a filter lead to, and their mappings. -/
def ResolvedBy (ctx : Context) (anchor : Nat) (filter : Filter)
    (resolved : String → NodeColumn × Column) : Prop :=
  ∀ path ∈ filter.members, ctx.ResolvesPath anchor path (resolved path).1 ∧
    ctx.column (resolved path).1.node (resolved path).1.member = .ok (resolved path).2

theorem BoundTo.exists_resolvesPath (h : filter.BoundTo ctx anchor bound) :
    ∀ path ∈ filter.members, ∃ c, ctx.ResolvesPath anchor path c := by
  induction h with
  | @member path c hc =>
      intro other hother
      obtain rfl := List.mem_singleton.mp hother
      exact ⟨c, hc⟩
  | literal => exact fun _ hpath => absurd hpath (List.not_mem_nil)
  | logical _ _ _ ihleft ihright =>
      intro path hpath
      rcases List.mem_append.mp hpath with hpath | hpath
      · exact ihleft path hpath
      · exact ihright path hpath
  | comparison _ _ _ _ ihleft ihright =>
      intro path hpath
      rcases List.mem_append.mp hpath with hpath | hpath
      · exact ihleft path hpath
      · exact ihright path hpath

theorem BoundTo.exists_resolvedBy (h : filter.BoundTo ctx anchor bound) (hsound : ctx.Sound) :
    ∃ resolved, filter.ResolvedBy ctx anchor resolved := by
  have hall : ∀ path, ∃ entry : NodeColumn × Column, path ∈ filter.members →
      ctx.ResolvesPath anchor path entry.1 ∧
        ctx.column entry.1.node entry.1.member = .ok entry.2 := by
    intro path
    by_cases hpath : path ∈ filter.members
    · obtain ⟨c, hc⟩ := h.exists_resolvesPath path hpath
      obtain ⟨mapped, hmapped, -⟩ := hc.exists_column hsound
      exact ⟨(c, mapped), fun _ => ⟨hc, hmapped⟩⟩
    · exact ⟨({ node := 0, member := "", column := "" },
        { member := "", column := "", type := .bool }), fun hmem => absurd hmem hpath⟩
  exact ⟨fun path => (hall path).choose, fun path hpath => (hall path).choose_spec hpath⟩

@[simp] theorem beside?_binary (catalog : Catalog) (op : Operator) (bound : BoundFilter) :
    beside? catalog resolved (.binary op left right) bound = some bound := by
  cases bound <;> rfl

/-- In a comparison each side becomes what it becomes beside the other one. -/
theorem beside?_of_comparison {stored : BoundFilter × BoundFilter}
    (hleft : left.BoundTo ctx anchor boundLeft) (hright : right.BoundTo ctx anchor boundRight)
    (hresolvedLeft : left.ResolvedBy ctx anchor resolved)
    (hresolvedRight : right.ResolvedBy ctx anchor resolved)
    (h : ctx.comparison boundLeft boundRight = .ok stored) :
    beside? ctx.catalog resolved right boundLeft = some stored.1 ∧
      beside? ctx.catalog resolved left boundRight = some stored.2 := by
  cases hleft with
  | @member path c hc =>
      cases hright with
      | literal v =>
          obtain ⟨w, hw, heq⟩ := Except.bind_eq_ok_iff.mp h
          cases heq
          obtain ⟨hcolumn, hmapped⟩ := hresolvedLeft path (List.mem_singleton_self path)
          rw [hc.unique hcolumn] at hmapped
          refine ⟨rfl, ?_⟩
          rw [beside?, Context.storedForm?_of_storedLiteral hmapped hw]
          rfl
      | member | logical | comparison =>
          cases h
          exact ⟨rfl, rfl⟩
  | literal v =>
      cases hright with
      | @member path c hc =>
          obtain ⟨w, hw, heq⟩ := Except.bind_eq_ok_iff.mp h
          cases heq
          obtain ⟨hcolumn, hmapped⟩ := hresolvedRight path (List.mem_singleton_self path)
          rw [hc.unique hcolumn] at hmapped
          refine ⟨?_, rfl⟩
          rw [beside?, Context.storedForm?_of_storedLiteral hmapped hw]
          rfl
      | literal | logical | comparison =>
          cases h
          exact ⟨rfl, rfl⟩
  | logical | comparison =>
      cases h
      cases hright <;> exact ⟨rfl, by simp⟩

theorem resolvedBy_binary {op : Operator} :
    ResolvedBy ctx anchor (.binary op left right) resolved ↔
      left.ResolvedBy ctx anchor resolved ∧ right.ResolvedBy ctx anchor resolved :=
  List.forall_mem_append

/-- What a filter is bound to can be told from its tree, once it is known where its paths lead. -/
theorem BoundTo.boundBy?_eq (h : filter.BoundTo ctx anchor bound)
    (hresolved : filter.ResolvedBy ctx anchor resolved) :
    filter.boundBy? ctx.catalog resolved = some bound := by
  induction h with
  | @member path c hc =>
      have hfirst := (hresolved path (List.mem_singleton_self path)).1
      rw [boundBy?, hc.unique hfirst]
  | literal v => rfl
  | logical hop _ _ ihleft ihright =>
      obtain ⟨hresolvedLeft, hresolvedRight⟩ := resolvedBy_binary.mp hresolved
      rw [boundBy?, ihleft hresolvedLeft, ihright hresolvedRight]
      simp [hop]
  | comparison hop hleft hright hstored ihleft ihright =>
      obtain ⟨hresolvedLeft, hresolvedRight⟩ := resolvedBy_binary.mp hresolved
      obtain ⟨hl, hr⟩ :=
        beside?_of_comparison hleft hright hresolvedLeft hresolvedRight hstored
      rw [boundBy?, ihleft hresolvedLeft, ihright hresolvedRight]
      simp [hop, hl, hr]

theorem shape_and_members_of_beside? {catalog : Catalog} {other : Filter} {operand : BoundFilter}
    (h : beside? catalog resolved other bound = some operand) :
    operand.shape = bound.shape ∧ operand.members = bound.members := by
  unfold beside? at h
  split at h
  · split at h
    · obtain ⟨w, -, rfl⟩ := Option.map_eq_some_iff.mp h
      exact ⟨rfl, rfl⟩
    · cases h
      exact ⟨rfl, rfl⟩
  · cases h
    exact ⟨rfl, rfl⟩

/-- The operators stay where they are, and each member becomes the column of its path. -/
theorem shape_and_members_of_boundBy? {catalog : Catalog}
    (h : filter.boundBy? catalog resolved = some bound) :
    bound.shape = filter.shape ∧
      bound.members = filter.members.map fun path => (resolved path).1 := by
  induction filter generalizing bound with
  | member path =>
      cases h
      exact ⟨rfl, rfl⟩
  | literal v =>
      cases h
      exact ⟨rfl, rfl⟩
  | binary op left right ihleft ihright =>
      obtain ⟨l, hl, h⟩ := Option.bind_eq_some_iff.mp h
      obtain ⟨r, hr, h⟩ := Option.bind_eq_some_iff.mp h
      obtain ⟨hlshape, hlmembers⟩ := ihleft hl
      obtain ⟨hrshape, hrmembers⟩ := ihright hr
      split at h
      · cases h
        simp [Condition.shape, Condition.members, hlshape, hrshape, hlmembers, hrmembers]
      · obtain ⟨l', hl', h⟩ := Option.bind_eq_some_iff.mp h
        obtain ⟨r', hr', h⟩ := Option.bind_eq_some_iff.mp h
        cases h
        obtain ⟨hlshape', hlmembers'⟩ := shape_and_members_of_beside? hl'
        obtain ⟨hrshape', hrmembers'⟩ := shape_and_members_of_beside? hr'
        simp [Condition.shape, Condition.members, hlshape, hrshape, hlmembers, hrmembers,
          hlshape', hrshape', hlmembers', hrmembers']

/-- A filter that is bound already is bound to the same once more, and the context stays. -/
theorem run_bind_of_boundTo (h : filter.BoundTo ctx anchor bound) :
    (Filter.bind anchor filter).run ctx = (.ok bound, ctx) := by
  induction h with
  | @member path c hc =>
      unfold Filter.bind
      rw [run_bind, run_adapt, Context.run_resolvePath hc]
      rfl
  | literal v => rfl
  | logical hop _ _ ihleft ihright =>
      unfold Filter.bind
      rw [run_bind, ihleft]
      dsimp only
      rw [run_bind, ihright]
      dsimp only
      rw [if_pos hop]
      rfl
  | comparison hop hleft hright hstored ihleft ihright =>
      unfold Filter.bind
      rw [run_bind, ihleft]
      dsimp only
      rw [run_bind, ihright]
      dsimp only
      rw [if_neg (by simp [hop]), run_look_bind, hstored]
      rfl

/-- A filter bound in a context, by the column and the mapping that each of its paths leads to. -/
structure IsBoundBy (filter : Filter) (ctx : Context) (anchor : Nat) (bound : BoundFilter)
    (resolved : String → NodeColumn × Column) : Prop where
  /-- Resolving a path of the filter gives its column and adds nothing. -/
  leads : ∀ path ∈ filter.members,
    (Context.resolvePath anchor path).run ctx = (.ok (resolved path).1, ctx)
  below : ∀ path ∈ filter.members, ctx.isAncestorOrSelf anchor (resolved path).1.node
  mapped : ∀ path ∈ filter.members,
    ctx.column (resolved path).1.node (resolved path).1.member = .ok (resolved path).2
  shape : bound.shape = filter.shape
  members : bound.members = filter.members.map fun path => (resolved path).1
  /-- The whole tree, its literals among it. -/
  tree : filter.boundBy? ctx.catalog resolved = some bound
  /-- Binding the filter once more gives the same and adds nothing. -/
  again : (Filter.bind anchor filter).run ctx = (.ok bound, ctx)

/-- What binding answers is the filter with its paths resolved below the anchor and its literals
stored for the members beside them, in the context that it leaves and whatever was there before. -/
theorem isBoundBy_of_bind (hctx : ctx.Reachable)
    (hrun : (Filter.bind anchor filter).run ctx = (.ok bound, ctx')) :
    ∃ resolved, filter.IsBoundBy ctx' anchor bound resolved := by
  have hleads : (Filter.bind anchor filter).Leads ctx _ := bind_leads anchor filter
  have hbound := hleads.answer bound (congrArg (·.1) hrun)
  have hcall : ctx.Call ((Filter.bind anchor filter).run ctx).2 := .bind anchor filter
  rw [hrun] at hbound hcall
  have hsound : ctx'.Sound := (Context.Reachable.call hctx hcall).sound
  obtain ⟨resolved, hresolved⟩ := hbound.exists_resolvedBy hsound
  have htree := hbound.boundBy?_eq hresolved
  obtain ⟨hshape, hmembers⟩ := shape_and_members_of_boundBy? htree
  exact ⟨resolved, {
    leads := fun path hpath => Context.run_resolvePath (hresolved path hpath).1
    below := fun path hpath => (hresolved path hpath).1.below hsound.arena hsound.registered
    mapped := fun path hpath => (hresolved path hpath).2
    shape := hshape
    members := hmembers
    tree := htree
    again := run_bind_of_boundTo hbound }⟩

/-! ## Bills of a customer -/

def billTables : List Table :=
  [{ entity := "Bill", table := "bills"
     columns := [
       { member := "Id", column := "id", type := .int64, primaryKey := true },
       { member := "Total", column := "total", type := .int64, adapter := some (.scale 100) },
       { member := "CustomerId", column := "customer_id", type := .int64 }]
     relationships := [
       { name := "Customer", kind := .manyToOne, foreignKey := ⟨"Bill", "CustomerId"⟩
         primaryKey := ⟨"Customer", "Id"⟩ }]
     permissions := {} },
   { entity := "Customer", table := "customers"
     columns := [
       { member := "Id", column := "id", type := .int64, primaryKey := true },
       { member := "Name", column := "name", type := .text }]
     relationships := []
     permissions := {} }]

def billContext : Context :=
  { catalog := ⟨billTables, []⟩
    nodes := #[{ index := 0, entity := "Bill", table := "bills", level := 0, link := none
                 joinKind := .inner, children := [] }] }

theorem reachable_billContext : billContext.Reachable :=
  have haccepted : Definition.toCatalog ⟨[], billTables⟩ = .ok ⟨billTables, []⟩ := rfl
  have hctx : Context.ofEntity ⟨billTables, []⟩ "Bill" = .ok billContext := rfl
  .start haccepted hctx

/-- Bills over ten of a customer, with the ten on the left. -/
def largeBills : Filter :=
  .and (.binary .lt (.literal (.int 10)) (.member "Total"))
    (.compare "Customer.Name" .eq (.text "North"))

/-- Totals are stored in hundredths, so the ten becomes a thousand; the name stays. -/
def boundLargeBills : BoundFilter :=
  .and (.binary .lt (.literal (.int 1000))
      (.member { node := 0, member := "Total", column := "total" }))
    (.compare { node := 1, member := "Name", column := "name" } .eq (.text "North"))

theorem isBoundBy_largeBills : ∃ ctx' resolved,
    (Filter.bind 0 largeBills).run billContext = (.ok boundLargeBills, ctx') ∧
      largeBills.IsBoundBy ctx' 0 boundLargeBills resolved := by
  have hbound : ((Filter.bind 0 largeBills).run billContext).1.toOption = some boundLargeBills := by
    decide +kernel
  rcases hrun : (Filter.bind 0 largeBills).run billContext with ⟨answer, ctx'⟩
  rw [hrun] at hbound
  obtain rfl := Except.toOption_eq_some_iff.mp hbound
  obtain ⟨resolved, hresolved⟩ := isBoundBy_of_bind reachable_billContext hrun
  exact ⟨ctx', resolved, rfl, hresolved⟩

end Filter

end EntityMap
