import EntityMap.Proofs.Context.Growing
import EntityMap.Query.Binding

/-!
# Bound filters

What a path and a filter are bound to, said without the run that binds
them: the last member of a path to the column that stores it
(`Context.Resolves`), and a literal that is compared with a column to its
storage form (`Filter.BoundTo`). Binding leads there
(`Filter.bind_leads`), and what has been bound stays so while the context
grows (`Filter.BoundTo.grows`).
-/

namespace EntityMap

open Growing

namespace Context

variable {ctx ctx' : Context} {boundary i : Nat} {member : String} {c : NodeColumn}

/-- The column that stores a mapped member of a node: the value of its lookup, the foreign key
that has led to the node, or its own column. -/
inductive StoredIn (ctx : Context) (boundary i : Nat) (mapped : Column) : NodeColumn → Prop
  | lookup {t : Table} {value : Column} {lookup : Lookup} {k : Nat}
      (hlookup : mapped.lookup = some lookup)
      (hchild : ctx.child? i (.lookup mapped.member) = some k)
      (ht : ctx.entityTable lookup.entity = .ok t)
      (hvalue : t.column lookup.valueMember = .ok value) :
      StoredIn ctx boundary i mapped { node := k, member := value.member, column := value.column }
  | onOrigin {foreignKey : Column} {link : Link} (hlookup : mapped.lookup = none)
      (hkey : mapped.primaryKey) (hbelow : i ≠ boundary)
      (hlink : ctx.keyOnOrigin? i mapped.member = some link)
      (hforeignKey : ctx.column link.origin link.originMember = .ok foreignKey) :
      StoredIn ctx boundary i mapped
        { node := link.origin, member := foreignKey.member, column := foreignKey.column }
  | own (hlookup : mapped.lookup = none)
      (hown : mapped.primaryKey → i ≠ boundary → ctx.keyOnOrigin? i mapped.member = none) :
      StoredIn ctx boundary i mapped { node := i, member := mapped.member, column := mapped.column }

/-- The column behind a member of a node. -/
def Resolves (ctx : Context) (boundary i : Nat) (member : String) (c : NodeColumn) : Prop :=
  ∃ mapped, ctx.column i member = .ok mapped ∧ ctx.StoredIn boundary i mapped c

theorem resolves_of_resolveMember (h : ctx.resolveMember i member boundary = .ok c) :
    ctx.Resolves boundary i member c := by
  unfold resolveMember at h
  obtain ⟨n, hn, h⟩ := Except.bind_eq_ok_iff.mp h
  obtain ⟨t, ht, h⟩ := Except.bind_eq_ok_iff.mp h
  have hn := node_eq_ok_iff.mp hn
  have ht : ctx.table i = .ok t := table_eq_ok_iff.mpr ⟨n, hn, entityTable_eq_ok_iff.mp ht⟩
  split at h
  · split at h <;> cases h
  · rename_i mapped hmapped
    have hcolumn : ctx.column i member = .ok mapped := Except.bind_eq_ok_iff.mpr
      ⟨t, ht, Except.mapError_eq_ok_iff.mpr (Table.column_eq_ok_iff.mpr hmapped)⟩
    obtain rfl : mapped.member = member := by simpa using List.find?_some hmapped
    refine ⟨mapped, hcolumn, ?_⟩
    split at h
    · rename_i lookup hlookup
      split at h
      · cases h
      · rename_i k hk
        obtain ⟨t', ht', h⟩ := Except.bind_eq_ok_iff.mp h
        obtain ⟨value, hvalue, h⟩ := Except.bind_eq_ok_iff.mp h
        cases h
        refine .lookup hlookup ?_ ht' (Except.mapError_eq_ok_iff.mp hvalue)
        rw [child?, hn]
        exact hk
    · rename_i hlookup
      split at h
      · rename_i link hlink
        obtain ⟨foreignKey, hforeignKey, h⟩ := Except.bind_eq_ok_iff.mp h
        cases h
        obtain ⟨hcond, hlink⟩ := Option.ite_none_right_eq_some.mp hlink
        simp only [Bool.and_eq_true, decide_eq_true_eq] at hcond
        exact .onOrigin hlookup hcond.1 hcond.2 hlink hforeignKey
      · rename_i hnone
        cases h
        refine .own hlookup fun hkey hbelow => ?_
        simpa [hkey, hbelow] using hnone

theorem Grows.column {i : Nat} {member : String} {column : Column} (h : ctx.Grows ctx')
    (hcolumn : ctx.column i member = .ok column) : ctx'.column i member = .ok column := by
  obtain ⟨t, ht, hcolumn⟩ := Except.bind_eq_ok_iff.mp hcolumn
  exact Except.bind_eq_ok_iff.mpr ⟨t, h.table_eq ht, hcolumn⟩

theorem Resolves.grows (h : ctx.Resolves boundary i member c) (hgrows : ctx.Grows ctx') :
    ctx'.Resolves boundary i member c := by
  obtain ⟨mapped, hmapped, hc⟩ := h
  obtain ⟨t, ht, -⟩ := Except.bind_eq_ok_iff.mp hmapped
  obtain ⟨n, hn, -⟩ := table_eq_ok_iff.mp ht
  have hlink : ∀ member, ctx'.keyOnOrigin? i member = ctx.keyOnOrigin? i member := fun member => by
    rw [keyOnOrigin?, keyOnOrigin?, hgrows.link?_eq hn]
  refine ⟨mapped, hgrows.column hmapped, ?_⟩
  cases hc with
  | lookup hlookup hchild ht' hvalue =>
      exact .lookup hlookup (hgrows.child? hchild) (hgrows.entityTable.trans ht') hvalue
  | onOrigin hlookup hkey hbelow hon hforeignKey =>
      exact .onOrigin hlookup hkey hbelow ((hlink _).trans hon) (hgrows.column hforeignKey)
  | own hlookup hown =>
      exact .own hlookup fun hkey hbelow => (hlink _).trans (hown hkey hbelow)

/-- The column at the end of a path, seen from `target`. -/
def ResolvesPath (ctx : Context) (target : Nat) (path : String) (c : NodeColumn) : Prop :=
  ∃ nodePath member i, Path.splitMember? path = some (nodePath, member) ∧
    ctx.Reaches target nodePath i ∧ ctx.Resolves target i member c

theorem ResolvesPath.grows {target : Nat} {path : String} (h : ctx.ResolvesPath target path c)
    (hgrows : ctx.Grows ctx') : ctx'.ResolvesPath target path c := by
  obtain ⟨nodePath, member, i, hsplit, ⟨segments, hsegments, hi⟩, hc⟩ := h
  exact ⟨nodePath, member, i, hsplit, ⟨segments, hsegments, hgrows.descend? hi⟩, hc.grows hgrows⟩

theorem storedLiteral_grows {v w : Value} (hgrows : ctx.Grows ctx')
    (h : ctx.storedLiteral c v = .ok w) : ctx'.storedLiteral c v = .ok w := by
  unfold storedLiteral at h ⊢
  split
  · rename_i hnull
    rwa [if_pos hnull] at h
  · rename_i hnull
    rw [if_neg hnull] at h
    obtain ⟨mapped, hmapped, h⟩ := Except.bind_eq_ok_iff.mp h
    refine Except.bind_eq_ok_iff.mpr ⟨mapped, ?_, ?_⟩
    · exact Except.mapError_eq_ok_iff.mpr (hgrows.column (Except.mapError_eq_ok_iff.mp hmapped))
    · simpa only [enumerationLiteral, hgrows.catalog] using h

theorem comparison_grows {l r : BoundFilter} {bound : BoundFilter × BoundFilter}
    (hgrows : ctx.Grows ctx') (h : ctx.comparison l r = .ok bound) :
    ctx'.comparison l r = .ok bound := by
  unfold comparison at h
  split at h
  · obtain ⟨w, hw, h⟩ := Except.bind_eq_ok_iff.mp h
    exact Except.bind_eq_ok_iff.mpr ⟨w, storedLiteral_grows hgrows hw, h⟩
  · obtain ⟨w, hw, h⟩ := Except.bind_eq_ok_iff.mp h
    exact Except.bind_eq_ok_iff.mpr ⟨w, storedLiteral_grows hgrows hw, h⟩
  · rename_i hleft hright
    unfold comparison
    split
    · exact absurd rfl (hleft _ _ rfl)
    · exact absurd rfl (hright _ _ rfl)
    · exact h

/-- Literals are all that a comparison changes. -/
theorem members_of_comparison {l r : BoundFilter} {bound : BoundFilter × BoundFilter}
    (h : ctx.comparison l r = .ok bound) :
    bound.1.members = l.members ∧ bound.2.members = r.members := by
  unfold comparison at h
  split at h
  · obtain ⟨w, -, h⟩ := Except.bind_eq_ok_iff.mp h
    cases h
    exact ⟨rfl, rfl⟩
  · obtain ⟨w, -, h⟩ := Except.bind_eq_ok_iff.mp h
    cases h
    exact ⟨rfl, rfl⟩
  · cases h
    exact ⟨rfl, rfl⟩

end Context

/-- What a filter whose paths start at `target` is bound to. -/
inductive Filter.BoundTo (ctx : Context) (target : Nat) : Filter → BoundFilter → Prop
  | member {path : String} {column : NodeColumn} (h : ctx.ResolvesPath target path column) :
      BoundTo ctx target (.member path) (.member column)
  | literal (v : Value) : BoundTo ctx target (.literal v) (.literal v)
  | logical {op : Operator} {left right : Filter} {left' right' : BoundFilter}
      (hop : op.isLogical) (hleft : BoundTo ctx target left left')
      (hright : BoundTo ctx target right right') :
      BoundTo ctx target (.binary op left right) (.binary op left' right')
  | comparison {op : Operator} {left right : Filter} {left' right' : BoundFilter}
      {stored : BoundFilter × BoundFilter} (hop : op.isLogical = false)
      (hleft : BoundTo ctx target left left') (hright : BoundTo ctx target right right')
      (hstored : ctx.comparison left' right' = .ok stored) :
      BoundTo ctx target (.binary op left right) (.binary op stored.1 stored.2)

namespace Filter

variable {ctx ctx' : Context} {target : Nat}

theorem BoundTo.grows {filter : Filter} {bound : BoundFilter} (h : filter.BoundTo ctx target bound)
    (hgrows : ctx.Grows ctx') : filter.BoundTo ctx' target bound := by
  induction h with
  | member h => exact .member (h.grows hgrows)
  | literal v => exact .literal v
  | logical hop _ _ ihleft ihright => exact .logical hop ihleft ihright
  | comparison hop _ _ hstored ihleft ihright =>
      exact .comparison hop ihleft ihright (Context.comparison_grows hgrows hstored)

theorem rel_grows {filter : Option Filter} {bound : Option BoundFilter}
    (h : Option.Rel (BoundTo ctx target) filter bound) (hgrows : ctx.Grows ctx') :
    Option.Rel (BoundTo ctx' target) filter bound := by
  cases h with
  | none => exact .none
  | some h => exact .some (h.grows hgrows)

/-- The columns of a bound filter are those that paths lead to. -/
theorem BoundTo.resolvesPath_of_mem {filter : Filter} {bound : BoundFilter} {c : NodeColumn}
    (h : filter.BoundTo ctx target bound) (hc : c ∈ bound.members) :
    ∃ path, ctx.ResolvesPath target path c := by
  induction h with
  | member h =>
      obtain rfl := List.mem_singleton.mp hc
      exact ⟨_, h⟩
  | literal v => exact absurd hc List.not_mem_nil
  | logical _ _ _ ihleft ihright => exact (List.mem_append.mp hc).elim ihleft ihright
  | comparison _ _ _ hstored ihleft ihright =>
      obtain ⟨hleft, hright⟩ := Context.members_of_comparison hstored
      rcases List.mem_append.mp hc with hc | hc
      · exact ihleft (hleft ▸ hc)
      · exact ihright (hright ▸ hc)

/-- Binding a filter leads to what it is bound to. -/
theorem bind_leads (target : Nat) (filter : Filter) :
    (Filter.bind target filter).Leads ctx fun bound ctx' => filter.BoundTo ctx' target bound := by
  induction filter generalizing ctx with
  | member path =>
      refine (Context.resolvePath_leads target path).adapt.bind fun column ctx' _ h => ?_
      obtain ⟨nodePath, member, i, hsplit, hi, hcolumn⟩ := h
      exact Leads.pure
        (.member ⟨nodePath, member, i, hsplit, hi, Context.resolves_of_resolveMember hcolumn⟩)
  | literal v => exact Leads.pure (.literal v)
  | binary op left right ihleft ihright =>
      unfold Filter.bind
      refine ihleft.bind fun l _ _ hl => ihright.bind fun r _ hgrows hr => ?_
      split
      · rename_i hop
        exact Leads.pure (.logical hop (hl.grows hgrows) hr)
      · rename_i hop
        refine Leads.look_bind fun stored hstored => Leads.pure ?_
        exact .comparison (by simpa using hop) (hl.grows hgrows) hr hstored

end Filter

end EntityMap
