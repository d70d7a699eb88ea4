import EntityMap.Proofs.Catalog.Accepted
import EntityMap.Proofs.Query.Planned

/-!
# Two targets of one entity

Two calls may plan for targets of one entity, in contexts that number
their nodes differently. Nodes below the two are alike when the same
keys lead down to them (`Context.Alike`). Alike nodes are of one entity
and hang alike on alike origins (`Context.Twins.exists_links`). So a
filter is bound to the same condition in both, but for the numbers of
the nodes (`Context.Twins.rel_of_boundTo`).
-/

namespace EntityMap

/-- Two links that are declared from one entity under one key differ in their origins only. -/
theorem Link.Declared.unique {catalog : Catalog} {originEntity entity entity' : String}
    {link link' : Link} (haccepted : catalog.Accepted)
    (h : Link.Declared catalog originEntity entity link)
    (h' : Link.Declared catalog originEntity entity' link') (hkey : link.key = link'.key) :
    entity' = entity ∧ link' = { link with origin := link'.origin } := by
  cases h with
  | lookup origin htable hcolumn hlookup htarget hk =>
      cases h' with
      | lookup origin' htable' hcolumn' hlookup' htarget' hk' =>
          cases htable.symm.trans htable'
          obtain rfl := haccepted.eq_of_member (Catalog.mem_of_table htable).1 hcolumn hcolumn'
            (ChildKey.lookup.inj hkey)
          cases hlookup.symm.trans hlookup'
          cases htarget.symm.trans htarget'
          cases hk.symm.trans hk'
          exact ⟨rfl, rfl⟩
      | navigation => simp at hkey
  | @navigation table foreignTable r foreignKey name origin htable hr hforeign hk =>
      cases h' with
      | lookup => simp at hkey
      | @navigation table' foreignTable' r' foreignKey' name' origin' htable' hr' hforeign' hk' =>
          cases htable.symm.trans htable'
          have hname : name = name' := by
            rw [← (Table.mem_of_relationship? hr).2, ← (Table.mem_of_relationship? hr').2]
            simpa using hkey
          subst hname
          cases hr.symm.trans hr'
          cases hforeign.symm.trans hforeign'
          cases hk.symm.trans hk'
          refine ⟨rfl, ?_⟩
          unfold Context.linkOf
          split <;> rfl

/-- Two conditions of one shape whose members are related. -/
inductive Condition.Rel {α β : Type} (R : α → β → Prop) : Condition α → Condition β → Prop
  | member {a : α} {b : β} (h : R a b) : Rel R (.member a) (.member b)
  | literal (v : Value) : Rel R (.literal v) (.literal v)
  | binary {op : Operator} {left right : Condition α} {left' right' : Condition β}
      (hleft : Rel R left left') (hright : Rel R right right') :
      Rel R (.binary op left right) (.binary op left' right')

namespace Context

variable {ctx ctx' : Context} {target target' i i' k k' : Nat}

theorem Reachable.registered (h : Reachable ctx) : ctx.Registered := by
  induction h with
  | start _ hctx =>
      obtain ⟨t, -, hgrows⟩ := ofEntity_grows hctx
      exact registered_root.grows hgrows
  | call _ hcall ih => exact ih.grows hcall.grows

/-- Two nodes to which the same keys lead, each from its target. -/
def Alike (ctx : Context) (target : Nat) (ctx' : Context) (target' i k : Nat) : Prop :=
  ∃ keys, ctx.descend? target keys = some i ∧ ctx'.descend? target' keys = some k

/-- Columns of one name on alike nodes. -/
structure AlikeColumns (ctx : Context) (target : Nat) (ctx' : Context) (target' : Nat)
    (c c' : NodeColumn) : Prop where
  node : ctx.Alike target ctx' target' c.node c'.node
  member : c'.member = c.member
  column : c'.column = c.column

theorem alike_target : ctx.Alike target ctx' target' target target' :=
  ⟨[], rfl, rfl⟩

theorem Alike.symm (h : ctx.Alike target ctx' target' i k) : ctx'.Alike target' ctx target k i := by
  obtain ⟨keys, hi, hk⟩ := h
  exact ⟨keys, hk, hi⟩

/-- Two targets of one entity, in contexts of one catalog. -/
structure Twins (ctx : Context) (target : Nat) (ctx' : Context) (target' : Nat) : Prop where
  reachable : Reachable ctx
  reachable' : Reachable ctx'
  accepted : ctx.catalog.Accepted
  catalog : ctx'.catalog = ctx.catalog
  entity : ∃ n n', ctx.nodes[target]? = some n ∧ ctx'.nodes[target']? = some n' ∧
    n'.entity = n.entity

namespace Twins

theorem symm (h : Twins ctx target ctx' target') : Twins ctx' target' ctx target := by
  obtain ⟨n, n', hn, hn', hentity⟩ := h.entity
  exact ⟨h.reachable', h.reachable, h.catalog ▸ h.accepted, h.catalog.symm,
    n', n, hn', hn, hentity.symm⟩

/-- One node is alike to a node at most. -/
theorem eq_of_alike (h : Twins ctx target ctx' target') (hi : ctx.Alike target ctx' target' i k)
    (hi' : ctx.Alike target ctx' target' i' k) : i = i' := by
  obtain ⟨keys, hi, hk⟩ := hi
  obtain ⟨keys', hi', hk'⟩ := hi'
  obtain rfl := h.reachable'.registered.eq_of_descend? h.reachable'.arena hk hk'
  exact Option.some.inj (hi.symm.trans hi')

theorem ne_target (h : Twins ctx target ctx' target') (hik : ctx.Alike target ctx' target' i k)
    (hi : i ≠ target) : k ≠ target' := by
  rintro rfl
  exact hi (h.eq_of_alike hik alike_target)

/-- Alike nodes are of one entity, and hang on alike origins by links that differ in nothing
else. -/
theorem exists_nodes_links (h : Twins ctx target ctx' target')
    (hik : ctx.Alike target ctx' target' i k) :
    (∃ n n', ctx.nodes[i]? = some n ∧ ctx'.nodes[k]? = some n' ∧ n'.entity = n.entity) ∧
      (i ≠ target → ∃ link origin', ctx.link? i = some link ∧
        ctx'.link? k = some { link with origin := origin' } ∧
        ctx.Alike target ctx' target' link.origin origin') := by
  obtain ⟨keys, hi, hk⟩ := hik
  induction keys using List.reverseRecOn generalizing i k with
  | nil =>
      obtain rfl := Option.some.inj hi
      obtain rfl := Option.some.inj hk
      exact ⟨h.entity, fun hne => absurd rfl hne⟩
  | append_singleton keys key ih =>
      obtain ⟨link, hlink, rfl, hprefix⟩ := h.reachable.registered.exists_link_of_descend? hi
      obtain ⟨link', hlink', hkey, hprefix'⟩ := h.reachable'.registered.exists_link_of_descend? hk
      obtain ⟨⟨origin, origin', horigin, horigin', hsame⟩, -⟩ := ih hprefix hprefix'
      obtain ⟨n, o, hn, hangs⟩ := h.reachable.arena.hangs_of_link? hlink
      obtain ⟨n', o', hn', hangs'⟩ := h.reachable'.arena.hangs_of_link? hlink'
      obtain rfl : o = origin := Option.some.inj (hangs.origin_eq.symm.trans horigin)
      obtain rfl : o' = origin' := Option.some.inj (hangs'.origin_eq.symm.trans horigin')
      have hdeclared := hangs'.declared
      rw [h.catalog, hsame] at hdeclared
      obtain ⟨hentity, heq⟩ := hangs.declared.unique h.accepted hdeclared hkey.symm
      refine ⟨⟨n, n', hn, hn', hentity⟩, fun _ => ⟨link, link'.origin, hlink, ?_, ?_⟩⟩
      · rw [← heq]
        exact hlink'
      · exact ⟨keys, hprefix, hprefix'⟩

theorem exists_links (h : Twins ctx target ctx' target') (hik : ctx.Alike target ctx' target' i k)
    (hne : i ≠ target) : ∃ link origin', ctx.link? i = some link ∧
      ctx'.link? k = some { link with origin := origin' } ∧
      ctx.Alike target ctx' target' link.origin origin' :=
  (h.exists_nodes_links hik).2 hne

theorem table_eq (h : Twins ctx target ctx' target') (hik : ctx.Alike target ctx' target' i k) :
    ctx'.table k = ctx.table i := by
  obtain ⟨n, n', hn, hn', hentity⟩ := (h.exists_nodes_links hik).1
  rw [table, table, node_eq_ok_iff.mpr hn, node_eq_ok_iff.mpr hn']
  show ctx'.entityTable n'.entity = ctx.entityTable n.entity
  rw [entityTable, entityTable, h.catalog, hentity]

theorem column_eq (h : Twins ctx target ctx' target') (hik : ctx.Alike target ctx' target' i k)
    (member : String) : ctx'.column k member = ctx.column i member := by
  rw [column, column, h.table_eq hik]

theorem columnName_eq (h : Twins ctx target ctx' target')
    (hik : ctx.Alike target ctx' target' i k) (member : String) :
    ctx'.columnName k member = ctx.columnName i member := by
  rw [columnName, columnName, h.table_eq hik]

/-! ## Members -/

theorem exists_keyOnOrigin? {link : Link} {member : String} (h : Twins ctx target ctx' target')
    (hik : ctx.Alike target ctx' target' i k) (hne : i ≠ target)
    (hlink : ctx.keyOnOrigin? i member = some link) :
    ∃ origin', ctx'.keyOnOrigin? k member = some { link with origin := origin' } ∧
      ctx.Alike target ctx' target' link.origin origin' := by
  obtain ⟨link', origin', hlink', hlink'', horigin⟩ := h.exists_links hik hne
  rw [keyOnOrigin?, hlink'] at hlink
  obtain ⟨heq, hcond⟩ := Option.filter_eq_some_iff.mp hlink
  obtain rfl := Option.some.inj heq
  refine ⟨origin', ?_, horigin⟩
  rw [keyOnOrigin?, hlink'']
  exact Option.filter_eq_some_iff.mpr ⟨rfl, hcond⟩

/-- A member is stored alike in alike nodes. -/
theorem alike_of_resolves {member : String} {c c' : NodeColumn}
    (h : Twins ctx target ctx' target') (hik : ctx.Alike target ctx' target' i k)
    (hc : ctx.Resolves target i member c) (hc' : ctx'.Resolves target' k member c') :
    ctx.AlikeColumns target ctx' target' c c' := by
  obtain ⟨mapped, hmapped, hc⟩ := hc
  obtain ⟨mapped', hmapped', hc'⟩ := hc'
  rw [h.column_eq hik, hmapped] at hmapped'
  cases hmapped'
  cases hc with
  | lookup hlookup hchild ht hvalue =>
      cases hc' with
      | onOrigin hlookup' => cases hlookup.symm.trans hlookup'
      | own hlookup' => cases hlookup.symm.trans hlookup'
      | lookup hlookup' hchild' ht' hvalue' =>
          cases hlookup.symm.trans hlookup'
          rw [entityTable, h.catalog] at ht'
          cases ht.symm.trans ht'
          cases hvalue.symm.trans hvalue'
          obtain ⟨keys, hi, hk⟩ := hik
          refine ⟨⟨keys ++ [.lookup mapped.member], ?_, ?_⟩, rfl, rfl⟩
          · rw [descend?_concat, hi]
            exact hchild
          · rw [descend?_concat, hk]
            exact hchild'
  | onOrigin hlookup hkey hbelow hon hforeignKey =>
      obtain ⟨origin', hon', horigin⟩ := h.exists_keyOnOrigin? hik hbelow hon
      cases hc' with
      | lookup hlookup' => cases hlookup.symm.trans hlookup'
      | own _ hown => cases hon'.symm.trans (hown hkey (h.ne_target hik hbelow))
      | onOrigin _ _ _ hon'' hforeignKey' =>
          cases hon'.symm.trans hon''
          rw [h.column_eq horigin] at hforeignKey'
          cases hforeignKey.symm.trans hforeignKey'
          exact ⟨horigin, rfl, rfl⟩
  | own hlookup hown =>
      cases hc' with
      | lookup hlookup' => cases hlookup.symm.trans hlookup'
      | own => exact ⟨hik, rfl, rfl⟩
      | onOrigin _ hkey hbelow hon =>
          obtain ⟨origin, hon', -⟩ := h.symm.exists_keyOnOrigin? hik.symm hbelow hon
          cases hon'.symm.trans (hown hkey (h.symm.ne_target hik.symm hbelow))

theorem alike_of_resolvesPath {path : String} {c c' : NodeColumn}
    (h : Twins ctx target ctx' target') (hc : ctx.ResolvesPath target path c)
    (hc' : ctx'.ResolvesPath target' path c') : ctx.AlikeColumns target ctx' target' c c' := by
  obtain ⟨nodePath, member, i, hsplit, ⟨segments, hsegments, hi⟩, hc⟩ := hc
  obtain ⟨nodePath', member', k, hsplit', ⟨segments', hsegments', hk⟩, hc'⟩ := hc'
  cases hsplit.symm.trans hsplit'
  cases hsegments.symm.trans hsegments'
  exact h.alike_of_resolves ⟨_, hi, hk⟩ hc hc'

/-! ## Filters -/

theorem storedLiteral_eq {c c' : NodeColumn} (h : Twins ctx target ctx' target')
    (hc : ctx.AlikeColumns target ctx' target' c c') (v : Value) :
    ctx'.storedLiteral c' v = ctx.storedLiteral c v := by
  simp only [storedLiteral, enumerationLiteral, h.catalog, hc.member, h.column_eq hc.node]

theorem rel_of_comparison {left right left' right' : BoundFilter}
    {stored stored' : BoundFilter × BoundFilter} (h : Twins ctx target ctx' target')
    (hleft : left.Rel (ctx.AlikeColumns target ctx' target') left')
    (hright : right.Rel (ctx.AlikeColumns target ctx' target') right')
    (hstored : ctx.comparison left right = .ok stored)
    (hstored' : ctx'.comparison left' right' = .ok stored') :
    stored.1.Rel (ctx.AlikeColumns target ctx' target') stored'.1 ∧
      stored.2.Rel (ctx.AlikeColumns target ctx' target') stored'.2 := by
  cases hleft with
  | member hc =>
      cases hright with
      | literal v =>
          obtain ⟨w, hw, heq⟩ := Except.bind_eq_ok_iff.mp hstored
          obtain ⟨w', hw', heq'⟩ := Except.bind_eq_ok_iff.mp hstored'
          rw [h.storedLiteral_eq hc, hw] at hw'
          cases hw'
          cases heq
          cases heq'
          exact ⟨.member hc, .literal w⟩
      | member hc' =>
          cases hstored
          cases hstored'
          exact ⟨.member hc, .member hc'⟩
      | binary hl hr =>
          cases hstored
          cases hstored'
          exact ⟨.member hc, .binary hl hr⟩
  | literal v =>
      cases hright with
      | member hc =>
          obtain ⟨w, hw, heq⟩ := Except.bind_eq_ok_iff.mp hstored
          obtain ⟨w', hw', heq'⟩ := Except.bind_eq_ok_iff.mp hstored'
          rw [h.storedLiteral_eq hc, hw] at hw'
          cases hw'
          cases heq
          cases heq'
          exact ⟨.literal w, .member hc⟩
      | literal w =>
          cases hstored
          cases hstored'
          exact ⟨.literal v, .literal w⟩
      | binary hl hr =>
          cases hstored
          cases hstored'
          exact ⟨.literal v, .binary hl hr⟩
  | binary hl hr =>
      cases hstored
      cases hstored'
      exact ⟨.binary hl hr, hright⟩

/-- A filter is bound to one condition, but for the numbers of the nodes. -/
theorem rel_of_boundTo {filter : Filter} {bound bound' : BoundFilter}
    (h : Twins ctx target ctx' target') (hbound : filter.BoundTo ctx target bound)
    (hbound' : filter.BoundTo ctx' target' bound') :
    bound.Rel (ctx.AlikeColumns target ctx' target') bound' := by
  induction hbound generalizing bound' with
  | member hc =>
      cases hbound' with
      | member hc' => exact .member (h.alike_of_resolvesPath hc hc')
  | literal v =>
      cases hbound' with
      | literal => exact .literal v
  | logical hop _ _ ihleft ihright =>
      cases hbound' with
      | logical _ hleft hright => exact .binary (ihleft hleft) (ihright hright)
      | comparison hop' => simp [hop] at hop'
  | comparison hop _ _ hstored ihleft ihright =>
      cases hbound' with
      | logical hop' => simp [hop] at hop'
      | comparison _ hleft hright hstored' =>
          obtain ⟨hl, hr⟩ :=
            h.rel_of_comparison (ihleft hleft) (ihright hright) hstored hstored'
          exact .binary hl hr

end Twins

end Context

end EntityMap
