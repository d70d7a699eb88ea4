import EntityMap.Proofs.Query.Resolved
import EntityMap.Proofs.Query.Sufficiency

/-!
# The column behind a member

A path ends at a member of a node, and what is read for the member need
not be stored there. A lookup column stands for the value on its lookup
node. A primary key by which the node was joined is stored in the foreign
key on its origin as well, and is read there (`Context.JoinedByKey`),
unless the path starts at the node: what stands for a member never lies
above the start. Every other member is read where it is.

These are all cases (`Context.StandsFor`), and each resolved path is one
of them (`Context.standsFor_of_resolvePath`).
-/

namespace EntityMap

namespace Context

open Growing

variable {ctx ctx' : Context} {start i : Nat} {member path : String} {c : NodeColumn}
  {mapped : Column} {link : Link}

/-- A node below the start was joined by a foreign key of its origin that holds the member. -/
structure JoinedByKey (ctx : Context) (start i : Nat) (mapped : Column) (link : Link) : Prop where
  below : i ≠ start
  primaryKey : mapped.primaryKey
  hangs : ctx.link? i = some link
  traversal : link.traversal = .forward ∨ link.traversal = .lookup
  member : link.nodeMember = mapped.member

/-- A column stands for a mapped member of a node, seen from a start. -/
structure StandsFor (ctx : Context) (start i : Nat) (mapped : Column) (c : NodeColumn) :
    Prop where
  /-- The column lies on the start or below it. -/
  below : ctx.isAncestorOrSelf start c.node
  /-- Its storage name is that of its member, on the entity of its node. -/
  stored : ∃ stored, ctx.column c.node c.member = .ok stored ∧ c.column = stored.column
  unlabelled : c.label = none
  /-- It is the member itself, the value of the member's lookup, or the foreign key by which the
  node was joined. -/
  place :
    (mapped.lookup = none ∧ (∀ link, ¬ ctx.JoinedByKey start i mapped link) ∧
      c.node = i ∧ c.member = mapped.member) ∨
    (∃ lookup child, mapped.lookup = some lookup ∧
      ctx.child? i (.lookup mapped.member) = some c.node ∧ ctx.nodes[c.node]? = some child ∧
      child.isLookup ∧ child.entity = lookup.entity ∧ c.member = lookup.valueMember) ∨
    (mapped.lookup = none ∧ ∃ link, ctx.JoinedByKey start i mapped link ∧
      c.node = link.origin ∧ c.member = link.originMember)

theorem keyOnOrigin?_eq_some_iff : ctx.keyOnOrigin? i member = some link ↔
    ctx.link? i = some link ∧ (link.traversal = .forward ∨ link.traversal = .lookup) ∧
      link.nodeMember = member := by
  rw [keyOnOrigin?, Option.filter_eq_some_iff]
  cases link.traversal <;> simp

theorem StoredIn.standsFor (h : ctx.StoredIn start i mapped c) (hsound : ctx.Sound)
    (hmapped : ctx.column i member = .ok mapped) (hi : ctx.isAncestorOrSelf start i) :
    ctx.StandsFor start i mapped c := by
  have hresolves : ctx.Resolves start i member c := ⟨mapped, hmapped, h⟩
  have hbelow := hresolves.below hsound.arena hsound.registered hi
  have hstored := hresolves.exists_column hsound
  cases h with
  | @lookup t value lookup k hlookup hchild ht hvalue =>
      obtain ⟨t₀, ht₀, hcolumn⟩ := Except.bind_eq_ok_iff.mp hmapped
      obtain ⟨n, hn, htable⟩ := table_eq_ok_iff.mp ht₀
      have hmem := (Table.mem_of_column (Except.mapError_eq_ok_iff.mp hcolumn)).1
      obtain ⟨child, hnode, hisLookup, hentity⟩ := lookup_of_child? hsound.arena
        hsound.registered hsound.accepted hn htable hmem hlookup hchild
      have hvalueMember : value.member = lookup.valueMember := (Table.mem_of_column hvalue).2
      exact ⟨hbelow, hstored, rfl,
        .inr (.inl ⟨lookup, child, hlookup, hchild, hnode, hisLookup, hentity, hvalueMember⟩)⟩
  | @onOrigin foreignKey link hlookup hkey hne hlink hforeignKey =>
      obtain ⟨hhangs, htraversal, hmember⟩ := keyOnOrigin?_eq_some_iff.mp hlink
      have hjoined : ctx.JoinedByKey start i mapped link :=
        ⟨hne, hkey, hhangs, htraversal, hmember⟩
      have horigin : foreignKey.member = link.originMember := eq_member_of_column hforeignKey
      exact ⟨hbelow, hstored, rfl, .inr (.inr ⟨hlookup, link, hjoined, rfl, horigin⟩)⟩
  | own hlookup hown =>
      refine ⟨hbelow, hstored, rfl, .inl ⟨hlookup, fun link hjoined => ?_, rfl, rfl⟩⟩
      have hlink : ctx.keyOnOrigin? i mapped.member = some link :=
        keyOnOrigin?_eq_some_iff.mpr ⟨hjoined.hangs, hjoined.traversal, hjoined.member⟩
      rw [hown hjoined.primaryKey hjoined.below] at hlink
      cases hlink

/-- The column that a path is resolved to stands for the member at its end, on the node that the
path without the member leads to, in every context that calls lead to and from every start. -/
theorem standsFor_of_resolvePath (hctx : ctx.Reachable)
    (hrun : (resolvePath start path).run ctx = (.ok c, ctx')) :
    ∃ i member mapped, ctx.EndsAt start path i member ctx' ∧
      ctx'.column i member = .ok mapped ∧ mapped.member = member ∧
      ctx'.StandsFor start i mapped c := by
  obtain ⟨i, member, hends, hcolumn⟩ := exists_endsAt_of_resolvePath hrun
  have hsound : ctx'.Sound := (hends.reachable hctx).sound
  have hi := hends.below hsound.arena hsound.registered
  obtain ⟨mapped, hmapped, hstored⟩ := resolves_of_resolveMember hcolumn
  exact ⟨i, member, mapped, hends, hmapped, eq_member_of_column hmapped,
    hstored.standsFor hsound hmapped hi⟩

/-- The key of the parent of a ticket is read from the ticket itself, which the path leaves. -/
theorem standsFor_parentKey :
    let parentKey : NodeColumn := { node := 0, member := "ParentId", column := "parent_id" }
    ∃ ctx', (resolvePath root "Parent.Id").run deskContext = (.ok parentKey, ctx') ∧
      ∃ i member mapped, deskContext.EndsAt root "Parent.Id" i member ctx' ∧
        ctx'.column i member = .ok mapped ∧ mapped.member = member ∧
        ctx'.StandsFor root i mapped parentKey := by
  intro parentKey
  have hanswer : ((resolvePath root "Parent.Id").run deskContext).1.toOption = some parentKey := by
    decide +kernel
  rcases hrun : (resolvePath root "Parent.Id").run deskContext with ⟨answer, ctx'⟩
  rw [hrun] at hanswer
  obtain rfl := Except.toOption_eq_some_iff.mp hanswer
  exact ⟨ctx', rfl, standsFor_of_resolvePath reachable_deskContext hrun⟩

end Context

end EntityMap
