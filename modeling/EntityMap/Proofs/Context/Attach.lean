import EntityMap.Context.Growth
import Mathlib.Logic.Relation

/-!
# Attaching nodes

What can happen to a context, said once: a node is attached to a node
that is there, in the way that a lookup column or a relationship of the
catalog declares (`Link.Declared`), under a name that is free
(`Context.Attaches`). A context grows into another one by finitely many
such steps (`Context.Grows`), and an earlier node keeps everything but
its children (`Context.Grows.node`).
-/

namespace EntityMap

/-- The links that the catalog declares from a node of `originEntity`, with the
entity that each leads to. -/
inductive Link.Declared (catalog : Catalog) (originEntity : String) : String → Link → Prop
  /-- A lookup column leads to the row of its key. -/
  | lookup {table target : Table} {column key : Column} {lookup : Lookup} (origin : Nat)
      (htable : catalog.table originEntity = .ok table) (hcolumn : column ∈ table.columns)
      (hlookup : column.lookup = some lookup)
      (htarget : catalog.table lookup.entity = .ok target) (hkey : target.key = .ok key) :
      Declared catalog originEntity lookup.entity
        { origin, key := .lookup column.member, traversal := .lookup
          originMember := column.member, nodeMember := key.member, nullable := column.nullable }
  /-- A relationship is walked either way. -/
  | navigation {table foreignTable : Table} {r : Relationship} {foreignKey : Column} {name : String}
      (origin : Nat) (htable : catalog.table originEntity = .ok table)
      (hr : table.relationship? name = some r)
      (hforeign : catalog.table r.foreignKey.entity = .ok foreignTable)
      (hkey : foreignTable.column r.foreignKey.member = .ok foreignKey) :
      Declared catalog originEntity (r.target originEntity)
        (Context.linkOf origin originEntity r foreignKey.nullable)

namespace Context

variable {ctx ctx' : Context} {entity table : String} {link : Link} {origin : Node}

@[simp]
theorem linkOf_origin (i : Nat) (entity : String) (r : Relationship) (nullable : Bool) :
    (linkOf i entity r nullable).origin = i := by
  unfold linkOf
  split <;> rfl

@[simp]
theorem linkOf_key (i : Nat) (entity : String) (r : Relationship) (nullable : Bool) :
    (linkOf i entity r nullable).key = .navigation r.name := by
  unfold linkOf
  split <;> rfl

def attached (index : Nat) (entity table : String) (link : Link) (origin : Node) : Node :=
  { index, entity, table, level := origin.level + 1, link := some link
    joinKind := if origin.joinKind = .left || link.isOpen then .left else .inner
    children := [] }

theorem attach_eq (h : ctx.nodes[link.origin]? = some origin) :
    ctx.attach entity table link =
      { ctx with
        nodes := (ctx.nodes.modify link.origin (·.addChild link.key ctx.nodes.size)).push
          (attached ctx.nodes.size entity table link origin) } := by
  simp [attach, h, attached]

theorem size_attach (h : ctx.nodes[link.origin]? = some origin) :
    (ctx.attach entity table link).nodes.size = ctx.nodes.size + 1 := by
  simp [attach_eq h]

theorem catalog_attach (h : ctx.nodes[link.origin]? = some origin) :
    (ctx.attach entity table link).catalog = ctx.catalog := by
  simp [attach_eq h]

theorem attach_last (h : ctx.nodes[link.origin]? = some origin) :
    (ctx.attach entity table link).nodes[ctx.nodes.size]? =
      some (attached ctx.nodes.size entity table link origin) := by
  simp only [attach_eq h, Array.getElem?_push, Array.size_modify, if_true]

/-- Where a node was, it still is, with one more child if it is the origin. -/
theorem attach_of_lt {i : Nat} (h : ctx.nodes[link.origin]? = some origin)
    (hi : i < ctx.nodes.size) :
    (ctx.attach entity table link).nodes[i]? =
      (ctx.nodes[i]?).map fun n =>
        if i = link.origin then n.addChild link.key ctx.nodes.size else n := by
  simp only [attach_eq h, Array.getElem?_push, Array.size_modify, Array.getElem?_modify,
    Nat.ne_of_lt hi, if_false]
  by_cases hio : link.origin = i
  · simp [hio]
  · simp [hio, Ne.symm hio]

/-- One node is attached to a node that is there, as the catalog declares it. -/
inductive Attaches : Context → Context → Prop
  | intro {ctx : Context} {entity : String} {t : Table} {link : Link} {origin : Node}
      (horigin : ctx.nodes[link.origin]? = some origin)
      (htable : ctx.catalog.table entity = .ok t)
      (hlink : Link.Declared ctx.catalog origin.entity entity link)
      (hfree : origin.child? link.key = none) :
      Attaches ctx (ctx.attach entity t.table link)

def Grows : Context → Context → Prop :=
  Relation.ReflTransGen Attaches

theorem Grows.refl (ctx : Context) : ctx.Grows ctx :=
  Relation.ReflTransGen.refl

theorem Grows.trans {a b c : Context} (h : a.Grows b) (h' : b.Grows c) : a.Grows c :=
  Relation.ReflTransGen.trans h h'

theorem Attaches.grows (h : ctx.Attaches ctx') : ctx.Grows ctx' :=
  Relation.ReflTransGen.single h

/-- A node that keeps everything, but may have got more children. -/
def Kept (n n' : Node) : Prop :=
  ∃ more, n' = { n with children := n.children ++ more }

theorem Kept.refl (n : Node) : Kept n n :=
  ⟨[], by simp⟩

theorem Kept.trans {a b c : Node} : Kept a b → Kept b c → Kept a c
  | ⟨more, hb⟩, ⟨more', hc⟩ => ⟨more ++ more', by simp [hc, hb]⟩

theorem Attaches.node {i : Nat} {n : Node} (h : ctx.Attaches ctx') (hn : ctx.nodes[i]? = some n) :
    ∃ n', ctx'.nodes[i]? = some n' ∧ Kept n n' := by
  cases h with
  | @intro entity t link origin horigin htable hlink hfree =>
      have hi : i < ctx.nodes.size := (Array.getElem?_eq_some_iff.mp hn).1
      rw [attach_of_lt horigin hi, hn]
      by_cases hio : i = link.origin
      · exact ⟨_, rfl, [(link.key, ctx.nodes.size)], by simp [hio, Node.addChild]⟩
      · exact ⟨_, rfl, [], by simp [hio]⟩

namespace Grows

theorem catalog (h : ctx.Grows ctx') : ctx'.catalog = ctx.catalog := by
  induction h with
  | refl => rfl
  | tail _ hstep ih =>
      cases hstep with
      | intro horigin _ _ _ => rw [catalog_attach horigin, ih]

/-- No node goes, and none changes but for its children. -/
theorem node {i : Nat} {n : Node} (h : ctx.Grows ctx') (hn : ctx.nodes[i]? = some n) :
    ∃ n', ctx'.nodes[i]? = some n' ∧ Kept n n' := by
  induction h with
  | refl => exact ⟨n, hn, Kept.refl n⟩
  | tail _ hstep ih =>
      obtain ⟨n₁, hn₁, hkept⟩ := ih
      obtain ⟨n₂, hn₂, hkept'⟩ := hstep.node hn₁
      exact ⟨n₂, hn₂, hkept.trans hkept'⟩

theorem entityTable {entity : String} (h : ctx.Grows ctx') :
    ctx'.entityTable entity = ctx.entityTable entity := by
  rw [Context.entityTable, Context.entityTable, h.catalog]

theorem link? {i : Nat} {link : Link} (h : ctx.Grows ctx') (hl : ctx.link? i = some link) :
    ctx'.link? i = some link := by
  obtain ⟨n, hn, hlink⟩ := Option.bind_eq_some_iff.mp hl
  obtain ⟨n', hn', more, rfl⟩ := h.node hn
  rw [Context.link?, hn']
  exact hlink

theorem origin? {i o : Nat} (h : ctx.Grows ctx') (ho : ctx.origin? i = some o) :
    ctx'.origin? i = some o := by
  obtain ⟨link, hlink, rfl⟩ := Option.map_eq_some_iff.mp ho
  rw [Context.origin?, h.link? hlink]
  rfl

/-- A node that is there keeps its link, also when it has none. -/
theorem link?_eq {i : Nat} {n : Node} (h : ctx.Grows ctx') (hn : ctx.nodes[i]? = some n) :
    ctx'.link? i = ctx.link? i := by
  obtain ⟨n', hn', more, rfl⟩ := h.node hn
  rw [Context.link?, Context.link?, hn', hn]
  rfl

theorem table_eq {i : Nat} {t : Table} (h : ctx.Grows ctx') (ht : ctx.table i = .ok t) :
    ctx'.table i = .ok t := by
  unfold Context.table Context.node at ht ⊢
  cases hn : ctx.nodes[i]? with
  | none => simp [hn, bind, Except.bind] at ht
  | some n =>
      obtain ⟨n', hn', more, rfl⟩ := h.node hn
      rw [hn] at ht
      rw [hn']
      simpa [bind, Except.bind, h.entityTable] using ht

end Grows

end Context

end EntityMap
