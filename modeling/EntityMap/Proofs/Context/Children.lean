import EntityMap.Proofs.Context.Attach

/-!
# Children

In every context that grows from a root the children of a node are the
nodes that hang on it, each under the key of its link
(`Context.Registered`). One step adds one child (`Context.child?_attach`)
and keeps all others, so what a walk over children reaches
(`Context.descend?`) it still reaches when the context has grown.
-/

namespace EntityMap

namespace Context

/-- The node that a walk over children reaches. -/
def descend? (ctx : Context) (i : Nat) (keys : List ChildKey) : Option Nat :=
  keys.foldlM ctx.child? i

/-- Every child hangs on its origin under its key, and every node that hangs on another one is
its child. -/
structure Registered (ctx : Context) : Prop where
  hangs : ∀ {i k : Nat} {key : ChildKey}, ctx.child? i key = some k →
    ∃ link, ctx.link? k = some link ∧ link.origin = i ∧ link.key = key
  child : ∀ {k : Nat} {link : Link}, ctx.link? k = some link →
    ctx.child? link.origin link.key = some k

variable {ctx ctx' : Context} {i k target : Nat} {key : ChildKey} {keys keys' : List ChildKey}

/-! ## One step -/

theorem child?_attach {entity table : String} {link : Link} {origin : Node}
    (h : ctx.nodes[link.origin]? = some origin) :
    (ctx.attach entity table link).child? i key =
      (ctx.child? i key).or
        (if i = link.origin ∧ key = link.key then some ctx.nodes.size else none) := by
  have horigin : link.origin < ctx.nodes.size := (Array.getElem?_eq_some_iff.mp h).1
  rcases Nat.lt_trichotomy i ctx.nodes.size with hlt | rfl | hgt
  · obtain ⟨n, hn⟩ : ∃ n, ctx.nodes[i]? = some n := ⟨_, Array.getElem?_eq_getElem hlt⟩
    rw [child?, child?, attach_of_lt h hlt, hn]
    by_cases hi : i = link.origin
    · by_cases hkey : key = link.key
      · simp [hi, hkey, Node.child?, Node.addChild, List.lookup_append]
      · have hbeq : (key == link.key) = false := beq_eq_false_iff_ne.mpr hkey
        simp [hi, hkey, hbeq, Node.child?, Node.addChild, List.lookup_append, List.lookup_cons]
    · simp [hi]
  · have hne : ctx.nodes.size ≠ link.origin := by omega
    simp [child?, attach_last h, attached, Node.child?, hne]
  · have hne : i ≠ link.origin := by omega
    have hsize : (ctx.attach entity table link).nodes.size ≤ i := by
      rw [size_attach h]
      omega
    simp [child?, hne, Array.getElem?_eq_none hsize, Array.getElem?_eq_none (Nat.le_of_lt hgt)]

theorem Attaches.child? (h : ctx.Attaches ctx') (hk : ctx.child? i key = some k) :
    ctx'.child? i key = some k := by
  cases h with
  | intro horigin _ _ _ => rw [child?_attach horigin, hk, Option.some_or]

theorem Grows.child? (h : ctx.Grows ctx') (hk : ctx.child? i key = some k) :
    ctx'.child? i key = some k := by
  induction h with
  | refl => exact hk
  | tail _ hstep ih => exact hstep.child? ih

theorem registered_root {catalog : Catalog} {entity table : String} :
    Registered { catalog
                 nodes := #[{ index := root, entity, table, level := 0, link := none
                              joinKind := .inner, children := [] }] } := by
  constructor
  · intro i k key h
    cases i with
    | zero => simp [Context.child?, Node.child?] at h
    | succ i => simp [Context.child?] at h
  · intro k link h
    cases k with
    | zero => simp [Context.link?] at h
    | succ k => simp [Context.link?] at h

namespace Registered

/-- One step registers the node that it attaches. -/
theorem attaches (h : ctx.Registered) (hstep : ctx.Attaches ctx') : ctx'.Registered := by
  have hgrows := hstep.grows
  cases hstep with
  | @intro entity t link origin horigin _ _ hfree =>
      have hlast : (ctx.attach entity t.table link).link? ctx.nodes.size = some link := by
        rw [link?, attach_last horigin]
        rfl
      constructor
      case hangs =>
        intro i k key hk
        rw [child?_attach horigin] at hk
        rcases Option.or_eq_some_iff.mp hk with hk | ⟨-, hk⟩
        · obtain ⟨l, hl, ho, hkey⟩ := h.hangs hk
          exact ⟨l, hgrows.link? hl, ho, hkey⟩
        · obtain ⟨⟨rfl, rfl⟩, hsize⟩ := Option.ite_none_right_eq_some.mp hk
          obtain rfl := Option.some.inj hsize
          exact ⟨link, hlast, rfl, rfl⟩
      case child =>
        intro k l hl
        by_cases hk : k < ctx.nodes.size
        · rw [hgrows.link?_eq (Array.getElem?_eq_getElem hk)] at hl
          exact hgrows.child? (h.child hl)
        · obtain ⟨n, hn, -⟩ := Option.bind_eq_some_iff.mp hl
          have hle := (Array.getElem?_eq_some_iff.mp hn).1
          rw [size_attach horigin] at hle
          obtain rfl : k = ctx.nodes.size := by omega
          obtain rfl : link = l := Option.some.inj (hlast.symm.trans hl)
          have hnone : ctx.child? link.origin link.key = none := by
            rw [Context.child?, horigin]
            exact hfree
          rw [child?_attach horigin, hnone, Option.none_or, if_pos ⟨rfl, rfl⟩]

theorem grows (h : ctx.Registered) (hgrows : ctx.Grows ctx') : ctx'.Registered := by
  induction hgrows with
  | refl => exact h
  | tail _ hstep ih => exact ih.attaches hstep

end Registered

/-! ## Walks over children -/

@[simp]
theorem descend?_nil : ctx.descend? i [] = some i := rfl

theorem descend?_cons : ctx.descend? i (key :: keys) =
    (ctx.child? i key).bind (ctx.descend? · keys) := rfl

theorem descend?_concat : ctx.descend? i (keys ++ [key]) =
    (ctx.descend? i keys).bind (ctx.child? · key) := by
  rw [descend?, List.foldlM_append]
  cases h : keys.foldlM ctx.child? i with
  | none => simp [descend?, h]
  | some o => simp [descend?, h]

theorem Grows.descend? (h : ctx.Grows ctx') (hk : ctx.descend? i keys = some k) :
    ctx'.descend? i keys = some k := by
  induction keys generalizing i with
  | nil => exact hk
  | cons key rest ih =>
      rw [descend?_cons] at hk ⊢
      obtain ⟨next, hnext, hrest⟩ := Option.bind_eq_some_iff.mp hk
      rw [h.child? hnext]
      exact ih hrest

namespace Registered

/-- A walk that has a step ends on a node that hangs on the node before. -/
theorem exists_link_of_descend? (h : ctx.Registered)
    (hi : ctx.descend? target (keys ++ [key]) = some i) :
    ∃ link, ctx.link? i = some link ∧ link.key = key ∧
      ctx.descend? target keys = some link.origin := by
  rw [descend?_concat] at hi
  obtain ⟨o, ho, hchild⟩ := Option.bind_eq_some_iff.mp hi
  obtain ⟨link, hlink, rfl, rfl⟩ := h.hangs hchild
  exact ⟨link, hlink, rfl, ho⟩

end Registered

end Context

end EntityMap
