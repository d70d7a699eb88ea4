import EntityMap.Proofs.Context.Growing
import Mathlib.Data.List.Induction

/-!
# The arena of a context

What holds of the nodes of every context that grows from a root
(`Context.Arena`): only the root has no link, every other node hangs on
a node of smaller index one level above it, in the way that the catalog
declares, and bears the table of its entity. One step keeps this
(`Arena.attaches`), so a run of steps does (`Arena.grows`).

The walk towards the root follows: behind a node come its origin and
then what comes behind that (`Arena.ancestors_eq`), and up to a given
node the walk passes nodes with an origin each
(`Arena.exists_origin_of_mem`). Downwards one way leads to each node
below, and to no other (`Registered.exists_descend?`,
`Registered.eq_of_descend?`).
-/

namespace EntityMap

namespace Context

/-- How a node of a context hangs on its origin. -/
structure Hangs (ctx : Context) (i : Nat) (n : Node) (link : Link) (origin : Node) : Prop where
  origin_eq : ctx.nodes[link.origin]? = some origin
  lt : link.origin < i
  level : n.level = origin.level + 1
  declared : Link.Declared ctx.catalog origin.entity n.entity link

/-- The invariant of the nodes of a context. -/
structure Arena (ctx : Context) : Prop where
  index : ∀ {i : Nat} {n : Node}, ctx.nodes[i]? = some n → n.index = i
  root : ∃ n, ctx.nodes[0]? = some n ∧ n.link = none
  linked : ∀ {i : Nat} {n : Node}, ctx.nodes[i]? = some n → n.link = none → i = 0
  hangs : ∀ {i : Nat} {n : Node} {link : Link}, ctx.nodes[i]? = some n → n.link = some link →
    ∃ origin, ctx.Hangs i n link origin
  table : ∀ {i : Nat} {n : Node}, ctx.nodes[i]? = some n →
    ∃ t, ctx.catalog.table n.entity = .ok t ∧ n.table = t.table

variable {ctx ctx' : Context}

theorem arena_root {catalog : Catalog} {entity : String} {t : Table}
    (ht : catalog.table entity = .ok t) :
    Arena { catalog
            nodes := #[{ index := root, entity, table := t.table, level := 0, link := none
                         joinKind := .inner, children := [] }] } := by
  have only : ∀ {i : Nat} {n m : Node}, #[m][i]? = some n → i = 0 ∧ n = m := by
    intro i n m h
    cases i with
    | zero => exact ⟨rfl, by simpa using h.symm⟩
    | succ i => simp at h
  refine ⟨fun hn => ?_, ⟨_, rfl, rfl⟩, fun hn _ => (only hn).1, fun hn hl => ?_, fun hn => ?_⟩
  · obtain ⟨rfl, rfl⟩ := only hn
    rfl
  · obtain ⟨rfl, rfl⟩ := only hn
    cases hl
  · obtain ⟨rfl, rfl⟩ := only hn
    exact ⟨t, ht, rfl⟩

/-- The node that is attached, or one that was there. -/
theorem Attaches.node_cases {i : Nat} {n' : Node} (h : ctx.Attaches ctx')
    (hn' : ctx'.nodes[i]? = some n') :
    (∃ n, ctx.nodes[i]? = some n ∧ Kept n n') ∨
      ∃ t link origin, i = ctx.nodes.size ∧ ctx.nodes[link.origin]? = some origin ∧
        ctx.catalog.table n'.entity = .ok t ∧
        Link.Declared ctx.catalog origin.entity n'.entity link ∧
        n' = attached i n'.entity t.table link origin := by
  cases hstep : h with
  | @intro entity t link origin horigin htable hlink hfree =>
      by_cases hi : i < ctx.nodes.size
      · obtain ⟨n₁, hn₁, hkept⟩ := h.node (Array.getElem?_eq_getElem hi)
        rw [hn'] at hn₁
        cases hn₁
        exact .inl ⟨_, Array.getElem?_eq_getElem hi, hkept⟩
      · have hle := (Array.getElem?_eq_some_iff.mp hn').1
        rw [size_attach horigin] at hle
        obtain rfl : i = ctx.nodes.size := by omega
        rw [attach_last horigin] at hn'
        cases hn'
        exact .inr ⟨t, link, origin, rfl, horigin, htable, hlink, rfl⟩

namespace Arena

/-- One step keeps the arena. -/
theorem attaches (h : ctx.Arena) (hstep : ctx.Attaches ctx') : ctx'.Arena := by
  have hgrows := hstep.grows
  have hsize : 0 < ctx.nodes.size := by
    obtain ⟨n, hn, -⟩ := h.root
    exact (Array.getElem?_eq_some_iff.mp hn).1
  constructor
  case index =>
    intro i n' hn'
    rcases hstep.node_cases hn' with ⟨n, hn, more, rfl⟩ | ⟨t, link, o, -, -, -, -, heq⟩
    · have hindex : n.index = i := h.index hn
      exact hindex
    · rw [heq]
      rfl
  case root =>
    obtain ⟨n, hn, hl⟩ := h.root
    obtain ⟨n', hn', more, rfl⟩ := hgrows.node hn
    exact ⟨_, hn', hl⟩
  case linked =>
    intro i n' hn' hl
    rcases hstep.node_cases hn' with ⟨n, hn, more, rfl⟩ | ⟨t, link, o, -, -, -, -, heq⟩
    · exact h.linked hn hl
    · rw [heq] at hl
      cases hl
  case hangs =>
    intro i n' link hn' hl
    rcases hstep.node_cases hn' with ⟨n, hn, more, rfl⟩ | ⟨t, link', o, hi, ho, ht, hd, heq⟩
    · obtain ⟨o, ho⟩ := h.hangs hn hl
      obtain ⟨o', ho', more', rfl⟩ := hgrows.node ho.origin_eq
      exact ⟨_, ho', ho.lt, ho.level, by rw [hgrows.catalog]; exact ho.declared⟩
    · rw [heq] at hl
      cases hl
      obtain ⟨o', ho', more', rfl⟩ := hgrows.node ho
      have hlt : link.origin < ctx.nodes.size := (Array.getElem?_eq_some_iff.mp ho).1
      refine ⟨_, ho', by omega, by rw [heq]; rfl, ?_⟩
      rw [hgrows.catalog]
      exact hd
  case table =>
    intro i n' hn'
    rw [hgrows.catalog]
    rcases hstep.node_cases hn' with ⟨n, hn, more, rfl⟩ | ⟨t, link, o, -, -, ht, -, heq⟩
    · obtain ⟨t, ht, htable⟩ := h.table hn
      exact ⟨t, ht, htable⟩
    · exact ⟨t, ht, by rw [heq]; rfl⟩

theorem grows (h : ctx.Arena) (hgrows : ctx.Grows ctx') : ctx'.Arena := by
  induction hgrows with
  | refl => exact h
  | tail _ hstep ih => exact ih.attaches hstep

/-! ## Towards the root -/

theorem hangs_of_link? {i : Nat} {link : Link} (h : ctx.Arena) (hl : ctx.link? i = some link) :
    ∃ n origin, ctx.nodes[i]? = some n ∧ ctx.Hangs i n link origin := by
  obtain ⟨n, hn, hlink⟩ := Option.bind_eq_some_iff.mp hl
  obtain ⟨origin, horigin⟩ := h.hangs hn hlink
  exact ⟨n, origin, hn, horigin⟩

theorem origin_lt {i o : Nat} (h : ctx.Arena) (ho : ctx.origin? i = some o) : o < i := by
  obtain ⟨link, hl, rfl⟩ := Option.map_eq_some_iff.mp ho
  obtain ⟨n, origin, -, hangs⟩ := h.hangs_of_link? hl
  exact hangs.lt

theorem level_eq {i o : Nat} (h : ctx.Arena) (ho : ctx.origin? i = some o) :
    ctx.level i = ctx.level o + 1 := by
  obtain ⟨link, hl, rfl⟩ := Option.map_eq_some_iff.mp ho
  obtain ⟨n, origin, hn, hangs⟩ := h.hangs_of_link? hl
  simp [level, hn, hangs.origin_eq, hangs.level]

theorem ancestors_eq {i o : Nat} (h : ctx.Arena) (ho : ctx.origin? i = some o) :
    ctx.ancestors i = o :: ctx.ancestors o := by
  rw [ancestors, ho]
  simp [h.origin_lt ho]

end Arena

theorem ancestors_of_origin?_eq_none {i : Nat} (h : ctx.origin? i = none) :
    ctx.ancestors i = [] := by
  rw [ancestors, h]

namespace Arena

theorem ancestorsUntil_eq {i o stop : Nat} (h : ctx.Arena) (ho : ctx.origin? i = some o) :
    ctx.ancestorsUntil i stop = if o = stop then [] else o :: ctx.ancestorsUntil o stop := by
  unfold ancestorsUntil
  rw [h.ancestors_eq ho, List.takeWhile_cons]
  by_cases hstop : o = stop <;> simp [hstop]

theorem isAncestorOrSelf_iff {i o target : Nat} (h : ctx.Arena) (ho : ctx.origin? i = some o)
    (hi : i ≠ target) : ctx.isAncestorOrSelf target i ↔ ctx.isAncestorOrSelf target o := by
  simp [isAncestorOrSelf, h.ancestors_eq ho, Ne.symm hi]

end Arena

theorem ne_target_of_mem_ancestorsUntil {target i j : Nat} (h : j ∈ ctx.ancestorsUntil i target) :
    j ≠ target := by
  have hall : (ctx.ancestorsUntil i target).all (· ≠ target) := List.all_takeWhile
  simpa using List.all_eq_true.mp hall j h

/-- A node below another one has an origin. -/
theorem exists_origin_of_isAncestorOrSelf {i target : Nat}
    (h : ctx.isAncestorOrSelf target i) (hi : i ≠ target) : ∃ o, ctx.origin? i = some o := by
  cases ho : ctx.origin? i with
  | some o => exact ⟨o, rfl⟩
  | none => simp [isAncestorOrSelf, ancestors_of_origin?_eq_none ho, Ne.symm hi] at h

namespace Arena

/-- A walk upwards to a target visits the nodes between, each below the target. -/
theorem walk_induction {target : Nat} {P : Nat → Prop} (h : ctx.Arena)
    (here : P target)
    (up : ∀ i o, i ≠ target → ctx.origin? i = some o → ctx.isAncestorOrSelf target o → P o → P i)
    {i : Nat} (hi : ctx.isAncestorOrSelf target i) : P i := by
  induction i using Nat.strongRecOn with
  | ind i ih =>
      by_cases heq : i = target
      · exact heq ▸ here
      · obtain ⟨o, ho⟩ := exists_origin_of_isAncestorOrSelf hi heq
        have hbelow := (h.isAncestorOrSelf_iff ho heq).mp hi
        exact up i o heq ho hbelow (ih o (h.origin_lt ho) hbelow)

/-- The node that comes next on a walk upwards lies on it too, or is its end. -/
theorem exists_origin_of_mem {target i j : Nat} (h : ctx.Arena)
    (hi : ctx.isAncestorOrSelf target i) (hne : i ≠ target)
    (hj : j ∈ i :: ctx.ancestorsUntil i target) :
    ∃ o, ctx.origin? j = some o ∧ (o = target ∨ o ∈ ctx.ancestorsUntil i target) := by
  revert hne hj
  refine h.walk_induction
    (P := fun i => i ≠ target → j ∈ i :: ctx.ancestorsUntil i target →
      ∃ o, ctx.origin? j = some o ∧ (o = target ∨ o ∈ ctx.ancestorsUntil i target))
    (fun hne => absurd rfl hne) ?_ hi
  intro i o hi ho _ ih _ hj
  rw [h.ancestorsUntil_eq ho] at hj ⊢
  by_cases hstop : o = target
  · rw [if_pos hstop, List.mem_singleton] at hj
    exact ⟨o, hj ▸ ho, .inl hstop⟩
  · rw [if_neg hstop] at hj ⊢
    rcases List.mem_cons.mp hj with rfl | hj
    · exact ⟨o, ho, .inr (List.mem_cons_self ..)⟩
    · obtain ⟨o', ho', hnext⟩ := ih hstop hj
      exact ⟨o', ho', hnext.imp_right fun hmem => List.mem_cons_of_mem _ hmem⟩

/-- What is closed under origins below the target holds all along a walk upwards. -/
theorem of_mem_ancestorsUntil {target i j : Nat} {P : Nat → Prop} (h : ctx.Arena)
    (hclosed : ∀ i o, P i → i ≠ target → ctx.origin? i = some o → P o)
    (hi : ctx.isAncestorOrSelf target i) (hne : i ≠ target) (hP : P i)
    (hj : j ∈ ctx.ancestorsUntil i target) : P j := by
  revert hne hP hj
  refine h.walk_induction
    (P := fun i => i ≠ target → P i → j ∈ ctx.ancestorsUntil i target → P j)
    (fun hne => absurd rfl hne) ?_ hi
  intro i o hi ho _ ih _ hP hj
  rw [h.ancestorsUntil_eq ho] at hj
  by_cases hstop : o = target
  · simp [hstop] at hj
  · rw [if_neg hstop] at hj
    have ho' := hclosed i o hP hi ho
    rcases List.mem_cons.mp hj with rfl | hj
    · exact ho'
    · exact ih hstop ho' hj

theorem lt_of_mem_ancestorsUntil {target i j : Nat} (harena : ctx.Arena)
    (hbelow : ctx.isAncestorOrSelf target i) (hne : i ≠ target)
    (hj : j ∈ ctx.ancestorsUntil i target) : j < i := by
  revert hne hj
  refine harena.walk_induction
    (P := fun i => i ≠ target → j ∈ ctx.ancestorsUntil i target → j < i)
    (fun hne => absurd rfl hne) ?_ hbelow
  intro i o hi ho _ ih _ hj
  have hlt := harena.origin_lt ho
  rw [harena.ancestorsUntil_eq ho] at hj
  by_cases hstop : o = target
  · simp [hstop] at hj
  · rw [if_neg hstop] at hj
    rcases List.mem_cons.mp hj with rfl | hj
    · exact hlt
    · exact Nat.lt_trans (ih hstop hj) hlt

end Arena

/-! ## The way down to a node -/

namespace Registered

variable {target i : Nat} {key : ChildKey} {keys keys' : List ChildKey}

theorem le_of_descend? (h : ctx.Registered) (harena : ctx.Arena)
    (hi : ctx.descend? target keys = some i) : target + keys.length ≤ i := by
  induction keys using List.reverseRecOn generalizing i with
  | nil =>
      obtain rfl := Option.some.inj hi
      exact Nat.le_refl _
  | append_singleton keys key ih =>
      obtain ⟨link, hlink, -, hprefix⟩ := h.exists_link_of_descend? hi
      obtain ⟨n, origin, -, hangs⟩ := harena.hangs_of_link? hlink
      have := ih hprefix
      have := hangs.lt
      rw [List.length_append, List.length_singleton]
      omega

/-- One way leads down to a node. -/
theorem eq_of_descend? (h : ctx.Registered) (harena : ctx.Arena)
    (hi : ctx.descend? target keys = some i) (hi' : ctx.descend? target keys' = some i) :
    keys = keys' := by
  induction keys using List.reverseRecOn generalizing i keys' with
  | nil =>
      obtain rfl := Option.some.inj hi
      have := h.le_of_descend? harena hi'
      exact (List.length_eq_zero_iff.mp (by omega)).symm
  | append_singleton keys key ih =>
      cases keys' using List.reverseRecOn with
      | nil =>
          obtain rfl := Option.some.inj hi'
          have := h.le_of_descend? harena hi
          rw [List.length_append, List.length_singleton] at this
          omega
      | append_singleton keys' key' =>
          obtain ⟨link, hlink, rfl, hprefix⟩ := h.exists_link_of_descend? hi
          obtain ⟨link', hlink', rfl, hprefix'⟩ := h.exists_link_of_descend? hi'
          obtain rfl : link = link' := Option.some.inj (hlink.symm.trans hlink')
          rw [ih hprefix hprefix']

/-- A way leads down to every node below. -/
theorem exists_descend? (h : ctx.Registered) (harena : ctx.Arena)
    (hi : ctx.isAncestorOrSelf target i) : ∃ keys, ctx.descend? target keys = some i := by
  refine harena.walk_induction (P := fun i => ∃ keys, ctx.descend? target keys = some i)
    ⟨[], rfl⟩ ?_ hi
  rintro i o - ho - ⟨keys, hkeys⟩
  obtain ⟨link, hlink, rfl⟩ := Option.map_eq_some_iff.mp ho
  exact ⟨keys ++ [link.key], by rw [descend?_concat, hkeys]; exact h.child hlink⟩

end Registered

end Context

end EntityMap
