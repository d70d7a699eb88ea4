import EntityMap.Proofs.Context.Arena
import EntityMap.Proofs.Distinct
import EntityMap.Query.JoinTree

/-!
# The nodes of a plan

A draft needs its target, the nodes that it refers to, and with each node
below the target the origin of that node (`Draft.Needs`, the smallest
such set). The closure of a draft lists exactly these nodes, each once
(`Context.mem_closure_iff`, `Context.nodup_closure`): in the order in
which the referenced nodes are visited, it puts down the way from the
target to each (`Context.nodes_closure`).

The nodes that are joined as inner whatever their links are come from
the filter: each is a node that only the filter refers to, or lies
between such a node and the target (`Context.forced_closure`).
-/

namespace EntityMap

/-- The nodes that a plan cannot do without: the smallest set with the target and
every node that is referred to, closed under origins up to the target. -/
inductive Draft.Needs (ctx : Context) (d : Draft) : Nat → Prop
  | target : Needs ctx d d.target
  | selected {c : NodeColumn} (hc : c ∈ d.select) : Needs ctx d c.node
  | filtered {filter : BoundFilter} {c : NodeColumn} (hfilter : d.filter = some filter)
      (hc : c ∈ filter.members) : Needs ctx d c.node
  | ordered {term : OrderTerm} (hterm : term ∈ d.orderBy) : Needs ctx d term.column.node
  | restricted {r : KeyRestriction} (hr : d.keyRestriction = some r) : Needs ctx d r.column.node
  | origin {i o : Nat} (hi : Needs ctx d i) (hne : i ≠ d.target) (ho : ctx.origin? i = some o) :
      Needs ctx d o

namespace Draft

theorem mem_referencedNodes {d : Draft} {i : Nat} :
    i ∈ d.referencedNodes ↔ i = d.target ∨ (∃ c ∈ d.select, c.node = i) ∨
      (∃ term ∈ d.orderBy, term.column.node = i) ∨
      ∃ r, d.keyRestriction = some r ∧ r.column.node = i := by
  simp [referencedNodes]

theorem mem_filterOnlyNodes {d : Draft} {i : Nat} :
    i ∈ d.filterOnlyNodes ↔ i ∉ d.referencedNodes ∧
      ∃ filter, d.filter = some filter ∧ ∃ c ∈ filter.members, c.node = i := by
  unfold filterOnlyNodes
  cases d.filter with
  | none => simp
  | some filter => simp [BoundFilter.nodes, List.mem_eraseDups, and_comm]

end Draft

namespace Context

variable {ctx : Context} {d : Draft} {c c' : Closure} {target : Nat}

theorem mem_byLevel {l : List Nat} {i : Nat} : i ∈ ctx.byLevel l ↔ i ∈ l := by
  simp [byLevel, List.mem_eraseDups]

/-- The nodes on the way from a target down to a node, the target left out unless
it is the node. -/
def way (ctx : Context) (target i : Nat) : List Nat :=
  (if i = target then [] else (ctx.ancestorsUntil i target).reverse) ++ [i]

theorem nodes_insert {seen : List Nat} (h : c.nodes = seen.eraseDups) (i : Nat) :
    (c.insert i).nodes = (seen ++ [i]).eraseDups := by
  rw [eraseDups_concat, Closure.insert]
  by_cases hi : i ∈ seen <;> simp [h, List.mem_eraseDups, hi]

theorem nodes_insertAbove (below i : Nat) : (c.insertAbove below i).nodes = (c.insert i).nodes := by
  unfold Closure.insertAbove Closure.insert
  split <;> rfl

theorem nodes_foldl_insertAbove {seen : List Nat} (h : c.nodes = seen.eraseDups) (i : Nat)
    (between : List Nat) :
    (between.foldl (·.insertAbove i) c).nodes = (seen ++ between).eraseDups := by
  induction between generalizing c seen with
  | nil => simpa using h
  | cons a rest ih =>
      have ha : (c.insertAbove i a).nodes = (seen ++ [a]).eraseDups := by
        rw [nodes_insertAbove, nodes_insert h]
      simpa using ih ha

theorem close_eq_ok_iff {i : Nat} :
    ctx.close target c i = .ok c' ↔ ctx.isAncestorOrSelf target i ∧
      c' = ((if i = target then [] else (ctx.ancestorsUntil i target).reverse).foldl
        (·.insertAbove i) c).insert i := by
  unfold close
  by_cases h : ctx.isAncestorOrSelf target i <;> simp [h, eq_comm]

/-- Adding a node puts down the way to it. -/
theorem nodes_close {seen : List Nat} {i : Nat} (h : c.nodes = seen.eraseDups)
    (hclose : ctx.close target c i = .ok c') :
    c'.nodes = (seen ++ ctx.way target i).eraseDups := by
  obtain ⟨-, rfl⟩ := close_eq_ok_iff.mp hclose
  rw [way, ← List.append_assoc]
  exact nodes_insert (nodes_foldl_insertAbove h i _) i

theorem nodes_foldlM_close {seen l : List Nat} (h : c.nodes = seen.eraseDups)
    (hfold : l.foldlM (ctx.close target) c = .ok c') :
    c'.nodes = (seen ++ l.flatMap (ctx.way target)).eraseDups ∧
      ∀ i ∈ l, ctx.isAncestorOrSelf target i := by
  induction l generalizing c seen with
  | nil =>
      cases hfold
      exact ⟨by simpa using h, by simp⟩
  | cons i rest ih =>
      rw [List.foldlM_cons] at hfold
      obtain ⟨c₁, hclose, hrest⟩ := Except.bind_eq_ok_iff.mp hfold
      obtain ⟨hnodes, hbelow⟩ := ih (nodes_close h hclose) hrest
      refine ⟨by simpa using hnodes, ?_⟩
      intro j hj
      rcases List.mem_cons.mp hj with rfl | hj
      · exact (close_eq_ok_iff.mp hclose).1
      · exact hbelow j hj

/-- The referenced nodes of a draft in the order in which they are visited: those of
the filter alone come first. -/
def visited (ctx : Context) (d : Draft) : List Nat :=
  ctx.byLevel d.filterOnlyNodes ++ ctx.byLevel d.referencedNodes

theorem mem_visited {i : Nat} :
    i ∈ ctx.visited d ↔ i ∈ d.referencedNodes ∨
      ∃ filter, d.filter = some filter ∧ ∃ c ∈ filter.members, c.node = i := by
  rw [visited, List.mem_append, mem_byLevel, mem_byLevel, Draft.mem_filterOnlyNodes]
  by_cases hi : i ∈ d.referencedNodes <;> simp [hi]

theorem nodes_closure (h : ctx.closure d = .ok c) :
    c.nodes = ((ctx.visited d).flatMap (ctx.way d.target)).eraseDups ∧
      ∀ i ∈ ctx.visited d, ctx.isAncestorOrSelf d.target i :=
  nodes_foldlM_close (List.eraseDups_nil).symm h

theorem nodup_closure (h : ctx.closure d = .ok c) : c.nodes.Nodup := by
  rw [(nodes_closure h).1]
  exact nodup_eraseDups _

/-! ## The closure holds what is needed -/

theorem needs_of_mem_visited {i : Nat} (h : i ∈ ctx.visited d) : d.Needs ctx i := by
  rcases mem_visited.mp h with h | ⟨filter, hfilter, c, hc, rfl⟩
  · rcases Draft.mem_referencedNodes.mp h with rfl | ⟨c, hc, rfl⟩ | ⟨term, ht, rfl⟩ | ⟨r, hr, rfl⟩
    · exact .target
    · exact .selected hc
    · exact .ordered ht
    · exact .restricted hr
  · exact .filtered hfilter hc

/-- What holds of the visited nodes, and of an origin with each node, holds of all needed ones. -/
theorem of_needs {P : Nat → Prop} {i : Nat} (hi : d.Needs ctx i)
    (hvisited : ∀ i ∈ ctx.visited d, P i)
    (horigin : ∀ i o, P i → i ≠ d.target → ctx.origin? i = some o → P o) : P i := by
  have hreferenced : ∀ {i}, i ∈ d.referencedNodes → P i := fun h =>
    hvisited _ (mem_visited.mpr (.inl h))
  induction hi with
  | target => exact hreferenced (Draft.mem_referencedNodes.mpr (.inl rfl))
  | selected hc => exact hreferenced (Draft.mem_referencedNodes.mpr (.inr (.inl ⟨_, hc, rfl⟩)))
  | ordered ht =>
      exact hreferenced (Draft.mem_referencedNodes.mpr (.inr (.inr (.inl ⟨_, ht, rfl⟩))))
  | restricted hr =>
      exact hreferenced (Draft.mem_referencedNodes.mpr (.inr (.inr (.inr ⟨_, hr, rfl⟩))))
  | filtered hf hc => exact hvisited _ (mem_visited.mpr (.inr ⟨_, hf, _, hc, rfl⟩))
  | origin _ hne ho ih => exact horigin _ _ ih hne ho

theorem mem_way {i j : Nat} : j ∈ ctx.way target i ↔
    j = i ∨ i ≠ target ∧ j ∈ ctx.ancestorsUntil i target := by
  unfold way
  by_cases h : i = target <;> simp [h, or_comm]

/-- The way to a node goes by its origin. -/
theorem Arena.way_eq (harena : ctx.Arena) {i o : Nat} (hne : i ≠ target)
    (ho : ctx.origin? i = some o) :
    ctx.way target i = (if o = target then [] else ctx.way target o) ++ [i] := by
  by_cases hstop : o = target <;> simp [way, hne, harena.ancestorsUntil_eq ho, hstop]

/-- The way to a node of the closure goes through needed nodes only. -/
theorem needs_of_mem_way (harena : ctx.Arena) {i j : Nat}
    (hbelow : ctx.isAncestorOrSelf d.target i) (hi : d.Needs ctx i)
    (hj : j ∈ ctx.way d.target i) : d.Needs ctx j := by
  rcases mem_way.mp hj with rfl | ⟨hne, hj⟩
  · exact hi
  · exact harena.of_mem_ancestorsUntil (fun _ _ h hne ho => .origin h hne ho) hbelow hne hi hj

theorem mem_closure_iff (harena : ctx.Arena) (h : ctx.closure d = .ok c) {i : Nat} :
    i ∈ c.nodes ↔ d.Needs ctx i := by
  obtain ⟨hnodes, hbelow⟩ := nodes_closure h
  have hmem : ∀ {j}, j ∈ c.nodes ↔ ∃ n ∈ ctx.visited d, j ∈ ctx.way d.target n := by
    intro j
    rw [hnodes, List.mem_eraseDups, List.mem_flatMap]
  have hself : ∀ {j}, j ∈ ctx.visited d → j ∈ c.nodes := fun hj =>
    hmem.mpr ⟨_, hj, mem_way.mpr (.inl rfl)⟩
  constructor
  · intro hi
    obtain ⟨n, hn, hi⟩ := hmem.mp hi
    exact needs_of_mem_way harena (hbelow n hn) (needs_of_mem_visited hn) hi
  · intro hi
    refine of_needs hi (fun j hj => hself hj) ?_
    intro j o ih hne ho
    obtain ⟨n, hn, hj⟩ := hmem.mp ih
    by_cases htarget : n = d.target
    · simp [mem_way, htarget] at hj
      exact absurd hj hne
    · have hj : j ∈ n :: ctx.ancestorsUntil n d.target := by
        simpa [mem_way, htarget] using hj
      obtain ⟨o', ho', hnext⟩ := harena.exists_origin_of_mem (hbelow n hn) htarget hj
      obtain rfl : o' = o := Option.some.inj (ho'.symm.trans ho)
      rcases hnext with rfl | hnext
      · exact hself (mem_visited.mpr (.inl (Draft.mem_referencedNodes.mpr (.inl rfl))))
      · exact hmem.mpr ⟨n, hn, mem_way.mpr (.inr ⟨htarget, hnext⟩)⟩

/-! ## What the filter forces -/

/-- A node that only the filter refers to, or one between such a node and the target. -/
def FilterBound (ctx : Context) (d : Draft) (i : Nat) : Prop :=
  ∃ f ∈ d.filterOnlyNodes, i ∈ f :: ctx.ancestorsUntil f d.target

/-- What is between a filter bound node and the target is filter bound. -/
theorem filterBound_of_mem_ancestorsUntil (harena : ctx.Arena)
    (hbelow : ∀ f ∈ d.filterOnlyNodes, ctx.isAncestorOrSelf d.target f) {i j : Nat}
    (hi : ctx.FilterBound d i) (hisBelow : ctx.isAncestorOrSelf d.target i) (hne : i ≠ d.target)
    (hj : j ∈ ctx.ancestorsUntil i d.target) : ctx.FilterBound d j := by
  have hclosed : ∀ i o, i = d.target ∨ ctx.FilterBound d i → i ≠ d.target →
      ctx.origin? i = some o → o = d.target ∨ ctx.FilterBound d o := by
    intro i o hi hne ho
    obtain ⟨f, hf, hmem⟩ := hi.resolve_left hne
    have hftarget : f ≠ d.target := by
      rintro rfl
      exact (Draft.mem_filterOnlyNodes.mp hf).1 (Draft.mem_referencedNodes.mpr (.inl rfl))
    obtain ⟨o', ho', hnext⟩ := harena.exists_origin_of_mem (hbelow f hf) hftarget hmem
    obtain rfl : o' = o := Option.some.inj (ho'.symm.trans ho)
    exact hnext.imp_right fun h => ⟨f, hf, List.mem_cons_of_mem _ h⟩
  have := harena.of_mem_ancestorsUntil hclosed hisBelow hne (.inr hi) hj
  exact this.resolve_left (ne_target_of_mem_ancestorsUntil hj)

theorem forced_insert (i : Nat) : (c.insert i).forced = c.forced := by
  unfold Closure.insert
  split <;> rfl

theorem mem_forced_insertAbove {below i j : Nat} (h : j ∈ (c.insertAbove below i).forced) :
    j ∈ c.forced ∨ below ∈ c.forced ∧ j = i := by
  unfold Closure.insertAbove at h
  split at h
  · exact .inl h
  · split at h
    · rename_i hbelow
      rcases List.mem_append.mp h with h | h
      · exact .inl h
      · exact .inr ⟨List.contains_iff_mem.mp hbelow, List.mem_singleton.mp h⟩
    · exact .inl h

/-- The way to a node is forced only with the node. -/
theorem mem_forced_foldl {i j : Nat} {between : List Nat} (hi : i ∉ between)
    (h : j ∈ (between.foldl (·.insertAbove i) c).forced) :
    j ∈ c.forced ∨ j ∈ between ∧ i ∈ c.forced := by
  induction between generalizing c with
  | nil => exact .inl h
  | cons a rest ih =>
      have hne : i ≠ a := fun heq => hi (heq ▸ List.mem_cons_self ..)
      rcases ih (fun hmem => hi (List.mem_cons_of_mem _ hmem)) h with h | ⟨hj, hforced⟩
      · rcases mem_forced_insertAbove h with h | ⟨hforced, rfl⟩
        · exact .inl h
        · exact .inr ⟨List.mem_cons_self .., hforced⟩
      · rcases mem_forced_insertAbove hforced with hforced | ⟨-, heq⟩
        · exact .inr ⟨List.mem_cons_of_mem _ hj, hforced⟩
        · exact absurd heq hne

/-- One step: adding a node forces only filter bound nodes. -/
theorem forced_close (harena : ctx.Arena)
    (hbelow : ∀ f ∈ d.filterOnlyNodes, ctx.isAncestorOrSelf d.target f)
    (hforced : ∀ i ∈ c.forced, ctx.FilterBound d i) {i : Nat}
    (hclose : ctx.close d.target c i = .ok c') : ∀ j ∈ c'.forced, ctx.FilterBound d j := by
  obtain ⟨hi, rfl⟩ := close_eq_ok_iff.mp hclose
  intro j hj
  rw [forced_insert] at hj
  by_cases htarget : i = d.target
  · rw [if_pos htarget] at hj
    exact hforced j hj
  · rw [if_neg htarget] at hj
    have hnot : i ∉ (ctx.ancestorsUntil i d.target).reverse := by
      intro hmem
      have := harena.lt_of_mem_ancestorsUntil hi htarget (List.mem_reverse.mp hmem)
      omega
    rcases mem_forced_foldl hnot hj with hj | ⟨hj, hbound⟩
    · exact hforced j hj
    · exact filterBound_of_mem_ancestorsUntil harena hbelow (hforced i hbound) hi htarget
        (List.mem_reverse.mp hj)

theorem filterOnly_below (h : ctx.closure d = .ok c) :
    ∀ f ∈ d.filterOnlyNodes, ctx.isAncestorOrSelf d.target f := fun _ hf =>
  (nodes_closure h).2 _ (List.mem_append_left _ (mem_byLevel.mpr hf))

/-- Every node that is joined as inner whatever its link is filter bound. -/
theorem forced_closure (harena : ctx.Arena) (h : ctx.closure d = .ok c) :
    ∀ i ∈ c.forced, ctx.FilterBound d i := by
  have hbelow := filterOnly_below h
  have hrun : ∀ (l : List Nat) (c₀ : Closure), (∀ i ∈ c₀.forced, ctx.FilterBound d i) →
      l.foldlM (ctx.close d.target) c₀ = .ok c → ∀ i ∈ c.forced, ctx.FilterBound d i := by
    intro l
    induction l with
    | nil =>
        intro c₀ hforced hfold
        cases hfold
        exact hforced
    | cons i rest ih =>
        intro c₀ hforced hfold
        rw [List.foldlM_cons] at hfold
        obtain ⟨c₁, hclose, hrest⟩ := Except.bind_eq_ok_iff.mp hfold
        exact ih c₁ (forced_close harena hbelow hforced hclose) hrest
  refine hrun _ _ ?_ h
  intro i hi
  exact ⟨i, mem_byLevel.mp hi, List.mem_cons_self ..⟩

theorem mem_forced_foldl_insertAbove {i j : Nat} {between : List Nat} (hj : j ∈ c.forced) :
    j ∈ (between.foldl (·.insertAbove i) c).forced := by
  induction between generalizing c with
  | nil => exact hj
  | cons a rest ih =>
      refine ih (?_ : j ∈ (c.insertAbove i a).forced)
      unfold Closure.insertAbove
      split
      · exact hj
      · split
        · exact List.mem_append_left _ hj
        · exact hj

/-- The nodes that only the filter refers to are joined as inner. -/
theorem filterOnly_forced (h : ctx.closure d = .ok c) : ∀ f ∈ d.filterOnlyNodes, f ∈ c.forced := by
  have hrun : ∀ (l : List Nat) (c₀ : Closure), l.foldlM (ctx.close d.target) c₀ = .ok c →
      ∀ f ∈ c₀.forced, f ∈ c.forced := by
    intro l
    induction l with
    | nil =>
        intro c₀ hfold
        cases hfold
        exact fun _ hf => hf
    | cons i rest ih =>
        intro c₀ hfold f hf
        rw [List.foldlM_cons] at hfold
        obtain ⟨c₁, hclose, hrest⟩ := Except.bind_eq_ok_iff.mp hfold
        obtain ⟨-, rfl⟩ := close_eq_ok_iff.mp hclose
        refine ih _ hrest f ?_
        rw [forced_insert]
        exact mem_forced_foldl_insertAbove hf
  exact fun f hf => hrun _ _ h f (mem_byLevel.mpr hf)

/-! ## The first node -/

theorem level_lt_of_below (harena : ctx.Arena) {i : Nat} (hbelow : ctx.isAncestorOrSelf target i)
    (hne : i ≠ target) : ctx.level target < ctx.level i := by
  revert hne
  refine harena.walk_induction (P := fun i => i ≠ target → ctx.level target < ctx.level i)
    (fun hne => absurd rfl hne) ?_ hbelow
  intro i o _ ho _ ih _
  have hlevel := harena.level_eq ho
  by_cases hstop : o = target
  · rw [hstop] at hlevel
    omega
  · have := ih hstop
    omega

/-- The first of the nodes by level is of the least level. -/
theorem level_le_of_byLevel_eq_cons {l rest : List Nat} {i j : Nat}
    (h : ctx.byLevel l = i :: rest) (hj : j ∈ l) : ctx.level i ≤ ctx.level j := by
  have hsorted : (ctx.byLevel l).Pairwise fun i j =>
      (ctx.level i < ctx.level j || (ctx.level i = ctx.level j && i ≤ j)) = true := by
    refine List.pairwise_mergeSort ?_ ?_ _
    · intro a b c hab hbc
      simp only [Bool.or_eq_true, Bool.and_eq_true, decide_eq_true_eq] at hab hbc ⊢
      omega
    · intro a b
      simp only [Bool.or_eq_true, Bool.and_eq_true, decide_eq_true_eq]
      omega
  have hmem : j ∈ i :: rest := h ▸ mem_byLevel.mpr hj
  rw [h] at hsorted
  rcases List.mem_cons.mp hmem with rfl | hmem
  · exact Nat.le_refl _
  · have := (List.pairwise_cons.mp hsorted).1 j hmem
    simp only [Bool.or_eq_true, Bool.and_eq_true, decide_eq_true_eq] at this
    omega

/-- The way down to a node starts with a node that hangs on the target. -/
theorem exists_way_eq_cons (harena : ctx.Arena) {i : Nat}
    (hbelow : ctx.isAncestorOrSelf target i) (hne : i ≠ target) :
    ∃ x rest, ctx.way target i = x :: rest ∧ ctx.origin? x = some target ∧
      x ∈ i :: ctx.ancestorsUntil i target := by
  revert hne
  refine harena.walk_induction
    (P := fun i => i ≠ target → ∃ x rest, ctx.way target i = x :: rest ∧
      ctx.origin? x = some target ∧ x ∈ i :: ctx.ancestorsUntil i target)
    (fun hne => absurd rfl hne) ?_ hbelow
  intro i o hi ho _ ih _
  by_cases hstop : o = target
  · refine ⟨i, [], ?_, hstop ▸ ho, List.mem_cons_self ..⟩
    rw [harena.way_eq hi ho, if_pos hstop, List.nil_append]
  · obtain ⟨x, rest, hway, hx, hmem⟩ := ih hstop
    have hwayi : ctx.way target i = ctx.way target o ++ [i] := by
      rw [harena.way_eq hi ho, if_neg hstop]
    refine ⟨x, rest ++ [i], by rw [hwayi, hway]; rfl, hx, ?_⟩
    rw [harena.ancestorsUntil_eq ho, if_neg hstop]
    exact List.mem_cons_of_mem _ hmem

/-- The first node of a closure is the target, or a filter bound node that hangs on
the target. -/
theorem exists_closure_eq_cons (harena : ctx.Arena) (h : ctx.closure d = .ok c) :
    ∃ x rest, c.nodes = x :: rest ∧
      (x = d.target ∨ ctx.origin? x = some d.target ∧ ctx.FilterBound d x) := by
  obtain ⟨hnodes, hbelow⟩ := nodes_closure h
  cases hvisited : ctx.visited d with
  | nil =>
      have : d.target ∈ ctx.visited d :=
        mem_visited.mpr (.inl (Draft.mem_referencedNodes.mpr (.inl rfl)))
      simp [hvisited] at this
  | cons i rest =>
      have hi : ctx.isAncestorOrSelf d.target i := hbelow i (by simp [hvisited])
      rw [hvisited, List.flatMap_cons] at hnodes
      by_cases htarget : i = d.target
      · have hway : ctx.way d.target i = [i] := by simp [way, htarget]
        rw [hway, List.singleton_append, List.eraseDups_cons] at hnodes
        exact ⟨i, _, hnodes, .inl htarget⟩
      · obtain ⟨x, tail, hway, hx, hmem⟩ := exists_way_eq_cons harena hi htarget
        rw [hway, List.cons_append, List.eraseDups_cons] at hnodes
        refine ⟨x, _, hnodes, .inr ⟨hx, i, ?_, hmem⟩⟩
        -- the target is the first of the referenced nodes, so `i` comes from the filter
        cases hfilter : ctx.byLevel d.filterOnlyNodes with
        | cons f more =>
            rw [visited, hfilter] at hvisited
            obtain ⟨rfl, -⟩ := List.cons.inj hvisited
            exact mem_byLevel.mp (hfilter ▸ List.mem_cons_self ..)
        | nil =>
            rw [visited, hfilter, List.nil_append] at hvisited
            have hle := level_le_of_byLevel_eq_cons hvisited
              (Draft.mem_referencedNodes.mpr (.inl rfl))
            have := level_lt_of_below harena hi htarget
            omega

end Context

end EntityMap
