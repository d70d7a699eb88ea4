import EntityMap.Proofs.Query.JoinKinds
import EntityMap.Proofs.Query.Strategy

/-!
# Plans last

A plan asks its context for the links and the tables of the nodes of its
closure, and for nothing else. Attaching nodes changes neither, so a
draft has the same plan in every context that has grown from one in
which it has been planned (`Context.Grows.plan`). In particular no node
that comes later is taken for one to join next: whether a node hangs on
those that are joined is told by the links of both
(`Context.Grows.edge?_eq`).
-/

namespace EntityMap

/-- What is picked is told by the answers of the elements. -/
theorem pick?_congr {α β : Type} {f g : α → Option β} {l : List α} (h : ∀ a ∈ l, f a = g a) :
    pick? f l = pick? g l := by
  induction l with
  | nil => rfl
  | cons a rest ih =>
      rw [pick?, pick?, h a (List.mem_cons_self ..), ih fun a ha => h a (List.mem_cons_of_mem _ ha)]

namespace Context

/-- The nodes of a list are there. -/
def Has (ctx : Context) (l : List Nat) : Prop :=
  ∀ i ∈ l, ∃ n, ctx.nodes[i]? = some n

namespace Grows

variable {ctx ctx' : Context} {i target : Nat} {n : Node} {l remaining forced : List Nat}
  {joined : List (Nat × JoinKind)} {d : Draft} {c : Closure} {p : Plan} {s : Strategy}

/-! ## At a node -/

theorem level_eq (hgrows : ctx.Grows ctx') (hn : ctx.nodes[i]? = some n) :
    ctx'.level i = ctx.level i := by
  obtain ⟨n', hn', more, rfl⟩ := hgrows.node hn
  rw [level, level, hn, hn']
  rfl

theorem isInverse_eq (hgrows : ctx.Grows ctx') (hn : ctx.nodes[i]? = some n) :
    ctx'.isInverse i = ctx.isInverse i := by
  obtain ⟨n', hn', more, rfl⟩ := hgrows.node hn
  rw [Context.isInverse, Context.isInverse, hn, hn']
  rfl

theorem origin?_eq (hgrows : ctx.Grows ctx') (hn : ctx.nodes[i]? = some n) :
    ctx'.origin? i = ctx.origin? i := by
  rw [Context.origin?, Context.origin?, hgrows.link?_eq hn]

theorem ancestorsUntil_eq (hgrows : ctx.Grows ctx') (harena : ctx.Arena)
    (hn : ctx.nodes[i]? = some n) : ctx'.ancestorsUntil i target = ctx.ancestorsUntil i target := by
  rw [ancestorsUntil, ancestorsUntil, hgrows.ancestors_eq harena hn]

/-! ## The closure -/

theorem byLevel_eq (hgrows : ctx.Grows ctx') (h : ctx.Has l) : ctx'.byLevel l = ctx.byLevel l := by
  have hlevel : ∀ {i}, i ∈ l.eraseDups → ctx'.level i = ctx.level i := by
    intro i hi
    obtain ⟨n, hn⟩ := h i (List.mem_eraseDups.mp hi)
    exact hgrows.level_eq hn
  unfold byLevel
  have hsame := List.map_mergeSort (f := id) (l := l.eraseDups)
    (r := fun i j => ctx'.level i < ctx'.level j || (ctx'.level i = ctx'.level j && i ≤ j))
    (s := fun i j => ctx.level i < ctx.level j || (ctx.level i = ctx.level j && i ≤ j))
    fun i hi j hj => by rw [hlevel hi, hlevel hj]; rfl
  simpa using hsame

theorem close_eq (hgrows : ctx.Grows ctx') (harena : ctx.Arena) (hn : ctx.nodes[i]? = some n)
    (c : Closure) : ctx'.close target c i = ctx.close target c i := by
  rw [close, close, isAncestorOrSelf, isAncestorOrSelf, hgrows.ancestors_eq harena hn,
    hgrows.ancestorsUntil_eq harena hn]

theorem foldlM_close_eq (hgrows : ctx.Grows ctx') (harena : ctx.Arena) (h : ctx.Has l)
    (c : Closure) : l.foldlM (ctx'.close target) c = l.foldlM (ctx.close target) c := by
  induction l generalizing c with
  | nil => rfl
  | cons i rest ih =>
      obtain ⟨n, hn⟩ := h i (List.mem_cons_self ..)
      rw [List.foldlM_cons, List.foldlM_cons, hgrows.close_eq harena hn]
      exact congrArg _ (funext (ih fun j hj => h j (List.mem_cons_of_mem _ hj)))

theorem closure_eq (hgrows : ctx.Grows ctx') (harena : ctx.Arena) (h : ctx.Has (ctx.visited d)) :
    ctx'.closure d = ctx.closure d := by
  have hfilter : ctx.Has d.filterOnlyNodes := fun i hi =>
    h i (List.mem_append_left _ (mem_byLevel.mpr hi))
  have hothers : ctx.Has d.referencedNodes := fun i hi =>
    h i (List.mem_append_right _ (mem_byLevel.mpr hi))
  unfold closure
  rw [hgrows.byLevel_eq hfilter, hgrows.byLevel_eq hothers]
  exact hgrows.foldlM_close_eq harena h _

/-! ## The joins -/

/-- Which of the joined nodes a node hangs on is told by their links and its own. -/
theorem edge?_eq (hgrows : ctx.Grows ctx') (hn : ctx.nodes[i]? = some n)
    (hjoined : ctx.Has (joined.map (·.1))) : ctx'.edge? joined i = ctx.edge? joined i := by
  have hfind : ((joined.map (·.1)).find? fun j => ctx'.origin? j = some i) =
      (joined.map (·.1)).find? fun j => ctx.origin? j = some i := by
    refine List.find?_congr fun j hj => ?_
    obtain ⟨m, hm⟩ := hjoined j hj
    rw [hgrows.origin?_eq hm]
  rw [edge?_eq_or, edge?_eq_or, hgrows.origin?_eq hn, hfind]

theorem join (hgrows : ctx.Grows ctx') (hn : ctx.nodes[i]? = some n) {edge : Edge} {j : Join}
    (h : ctx.join forced joined i edge = .ok j) : ctx'.join forced joined i edge = .ok j := by
  obtain ⟨n', hn', more, rfl⟩ := hgrows.node hn
  have hlink : ∀ {k link}, ctx.link k = .ok link → ctx'.link k = .ok link := fun hl =>
    link_eq_ok_iff.mpr (hgrows.link? (link_eq_ok_iff.mp hl))
  unfold Context.join at h ⊢
  rw [hn] at h
  rw [hn']
  cases edge with
  | fromOrigin o | fromChild k =>
      obtain ⟨link, hl, h⟩ := Except.bind_eq_ok_iff.mp h
      obtain ⟨name, hname, h⟩ := Except.bind_eq_ok_iff.mp h
      obtain ⟨source, hsource, h⟩ := Except.bind_eq_ok_iff.mp h
      refine Except.bind_eq_ok_iff.mpr ⟨link, hlink hl, ?_⟩
      refine Except.bind_eq_ok_iff.mpr ⟨name, columnName_grows hgrows hname, ?_⟩
      exact Except.bind_eq_ok_iff.mpr ⟨source, columnName_grows hgrows hsource, h⟩

theorem joins (hgrows : ctx.Grows ctx') (hremaining : ctx.Has remaining)
    (hjoined : ctx.Has (joined.map (·.1))) {js : List Join}
    (h : ctx.joins forced joined remaining = .ok js) :
    ctx'.joins forced joined remaining = .ok js := by
  induction hlength : remaining.length using Nat.strongRecOn generalizing joined remaining js with
  | ind length ih =>
      have hpick : pick? (ctx'.edge? joined) remaining = pick? (ctx.edge? joined) remaining := by
        refine pick?_congr fun i hi => ?_
        obtain ⟨n, hn⟩ := hremaining i hi
        exact hgrows.edge?_eq hn hjoined
      cases hsome : pick? (ctx.edge? joined) remaining with
      | some picked =>
          obtain ⟨i, edge, others⟩ := picked
          rw [joins_of_pick?_eq_some hsome] at h
          rw [joins_of_pick?_eq_some (hpick.trans hsome)]
          obtain ⟨-, hperm⟩ := pick?_eq_some hsome
          obtain ⟨n, hn⟩ := hremaining i (hperm.mem_iff.mpr (List.mem_cons_self ..))
          obtain ⟨j, hjoin, h⟩ := Except.bind_eq_ok_iff.mp h
          obtain ⟨js', hrest, h⟩ := Except.bind_eq_ok_iff.mp h
          have hlt : others.length < length := by
            have := length_of_pick? hsome
            omega
          have hothers : ctx.Has others := fun k hk =>
            hremaining k (hperm.mem_iff.mpr (List.mem_cons_of_mem _ hk))
          have hnow : ctx.Has ((joined ++ [(i, j.kind)]).map (·.1)) := by
            intro k hk
            rw [List.map_append, List.mem_append] at hk
            rcases hk with hk | hk
            · exact hjoined k hk
            · obtain rfl : k = i := by simpa using hk
              exact ⟨n, hn⟩
          refine Except.bind_eq_ok_iff.mpr ⟨j, hgrows.join hn hjoin, ?_⟩
          exact Except.bind_eq_ok_iff.mpr ⟨js', ih _ hlt hothers hnow hrest rfl, h⟩
      | none =>
          rw [joins_of_pick?_eq_none hsome] at h
          rw [joins_of_pick?_eq_none (hpick.trans hsome)]
          exact h

/-! ## Plans and strategies -/

theorem keyColumn {key : NodeColumn} (hgrows : ctx.Grows ctx') (h : ctx.keyColumn i = .ok key) :
    ctx'.keyColumn i = .ok key := by
  obtain ⟨t, column, ht, hcolumn, heq⟩ := keyColumn_eq_ok_iff.mp h
  exact keyColumn_eq_ok_iff.mpr ⟨t, column, hgrows.table_eq ht, hcolumn, heq⟩

/-- A draft keeps its plan. -/
theorem plan (hgrows : ctx.Grows ctx') (harena : ctx.Arena) (h : ctx.plan d = .ok p) :
    ctx'.plan d = .ok p := by
  have hneeds : ∀ {i}, d.Needs ctx i → ∃ n, ctx.nodes[i]? = some n := exists_node_of_needs harena h
  obtain ⟨key, c, js, n, hkey, hc, hjs, hn, rfl⟩ := plan_eq_ok_iff.mp h
  have hnodes : ctx.Has c.nodes := fun i hi => hneeds ((mem_closure_iff harena hc).mp hi)
  have hvisited : ctx.Has (ctx.visited d) := fun i hi => hneeds (needs_of_mem_visited hi)
  obtain ⟨n', hn', more, rfl⟩ := hgrows.node hn
  have hpath : ctx'.basePath d c = ctx.basePath d c := by
    rw [basePath, basePath, hgrows.ancestorsUntil_eq harena hn]
  have hinverted : (c.nodes.filter fun i => i ≠ d.target && ctx'.isInverse i) =
      c.nodes.filter fun i => i ≠ d.target && ctx.isInverse i := by
    refine List.filter_congr fun i hi => ?_
    obtain ⟨m, hm⟩ := hnodes i hi
    rw [hgrows.isInverse_eq hm]
  refine plan_eq_ok_iff.mpr ⟨key, c, js, _, hgrows.keyColumn hkey,
    (hgrows.closure_eq harena hvisited).trans hc, ?_, hn', by rw [hinverted]⟩
  rw [hpath]
  refine hgrows.joins (fun i hi => hnodes i (List.mem_of_mem_erase hi)) ?_ hjs
  intro i hi
  obtain rfl : i = base d c := by simpa using hi
  exact ⟨n, hn⟩

theorem strategy (hgrows : ctx.Grows ctx') (harena : ctx.Arena) (h : ctx.strategy d = .ok s) :
    ctx'.strategy d = .ok s := by
  unfold Context.strategy at h ⊢
  obtain ⟨direct, hdirect, h⟩ := Except.bind_eq_ok_iff.mp h
  refine Except.bind_eq_ok_iff.mpr ⟨direct, hgrows.plan harena hdirect, ?_⟩
  split at h
  · rename_i hlimits
    rw [if_pos hlimits]
    obtain ⟨keys, hkeys, h⟩ := Except.bind_eq_ok_iff.mp h
    obtain ⟨rows, hrows, h⟩ := Except.bind_eq_ok_iff.mp h
    refine Except.bind_eq_ok_iff.mpr ⟨keys, hgrows.plan harena hkeys, ?_⟩
    exact Except.bind_eq_ok_iff.mpr ⟨rows, hgrows.plan harena hrows, h⟩
  · rename_i hsingle
    rw [if_neg hsingle]
    exact h

end Grows

end Context

end EntityMap
