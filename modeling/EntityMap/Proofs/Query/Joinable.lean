import EntityMap.Proofs.Query.Resolved
import EntityMap.Proofs.Query.Selected
import EntityMap.Proofs.Query.Strategy
import EntityMap.Proofs.Query.Sufficiency

/-!
# Drafts that can be joined

A draft that refers to nothing above its target (`Draft.IsBelow`) can be
planned, as long as the target has a key (`Context.Sound.exists_plan`).
Its closure goes all the way up from each node to the target, and starts
at the target or at a node that hangs on it. So as long as nodes remain,
one of them hangs on a node that is joined: the first of the remaining
ones on the way down from the target, or the target itself, which hangs
on the base (`Context.exists_edge?`). And each link names members that
are mapped, so no join lacks a column (`Context.Sound.exists_join`).

What a request is bound to is such a draft: each of its columns stores a
member of a node that a walk from the target leads to
(`Request.draft_isBound`), and so are the two phases that are made of it.
-/

namespace EntityMap

open Growing

/-- Everything that a draft refers to is its target or lies below it. -/
def Draft.IsBelow (ctx : Context) (d : Draft) : Prop :=
  ∀ i ∈ ctx.visited d, ctx.isAncestorOrSelf d.target i

/-- Nothing is picked where no element has an answer. -/
theorem pick?_eq_none_iff {α β : Type} {f : α → Option β} {l : List α} :
    pick? f l = none ↔ ∀ a ∈ l, f a = none := by
  induction l with
  | nil => simp [pick?]
  | cons a rest ih =>
      rw [List.forall_mem_cons, ← ih, pick?]
      cases f a <;> simp

namespace Context

variable {ctx : Context} {d : Draft} {c : Closure} {target i o : Nat}
  {joined : List (Nat × JoinKind)} {remaining forced nodes : List Nat}

/-! ## The closure -/

theorem exists_foldlM_close {l : List Nat} (h : ∀ i ∈ l, ctx.isAncestorOrSelf target i)
    (c : Closure) : ∃ c', l.foldlM (ctx.close target) c = .ok c' := by
  induction l generalizing c with
  | nil => exact ⟨c, rfl⟩
  | cons i rest ih =>
      obtain ⟨c', hrest⟩ := ih (fun j hj => h j (List.mem_cons_of_mem _ hj)) _
      refine ⟨c', ?_⟩
      rw [List.foldlM_cons]
      exact Except.bind_eq_ok_iff.mpr
        ⟨_, close_eq_ok_iff.mpr ⟨h i (List.mem_cons_self ..), rfl⟩, hrest⟩

theorem exists_closure (h : d.IsBelow ctx) : ∃ c, ctx.closure d = .ok c :=
  exists_foldlM_close h _

/-! ## A node to join next -/

/-- The nodes that remain hang together with those that are joined, up to a top. This one is joined,
or one is joined that hangs on it. -/
structure Connected (ctx : Context) (top : Nat) (joined : List (Nat × JoinKind))
    (remaining : List Nat) : Prop where
  nodup : remaining.Nodup
  apart : ∀ i ∈ remaining, i ∉ joined.map (·.1)
  reached : top ∈ joined.map (·.1) ∨ top ∈ remaining ∧
    ∃ i ∈ joined.map (·.1), ctx.origin? i = some top
  below : ∀ i ∈ remaining, ctx.isAncestorOrSelf top i
  origin : ∀ i o, i ∈ remaining → i ≠ top → ctx.origin? i = some o →
    o ∈ joined.map (·.1) ∨ o ∈ remaining

theorem edge?_of_origin? (ho : ctx.origin? i = some o) (hjoined : o ∈ joined.map (·.1)) :
    ctx.edge? joined i = some (.fromOrigin o) := by
  rw [edge?_eq_or, ho, Option.filter_some, if_pos (decide_eq_true hjoined)]
  rfl

theorem exists_edge?_of_child {k : Nat} (hk : ctx.origin? k = some i)
    (hjoined : k ∈ joined.map (·.1)) : ∃ edge, ctx.edge? joined i = some edge := by
  have hfound : ((joined.map (·.1)).find? fun j => ctx.origin? j = some i).isSome :=
    List.find?_isSome.mpr ⟨k, hjoined, by simpa using hk⟩
  refine Option.isSome_iff_exists.mp ?_
  rw [edge?_eq_or, Option.isSome_or, Option.isSome_map, Option.isSome_map, hfound, Bool.or_true]

namespace Connected

/-- As long as nodes remain, one of them hangs on a node that is joined. -/
theorem exists_edge? (h : ctx.Connected target joined remaining) (harena : ctx.Arena)
    (hsome : remaining ≠ []) : ∃ i ∈ remaining, ∃ edge, ctx.edge? joined i = some edge := by
  rcases h.reached with htop | ⟨htop, k, hk, ho⟩
  · obtain ⟨r, hr⟩ := List.exists_mem_of_ne_nil remaining hsome
    -- the last of the remaining nodes on the way up from `r` hangs on a joined one
    refine harena.walk_induction (P := fun r => r ∈ remaining →
      ∃ i ∈ remaining, ∃ edge, ctx.edge? joined i = some edge) ?_ ?_ (h.below r hr) hr
    · exact fun hremains => absurd htop (h.apart target hremains)
    · intro i o hne ho _ ih hi
      rcases h.origin i o hi hne ho with hjoined | hremains
      · exact ⟨i, hi, _, edge?_of_origin? ho hjoined⟩
      · exact ih hremains
  · exact ⟨target, htop, exists_edge?_of_child ho hk⟩

/-- One step: whichever of the remaining nodes is joined next. -/
theorem step {others : List Nat} (h : ctx.Connected target joined remaining) (kind : JoinKind)
    (hperm : remaining.Perm (i :: others)) :
    ctx.Connected target (joined ++ [(i, kind)]) others := by
  have hnodup : (i :: others).Nodup := hperm.nodup_iff.mp h.nodup
  have hmem : ∀ {j}, j ∈ others → j ∈ remaining := fun hj =>
    hperm.mem_iff.mpr (List.mem_cons_of_mem _ hj)
  have hnow : ∀ {j}, j ∈ joined.map (·.1) ∨ j ∈ remaining →
      j ∈ (joined ++ [(i, kind)]).map (·.1) ∨ j ∈ others := by
    intro j hj
    rw [List.map_append, List.mem_append]
    rcases hj with hj | hj
    · exact .inl (.inl hj)
    · rcases List.mem_cons.mp (hperm.mem_iff.mp hj) with rfl | hj
      · exact .inl (.inr (by simp))
      · exact .inr hj
  constructor
  case nodup => exact (List.nodup_cons.mp hnodup).2
  case apart =>
    intro j hj hjoined
    rw [List.map_append, List.mem_append] at hjoined
    rcases hjoined with hjoined | hnew
    · exact h.apart j (hmem hj) hjoined
    · obtain rfl : j = i := by simpa using hnew
      exact (List.nodup_cons.mp hnodup).1 hj
  case reached =>
    rcases h.reached with htop | ⟨htop, k, hk, ho⟩
    · exact .inl (by rw [List.map_append]; exact List.mem_append_left _ htop)
    · refine (hnow (.inr htop)).imp_right fun hothers => ⟨hothers, k, ?_, ho⟩
      rw [List.map_append]
      exact List.mem_append_left _ hk
  case below => exact fun j hj => h.below j (hmem hj)
  case origin => exact fun j o hj hne ho => hnow (h.origin j o (hmem hj) hne ho)

end Connected

/-! ## The columns of a join -/

theorem exists_columnName {n : Node} {t : Table} {column : Column} {member : String}
    (hn : ctx.nodes[i]? = some n) (ht : ctx.catalog.table n.entity = .ok t)
    (hcolumn : t.column member = .ok column) : ∃ name, ctx.columnName i member = .ok name :=
  ⟨column.column, columnName_eq_ok_iff.mpr
    ⟨t, column, table_eq_ok_iff.mpr ⟨n, hn, ht⟩, hcolumn, rfl⟩⟩

/-- The columns at both ends of a link are there. -/
theorem Sound.exists_columnNames {link : Link} (h : ctx.Sound) (hlink : ctx.link? i = some link) :
    (∃ name, ctx.columnName i link.nodeMember = .ok name) ∧
      ∃ name, ctx.columnName link.origin link.originMember = .ok name := by
  obtain ⟨n, origin, hn, hangs⟩ := h.arena.hangs_of_link? hlink
  obtain ⟨t, t', column, column', ht, ht', hcolumn, hcolumn', -⟩ :=
    hangs.declared.mapped h.accepted h.keyed
  exact ⟨exists_columnName hn ht' hcolumn', exists_columnName hangs.origin_eq ht hcolumn⟩

theorem exists_link_of_origin? (ho : ctx.origin? i = some o) :
    ∃ link, ctx.link? i = some link ∧ link.origin = o :=
  Option.map_eq_some_iff.mp ho

/-- A node can be joined over every edge. -/
theorem Sound.exists_join {edge : Edge} (h : ctx.Sound) (forced : List Nat)
    (hedge : ctx.edge? joined i = some edge) : ∃ j, ctx.join forced joined i edge = .ok j := by
  unfold Context.join
  cases edge with
  | fromOrigin o =>
      obtain ⟨link, hlink, rfl⟩ := exists_link_of_origin? (edge?_eq_fromOrigin hedge).1
      obtain ⟨⟨name, hname⟩, ⟨name', hname'⟩⟩ := h.exists_columnNames hlink
      refine Except.exists_bind_eq_ok (link_eq_ok_iff.mpr hlink) ?_
      exact Except.exists_bind_eq_ok hname (Except.exists_bind_eq_ok hname' ⟨_, rfl⟩)
  | fromChild k =>
      obtain ⟨link, hlink, rfl⟩ := exists_link_of_origin? (edge?_eq_fromChild hedge).1
      obtain ⟨⟨name, hname⟩, ⟨name', hname'⟩⟩ := h.exists_columnNames hlink
      refine Except.exists_bind_eq_ok (link_eq_ok_iff.mpr hlink) ?_
      exact Except.exists_bind_eq_ok hname' (Except.exists_bind_eq_ok hname ⟨_, rfl⟩)

/-- All of the remaining nodes are joined. -/
theorem Sound.exists_joins (hsound : ctx.Sound) (forced : List Nat)
    (h : ctx.Connected target joined remaining) :
    ∃ js, ctx.joins forced joined remaining = .ok js := by
  induction hn : remaining.length using Nat.strongRecOn generalizing joined remaining with
  | ind n ih =>
      cases hpick : pick? (ctx.edge? joined) remaining with
      | some picked =>
          obtain ⟨i, edge, others⟩ := picked
          rw [joins_of_pick?_eq_some hpick]
          obtain ⟨hedge, hperm⟩ := pick?_eq_some hpick
          obtain ⟨j, hjoin⟩ := hsound.exists_join forced hedge
          have hlt : others.length < n := by
            have := length_of_pick? hpick
            omega
          obtain ⟨js, hjs⟩ := ih _ hlt (h.step j.kind hperm) rfl
          exact Except.exists_bind_eq_ok hjoin (Except.exists_bind_eq_ok hjs ⟨_, rfl⟩)
      | none =>
          rw [joins_of_pick?_eq_none hpick]
          by_cases hnil : remaining = []
          · exact ⟨[], by simp [hnil]⟩
          · obtain ⟨i, hi, edge, hedge⟩ := h.exists_edge? hsound.arena hnil
            rw [pick?_eq_none_iff.mp hpick i hi] at hedge
            cases hedge

/-! ## Plans -/

/-- A closure is connected from its first node on. -/
theorem connected_of_closure (harena : ctx.Arena) (hc : ctx.closure d = .ok c) :
    ctx.Connected d.target [(base d c, .inner)] (c.nodes.erase (base d c)) := by
  have hnodup := nodup_closure hc
  have hmem : ∀ {j}, j ∈ c.nodes → j ∈ ([(base d c, JoinKind.inner)].map (·.1)) ∨
      j ∈ c.nodes.erase (base d c) := by
    intro j hj
    by_cases hbase : j = base d c
    · exact .inl (by simp [hbase])
    · exact .inr ((List.mem_erase_of_ne hbase).mpr hj)
  constructor
  case nodup => exact hnodup.erase _
  case apart =>
    intro i hi hbase
    obtain rfl : i = base d c := by simpa using hbase
    exact hnodup.not_mem_erase hi
  case reached =>
    have htarget : d.target ∈ c.nodes := (mem_closure_iff harena hc).mpr .target
    refine (hmem htarget).imp_right fun hremains => ⟨hremains, base d c, by simp, ?_⟩
    obtain ⟨x, rest, hnodes, hx⟩ := exists_closure_eq_cons harena hc
    have hbase : base d c = x := by simp [base, hnodes]
    rw [hbase] at hremains ⊢
    refine (hx.resolve_left ?_).1
    rintro rfl
    exact hnodup.not_mem_erase hremains
  case below =>
    intro i hi
    exact isAncestorOrSelf_of_needs harena hc
      ((mem_closure_iff harena hc).mp (List.mem_of_mem_erase hi))
  case origin =>
    intro i o hi hne ho
    have hneeds := (mem_closure_iff harena hc).mp (List.mem_of_mem_erase hi)
    exact hmem ((mem_closure_iff harena hc).mpr (.origin hneeds hne ho))

/-- A draft that refers to nothing above its target is planned, if the target has a key. -/
theorem Sound.exists_plan {key : NodeColumn} (h : ctx.Sound) (hbelow : d.IsBelow ctx)
    (hkey : ctx.keyColumn d.target = .ok key) : ∃ p, ctx.plan d = .ok p := by
  obtain ⟨c, hc⟩ := exists_closure hbelow
  obtain ⟨js, hjs⟩ := h.exists_joins (ctx.basePath d c ++ c.forced)
    (connected_of_closure h.arena hc)
  have hnode : ∃ n, ctx.node (base d c) = .ok n := by
    obtain ⟨x, rest, hnodes, hx⟩ := exists_closure_eq_cons h.arena hc
    have hbase : base d c = x := by simp [base, hnodes]
    rw [hbase]
    rcases hx with rfl | ⟨ho, -⟩
    · obtain ⟨t, column, ht, -⟩ := keyColumn_eq_ok_iff.mp hkey
      obtain ⟨n, hn, -⟩ := table_eq_ok_iff.mp ht
      exact ⟨n, node_eq_ok_iff.mpr hn⟩
    · obtain ⟨link, hlink, -⟩ := exists_link_of_origin? ho
      obtain ⟨n, hn, -⟩ := Option.bind_eq_some_iff.mp hlink
      exact ⟨n, node_eq_ok_iff.mpr hn⟩
  obtain ⟨n, hn⟩ := hnode
  unfold plan
  refine Except.exists_bind_eq_ok hkey (Except.exists_bind_eq_ok hc ?_)
  refine Except.exists_bind_eq_ok hjs ?_
  exact Except.exists_bind_eq_ok (Except.mapError_eq_ok_iff.mpr hn) ⟨_, rfl⟩

/-- Such a draft fails to be planned only where the key of its target does. -/
theorem Sound.plan_fails {e : PlanError} (h : ctx.Sound) (hbelow : d.IsBelow ctx)
    (hfails : ctx.plan d = .error e) : ctx.keyColumn d.target = .error e := by
  cases hkey : ctx.keyColumn d.target with
  | ok key =>
      obtain ⟨p, hp⟩ := h.exists_plan hbelow hkey
      cases hfails.symm.trans hp
  | error fault =>
      unfold plan at hfails
      rw [hkey] at hfails
      cases hfails
      rfl

/-! ## What requests are bound to -/

/-- A column, under whatever label, that stores a member of a node below the target. -/
def StoredBelow (ctx : Context) (target : Nat) (c : NodeColumn) : Prop :=
  ∃ keys i member stored, ctx.descend? target keys = some i ∧
    ctx.Resolves target i member stored ∧ c.node = stored.node

variable {ctx' : Context} {column : NodeColumn}

theorem StoredBelow.grows (h : ctx.StoredBelow target column) (hgrows : ctx.Grows ctx') :
    ctx'.StoredBelow target column := by
  obtain ⟨keys, i, member, stored, hi, hresolves, hnode⟩ := h
  exact ⟨keys, i, member, stored, hgrows.descend? hi, hresolves.grows hgrows, hnode⟩

theorem StoredBelow.below (h : ctx.StoredBelow target column) (hsound : ctx.Sound) :
    ctx.isAncestorOrSelf target column.node := by
  obtain ⟨keys, i, member, stored, hi, hresolves, hnode⟩ := h
  rw [hnode]
  exact hresolves.below hsound.arena hsound.registered
    (hsound.registered.below_of_descend? hsound.arena (isAncestorOrSelf_self target) hi)

theorem ResolvesPath.storedBelow {path : String} (h : ctx.ResolvesPath target path column) :
    ctx.StoredBelow target column := by
  obtain ⟨nodePath, member, i, -, ⟨segments, -, hi⟩, hresolves⟩ := h
  exact ⟨_, i, member, column, hi, hresolves, rfl⟩

theorem Answers.storedBelow {route : List String} {k : Nat} {mapped : Column}
    (h : ctx.Answers target route k mapped column) : ctx.StoredBelow target column := by
  obtain ⟨stored, hresolves, rfl⟩ := h.resolves
  exact ⟨_, k, _, stored, h.along, hresolves, rfl⟩

theorem selectProjection_storedBelow (target : Nat) (entry : Projection) :
    (selectProjection target entry).Leads ctx fun c ctx' => ctx'.StoredBelow target c := by
  unfold selectProjection
  refine (resolvePath_leads target entry.path).bind fun c ctx' _ h => Leads.pure ?_
  obtain ⟨nodePath, member, i, -, ⟨segments, -, hi⟩, hc⟩ := h
  exact ⟨_, i, member, c, hi, resolves_of_resolveMember hc, rfl⟩

end Context

/-- The columns of a draft store members of nodes below its target. -/
structure Draft.IsBound (ctx : Context) (d : Draft) : Prop where
  select : ∀ c ∈ d.select, ctx.StoredBelow d.target c
  filter : ∀ filter, d.filter = some filter → ∀ c ∈ filter.members, ctx.StoredBelow d.target c
  orderBy : ∀ term ∈ d.orderBy, ctx.StoredBelow d.target term.column
  keyRestriction : d.keyRestriction = none

namespace Draft

variable {ctx : Context} {d : Draft} {key : NodeColumn}

theorem isBelow_of (hselect : ∀ c ∈ d.select, ctx.isAncestorOrSelf d.target c.node)
    (hfilter : ∀ filter, d.filter = some filter →
      ∀ c ∈ filter.members, ctx.isAncestorOrSelf d.target c.node)
    (horder : ∀ term ∈ d.orderBy, ctx.isAncestorOrSelf d.target term.column.node)
    (hrestriction : ∀ r, d.keyRestriction = some r →
      ctx.isAncestorOrSelf d.target r.column.node) : d.IsBelow ctx := by
  intro i hi
  rcases Context.mem_visited.mp hi with hi | ⟨filter, hf, c, hc, rfl⟩
  · rcases mem_referencedNodes.mp hi with rfl | ⟨c, hc, rfl⟩ | ⟨term, hterm, rfl⟩ | ⟨r, hr, rfl⟩
    · exact Context.isAncestorOrSelf_self _
    · exact hselect c hc
    · exact horder term hterm
    · exact hrestriction r hr
  · exact hfilter filter hf c hc

namespace IsBound

theorem isBelow (h : d.IsBound ctx) (hsound : ctx.Sound) : d.IsBelow ctx :=
  isBelow_of (fun c hc => (h.select c hc).below hsound)
    (fun filter hf c hc => (h.filter filter hf c hc).below hsound)
    (fun term hterm => (h.orderBy term hterm).below hsound)
    fun r hr => by rw [h.keyRestriction] at hr; cases hr

theorem keysPhase (h : d.IsBound ctx) (hsound : ctx.Sound) (hkey : key.node = d.target) :
    (d.keysPhase key).IsBelow ctx := by
  have hbelow : ∀ {label : String}, ctx.isAncestorOrSelf d.target (key.withLabel label).node := by
    intro label
    show ctx.isAncestorOrSelf d.target key.node
    rw [hkey]
    exact Context.isAncestorOrSelf_self _
  refine isBelow_of ?_ (fun filter hf c hc => (h.filter filter hf c hc).below hsound)
    (fun term hterm => (h.orderBy term hterm).below hsound)
    fun r hr => ?_
  case refine_2 =>
    have hnone : (d.keysPhase key).keyRestriction = none := h.keyRestriction
    rw [hnone] at hr
    cases hr
  intro c hc
  rcases List.mem_cons.mp hc with rfl | hc
  · exact hbelow
  · obtain ⟨⟨term, k⟩, hterm, rfl⟩ := List.mem_map.mp hc
    exact (h.orderBy term (List.fst_mem_of_mem_zipIdx hterm)).below hsound

theorem rowsPhase (h : d.IsBound ctx) (hsound : ctx.Sound) (hkey : key.node = d.target) :
    (d.rowsPhase key).IsBelow ctx := by
  refine isBelow_of (fun c hc => (h.select c hc).below hsound) (fun _ hf => by cases hf)
    (fun term hterm => (h.orderBy term hterm).below hsound) ?_
  intro r hr
  cases hr
  show ctx.isAncestorOrSelf d.target key.node
  rw [hkey]
  exact Context.isAncestorOrSelf_self _

end IsBound

end Draft

namespace Request

variable {ctx : Context} {target : Nat} {r : Request}

theorem bind_storedBelow : (r.selection.bind target).Leads ctx fun select ctx' =>
    ∀ c ∈ select, ctx'.StoredBelow target c := by
  have hall : ∀ {paths : List String}, (Context.selectAll target paths).Leads ctx
      fun select ctx' => ∀ c ∈ select, ctx'.StoredBelow target c := by
    refine (Context.selectAll_selects target _).mono fun select ctx' _ ⟨_, hselects⟩ c hc => ?_
    obtain ⟨route, k, mapped, hanswers⟩ := hselects.answers c hc
    exact hanswers.storedBelow
  unfold Selection.bind
  split
  · exact hall
  · exact hall
  · refine (Leads.mapM (fun c ctx' ctx'' hgrows h => h.grows hgrows) ?_).adapt
    exact fun entry _ _ _ => Context.selectProjection_storedBelow target entry

theorem orderBy_storedBelow (orderBy : List Order) :
    (orderBy.mapM (Order.bind target)).Leads ctx fun terms ctx' =>
      ∀ term ∈ terms, ctx'.StoredBelow target term.column := by
  refine Leads.mapM (R := fun (term : OrderTerm) ctx' => ctx'.StoredBelow target term.column)
    (fun _ _ _ hgrows h => h.grows hgrows) fun order ctx' _ _ => ?_
  refine (Context.resolvePath_leads target order.path).bind fun c ctx'' _ h => Leads.pure ?_
  obtain ⟨nodePath, member, i, -, ⟨segments, -, hi⟩, hc⟩ := h
  exact ⟨_, i, member, c, hi, Context.resolves_of_resolveMember hc, rfl⟩

/-- What a request is bound to stores members of nodes below its target. -/
theorem draft_isBound (r : Request) (target : Nat) (scope : Scope) :
    (r.draft target scope).Leads ctx fun d ctx' => d.IsBound ctx' ∧ d.target = target := by
  refine (draft_leads_of (S := fun select ctx' => ∀ c ∈ select, ctx'.StoredBelow target c)
    (F := fun bound ctx' => Option.Rel (Filter.BoundTo ctx' target) r.filter bound)
    (O := fun terms ctx' => ∀ term ∈ terms, ctx'.StoredBelow target term.column) scope
    (fun _ _ _ hgrows h c hc => (h c hc).grows hgrows)
    (fun _ _ _ hgrows h => Filter.rel_grows h hgrows) bind_storedBelow
    (fun _ _ => filter_leads) (fun _ _ => orderBy_storedBelow _)
    fun _ => by simp).mono ?_
  rintro d ctx' - ⟨-, hselect, hfilter, horder, -, hrestriction, rfl⟩
  refine ⟨⟨hselect, ?_, horder, hrestriction⟩, rfl⟩
  intro bound hbound c hc
  rw [hbound] at hfilter
  generalize r.filter = filter at hfilter
  cases hfilter with
  | some h =>
      obtain ⟨path, hpath⟩ := h.resolvesPath_of_mem hc
      exact hpath.storedBelow

end Request

end EntityMap
