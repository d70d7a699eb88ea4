import EntityMap.Proofs.Context.Faults
import EntityMap.Proofs.Query.AllColumns
import EntityMap.Proofs.Query.Joinable

/-!
# How planning fails

Some errors of planning blame the planner (`PlanError.isInternal`): an
index without its node, a node that does not lie below the target, nodes
that hang together by no link, and a key that the parent of an included
collection does not select. None of them ever comes up
(`Request.isSafe_of_reachable`). What a request is bound to lies below
its target, so its plan fails only where the target has no key
(`Context.Sound.plan_fails`). And what an included path passes before it
comes to a collection is selected with all its keys (`Plan.Covers`), as
long as no key is hidden.
-/

namespace EntityMap

open Growing

def FilterError.isInternal : FilterError → Bool
  | .context error => error.isInternal
  | _ => false

def Unsupported.isInternal : Unsupported → Bool
  | .unreachable _ _ | .disconnected => true
  | .topWithPage | .pageWithoutOrder => false

def PlanError.isInternal : PlanError → Bool
  | .context error => error.isInternal
  | .filter error => error.isInternal
  | .catalog _ => false
  | .unsupported reason => reason.isInternal
  | .missingParentKey _ _ => true

/-! ## Binding -/

namespace Context

variable {ctx : Context} {target i : Nat} {path : String} {select : List NodeColumn}
  {segments : List String}

theorem selectMember_fails {mapped : Column} {e : ContextError} (harena : ctx.Arena)
    (hi : i < ctx.nodes.size) (h : ctx.selectMember i target path select mapped = .error e) :
    e.isInternal = false := by
  unfold selectMember at h
  dsimp only at h
  split at h
  · cases h
  · rcases Except.bind_eq_error_iff.mp h with h | ⟨_, -, h⟩
    · exact harena.resolveMember_fails hi h
    · cases h

theorem selectEntity_fails {e : ContextError} (harena : ctx.Arena) (hi : i < ctx.nodes.size)
    (h : ctx.selectEntity i target path select = .error e) : e.isInternal = false := by
  obtain ⟨n, t, -, -, ht⟩ := harena.exists_table hi
  unfold selectEntity at h
  rcases Except.bind_eq_error_iff.mp h with h | ⟨t', -, h⟩
  · cases ht.symm.trans h
  · obtain ⟨mapped, -, select', h⟩ := Except.exists_of_foldlM_eq_error h
    exact selectMember_fails harena hi h

theorem includeSegments_fails {e : PlanError} (h : includeSegments path = .error e) :
    e.isInternal = false := by
  unfold includeSegments at h
  split at h
  · cases h
    rfl
  · cases h

theorem selectAlong_fails (hsound : ctx.Sound) (hi : i < ctx.nodes.size) :
    (selectAlong target i path select segments).Fails ctx (·.isInternal = false) := by
  induction segments generalizing ctx i path select with
  | nil => exact Fails.pure select
  | cons segment rest ih =>
      unfold selectAlong
      refine (addPath_fails hsound hi).adapt.bind (addPath_leads_sound hsound i segment).adapt ?_
      rintro next ctx' _ ⟨hnext, hsound'⟩
      refine Fails.get_bind ?_
      split
      · exact Fails.pure select
      · refine Fails.look_bind (fun e he => ?_) fun select' _ => ih hsound' hnext
        obtain ⟨cause, hcause, rfl⟩ := Except.mapError_eq_error_iff.mp he
        exact selectEntity_fails hsound'.arena hnext hcause

theorem selectAll_fails (hsound : ctx.Sound) (htarget : target < ctx.nodes.size)
    (includes : List String) : (selectAll target includes).Fails ctx (·.isInternal = false) := by
  unfold selectAll
  refine Fails.look_bind (fun e he => ?_) fun own _ => ?_
  · obtain ⟨cause, hcause, rfl⟩ := Except.mapError_eq_error_iff.mp he
    exact selectEntity_fails hsound.arena htarget hcause
  · refine Fails.foldlM (P := Sound) hsound ?_ ?_ ?_
    · exact fun select path _ => (Keeps.look _).bind fun segments =>
        selectAlong_keeps addPath_keeps_sound target target "" select segments
    · exact fun select path ctx' _ => Leads.look_bind fun segments _ =>
        selectAlong_leads target "" select
    · exact fun select path ctx' _ hgrows hsound' =>
        Fails.look_bind (fun e he => includeSegments_fails he) fun segments _ =>
          selectAlong_fails hsound' (Nat.lt_of_lt_of_le htarget hgrows.size_le)

theorem storedLiteral_fails {c : NodeColumn} {mapped : Column} {v : Value} {e : FilterError}
    (hmapped : ctx.column c.node c.member = .ok mapped) (h : ctx.storedLiteral c v = .error e) :
    e.isInternal = false := by
  unfold storedLiteral at h
  split at h
  · cases h
  rw [hmapped] at h
  rcases Except.bind_eq_error_iff.mp h with h | ⟨_, hok, h⟩
  · cases h
  cases hok
  rcases Except.bind_eq_error_iff.mp h with h | ⟨named, -, h⟩
  · unfold enumerationLiteral at h
    split at h
    · split at h
      · obtain ⟨_, -, rfl⟩ := Except.mapError_eq_error_iff.mp h
        rfl
      · cases h
        rfl
    · cases h
  · split at h
    · obtain ⟨_, -, rfl⟩ := Except.mapError_eq_error_iff.mp h
      rfl
    · split at h
      · cases h
      · cases h
        rfl

/-- The members that are compared are mapped. -/
theorem Sound.comparison_fails {l r : Filter} {left right : BoundFilter} {e : FilterError}
    (hsound : ctx.Sound) (hleft : l.BoundTo ctx target left) (hright : r.BoundTo ctx target right)
    (h : ctx.comparison left right = .error e) : e.isInternal = false := by
  have hmember : ∀ {filter : Filter} {c : NodeColumn} {v : Value} {e : FilterError},
      filter.BoundTo ctx target (.member c) → ctx.storedLiteral c v = .error e →
        e.isInternal = false := by
    intro filter c v e hbound herror
    obtain ⟨path, hpath⟩ := hbound.resolvesPath_of_mem (List.mem_singleton_self c)
    obtain ⟨mapped, hmapped, -⟩ := hpath.exists_column hsound
    exact storedLiteral_fails hmapped herror
  unfold comparison at h
  split at h
  · rcases Except.bind_eq_error_iff.mp h with h | ⟨_, -, h⟩
    · exact hmember hleft h
    · cases h
  · rcases Except.bind_eq_error_iff.mp h with h | ⟨_, -, h⟩
    · exact hmember hright h
    · cases h
  · cases h

end Context

section Binding

variable {ctx : Context} {target : Nat}

theorem Filter.bind_fails (filter : Filter) (hsound : ctx.Sound)
    (htarget : target < ctx.nodes.size) :
    (Filter.bind target filter).Fails ctx (·.isInternal = false) := by
  induction filter generalizing ctx with
  | member path =>
      exact (Context.resolvePath_fails hsound htarget).adapt.bind
        (Context.resolvePath_leads target path).adapt fun c ctx' _ _ => Fails.pure _
  | literal v => exact Fails.pure _
  | binary op left right ihleft ihright =>
      unfold Filter.bind
      refine (ihleft hsound htarget).bind ((Filter.bind_leads target left).kept
        (Filter.bind_keeps Context.addPath_keeps_sound target left) hsound) ?_
      rintro l ctx₁ hgrows₁ ⟨hl, hsound₁⟩
      refine (ihright hsound₁ (Nat.lt_of_lt_of_le htarget hgrows₁.size_le)).bind
        ((Filter.bind_leads target right).kept
          (Filter.bind_keeps Context.addPath_keeps_sound target right) hsound₁) ?_
      rintro r ctx₂ hgrows₂ ⟨hr, hsound₂⟩
      split
      · exact Fails.pure _
      · exact Fails.look_bind (fun e he => hsound₂.comparison_fails (hl.grows hgrows₂) hr he)
          fun stored _ => Fails.pure _

theorem Selection.bind_fails (selection : Selection) (hsound : ctx.Sound)
    (htarget : target < ctx.nodes.size) :
    (selection.bind target).Fails ctx (·.isInternal = false) := by
  unfold Selection.bind
  split
  · exact Context.selectAll_fails hsound htarget _
  · exact Context.selectAll_fails hsound htarget _
  · refine Fails.adapt (Fails.mapM (P := Context.Sound) hsound ?_ ?_ ?_)
    · exact fun entry _ => (Context.resolvePath_keeps Context.addPath_keeps_sound target
        entry.path).bind fun _ => Keeps.pure _
    · exact fun entry ctx' _ => Context.selectProjection_leads target entry
    · intro entry ctx' _ hgrows hsound'
      have htarget' := Nat.lt_of_lt_of_le htarget hgrows.size_le
      exact (Context.resolvePath_fails hsound' htarget').bind
        (Context.resolvePath_leads target entry.path) fun c ctx'' _ _ => Fails.pure _

namespace Request

theorem orderBy_fails (orderBy : List Order) (hsound : ctx.Sound)
    (htarget : target < ctx.nodes.size) :
    (orderBy.mapM (Order.bind target)).Fails ctx (·.isInternal = false) := by
  refine Fails.mapM (P := Context.Sound) hsound ?_ ?_ ?_
  · exact fun order _ => order.bind_keeps Context.addPath_keeps_sound target
  · exact fun order ctx' _ => order.bind_leads target
  · intro order ctx' _ hgrows hsound'
    have htarget' := Nat.lt_of_lt_of_le htarget hgrows.size_le
    exact (Context.resolvePath_fails hsound' htarget').bind
      (Context.resolvePath_leads target order.path) fun c ctx'' _ _ => Fails.pure _

theorem filter_fails (filter : Option Filter) (hsound : ctx.Sound)
    (htarget : target < ctx.nodes.size) :
    Fails (filter.mapM fun filter =>
      (Filter.bind target filter).adapt PlanError.filter : Growing PlanError _) ctx
      (·.isInternal = false) := by
  cases filter with
  | none => exact Fails.pure none
  | some filter => exact (filter.bind_fails hsound htarget).adapt.map

theorem check_fails {m : Modifiers} {isOrdered : Bool} {e : PlanError}
    (h : m.check isOrdered = .error e) : e.isInternal = false := by
  unfold Modifiers.check at h
  split at h
  · cases h
    rfl
  · split at h
    · cases h
      rfl
    · cases h

theorem checkedDraft_fails (r : Request) (scope : Scope) (hsound : ctx.Sound)
    (htarget : target < ctx.nodes.size) :
    (r.checkedDraft target scope).Fails ctx (·.isInternal = false) := by
  obtain ⟨n, t, hn, -⟩ := hsound.arena.exists_table htarget
  unfold checkedDraft draft
  refine Fails.look_bind (fun e he => check_fails he) fun _ _ => ?_
  refine Fails.look_bind (fun e he => ?_) fun _ _ => ?_
  · rw [Context.node_eq_ok_iff.mpr hn] at he
    cases he
  refine (r.selection.bind_fails hsound htarget).bind ((r.selection.bind_leads target).kept
    (r.selection.bind_keeps Context.addPath_keeps_sound target) hsound) ?_
  rintro select ctx₁ hgrows₁ ⟨_, hsound₁⟩
  have htarget₁ := Nat.lt_of_lt_of_le htarget hgrows₁.size_le
  refine (filter_fails r.filter hsound₁ htarget₁).bind (filter_leads.kept
    (filter_keeps Context.addPath_keeps_sound target r.filter) hsound₁) ?_
  rintro filter ctx₂ hgrows₂ ⟨_, hsound₂⟩
  cases scope with
  | nested => exact Fails.pure _
  | outer =>
      refine Fails.bind (orderBy_fails r.orderBy hsound₂
        (Nat.lt_of_lt_of_le htarget₁ hgrows₂.size_le)).adapt (orderBy_leads r.orderBy).adapt ?_
      exact fun orderBy ctx₃ _ _ => Fails.pure _

end Request

end Binding

/-! ## Planning -/

/-- The joins of a plan are a run over the nodes of its closure, each of which but the base is
joined once. -/
structure Plan.JoinsEach (ctx : Context) (p : Plan) (c : Closure) : Prop where
  closure : ctx.closure p.toDraft = .ok c
  nodup : c.nodes.Nodup
  base : p.base.node ∈ c.nodes
  run : ctx.JoinRun (ctx.basePath p.toDraft c ++ c.forced) [(p.base.node, .inner)]
    (c.nodes.erase p.base.node) p.joins
  nodes : (p.joins.map (·.node)).Perm (c.nodes.erase p.base.node)
  length : p.joins.length + 1 = c.nodes.length

namespace Context

variable {ctx : Context} {d : Draft} {p : Plan} {s : Strategy} {i : Nat} {e : PlanError}

theorem joinsEach_of_plan (harena : ctx.Arena) (h : ctx.plan d = .ok p) :
    ∃ c, p.JoinsEach ctx c := by
  obtain ⟨c, hc, rfl, hbase, hrun, -⟩ := plan_eq_ok h
  have hmem : p.base.node ∈ c.nodes := hbase ▸ base_mem harena hc
  rw [← hbase] at hrun
  have hperm := hrun.nodes_perm
  refine ⟨c, hc, nodup_closure hc, hmem, hrun, hperm, ?_⟩
  have hlength := hperm.length_eq
  rw [List.length_map, List.length_erase_of_mem hmem] at hlength
  have hpos := List.length_pos_of_mem hmem
  omega

/-- All plans of a strategy are made in its context. -/
theorem exists_plan_of_strategy (h : ctx.strategy d = .ok s) (hp : p ∈ s.plans) :
    ∃ d', ctx.plan d' = .ok p := by
  cases s with
  | direct direct =>
      obtain rfl := List.mem_singleton.mp hp
      exact ⟨d, (strategy_eq_direct h).1⟩
  | twoPhase keys rows =>
      obtain ⟨key, -, hkeys, hrows⟩ := strategy_eq_twoPhase h
      rcases List.mem_pair.mp hp with rfl | rfl
      · exact ⟨_, hkeys⟩
      · exact ⟨_, hrows⟩

theorem keyColumn_fails (harena : ctx.Arena) (hi : i < ctx.nodes.size)
    (h : ctx.keyColumn i = .error e) : e.isInternal = false := by
  obtain ⟨n, t, -, -, ht⟩ := harena.exists_table hi
  unfold keyColumn at h
  rw [ht] at h
  rcases Except.bind_eq_error_iff.mp h with h | ⟨t', -, h⟩
  · cases h
  rcases Except.bind_eq_error_iff.mp h with h | ⟨_, -, h⟩
  · obtain ⟨_, -, rfl⟩ := Except.mapError_eq_error_iff.mp h
    rfl
  · cases h

namespace Sound

theorem not_isInternal_of_plan (h : ctx.Sound) (hbelow : d.IsBelow ctx)
    (htarget : d.target < ctx.nodes.size) (hfails : ctx.plan d = .error e) :
    e.isInternal = false :=
  keyColumn_fails h.arena htarget (h.plan_fails hbelow hfails)

theorem not_isInternal_of_strategy (h : ctx.Sound) (hbound : d.IsBound ctx)
    (htarget : d.target < ctx.nodes.size) (hfails : ctx.strategy d = .error e) :
    e.isInternal = false := by
  unfold Context.strategy at hfails
  rcases Except.bind_eq_error_iff.mp hfails with hfails | ⟨direct, hdirect, hfails⟩
  · exact h.not_isInternal_of_plan (hbound.isBelow h) htarget hfails
  have hkey : direct.targetKey.node = d.target := by
    obtain ⟨t, column, -, -, heq⟩ := keyColumn_eq_ok_iff.mp (targetKey_of_plan hdirect)
    rw [heq]
  split at hfails
  · rcases Except.bind_eq_error_iff.mp hfails with hfails | ⟨keys, -, hfails⟩
    · exact h.not_isInternal_of_plan (hbound.keysPhase h hkey) htarget hfails
    rcases Except.bind_eq_error_iff.mp hfails with hfails | ⟨rows, -, hfails⟩
    · exact h.not_isInternal_of_plan (hbound.rowsPhase h hkey) htarget hfails
    · cases hfails
  · cases hfails

end Sound

end Context

namespace Request

variable {ctx ctx' : Context} {target : Nat} {p : Plan} {s : Strategy}

/-- The draft of a request is bound in a context that is sound. -/
theorem checkedDraft_isBound (r : Request) (target : Nat) (scope : Scope) (hsound : ctx.Sound) :
    (r.checkedDraft target scope).Leads ctx fun d ctx' =>
      (d.IsBound ctx' ∧ d.target = target) ∧ ctx'.Sound := by
  have hbound : (r.checkedDraft target scope).Leads ctx fun d ctx' =>
      d.IsBound ctx' ∧ d.target = target := by
    unfold checkedDraft
    exact Leads.look_bind fun _ _ => r.draft_isBound target scope
  exact hbound.kept (r.checkedDraft_keeps Context.addPath_keeps_sound target scope) hsound

theorem plan_fails (r : Request) (scope : Scope) (hsound : ctx.Sound)
    (htarget : target < ctx.nodes.size) :
    (r.plan target scope).Fails ctx (·.isInternal = false) := by
  refine (r.checkedDraft_fails scope hsound htarget).bind
    (r.checkedDraft_isBound target scope hsound) ?_
  rintro d ctx' hgrows ⟨⟨hbound, rfl⟩, hsound'⟩
  refine Fails.look fun e he => ?_
  exact hsound'.not_isInternal_of_plan (hbound.isBelow hsound')
    (Nat.lt_of_lt_of_le htarget hgrows.size_le) he

theorem strategy_fails (r : Request) (hsound : ctx.Sound) (htarget : target < ctx.nodes.size) :
    (r.strategy target).Fails ctx (·.isInternal = false) := by
  refine (r.checkedDraft_fails .outer hsound htarget).bind
    (r.checkedDraft_isBound target .outer hsound) ?_
  rintro d ctx' hgrows ⟨⟨hbound, rfl⟩, hsound'⟩
  refine Fails.look fun e he => ?_
  exact hsound'.not_isInternal_of_strategy hbound (Nat.lt_of_lt_of_le htarget hgrows.size_le) he

theorem joinsEach_of_run_plan {r : Request} {scope : Scope} (harena : ctx.Arena)
    (h : (r.plan target scope).run ctx = (.ok p, ctx')) : ∃ c, p.JoinsEach ctx' c := by
  obtain ⟨hgrows, d, -, hplan⟩ := plan_eq_ok h
  exact Context.joinsEach_of_plan (harena.grows hgrows) hplan

theorem joinsEach_of_run_strategy {r : Request} (harena : ctx.Arena)
    (h : (r.strategy target).run ctx = (.ok s, ctx')) (hp : p ∈ s.plans) :
    ∃ c, p.JoinsEach ctx' c := by
  obtain ⟨hgrows, d, -, -, -, hstrategy⟩ := strategy_eq_ok h
  obtain ⟨d', hplan⟩ := Context.exists_plan_of_strategy hstrategy hp
  exact Context.joinsEach_of_plan (harena.grows hgrows) hplan

end Request

/-! ## Included collections -/

/-- No key of a catalog is hidden. -/
def Catalog.ShowsKeys (catalog : Catalog) : Prop :=
  ∀ t ∈ catalog.tables, ∀ c ∈ t.columns, c.primaryKey → c.shadow = false

instance (catalog : Catalog) : Decidable catalog.ShowsKeys :=
  inferInstanceAs
    (Decidable (∀ t ∈ catalog.tables, ∀ c ∈ t.columns, c.primaryKey → c.shadow = false))

/-- A plan for an entity selects all that is referred to along included paths. -/
def Plan.Covers (catalog : Catalog) (entity : String) (includes : List String) (p : Plan) : Prop :=
  ∀ route e t, IncludedParts includes route → catalog.referencedAlong? entity route = some e →
    catalog.table e = .ok t → ∀ mapped ∈ t.columns, mapped.isAnswered →
      Context.selects p.select (Path.join (route ++ [mapped.member]))

theorem IncludedParts.of_prefix {includes route route' : List String}
    (h : IncludedParts includes route) (hpre : route' <+: route) :
    IncludedParts includes route' := by
  rcases h with rfl | ⟨path, hpath, hroute⟩
  · exact .inl (List.prefix_nil.mp hpre)
  · exact .inr ⟨path, hpath, hpre.trans hroute⟩

namespace Context

variable {ctx : Context} {parent : Plan} {i : Nat} {n m : Node} {path entity : String}
  {done segments includes : List String} {c : IncludedCollection} {link : Link} {e : PlanError}

theorem exists_link_of_isInverse (h : ctx.isInverse i) : ∃ link, ctx.link? i = some link := by
  unfold isInverse at h
  obtain ⟨n, hn, hinverse⟩ := (Option.any_eq_true ..).mp h
  obtain ⟨link, hlink, -⟩ := (Option.any_eq_true ..).mp hinverse
  exact ⟨link, by rw [link?, hn, Option.bind_some, hlink]⟩

/-- The key that the rows of a collection point to is selected. -/
theorem collectionAt_fails {next : Nat} {rest : List String} {segment : String}
    (hsound : ctx.Sound) (hshows : ctx.catalog.ShowsKeys)
    (hcovers : parent.Covers ctx.catalog entity includes) (hdone : Path.AreParts done)
    (hpart : IncludedParts includes done) (hn : ctx.nodes[i]? = some n)
    (href : ctx.catalog.referencedAlong? entity done = some n.entity)
    (h : ctx.collectionAt parent path i next done rest segment = .error e) :
    e.isInternal = false := by
  obtain ⟨t, ht, -⟩ := hsound.arena.table hn
  have htable : ctx.table i = .ok t := table_eq_ok_iff.mpr ⟨n, hn, ht⟩
  unfold collectionAt at h
  rw [htable] at h
  rcases Except.bind_eq_error_iff.mp h with h | ⟨_, hok, h⟩
  · cases h
  cases hok
  rcases Except.bind_eq_error_iff.mp h with h | ⟨key, hkey, h⟩
  · obtain ⟨_, -, rfl⟩ := Except.mapError_eq_error_iff.mp h
    rfl
  have hkey := Except.mapError_eq_ok_iff.mp hkey
  have hprimary := primaryKey_of_key hkey
  have hanswered : key.isAnswered := by
    have hshown := hshows t (Catalog.mem_of_table ht).1 key (mem_columns_of_key hkey) hprimary
    simp [Column.isAnswered, hprimary, hshown]
  have hselects := hcovers done n.entity t hpart href ht key (mem_columns_of_key hkey) hanswered
  rw [← Path.below_join_singleton hdone] at hselects
  have hposition : (parent.columnPosition? (Path.below (Path.join done) key.member)).isNone =
      false := by
    simpa [Plan.columnPosition?, selects] using hselects
  dsimp only at h
  rw [hposition] at h
  cases h

theorem firstCollection_fails (hsound : ctx.Sound) (hshows : ctx.catalog.ShowsKeys)
    (hcovers : parent.Covers ctx.catalog entity includes)
    (hparts : Path.AreParts (done ++ segments)) (hpart : IncludedParts includes (done ++ segments))
    (hn : ctx.nodes[i]? = some n)
    (href : ctx.catalog.referencedAlong? entity done = some n.entity) :
    (firstCollection parent path i done segments).Fails ctx (·.isInternal = false) := by
  induction segments generalizing ctx done i n with
  | nil => exact Fails.pure none
  | cons segment rest ih =>
      have hdonePart := hpart.of_prefix (List.prefix_append done _)
      rw [List.append_cons] at hparts hpart
      obtain ⟨hdone, hsegment⟩ := Path.AreParts.append_iff.mp (Path.AreParts.append_iff.mp hparts).1
      have hi := (Array.getElem?_eq_some_iff.mp hn).1
      unfold firstCollection
      refine (addPath_fails hsound hi).adapt.bind
        ((addPath_part_leads i hsegment).kept (addPath_keeps_sound i segment) hsound).adapt ?_
      rintro next ctx' hgrows ⟨hnext, hsound'⟩
      obtain ⟨n', hn', more, rfl⟩ := hgrows.node hn
      have hchild : ctx'.child? i (.navigation segment) = some next := by
        obtain ⟨k, hk, hrest⟩ := Option.bind_eq_some_iff.mp hnext
        cases hrest
        exact hk
      obtain ⟨m, hm, hstep⟩ :=
        hsound'.registered.referencedAlong?_of_child? hsound'.arena hn' hchild
      rw [← hgrows.catalog] at hshows hcovers href
      refine Fails.get_bind ?_
      split
      · refine Fails.map (Fails.look fun e he => ?_)
        exact collectionAt_fails hsound' hshows hcovers hdone hdonePart hn' href he
      · rename_i hforward
        refine ih hsound' hshows hcovers hparts hpart hm ?_
        rw [Catalog.referencedAlong?_append, href, Option.bind_some, hstep, if_neg hforward]
        rfl

theorem firstCollections_fails (hsound : ctx.Sound) (hshows : ctx.catalog.ShowsKeys)
    (hm : ctx.nodes[parent.target]? = some m)
    (hcovers : parent.Covers ctx.catalog m.entity includes) :
    (firstCollections parent includes).Fails ctx (·.isInternal = false) := by
  unfold firstCollections
  refine Fails.foldlM (P := Sound) hsound ?_ ?_ ?_
  · intro found path _
    refine (Keeps.look _).bind fun segments => ?_
    refine (firstCollection_keeps addPath_keeps_sound parent path _ [] segments).bind
      fun first => ?_
    split <;> exact Keeps.pure _
  · intro found path ctx' _
    refine Leads.look_bind fun segments _ => (firstCollection_leads _ _).bind fun first _ _ _ => ?_
    split <;> exact Leads.pure trivial
  · intro found path ctx' hpath hgrows hsound'
    refine Fails.look_bind (fun e he => includeSegments_fails he) fun segments hsegments => ?_
    obtain ⟨hblank, rfl⟩ := includeSegments_eq_ok_iff.mp hsegments
    obtain ⟨m', hm', more, rfl⟩ := hgrows.node hm
    rw [← hgrows.catalog] at hshows hcovers
    have hparts : Path.AreParts ([] ++ Path.segments path) := Path.areParts_segments hblank
    refine (firstCollection_fails hsound' hshows hcovers hparts
      (.inr ⟨path, hpath, List.prefix_refl _⟩) hm' rfl).bind
      (firstCollection_leads _ _) fun first ctx'' _ _ => ?_
    split <;> exact Fails.pure _

/-- The query of a collection refers to nothing above the collection. -/
theorem collectionPlan_fails {parentPath : String} (hsound : ctx.Sound)
    (hlink : ctx.link? c.node = some link) :
    (collectionPlan c parentPath).Fails ctx (·.isInternal = false) := by
  obtain ⟨n, hn, -⟩ := Option.bind_eq_some_iff.mp hlink
  have hnode := (Array.getElem?_eq_some_iff.mp hn).1
  unfold collectionPlan
  refine Fails.look_bind (fun e he => ?_) fun link' hlink' => ?_
  · rw [link_eq_ok_iff.mpr hlink] at he
    cases he
  cases (link_eq_ok_iff.mpr hlink).symm.trans hlink'
  refine Fails.look_bind (fun e he => ?_) fun column _ => ?_
  · obtain ⟨⟨name, hname⟩, -⟩ := hsound.exists_columnNames hlink
    cases hname.symm.trans he
  refine (selectAll_fails hsound hnode c.nested).bind ((selectAll_selects c.node c.nested).kept
    (selectAll_keeps addPath_keeps_sound c.node c.nested) hsound) ?_
  rintro select ctx' hgrows ⟨⟨_, hselects⟩, hsound'⟩
  refine Fails.look_bind (fun e he => ?_) fun p _ => Fails.pure _
  refine hsound'.not_isInternal_of_plan ?_ (Nat.lt_of_lt_of_le hnode hgrows.size_le) he
  refine Draft.isBelow_of ?_ (fun filter hf => by cases hf) (fun term hterm => by cases hterm) ?_
  · have hbelow : ∀ c' ∈ select, ctx'.isAncestorOrSelf c.node c'.node := by
      intro c' hc'
      obtain ⟨route, k, mapped, hanswers⟩ := hselects.answers c' hc'
      exact hanswers.storedBelow.below hsound'
    intro c' hc'
    dsimp only at hc'
    split at hc'
    · exact hbelow c' hc'
    · rcases List.mem_append.mp hc' with hc' | hc'
      · exact hbelow c' hc'
      · obtain rfl := List.mem_singleton.mp hc'
        exact isAncestorOrSelf_self _
  · intro r hr
    cases hr
    exact isAncestorOrSelf_self _

/-- The query of a collection selects all that is referred to along the paths behind it. -/
theorem collectionPlan_covers {parentPath : String} (harena : ctx.Arena)
    (hregistered : ctx.Registered) (hn : ctx.nodes[c.node]? = some n) :
    (collectionPlan c parentPath).Leads ctx fun own ctx' =>
      own.plan.target = c.node ∧ own.plan.Covers ctx'.catalog n.entity c.nested := by
  unfold collectionPlan
  refine Leads.look_bind fun link _ => Leads.look_bind fun column _ => ?_
  refine (selectAll_flattens harena hregistered hn).bind fun select ctx' _ hflattens => ?_
  refine Leads.look_bind fun p hp => Leads.pure ?_
  obtain ⟨-, -, hdraft, -⟩ := plan_eq_ok hp
  refine ⟨congrArg Draft.target hdraft, fun route e t hpart href ht mapped hmapped hanswered => ?_⟩
  have hthere := hflattens.covers route e t hpart href ht mapped hmapped hanswered
  have hselect : p.select = _ := congrArg Draft.select hdraft
  dsimp only at hselect ⊢
  rw [hselect]
  split
  · exact hthere
  · obtain ⟨c', hc', hlabel⟩ := selects_iff.mp hthere
    exact selects_iff.mpr ⟨c', List.mem_append_left _ hc', hlabel⟩

theorem includesBelow_fails {depth : Nat} {parentPath : String} (hsound : ctx.Sound)
    (hshows : ctx.catalog.ShowsKeys) (hm : ctx.nodes[parent.target]? = some m)
    (hcovers : parent.Covers ctx.catalog m.entity includes) :
    (includesBelow depth parent parentPath includes).Fails ctx (·.isInternal = false) := by
  induction depth generalizing ctx parent parentPath includes m with
  | zero => exact Fails.pure []
  | succ depth ih =>
      unfold includesBelow
      refine (firstCollections_fails hsound hshows hm hcovers).bind
        ((firstCollections_find hsound.registered hsound.arena).kept
          (firstCollections_keeps addPath_keeps_sound parent includes) hsound) ?_
      rintro found ctx₁ hgrows₁ ⟨hfound, hsound₁⟩
      refine Fails.bind (Q := fun _ _ => True) ?_ ?_ fun plans ctx₂ _ _ => Fails.pure _
      · refine Fails.mapM (P := Sound) hsound₁ ?_ ?_ ?_
        · intro c _
          refine (collectionPlan_keeps addPath_keeps_sound c parentPath).bind fun own => ?_
          exact (includesBelow_keeps addPath_keeps_sound depth own.plan own.path c.nested).bind
            fun below => Keeps.pure _
        · intro c ctx' _
          refine (collectionPlan_leads c parentPath).bind fun own ctx'' _ _ => ?_
          exact (includesBelow_leads depth own.plan own.path c.nested).bind
            fun below _ _ _ => Leads.pure trivial
        · intro c ctx₂ hc hgrows₂ hsound₂
          obtain ⟨route, hbelow, -⟩ := hfound.below c hc
          obtain ⟨link, hlink⟩ := exists_link_of_isInverse hbelow.first.isInverse
          have hlink := hgrows₂.link? hlink
          obtain ⟨n, hn, -⟩ := Option.bind_eq_some_iff.mp hlink
          refine (collectionPlan_fails hsound₂ hlink).bind
            ((collectionPlan_covers hsound₂.arena hsound₂.registered hn).kept
              (collectionPlan_keeps addPath_keeps_sound c parentPath) hsound₂) ?_
          rintro own ctx₃ hgrows₃ ⟨⟨htarget, hown⟩, hsound₃⟩
          obtain ⟨n', hn', more, rfl⟩ := hgrows₃.node hn
          have hshows₃ : ctx₃.catalog.ShowsKeys := by
            rw [hgrows₃.catalog, hgrows₂.catalog, hgrows₁.catalog]
            exact hshows
          rw [← htarget] at hn'
          exact (ih hsound₃ hshows₃ hn' hown).bind
            (includesBelow_leads depth own.plan own.path c.nested) fun _ _ _ _ => Fails.pure _
      · refine (Leads.mapM (R := fun _ _ => True) (fun _ _ _ _ _ => trivial) ?_).only
        intro c ctx' _ _
        refine (collectionPlan_leads c parentPath).bind fun own ctx'' _ _ => ?_
        exact (includesBelow_leads depth own.plan own.path c.nested).bind
          fun below _ _ _ => Leads.pure trivial

end Context

theorem Plan.includes_fails {ctx : Context} {p : Plan} {m : Node} {paths : List String}
    (hsound : ctx.Sound) (hshows : ctx.catalog.ShowsKeys) (hm : ctx.nodes[p.target]? = some m)
    (hcovers : p.Covers ctx.catalog m.entity paths) :
    (p.includes paths).Fails ctx (·.isInternal = false) :=
  Context.includesBelow_fails hsound hshows hm hcovers

namespace Request

variable {ctx ctx' ctx₁ : Context} {target : Nat} {p : Plan} {r : Request}

/-- A plan for all columns selects all that is referred to along the paths that it includes. -/
theorem Yields.covers {n : Node} (h : r.Yields target ctx p ctx') (harena : ctx.Arena)
    (hregistered : ctx.Registered) (hwhole : r.selection.entries = [])
    (hn : ctx.nodes[target]? = some n) :
    p.target = target ∧ p.Covers ctx'.catalog n.entity r.includes := by
  have hbind : (r.selection.bind target).Leads ctx fun select ctx' =>
      ctx'.Flattens target n.entity (IncludedParts r.includes) select := by
    rw [bind_eq_selectAll hwhole]
    exact Context.selectAll_flattens harena hregistered hn
  obtain ⟨d, ⟨rfl, hflattens⟩, htarget, hselect⟩ := h.exists_draft fun scope =>
    draft_leads_of_bind scope (fun _ _ _ hgrows h => h.grows hgrows) hbind
  refine ⟨htarget, ?_⟩
  unfold Plan.Covers
  rw [hselect]
  exact hflattens.covers

/-- The included collections of a request are planned below its plan, at once or later. -/
theorem Yields.includes_fails (h : r.Yields target ctx p ctx') (harena : ctx.Arena)
    (hregistered : ctx.Registered) (hshows : ctx.catalog.ShowsKeys) (hlater : ctx'.Grows ctx₁)
    (hsound : ctx₁.Sound) : (p.includes r.includes).Fails ctx₁ (·.isInternal = false) := by
  obtain ⟨n, hn⟩ := h.exists_node
  have hgrows := h.call.grows
  obtain ⟨n₁, hn₁, more, heq⟩ := (hgrows.trans hlater).node hn
  cases hselection : r.selection with
  | projection entries =>
      have hnone : r.includes = [] := by rw [includes, hselection]; rfl
      rw [hnone]
      exact Fails.pure []
  | allColumns paths =>
      obtain ⟨rfl, hcovers⟩ := h.covers harena hregistered (by rw [hselection]; rfl) hn
      have hentity : n₁.entity = n.entity := by rw [heq]
      rw [← hentity, ← hlater.catalog] at hcovers
      refine Plan.includes_fails hsound ?_ hn₁ hcovers
      rwa [hlater.catalog, hgrows.catalog]

/-- Where a request is planned, no error blames the planner, and all nodes are joined. -/
structure IsSafe (r : Request) (ctx : Context) (target : Nat) : Prop where
  plan : ∀ scope, (r.plan target scope).Fails ctx (·.isInternal = false)
  strategy : (r.strategy target).Fails ctx (·.isInternal = false)
  joins : ∀ scope p ctx', (r.plan target scope).run ctx = (.ok p, ctx') → ∃ c, p.JoinsEach ctx' c
  strategyJoins : ∀ s ctx', (r.strategy target).run ctx = (.ok s, ctx') →
    ∀ p ∈ s.plans, ∃ c, p.JoinsEach ctx' c
  includes : ctx.catalog.ShowsKeys → ∀ p ctx' ctx₁, r.Yields target ctx p ctx' →
    ctx'.Grows ctx₁ → ctx₁.Reachable → (p.includes r.includes).Fails ctx₁ (·.isInternal = false)

/-- Requests on targets that are there are planned without internal errors, in every context that
calls lead to. -/
theorem isSafe_of_reachable (hctx : ctx.Reachable) (htarget : target < ctx.nodes.size)
    (r : Request) : r.IsSafe ctx target where
  plan scope := r.plan_fails scope hctx.sound htarget
  strategy := r.strategy_fails hctx.sound htarget
  joins _ _ _ hrun := joinsEach_of_run_plan hctx.arena hrun
  strategyJoins _ _ hrun _ hp := joinsEach_of_run_strategy hctx.arena hrun hp
  includes hshows _ _ _ hyields hlater hctx₁ :=
    hyields.includes_fails hctx.arena hctx.registered hshows hlater hctx₁.sound

end Request

/-! ## Authors of some chapters -/

/-- The authors of books with a first chapter, each once, with their books and all chapters. -/
def authorsOfFirstChapters : Request :=
  { chaptersOfBooks with
    filter := some (.compare "Books.Chapters.Id" .eq (.int 1))
    modifiers := { distinct := true } }

/-- The first phase joins the books and the authors to the chapters, and the collections are planned
below the second. -/
theorem isSafe_authorsOfFirstChapters : ∃ keys rows ctx' c,
    (authorsOfFirstChapters.strategy 0).run authorContext = (.ok (.twoPhase keys rows), ctx') ∧
      keys.JoinsEach ctx' c ∧ keys.joins.length = 2 ∧
      (rows.includes authorsOfFirstChapters.includes).Fails ctx' (·.isInternal = false) := by
  have hsafe := Request.isSafe_of_reachable reachable_authorContext (by decide : 0 < 1)
    authorsOfFirstChapters
  have hjoined : ((authorsOfFirstChapters.strategy 0).run authorContext).1.toOption.map
      (fun s => (s.isTwoPhase, s.plans.map (·.joins.length))) = some (true, [2, 0]) := by
    decide +kernel
  rcases hrun : (authorsOfFirstChapters.strategy 0).run authorContext with ⟨e | s, ctx'⟩
  · rw [hrun] at hjoined
    cases hjoined
  rw [hrun] at hjoined
  cases s with
  | direct p => cases hjoined
  | twoPhase keys rows =>
      have hlengths : [keys.joins.length, rows.joins.length] = [2, 0] :=
        congrArg Prod.snd (Option.some.inj hjoined)
      obtain ⟨c, hc⟩ := hsafe.strategyJoins _ _ hrun keys (List.mem_cons_self ..)
      have hcall : authorContext.Call ((authorsOfFirstChapters.strategy 0).run authorContext).2 :=
        .strategy _ _
      rw [hrun] at hcall
      exact ⟨keys, rows, ctx', c, rfl, hc, (List.cons.inj hlengths).1,
        hsafe.includes (by decide) rows ctx' ctx' (.result hrun rfl) (Context.Grows.refl ctx')
          (reachable_authorContext.call hcall)⟩

end EntityMap
