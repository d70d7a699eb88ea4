import EntityMap.Proofs.Query.Collections
import EntityMap.Proofs.Query.Faults
import EntityMap.Proofs.Query.JoinOrder

/-!
# Planning once more

The first call of planning grows its context, and even when it fails half
way it leaves the nodes that it has added. A second call finds them all:
each path leads to the same node, each member to the same column, and a
draft has the same plan, because neither the columns behind members nor
plans change while a context grows (`Request.plan_replays` and its like).
So planning can be repeated (`Request.isRepeatable_of_reachable`). The strategy of a
request is its single outer plan, unless this limits rows that it
multiplies.
-/

namespace EntityMap

open Growing

/-! ## Binding -/

namespace Context

variable {ctx ctx' : Context} {target i : Nat} {path : String} {select select' : List NodeColumn}
  {segments : List String}

theorem resolvePath_replays (hsound : ctx.Sound) (start : Nat) (path : String) :
    (resolvePath start path).Replays ctx := by
  unfold resolvePath
  split
  · exact Replays.throw hsound _
  · refine (addPath_replays hsound start _).bind fun i ctx' _ hsound' => ?_
    refine Replays.look hsound' fun c hc ctx'' hgrows => ?_
    exact resolveMember_eq_ok_iff.mpr ((resolveMember_eq_ok_iff.mp hc).grows hgrows)

theorem Grows.selectMember {mapped : Column} (hgrows : ctx.Grows ctx')
    (h : ctx.selectMember i target path select mapped = .ok select') :
    ctx'.selectMember i target path select mapped = .ok select' := by
  unfold Context.selectMember at h ⊢
  dsimp only at h ⊢
  split at h
  · rename_i hthere
    rwa [if_pos hthere]
  · rename_i hnew
    obtain ⟨c, hc, h⟩ := Except.bind_eq_ok_iff.mp h
    rw [if_neg hnew]
    refine Except.bind_eq_ok_iff.mpr ⟨c, ?_, h⟩
    exact resolveMember_eq_ok_iff.mpr ((resolveMember_eq_ok_iff.mp hc).grows hgrows)

theorem Grows.foldlM_selectMember {columns : List Column} (hgrows : ctx.Grows ctx')
    (h : columns.foldlM (ctx.selectMember i target path) select = .ok select') :
    columns.foldlM (ctx'.selectMember i target path) select = .ok select' := by
  induction columns generalizing select with
  | nil => exact h
  | cons mapped rest ih =>
      rw [List.foldlM_cons] at h ⊢
      obtain ⟨select₁, hfirst, hrest⟩ := Except.bind_eq_ok_iff.mp h
      exact Except.bind_eq_ok_iff.mpr ⟨select₁, hgrows.selectMember hfirst, ih hrest⟩

theorem Grows.selectEntity (hgrows : ctx.Grows ctx')
    (h : ctx.selectEntity i target path select = .ok select') :
    ctx'.selectEntity i target path select = .ok select' := by
  unfold Context.selectEntity at h ⊢
  obtain ⟨t, ht, h⟩ := Except.bind_eq_ok_iff.mp h
  exact Except.bind_eq_ok_iff.mpr ⟨t, hgrows.table_eq ht, hgrows.foldlM_selectMember h⟩

theorem look_selectEntity_bind {g : List NodeColumn → Growing PlanError (List NodeColumn)}
    (hsound : ctx.Sound) (hg : ∀ select', (g select').Replays ctx) :
    (Growing.look (fun ctx => (ctx.selectEntity i target path select).mapError .context) >>=
      g).Replays ctx :=
  Replays.look_bind hsound
    (fun select' hok _ hgrows => ⟨select', Except.mapError_eq_ok_iff.mpr
      (hgrows.selectEntity (Except.mapError_eq_ok_iff.mp hok)), rfl⟩)
    fun select' _ => hg select'

/-- A node that a path leads to is a collection then and later. -/
theorem addPath_isInverse_bind {α : Type} {g : Nat → Bool → Growing PlanError α}
    (hsound : ctx.Sound) (start : Nat) (path : String)
    (hg : ∀ next inverse ctx', ctx.Grows ctx' → ctx'.Sound → (g next inverse).Replays ctx') :
    Replays (do
      let next ← (addPath start path).adapt .context
      g next ((← get).isInverse next)) ctx := by
  refine (addPath_replays hsound start path).adapt.bind_of
    (addPath_leads_sound hsound start path).adapt fun next ctx' hgrows hsound' ⟨hnext, _⟩ => ?_
  refine Replays.get_bind (fun ctx'' hlater => ?_) (hg next _ ctx' hgrows hsound')
  rw [hlater.isInverse_eq (Array.getElem?_eq_getElem hnext)]

theorem selectAlong_replays (hsound : ctx.Sound) (target i : Nat) (path : String)
    (select : List NodeColumn) (segments : List String) :
    (selectAlong target i path select segments).Replays ctx := by
  induction segments generalizing ctx i path select with
  | nil => exact Replays.pure hsound select
  | cons segment rest ih =>
      unfold selectAlong
      refine addPath_isInverse_bind (g := fun next inverse => if inverse then pure select else _)
        hsound i segment fun next inverse ctx' _ hsound' => ?_
      split
      · exact Replays.pure hsound' select
      · exact look_selectEntity_bind hsound' fun select' => ih hsound' next _ select'

theorem selectAll_replays (hsound : ctx.Sound) (target : Nat) (includes : List String) :
    (selectAll target includes).Replays ctx := by
  unfold selectAll
  refine look_selectEntity_bind hsound fun own => ?_
  refine Replays.foldlM hsound fun select path ctx' _ _ hsound' => ?_
  exact Replays.look_bind hsound' (fun segments hok _ _ => ⟨segments, hok, rfl⟩)
    fun segments _ => selectAlong_replays hsound' target target "" select segments

end Context

section Binding

variable {ctx : Context} {target : Nat}

theorem Selection.bind_replays (hsound : ctx.Sound) (target : Nat) (selection : Selection) :
    (selection.bind target).Replays ctx := by
  unfold Selection.bind
  split
  · exact Context.selectAll_replays hsound target _
  · exact Context.selectAll_replays hsound target _
  · refine Replays.adapt (Replays.mapM hsound fun entry ctx' _ _ hsound' => ?_)
    exact (Context.resolvePath_replays hsound' target entry.path).bind
      fun c ctx'' _ hsound'' => Replays.pure hsound'' _

theorem Filter.bind_replays (hsound : ctx.Sound) (target : Nat) (filter : Filter) :
    (Filter.bind target filter).Replays ctx := by
  induction filter generalizing ctx with
  | member path =>
      exact (Context.resolvePath_replays hsound target path).adapt.bind
        fun c ctx' _ hsound' => Replays.pure hsound' _
  | literal v => exact Replays.pure hsound _
  | binary op left right ihleft ihright =>
      unfold Filter.bind
      refine (ihleft hsound).bind fun l ctx₁ _ hsound₁ => ?_
      refine (ihright hsound₁).bind fun r ctx₂ _ hsound₂ => ?_
      split
      · exact Replays.pure hsound₂ _
      · refine Replays.look_bind hsound₂ (fun stored hok ctx' hgrows => ?_)
          fun stored _ => Replays.pure hsound₂ _
        exact ⟨stored, Context.comparison_grows hgrows hok, rfl⟩

theorem Order.bind_replays (hsound : ctx.Sound) (target : Nat) (order : Order) :
    (order.bind target).Replays ctx :=
  (Context.resolvePath_replays hsound target order.path).bind
    fun _ _ _ hsound' => Replays.pure hsound' _

namespace Request

theorem filter_replays (hsound : ctx.Sound) (target : Nat) (filter : Option Filter) :
    Replays (filter.mapM fun filter =>
      (Filter.bind target filter).adapt PlanError.filter : Growing PlanError _) ctx := by
  cases filter with
  | none => exact Replays.pure hsound none
  | some filter => exact (filter.bind_replays hsound target).adapt.map

theorem checkedDraft_replays (hsound : ctx.Sound) (r : Request) (target : Nat) (scope : Scope) :
    (r.checkedDraft target scope).Replays ctx := by
  unfold checkedDraft draft
  refine Replays.look_bind hsound (fun _ hok _ _ => ⟨_, hok, rfl⟩) fun _ _ => ?_
  refine Replays.look_bind hsound (fun n hok ctx' hgrows => ?_) fun _ _ => ?_
  · obtain ⟨n', hn', -⟩ :=
      hgrows.node (Context.node_eq_ok_iff.mp (Except.mapError_eq_ok_iff.mp hok))
    exact ⟨n', Except.mapError_eq_ok_iff.mpr (Context.node_eq_ok_iff.mpr hn'), rfl⟩
  refine (r.selection.bind_replays hsound target).bind fun select ctx₁ _ hsound₁ => ?_
  refine (filter_replays hsound₁ target r.filter).bind fun filter ctx₂ _ hsound₂ => ?_
  cases scope with
  | nested => exact Replays.pure hsound₂ _
  | outer =>
      have horder : (r.orderBy.mapM (Order.bind target)).Replays ctx₂ :=
        Replays.mapM hsound₂ fun order ctx' _ _ hsound' => order.bind_replays hsound' target
      exact Replays.bind horder.adapt fun orderBy ctx₃ _ hsound₃ => Replays.pure hsound₃ _

/-- A request is planned once more. -/
theorem plan_replays (hsound : ctx.Sound) (r : Request) (target : Nat) (scope : Scope) :
    (r.plan target scope).Replays ctx :=
  (r.checkedDraft_replays hsound target scope).bind fun _ _ _ hsound' =>
    Replays.look hsound' fun _ hp _ hgrows => hgrows.plan hsound'.arena hp

theorem strategy_replays (hsound : ctx.Sound) (r : Request) (target : Nat) :
    (r.strategy target).Replays ctx :=
  (r.checkedDraft_replays hsound target .outer).bind fun _ _ _ hsound' =>
    Replays.look hsound' fun _ hs _ hgrows => hgrows.strategy hsound'.arena hs

end Request

end Binding

/-! ## Included collections -/

namespace Context

variable {ctx ctx' : Context} {parent : Plan} {path : String} {i next : Nat}
  {done rest : List String} {segment : String} {c : IncludedCollection}

theorem Grows.collectionAt (hgrows : ctx.Grows ctx')
    (h : ctx.collectionAt parent path i next done rest segment = .ok c) :
    ctx'.collectionAt parent path i next done rest segment = .ok c := by
  unfold Context.collectionAt at h ⊢
  obtain ⟨t, ht, h⟩ := Except.bind_eq_ok_iff.mp h
  refine Except.bind_eq_ok_iff.mpr ⟨t, ?_, h⟩
  exact Except.mapError_eq_ok_iff.mpr (hgrows.table_eq (Except.mapError_eq_ok_iff.mp ht))

theorem firstCollection_replays (hsound : ctx.Sound) (parent : Plan) (path : String) (i : Nat)
    (done segments : List String) : (firstCollection parent path i done segments).Replays ctx := by
  induction segments generalizing ctx i done with
  | nil => exact Replays.pure hsound none
  | cons segment rest ih =>
      unfold firstCollection
      refine addPath_isInverse_bind (g := fun next inverse => if inverse then _ else _)
        hsound i segment fun next inverse ctx' _ hsound' => ?_
      split
      · exact (Replays.look hsound' fun c hc ctx'' hgrows => hgrows.collectionAt hc).map
      · exact ih hsound' next _

theorem firstCollections_replays (hsound : ctx.Sound) (parent : Plan) (includes : List String) :
    (firstCollections parent includes).Replays ctx := by
  unfold firstCollections
  refine Replays.foldlM hsound fun found path ctx' _ _ hsound' => ?_
  refine Replays.look_bind hsound' (fun segments hok _ _ => ⟨segments, hok, rfl⟩)
    fun segments _ => ?_
  refine (firstCollection_replays hsound' parent path _ [] segments).bind
    fun first ctx'' _ hsound'' => ?_
  split <;> exact Replays.pure hsound'' _

theorem collectionPlan_replays (hsound : ctx.Sound) (c : IncludedCollection) (parentPath : String) :
    (collectionPlan c parentPath).Replays ctx := by
  unfold collectionPlan
  refine Replays.look_bind hsound (fun link hlink ctx' hgrows => ?_) fun link _ => ?_
  · exact ⟨link, link_eq_ok_iff.mpr (hgrows.link? (link_eq_ok_iff.mp hlink)), rfl⟩
  refine Replays.look_bind hsound (fun column hcolumn ctx' hgrows => ?_) fun column _ => ?_
  · exact ⟨column, columnName_grows hgrows hcolumn, rfl⟩
  refine (selectAll_replays hsound c.node c.nested).bind fun select ctx' _ hsound' => ?_
  refine Replays.look_bind hsound' (fun p hp ctx'' hgrows => ?_) fun p _ => Replays.pure hsound' _
  exact ⟨p, hgrows.plan hsound'.arena hp, rfl⟩

theorem includesBelow_replays (hsound : ctx.Sound) (depth : Nat) (parent : Plan)
    (parentPath : String) (includes : List String) :
    (includesBelow depth parent parentPath includes).Replays ctx := by
  induction depth generalizing ctx parent parentPath includes with
  | zero => exact Replays.pure hsound []
  | succ depth ih =>
      unfold includesBelow
      refine (firstCollections_replays hsound parent includes).bind fun found ctx₁ _ hsound₁ => ?_
      refine Replays.bind (Replays.mapM hsound₁ fun c ctx₂ _ _ hsound₂ => ?_)
        fun plans ctx₃ _ hsound₃ => Replays.pure hsound₃ _
      refine (collectionPlan_replays hsound₂ c parentPath).bind fun own ctx₃ _ hsound₃ => ?_
      exact (ih hsound₃ own.plan own.path c.nested).bind
        fun below ctx₄ _ hsound₄ => Replays.pure hsound₄ _

/-! ## Strategies and single plans -/

/-- The strategy for a draft is its plan, unless that limits rows which it multiplies. -/
theorem exists_plan_of_strategy_eq {d : Draft} {s : Strategy} (h : ctx.strategy d = .ok s) :
    ∃ p, ctx.plan d = .ok p ∧ p.requiresTwoPhase = s.isTwoPhase ∧
      ∀ p', s = .direct p' → p' = p := by
  unfold Context.strategy at h
  obtain ⟨direct, hdirect, h⟩ := Except.bind_eq_ok_iff.mp h
  refine ⟨direct, hdirect, ?_⟩
  split at h
  · rename_i hlimits
    obtain ⟨keys, -, h⟩ := Except.bind_eq_ok_iff.mp h
    obtain ⟨rows, -, h⟩ := Except.bind_eq_ok_iff.mp h
    cases h
    exact ⟨hlimits, fun p' hp' => by cases hp'⟩
  · rename_i hsingle
    cases h
    refine ⟨by simpa [Strategy.isTwoPhase] using hsingle, fun p' hp' => ?_⟩
    cases hp'
    rfl

end Context

namespace Request

variable {ctx ctx' : Context} {target : Nat} {s : Strategy}

/-- Beside a strategy there is the single outer plan, in the same context. -/
theorem exists_plan_of_run_strategy {r : Request}
    (h : (r.strategy target).run ctx = (.ok s, ctx')) : ∃ p,
      (r.plan target .outer).run ctx = (.ok p, ctx') ∧ p.requiresTwoPhase = s.isTwoPhase ∧
        ∀ p', s = .direct p' → p' = p := by
  unfold Request.strategy at h
  obtain ⟨d, ctx₁, hdraft, hlook⟩ := run_bind_eq_ok_iff.mp h
  obtain ⟨hstrategy, rfl⟩ := Prod.mk.inj hlook
  obtain ⟨p, hp, hphases, hdirect⟩ := Context.exists_plan_of_strategy_eq hstrategy
  refine ⟨p, ?_, hphases, hdirect⟩
  unfold Request.plan
  exact run_bind_eq_ok_iff.mpr ⟨d, ctx₁, hdraft, by rw [run_look, hp]⟩

/-- Planning a request can be repeated, and its strategy is its single outer plan, or else that plan
limits rows which it multiplies. The order in which joined nodes are searched does not matter. -/
structure IsRepeatable (r : Request) (ctx : Context) (target : Nat) : Prop where
  plan : ∀ scope, (r.plan target scope).Repeats ctx
  strategy : (r.strategy target).Repeats ctx
  includes : ∀ (parent : Plan) (paths : List String), (parent.includes paths).Repeats ctx
  direct : ∀ p ctx', (r.strategy target).run ctx = (.ok (.direct p), ctx') →
    (r.plan target .outer).run ctx = (.ok p, ctx') ∧
      (r.plan target .outer).run ctx' = (.ok p, ctx')
  twoPhase : ∀ keys rows ctx', (r.strategy target).run ctx = (.ok (.twoPhase keys rows), ctx') →
    ∃ p, (r.plan target .outer).run ctx = (.ok p, ctx') ∧
      (r.plan target .outer).run ctx' = (.ok p, ctx') ∧
      p.invertedNodes ≠ [] ∧ p.modifiers.isLimiting
  order : ∀ order : List (Nat × JoinKind) → List (Nat × JoinKind), (∀ l, (order l).Perm l) →
    ∀ (ctx : Context) (d : Draft), ctx.planOver order d = ctx.plan d

/-- In every context that calls lead to, planning can be repeated. -/
theorem isRepeatable_of_reachable (hctx : ctx.Reachable) (r : Request) (target : Nat) :
    r.IsRepeatable ctx target := by
  have hsound := hctx.sound
  have hagain : ∀ {p ctx'}, (r.plan target .outer).run ctx = (.ok p, ctx') →
      (r.plan target .outer).run ctx' = (.ok p, ctx') := fun hrun =>
    (r.plan_replays hsound target .outer).ok hrun (Context.Grows.refl _)
  constructor
  case plan => exact fun scope => (r.plan_replays hsound target scope).repeats
  case strategy => exact (r.strategy_replays hsound target).repeats
  case includes =>
    exact fun parent paths => (Context.includesBelow_replays hsound _ parent "" paths).repeats
  case direct =>
    intro p ctx' hrun
    obtain ⟨p', hplan, -, hsame⟩ := exists_plan_of_run_strategy hrun
    obtain rfl := hsame p rfl
    exact ⟨hplan, hagain hplan⟩
  case twoPhase =>
    intro keys rows ctx' hrun
    obtain ⟨p, hplan, hphases, -⟩ := exists_plan_of_run_strategy hrun
    have hphases : p.requiresTwoPhase = true := hphases
    obtain ⟨hinverted, hlimiting⟩ := Bool.and_eq_true_iff.mp hphases
    exact ⟨p, hplan, hagain hplan, by simpa using hinverted, hlimiting⟩
  case order => exact fun order horder ctx d => Context.planOver_eq horder ctx d

end Request

/-- Planning the authors of first chapters adds their books and the chapters of these. Once more it
has the same two phases, and adds nothing; the single plan would go through both collections. -/
theorem isRepeatable_authorsOfFirstChapters : ∃ keys rows p ctx',
    (authorsOfFirstChapters.strategy 0).run authorContext = (.ok (.twoPhase keys rows), ctx') ∧
      ctx'.nodes.size = 3 ∧
      (authorsOfFirstChapters.strategy 0).run ctx' = (.ok (.twoPhase keys rows), ctx') ∧
      (authorsOfFirstChapters.plan 0 .outer).run ctx' = (.ok p, ctx') ∧ p.invertedNodes ≠ [] := by
  have hrepeatable :=
    Request.isRepeatable_of_reachable reachable_authorContext authorsOfFirstChapters 0
  have htwo : ((authorsOfFirstChapters.strategy 0).run authorContext).1.toOption.map
      (·.isTwoPhase) = some true := by decide +kernel
  have hsize : ((authorsOfFirstChapters.strategy 0).run authorContext).2.nodes.size = 3 := by
    decide +kernel
  have hagain := hrepeatable.strategy
  unfold Repeats at hagain
  rcases hrun : (authorsOfFirstChapters.strategy 0).run authorContext with ⟨e | s, ctx'⟩
  · rw [hrun] at htwo
    cases htwo
  rw [hrun] at htwo hsize hagain
  cases s with
  | direct p => cases htwo
  | twoPhase keys rows =>
      obtain ⟨p, -, hplan, hinverted, -⟩ := hrepeatable.twoPhase keys rows ctx' hrun
      exact ⟨keys, rows, p, ctx', rfl, hsize, hagain, hplan, hinverted⟩

end EntityMap
