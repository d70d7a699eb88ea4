import EntityMap.Catalog.Definition
import EntityMap.Proofs.Catalog.Accepted
import EntityMap.Proofs.Query.Binding
import EntityMap.Proofs.Query.JoinTree
import EntityMap.Query.Include
import EntityMap.Query.Strategy

/-!
# Planned statements

Planning a request is a growing computation, whether it succeeds or not.
So every context that calls lead to has an arena (`Context.Reachable`,
`Context.Reachable.arena`), and every plan that a call answers was made
in a context on the way to the one that the call leaves
(`Context.Planned`, `Context.Planned.made`).

The main statement is `Context.Planned.isJoinTree`: whatever is asked of
whatever target, all plans are join trees.
-/

namespace EntityMap

open Growing

/-- A plan that was made while one context grew into another. -/
def Plan.MadeBetween (start ctx : Context) (p : Plan) : Prop :=
  ∃ ctx₁ d, start.Grows ctx₁ ∧ ctx₁.plan d = .ok p ∧ ctx₁.Grows ctx

variable {ctx ctx' ctx'' start : Context}

def Strategy.plans : Strategy → List Plan
  | direct p => [p]
  | twoPhase keys rows => [keys, rows]

namespace Plan.MadeBetween

variable {p : Plan}

theorem here {d : Draft} (h : ctx.plan d = .ok p) : p.MadeBetween ctx ctx :=
  ⟨ctx, d, Context.Grows.refl ctx, h, Context.Grows.refl ctx⟩

theorem earlier (hgrows : start.Grows ctx) (h : p.MadeBetween ctx ctx') :
    p.MadeBetween start ctx' := by
  obtain ⟨ctx₁, d, hfrom, hplan, hto⟩ := h
  exact ⟨ctx₁, d, hgrows.trans hfrom, hplan, hto⟩

theorem later (h : p.MadeBetween start ctx) (hgrows : ctx.Grows ctx') :
    p.MadeBetween start ctx' := by
  obtain ⟨ctx₁, d, hfrom, hplan, hto⟩ := h
  exact ⟨ctx₁, d, hfrom, hplan, hto.trans hgrows⟩

end Plan.MadeBetween

/-! ## Planning only grows the context -/

namespace Context

theorem selectAlong_leads {target : Nat} {segments : List String} (i : Nat) (path : String)
    (select : List NodeColumn) : (selectAlong target i path select segments).Only ctx := by
  induction segments generalizing i path select ctx with
  | nil => exact Leads.pure trivial
  | cons segment rest ih =>
      unfold selectAlong
      refine (addPath_leads i segment).adapt.bind fun next _ _ _ => Leads.get_bind ?_
      split
      · exact Leads.pure trivial
      · exact Leads.look_bind fun select _ => ih next _ select

theorem selectAll_leads (target : Nat) (includes : List String) :
    (selectAll target includes).Only ctx := by
  unfold selectAll
  refine Leads.look_bind fun select _ => Leads.foldlM trivial fun select path _ _ _ _ => ?_
  exact Leads.look_bind fun segments _ => selectAlong_leads target "" select

theorem selectProjection_leads (target : Nat) (entry : Projection) :
    (selectProjection target entry).Only ctx :=
  (resolvePath_leads target entry.path).bind fun _ _ _ _ => Leads.pure trivial

end Context

theorem Selection.bind_leads (target : Nat) (selection : Selection) :
    (selection.bind target).Only ctx := by
  unfold Selection.bind
  split
  · exact Context.selectAll_leads target _
  · exact Context.selectAll_leads target _
  · refine (Leads.mapM (R := fun _ _ => True) (fun _ _ _ _ _ => trivial) ?_).only.adapt
    exact fun entry _ _ _ => Context.selectProjection_leads target entry

theorem Order.bind_leads (target : Nat) (order : Order) : (order.bind target).Only ctx :=
  (Context.resolvePath_leads target order.path).bind fun _ _ _ _ => Leads.pure trivial

namespace Request

/-- What a draft of a request on a target, a node of `start`, has from the request. -/
structure Drafts (r : Request) (start ctx : Context) (target : Nat) (d : Draft) : Prop where
  node : ∃ n, start.nodes[target]? = some n
  filter : Option.Rel (Filter.BoundTo ctx target) r.filter d.filter
  modifiers : d.modifiers = r.modifiers
  keyRestriction : d.keyRestriction = none
  target : d.target = target

/-- The parts of a draft are bound one after the other, so what holds of each of them has to hold
still when the context grows on. -/
theorem draft_leads_of {S : List NodeColumn → Context → Prop}
    {F : Option BoundFilter → Context → Prop} {O : List OrderTerm → Context → Prop} {r : Request}
    {target : Nat} (scope : Scope)
    (hkeepSelect : ∀ select (ctx ctx' : Context), ctx.Grows ctx' → S select ctx → S select ctx')
    (hkeepFilter : ∀ bound (ctx ctx' : Context), ctx.Grows ctx' → F bound ctx → F bound ctx')
    (hselect : (r.selection.bind target).Leads ctx S)
    (hfilter : ∀ ctx', ctx.Grows ctx' → (r.filter.mapM fun filter =>
      (Filter.bind target filter).adapt PlanError.filter : Growing PlanError _).Leads ctx' F)
    (horder : ∀ ctx', ctx.Grows ctx' → (r.orderBy.mapM (Order.bind target)).Leads ctx' O)
    (hnil : ∀ ctx', O [] ctx') : (r.draft target scope).Leads ctx fun d ctx' =>
      (∃ n, ctx.nodes[target]? = some n) ∧ S d.select ctx' ∧ F d.filter ctx' ∧ O d.orderBy ctx' ∧
        d.modifiers = r.modifiers ∧ d.keyRestriction = none ∧ d.target = target := by
  unfold draft
  refine Leads.look_bind fun n hn => hselect.bind fun select ctx₁ hgrows₁ hs => ?_
  have hnode : ∃ n, ctx.nodes[target]? = some n :=
    ⟨n, Context.node_eq_ok_iff.mp (Except.mapError_eq_ok_iff.mp hn)⟩
  refine (hfilter ctx₁ hgrows₁).bind fun bound ctx₂ hgrows₂ hb => ?_
  cases scope with
  | nested =>
      exact Leads.pure ⟨hnode, hkeepSelect _ _ _ hgrows₂ hs, hb, hnil ctx₂, rfl, rfl, rfl⟩
  | outer =>
      refine (horder ctx₂ (hgrows₁.trans hgrows₂)).adapt.bind fun orderBy ctx₃ hgrows₃ ho => ?_
      exact Leads.pure ⟨hnode, hkeepSelect _ _ _ (hgrows₂.trans hgrows₃) hs,
        hkeepFilter _ _ _ hgrows₃ hb, ho, rfl, rfl, rfl⟩

theorem filter_leads {target : Nat} {filter : Option Filter} :
    Leads (filter.mapM fun filter =>
      (Filter.bind target filter).adapt PlanError.filter : Growing PlanError _) ctx
      fun bound ctx' => Option.Rel (Filter.BoundTo ctx' target) filter bound := by
  cases filter with
  | none => exact Leads.pure .none
  | some filter =>
      refine Leads.map (Leads.adapt ?_)
      exact (Filter.bind_leads target filter).mono fun bound ctx' _ h => .some h

theorem orderBy_leads {target : Nat} (orderBy : List Order) :
    (orderBy.mapM (Order.bind target)).Only ctx :=
  (Leads.mapM (R := fun _ _ => True) (fun _ _ _ _ _ => trivial)
    fun order _ _ _ => order.bind_leads target).only

theorem draft_leads (r : Request) (target : Nat) (scope : Scope) :
    (r.draft target scope).Leads ctx fun d ctx' => r.Drafts ctx ctx' target d := by
  refine (draft_leads_of (S := fun _ _ => True)
    (F := fun bound ctx' => Option.Rel (Filter.BoundTo ctx' target) r.filter bound)
    (O := fun _ _ => True) scope (fun _ _ _ _ _ => trivial)
    (fun _ _ _ hgrows h => Filter.rel_grows h hgrows) (r.selection.bind_leads target)
    (fun _ _ => filter_leads) (fun _ _ => orderBy_leads _) fun _ => trivial).mono ?_
  exact fun d ctx' _ ⟨hnode, _, hfilter, _, hmodifiers, hrestriction, htarget⟩ =>
    ⟨hnode, hfilter, hmodifiers, hrestriction, htarget⟩

theorem checkedDraft_leads (r : Request) (target : Nat) (scope : Scope) :
    (r.checkedDraft target scope).Leads ctx fun d ctx' => r.Drafts ctx ctx' target d := by
  unfold checkedDraft
  exact Leads.look_bind fun _ _ => r.draft_leads target scope

theorem plan_leads (r : Request) (target : Nat) (scope : Scope) :
    (r.plan target scope).Leads ctx fun p ctx' =>
      ∃ d, r.Drafts ctx ctx' target d ∧ ctx'.plan d = .ok p := by
  unfold Request.plan
  refine (r.checkedDraft_leads target scope).bind fun d ctx₁ _ hd => ?_
  exact Leads.look fun p hp => ⟨d, hd, hp⟩

/-- A plan of a request is made in the context that the call leaves. -/
theorem plan_eq_ok {r : Request} {target : Nat} {scope : Scope} {p : Plan}
    (h : (r.plan target scope).run ctx = (.ok p, ctx')) :
    ctx.Grows ctx' ∧ ∃ d, r.Drafts ctx ctx' target d ∧ ctx'.plan d = .ok p := by
  have hleads : (r.plan target scope).Leads ctx _ := r.plan_leads target scope
  have hgrows := hleads.grows
  have hanswer := hleads.answer p (congrArg (·.1) h)
  rw [h] at hgrows hanswer
  exact ⟨hgrows, hanswer⟩

theorem strategy_leads (r : Request) (target : Nat) :
    (r.strategy target).Leads ctx fun s ctx' => ∀ p ∈ s.plans, p.MadeBetween ctx ctx' := by
  unfold Request.strategy
  refine (r.checkedDraft_leads target .outer).bind fun d ctx₁ hgrows _ => Leads.look fun s hs => ?_
  intro p hp
  refine Plan.MadeBetween.earlier hgrows ?_
  unfold Context.strategy at hs
  obtain ⟨direct, hdirect, hs⟩ := Except.bind_eq_ok_iff.mp hs
  split at hs
  · obtain ⟨keys, hkeys, hs⟩ := Except.bind_eq_ok_iff.mp hs
    obtain ⟨rows, hrows, hs⟩ := Except.bind_eq_ok_iff.mp hs
    cases hs
    rcases List.mem_pair.mp hp with rfl | rfl
    · exact Plan.MadeBetween.here hkeys
    · exact Plan.MadeBetween.here hrows
  · cases hs
    obtain rfl := List.mem_singleton.mp hp
    exact Plan.MadeBetween.here hdirect

end Request

namespace Context

theorem firstCollection_leads {parent : Plan} {path : String} {segments : List String} (i : Nat)
    (done : List String) : (firstCollection parent path i done segments).Only ctx := by
  induction segments generalizing i done ctx with
  | nil => exact Leads.pure trivial
  | cons segment rest ih =>
      unfold firstCollection
      refine (addPath_leads i segment).adapt.bind fun next _ _ _ => Leads.get_bind ?_
      split
      · exact (Leads.look fun _ _ => trivial).map
      · exact ih next _

theorem firstCollections_leads (parent : Plan) (includes : List String) :
    (firstCollections parent includes).Only ctx := by
  unfold firstCollections
  refine Leads.foldlM trivial fun found path _ _ _ _ => ?_
  refine Leads.look_bind fun segments _ => (firstCollection_leads _ _).bind fun first _ _ _ => ?_
  split <;> exact Leads.pure trivial

theorem collectionPlan_leads (c : IncludedCollection) (parentPath : String) :
    (collectionPlan c parentPath).Leads ctx fun own ctx' => own.plan.MadeBetween ctx ctx' := by
  unfold collectionPlan
  refine Leads.look_bind fun link _ => Leads.look_bind fun column _ => ?_
  refine (selectAll_leads c.node c.nested).bind fun select ctx₁ hgrows _ => ?_
  exact Leads.look_bind fun p hp => Leads.pure ((Plan.MadeBetween.here hp).earlier hgrows)

theorem includesBelow_leads (depth : Nat) (parent : Plan) (parentPath : String)
    (includes : List String) : (includesBelow depth parent parentPath includes).Leads ctx
      fun plans ctx' => ∀ c ∈ plans, c.plan.MadeBetween ctx ctx' := by
  induction depth generalizing parent parentPath includes ctx with
  | zero => exact Leads.pure (by simp)
  | succ depth ih =>
      unfold includesBelow
      refine (firstCollections_leads parent includes).bind fun collections ctx₁ hgrows _ => ?_
      have hmap := @Leads.mapM _ _ _ ctx₁
        (fun plans ctx' => ∀ c ∈ plans, c.plan.MadeBetween ctx ctx')
        (fun c => do
          let own ← collectionPlan c parentPath
          return own :: (← includesBelow depth own.plan own.path c.nested))
        collections
        (fun plans ctx' ctx'' h hplans c hc => (hplans c hc).later h)
        (fun c ctx₂ _ h => by
          refine (collectionPlan_leads c parentPath).bind fun own ctx₃ hown hmade => ?_
          refine (ih own.plan own.path c.nested).bind fun below ctx₄ hbelow hplans => ?_
          refine Leads.pure fun plan hplan => ?_
          rcases List.mem_cons.mp hplan with rfl | hplan
          · exact (hmade.earlier (hgrows.trans h)).later hbelow
          · exact (hplans plan hplan).earlier ((hgrows.trans h).trans hown))
      refine hmap.bind fun plans ctx' _ hplans => Leads.pure fun c hc => ?_
      obtain ⟨own, hown, hc⟩ := List.mem_flatten.mp hc
      exact hplans own hown c hc

end Context

/-- Every plan of an included collection is made on the way. -/
theorem Plan.includes_leads (parent : Plan) (paths : List String) :
    (parent.includes paths).Leads ctx
      fun plans ctx' => ∀ c ∈ plans, c.plan.MadeBetween ctx ctx' :=
  Context.includesBelow_leads _ parent "" paths

namespace Context

/-! ## Calls -/

/-- What one call makes of a context, whether the call succeeds or fails. -/
inductive Call (ctx : Context) : Context → Prop
  | addPath (start : Nat) (path : String) : Call ctx ((addPath start path).run ctx).2
  | addLookups (i : Nat) : Call ctx ((addLookups i).run ctx).2
  | resolvePath (start : Nat) (path : String) : Call ctx ((resolvePath start path).run ctx).2
  | bind (target : Nat) (filter : Filter) : Call ctx ((Filter.bind target filter).run ctx).2
  | plan (r : Request) (target : Nat) (scope : Scope) : Call ctx ((r.plan target scope).run ctx).2
  | strategy (r : Request) (target : Nat) : Call ctx ((r.strategy target).run ctx).2
  | includes (parent : Plan) (paths : List String) : Call ctx ((parent.includes paths).run ctx).2

/-- The contexts of an accepted catalog: they start at an entity, and calls lead on. -/
inductive Reachable : Context → Prop
  | start {d : Definition} {catalog : Catalog} {entity : String} {ctx : Context}
      (haccepted : d.toCatalog = .ok catalog) (hctx : ofEntity catalog entity = .ok ctx) :
      Reachable ctx
  | call {ctx ctx' : Context} (hctx : Reachable ctx) (hcall : ctx.Call ctx') : Reachable ctx'

theorem Call.grows (h : ctx.Call ctx') : ctx.Grows ctx' := by
  cases h with
  | addPath start path => exact (addPath_leads start path).grows
  | addLookups i => exact (addLookups_leads i).grows
  | resolvePath start path => exact (resolvePath_leads start path).grows
  | bind target filter => exact (Filter.bind_leads target filter).grows
  | plan r target scope => exact (r.plan_leads target scope).grows
  | strategy r target => exact (r.strategy_leads target).grows
  | includes parent paths => exact (parent.includes_leads paths).grows

theorem Reachable.arena (h : Reachable ctx) : ctx.Arena := by
  induction h with
  | start _ hctx =>
      obtain ⟨t, ht, hgrows⟩ := ofEntity_grows hctx
      exact (arena_root ht).grows hgrows
  | call _ hcall ih => exact ih.grows hcall.grows

theorem Reachable.accepted (h : Reachable ctx) :
    ∃ d : Definition, d.toCatalog = .ok ctx.catalog := by
  induction h with
  | @start d catalog entity ctx haccepted hctx =>
      obtain ⟨t, -, hgrows⟩ := ofEntity_grows hctx
      exact ⟨d, by rw [hgrows.catalog]; exact haccepted⟩
  | call _ hcall ih => rw [hcall.grows.catalog]; exact ih

theorem Reachable.catalog_accepted (h : Reachable ctx) : ctx.catalog.Accepted := by
  obtain ⟨definition, haccepted⟩ := h.accepted
  exact Definition.accepted_of_toCatalog haccepted

theorem Reachable.catalog_keyed (h : Reachable ctx) : ctx.catalog.Keyed := by
  obtain ⟨definition, haccepted⟩ := h.accepted
  exact Definition.keyed_of_toCatalog haccepted

/-- A plan that a call on `ctx` answers, leaving `ctx'`: the single plan of a request,
one of its strategy, or one of an included collection. -/
inductive Planned (ctx : Context) (p : Plan) (ctx' : Context) : Prop
  | single {r : Request} {target : Nat} {scope : Scope}
      (hrun : (r.plan target scope).run ctx = (.ok p, ctx')) : Planned ctx p ctx'
  | direct {r : Request} {target : Nat}
      (hrun : (r.strategy target).run ctx = (.ok (.direct p), ctx')) : Planned ctx p ctx'
  | keys {r : Request} {target : Nat} {rows : Plan}
      (hrun : (r.strategy target).run ctx = (.ok (.twoPhase p rows), ctx')) : Planned ctx p ctx'
  | rows {r : Request} {target : Nat} {keys : Plan}
      (hrun : (r.strategy target).run ctx = (.ok (.twoPhase keys p), ctx')) : Planned ctx p ctx'
  | included {parent : Plan} {paths : List String} {plans : List IncludePlan} {c : IncludePlan}
      (hrun : (parent.includes paths).run ctx = (.ok plans, ctx')) (hc : c ∈ plans)
      (hp : c.plan = p) : Planned ctx p ctx'

theorem Planned.made {p : Plan} (h : ctx.Planned p ctx') : p.MadeBetween ctx ctx' := by
  cases h with
  | single hrun =>
      obtain ⟨hgrows, d, -, hplan⟩ := Request.plan_eq_ok hrun
      exact (Plan.MadeBetween.here hplan).earlier hgrows
  | direct hrun =>
      have := (Request.strategy_leads _ _).answer _ (congrArg (·.1) hrun) p
        (by simp [Strategy.plans])
      rwa [hrun] at this
  | keys hrun =>
      have := (Request.strategy_leads _ _).answer _ (congrArg (·.1) hrun) p
        (by simp [Strategy.plans])
      rwa [hrun] at this
  | rows hrun =>
      have := (Request.strategy_leads _ _).answer _ (congrArg (·.1) hrun) p
        (by simp [Strategy.plans])
      rwa [hrun] at this
  | included hrun hc hp =>
      have := (Plan.includes_leads _ _).answer _ (congrArg (·.1) hrun) _ hc
      rwa [hrun, hp] at this

/-- Whatever is asked of whatever target of a reachable context, each plan that is
answered is a join tree of the context that the call leaves. -/
theorem Planned.isJoinTree {p : Plan} (hctx : Reachable ctx) (h : ctx.Planned p ctx') :
    p.IsJoinTree ctx' := by
  obtain ⟨ctx₁, d, hfrom, hplan, hto⟩ := h.made
  exact isJoinTree_of_plan_of_grows (hctx.arena.grows hfrom) hplan hto

/-! ## Orders and their customers -/

def orderTables : List Table :=
  [{ entity := "Order", table := "orders"
     columns := [
       { member := "Id", column := "id", type := .int64, primaryKey := true },
       { member := "CustomerId", column := "customer_id", type := .int64 }]
     relationships := [
       { name := "Customer", kind := .manyToOne, foreignKey := ⟨"Order", "CustomerId"⟩
         primaryKey := ⟨"Customer", "Id"⟩ }]
     permissions := {} },
   { entity := "Customer", table := "customers"
     columns := [
       { member := "Id", column := "id", type := .int64, primaryKey := true },
       { member := "Name", column := "name", type := .text }]
     relationships := []
     permissions := {} }]

def orderContext : Context :=
  { catalog := ⟨orderTables, []⟩
    nodes := #[{ index := 0, entity := "Order", table := "orders", level := 0, link := none
                 joinKind := .inner, children := [] }] }

def ordersOf (name : String) : Request :=
  { filter := some (.compare "Customer.Name" .eq (.text name)) }

theorem reachable_orderContext : Reachable orderContext :=
  have haccepted : Definition.toCatalog ⟨[], orderTables⟩ = .ok ⟨orderTables, []⟩ := rfl
  have hctx : ofEntity ⟨orderTables, []⟩ "Order" = .ok orderContext := rfl
  .start haccepted hctx

/-- The orders of a customer are read from the customers on. -/
theorem isJoinTree_ordersOf : ∃ p ctx', orderContext.Planned p ctx' ∧ p.base.node = 1 ∧
    p.target = 0 ∧ p.IsJoinTree ctx' := by
  have hplan : ((((ordersOf "North").plan 0 .outer).run orderContext).1.toOption.map
      fun p => (p.base.node, p.target)) = some (1, 0) := by decide +kernel
  obtain ⟨p, hp, hbase⟩ := Option.map_eq_some_iff.mp hplan
  rcases hrun : ((ordersOf "North").plan 0 .outer).run orderContext with ⟨answer, ctx'⟩
  cases answer with
  | error e => simp [hrun, Except.toOption] at hp
  | ok q =>
      obtain rfl : q = p := by simpa [hrun, Except.toOption] using hp
      obtain ⟨hbase, htarget⟩ := Prod.mk.inj hbase
      have hplanned : orderContext.Planned q ctx' := .single hrun
      exact ⟨q, ctx', hplanned, hbase, htarget, hplanned.isJoinTree reachable_orderContext⟩

end Context

end EntityMap
