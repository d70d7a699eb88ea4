import EntityMap.Proofs.Query.Collections
import EntityMap.Proofs.Query.Strategy
import EntityMap.Proofs.Query.Twins
import EntityMap.Query.Planned

/-!
# The queries of included collections

The queries that are planned for included paths: one for each route along
a path that leads to a collection, and no other, each behind the one that
answers the keys of its parent rows (`Context.PlannedBelow`). Behind a
collection the same is planned for what goes on there, so the plans come
in groups, the query of a collection first and then those below it
(`Context.PlannedGroup`). The routes of two groups part at the collections
that they come to first, and a path has fewer parts behind a collection,
which bounds the depth (`Context.includesBelow_planned`).
-/

namespace EntityMap

open Growing

/-! ## Lists -/

section

variable {α β : Type} {P Q : List α → α → Prop} {l l' : List α}

/-- Each element of a list is as `P` says of it and of the elements before it. -/
def EachAfter (P : List α → α → Prop) (l : List α) : Prop :=
  ∀ before a after, l = before ++ a :: after → P before a

namespace EachAfter

theorem nil : EachAfter P [] := by
  intro before a after heq
  simp at heq

theorem mono (h : EachAfter P l) (himp : ∀ before a, P before a → Q before a) : EachAfter Q l :=
  fun before a after heq => himp before a (h before a after heq)

theorem append (h : EachAfter P l) (h' : EachAfter (fun before => P (l ++ before)) l') :
    EachAfter P (l ++ l') := by
  intro before a after heq
  rcases List.append_eq_append_iff.mp heq with ⟨more, rfl, hlater⟩ | ⟨more, rfl, hlater⟩
  · exact h' more a after hlater
  · cases more with
    | nil =>
        have hlast := h' [] a after hlater.symm
        rwa [List.append_nil, List.append_nil] at hlast
    | cons first rest =>
        obtain ⟨rfl, -⟩ := List.cons.inj hlater
        exact h before a rest rfl

theorem cons {a : α} (h : P [] a) (h' : EachAfter (fun before => P (a :: before)) l) :
    EachAfter P (a :: l) := by
  refine append (l := [a]) (fun before b after heq => ?_) h'
  obtain ⟨rfl, rfl, -⟩ : before = [] ∧ b = a ∧ after = [] := by
    cases before with
    | nil => simpa [eq_comm] using heq
    | cons => simp at heq
  exact h

theorem flatten {ls : List (List α)}
    (hmono : ∀ before before' a, before ⊆ before' → P before a → P before' a)
    (h : ∀ l ∈ ls, EachAfter P l) : EachAfter P ls.flatten := by
  induction ls with
  | nil => exact nil
  | cons first rest ih =>
      rw [List.flatten_cons]
      refine (h first (List.mem_cons_self ..)).append ?_
      exact (ih fun l hl => h l (List.mem_cons_of_mem _ hl)).mono fun before a =>
        hmono before _ a (List.subset_append_right ..)

end EachAfter

end

/-! ## Plans below a plan -/

/-- Where the parent rows of an include may come from: a plan to start with, or one before. -/
inductive IncludePlan.ParentAt (parent : Plan) (above : List String) (before : List IncludePlan) :
    List String → Plan → Prop
  | start : ParentAt parent above before above parent
  | earlier {j : IncludePlan} {route : List String} (hj : j ∈ before)
      (hpath : j.path = Path.join route) : ParentAt parent above before route j.plan

/-- An include that hangs on a plan to start with, or on one before it. -/
def IncludePlan.Hung (ctx : Context) (start : Nat) (parent : Plan) (above : List String)
    (before : List IncludePlan) (i : IncludePlan) : Prop :=
  ∃ upper p route, ParentAt parent above before upper p ∧ i.HangsOn ctx start upper p route

namespace Context

variable {ctx ctx' : Context} {start : Nat} {parent : Plan} {above includes : List String}
  {plans : List IncludePlan} {found : List IncludedCollection} {c : IncludedCollection}
  {groups : List (List IncludePlan)}

/-- The queries that are planned for included paths below a plan, which a route from `start`
leads to. -/
structure PlannedBelow (ctx : Context) (start : Nat) (parent : Plan) (above includes : List String)
    (plans : List IncludePlan) : Prop where
  hung : EachAfter (IncludePlan.Hung ctx start parent above) plans
  nodup : (plans.map (·.path)).Nodup
  wanted : ∀ i ∈ plans, ∃ path ∈ includes, ∃ rest, rest ≠ [] ∧ rest <+: Path.segments path ∧
    Path.AreParts (above ++ rest) ∧ i.path = Path.join (above ++ rest)
  covered : ∀ path ∈ includes, ∀ rest, rest ≠ [] → rest <+: Path.segments path →
    ∃ k, ctx.along? start (above ++ rest) = some k ∧
      (ctx.isInverse k → ∃ i ∈ plans, i.path = Path.join (above ++ rest))

/-- The query of a collection, and those below it. -/
structure PlannedGroup (ctx : Context) (start : Nat) (parent : Plan) (above : List String)
    (c : IncludedCollection) (own : IncludePlan) (below : List IncludePlan)
    (route : List String) : Prop where
  hangs : own.HangsOn ctx start above parent route
  target : own.plan.target = c.node
  below : ctx.PlannedBelow start own.plan (above ++ route) c.nested below

theorem PlannedBelow.grows (h : ctx.PlannedBelow start parent above includes plans)
    (hregistered : ctx.Registered) (hgrows : ctx.Grows ctx') :
    ctx'.PlannedBelow start parent above includes plans where
  hung := h.hung.mono fun before i ⟨upper, p, route, hparent, hi⟩ =>
    ⟨upper, p, route, hparent, hi.grows hregistered hgrows⟩
  nodup := h.nodup
  wanted := h.wanted
  covered path hpath rest hne hrest := by
    obtain ⟨k, hk, hplanned⟩ := h.covered path hpath rest hne hrest
    refine ⟨k, hgrows.along? hk, fun hinverse => hplanned ?_⟩
    rwa [hgrows.isInverse hregistered hk (by simp [hne])] at hinverse

namespace PlannedBelow

variable {i : IncludePlan}

theorem path_ne_empty (h : ctx.PlannedBelow start parent above includes plans) (hi : i ∈ plans) :
    i.path ≠ "" := by
  obtain ⟨-, -, rest, hne, -, hparts, hpath⟩ := h.wanted i hi
  rw [hpath]
  exact hparts.join_ne_empty (by simp [hne])

/-- The route of an include, on which it hangs on a plan before it. -/
theorem exists_hangsOn (h : ctx.PlannedBelow start parent above includes plans) (hi : i ∈ plans) :
    ∃ upper p route, i.HangsOn ctx start upper p route := by
  obtain ⟨before, after, rfl⟩ := List.append_of_mem hi
  obtain ⟨upper, p, route, -, hangs⟩ := h.hung before i after rfl
  exact ⟨upper, p, route, hangs⟩

end PlannedBelow

namespace PlannedGroup

variable {own : IncludePlan} {below : List IncludePlan} {route : List String}

theorem grows (h : ctx.PlannedGroup start parent above c own below route)
    (hregistered : ctx.Registered) (hgrows : ctx.Grows ctx') :
    ctx'.PlannedGroup start parent above c own below route :=
  ⟨h.hangs.grows hregistered hgrows, h.target, h.below.grows hregistered hgrows⟩

theorem hung (h : ctx.PlannedGroup start parent above c own below route) :
    EachAfter (IncludePlan.Hung ctx start parent above) (own :: below) := by
  refine .cons ⟨above, parent, route, .start, h.hangs⟩ (h.below.hung.mono fun before i => ?_)
  rintro ⟨upper, p, route', hparent, hi⟩
  refine ⟨upper, p, route', ?_, hi⟩
  cases hparent with
  | start => exact .earlier (List.mem_cons_self ..) h.hangs.path
  | earlier hj hpath => exact .earlier (List.mem_cons_of_mem _ hj) hpath

/-- The paths of a group go on from its collection. -/
theorem exists_rest (h : ctx.PlannedGroup start parent above c own below route) {i : IncludePlan}
    (hi : i ∈ own :: below) : ∃ rest, Path.AreParts (above ++ route ++ rest) ∧
      i.path = Path.join (above ++ route ++ rest) := by
  rcases List.mem_cons.mp hi with rfl | hi
  · refine ⟨[], ?_, by rw [List.append_nil]; exact h.hangs.path⟩
    rw [List.append_nil]
    exact h.hangs.areParts
  · obtain ⟨-, -, rest, -, -, hparts, hpath⟩ := h.below.wanted i hi
    exact ⟨rest, hparts, hpath⟩

/-- A route leads to one collection, so a group is on the route on which its collection is found. -/
theorem route_eq {route' : List String} (h : ctx.PlannedGroup start parent above c own below route)
    (hregistered : ctx.Registered) (harena : ctx.Arena)
    (hfirst : ctx.FirstCollection parent.target route' c.node) : route' = route := by
  have hend := h.hangs.below.first.along
  rw [h.target] at hend
  exact hregistered.eq_of_along? harena hfirst.along hend

theorem nodup (h : ctx.PlannedGroup start parent above c own below route) :
    ((own :: below).map (·.path)).Nodup := by
  rw [List.map_cons, List.nodup_cons]
  refine ⟨fun hmem => ?_, h.below.nodup⟩
  obtain ⟨i, hi, heq⟩ := List.mem_map.mp hmem
  obtain ⟨-, -, rest, hne, -, hparts, hpath⟩ := h.below.wanted i hi
  rw [h.hangs.path, hpath] at heq
  have hsame := hparts.join_inj h.hangs.areParts heq
  exact hne (by simpa using hsame)

end PlannedGroup

theorem FoundAlong.parts_of_split {path : String} {route rest : List String}
    (h : ctx.FoundAlong parent includes found) (hpath : path ∈ includes)
    (hsplit : Path.segments path = route ++ rest) : Path.AreParts rest :=
  (h.parts path hpath).mono fun _ hname => hsplit ▸ List.mem_append_right _ hname

/-- The groups of the collections that are found. -/
def PlannedGroups (ctx : Context) (start : Nat) (parent : Plan) (above : List String) :
    List IncludedCollection → List (List IncludePlan) → Prop :=
  List.Forall₂ fun c group => ∃ own below route, group = own :: below ∧
    ctx.PlannedGroup start parent above c own below route

namespace PlannedGroups

/-- The routes of two groups part at their collections. -/
theorem nodup (h : ctx.PlannedGroups start parent above found groups)
    (hnodes : (found.map (·.node)).Nodup) : (groups.flatten.map (·.path)).Nodup := by
  induction h with
  | nil => simp
  | @cons c group found groups hgroup hgroups ih =>
      obtain ⟨hnew, hnodes⟩ := List.nodup_cons.mp hnodes
      obtain ⟨own, below, route, rfl, hgroup⟩ := hgroup
      rw [List.flatten_cons, List.map_append]
      refine List.nodup_append.mpr ⟨hgroup.nodup, ih hnodes, ?_⟩
      intro path hpath path' hpath' heq
      obtain ⟨i, hi, rfl⟩ := List.mem_map.mp hpath
      obtain ⟨j, hj, rfl⟩ := List.mem_map.mp hpath'
      obtain ⟨other, hother, hj⟩ := List.mem_flatten.mp hj
      obtain ⟨c', hc', own', below', route', rfl, hgroup'⟩ := exists_of_forall₂_right hgroups hother
      obtain ⟨rest, hparts, hi⟩ := hgroup.exists_rest hi
      obtain ⟨rest', hparts', hj⟩ := hgroup'.exists_rest hj
      rw [hi, hj] at heq
      have hsame := hparts.join_inj hparts' heq
      rw [List.append_assoc, List.append_assoc] at hsame
      have hsame : route ++ rest = route' ++ rest' := List.append_cancel_left hsame
      have hfirst := hgroup.hangs.below.first
      have hfirst' := hgroup'.hangs.below.first
      have hroute : route = route' := by
        rcases List.prefix_or_prefix_of_prefix (List.prefix_append route rest)
          (hsame ▸ List.prefix_append route' rest') with hpre | hpre
        · exact hfirst'.eq_of_prefix hpre hfirst.leadsToCollection
        · exact (hfirst.eq_of_prefix hpre hfirst'.leadsToCollection).symm
      have hnode : c.node = c'.node := by
        rw [← hgroup.target, ← hgroup'.target]
        exact Option.some.inj (hfirst.along.symm.trans (hroute ▸ hfirst'.along))
      exact hnew (List.mem_map.mpr ⟨c', hc', hnode.symm⟩)

/-- What is planned in the groups is on the way along an included path. -/
theorem wanted (hgroups : ctx.PlannedGroups start parent above found groups)
    (hregistered : ctx.Registered) (harena : ctx.Arena)
    (hfound : ctx.FoundAlong parent includes found) {i : IncludePlan} (hi : i ∈ groups.flatten) :
    ∃ path ∈ includes, ∃ rest, rest ≠ [] ∧ rest <+: Path.segments path ∧
      Path.AreParts (above ++ rest) ∧ i.path = Path.join (above ++ rest) := by
  obtain ⟨group, hmem, hi⟩ := List.mem_flatten.mp hi
  obtain ⟨c, hc, own, below, route, rfl, hgroup⟩ := exists_of_forall₂_right hgroups hmem
  obtain ⟨route', hbelow, -, ⟨path, hpath, hpre⟩, hnested⟩ := hfound.below c hc
  obtain rfl := hgroup.route_eq hregistered harena hbelow.first
  rcases List.mem_cons.mp hi with rfl | hi
  · refine ⟨path, hpath, route', hbelow.first.ne_nil, hpre, ?_, hgroup.hangs.path⟩
    exact Path.AreParts.append_iff.mpr ⟨hgroup.hangs.parts, hbelow.parts⟩
  · obtain ⟨nested, hmem, rest, hne, hrest, hall, hi⟩ := hgroup.below.wanted i hi
    obtain ⟨path, hpath, behind, hbehind, hsplit, rfl⟩ := hnested nested hmem
    rw [(hfound.parts_of_split hpath hsplit).segments_join hbehind] at hrest
    rw [List.append_assoc] at hall hi
    refine ⟨path, hpath, route' ++ rest, by simp [hne], ?_, hall, hi⟩
    rw [hsplit]
    exact (List.prefix_append_right_inj route').mpr hrest

/-- What lies on the way along an included path and is a collection is planned in the groups. -/
theorem covered (hgroups : ctx.PlannedGroups start parent above found groups)
    (hregistered : ctx.Registered) (harena : ctx.Arena)
    (halong : ctx.along? start above = some parent.target)
    (hfound : ctx.FoundAlong parent includes found) {path : String} {rest : List String}
    (hpath : path ∈ includes) (hne : rest ≠ []) (hrest : rest <+: Path.segments path) :
    ∃ k, ctx.along? start (above ++ rest) = some k ∧
      (ctx.isInverse k → ∃ i ∈ groups.flatten, i.path = Path.join (above ++ rest)) := by
  have hclear : ∀ {route}, ctx.Clear parent.target route → rest <+: route →
      ∃ k, ctx.along? start (above ++ rest) = some k ∧
        (ctx.isInverse k → ∃ i ∈ groups.flatten, i.path = Path.join (above ++ rest)) := by
    intro route hclear hpre
    obtain ⟨k, hk, hforward⟩ := hclear rest hpre hne
    refine ⟨k, by rw [along?_append_of halong, hk], fun hinverse => ?_⟩
    rw [hforward] at hinverse
    cases hinverse
  rcases hfound.covered path hpath with hnone | ⟨c, hc, route, behind, hsplit, hfirst, hnested⟩
  · exact hclear hnone hrest
  · obtain ⟨group, hmem, own, below, route', rfl, hgroup⟩ := exists_of_forall₂_left hgroups hc
    obtain rfl := hgroup.route_eq hregistered harena hfirst
    have hown : ∃ k, ctx.along? start (above ++ route) = some k ∧
        (ctx.isInverse k → ∃ i ∈ groups.flatten, i.path = Path.join (above ++ route)) :=
      ⟨c.node, by rw [along?_append_of halong, hfirst.along], fun _ =>
        ⟨own, List.mem_flatten.mpr ⟨_, hmem, List.mem_cons_self ..⟩, hgroup.hangs.path⟩⟩
    rw [hsplit] at hrest
    rcases List.prefix_or_prefix_of_prefix hrest (List.prefix_append route behind) with hpre | hpre
    · rw [← List.dropLast_concat_getLast hfirst.ne_nil] at hpre
      rcases List.prefix_concat_iff.mp hpre with heq | hpre
      · rw [List.dropLast_concat_getLast] at heq
        exact heq ▸ hown
      · exact hclear hfirst.clear hpre
    · obtain ⟨more, rfl⟩ := hpre
      have hmore : more <+: behind := (List.prefix_append_right_inj route).mp hrest
      by_cases hend : more = []
      · rw [hend, List.append_nil]
        exact hown
      · have hbehind : behind ≠ [] := fun hnil => hend (List.prefix_nil.mp (hnil ▸ hmore))
        have hparts := hfound.parts_of_split hpath hsplit
        obtain ⟨k, hk, hplanned⟩ := hgroup.below.covered _ (hnested hbehind) more hend
          (by rwa [hparts.segments_join hbehind])
        rw [← List.append_assoc]
        refine ⟨k, hk, fun hinverse => ?_⟩
        obtain ⟨i, hi, hpath⟩ := hplanned hinverse
        exact ⟨i, List.mem_flatten.mpr ⟨_, hmem, List.mem_cons_of_mem _ hi⟩, hpath⟩

/-- The groups of the collections that are found along the included paths are all that is planned
for these. -/
theorem plannedBelow (hgroups : ctx.PlannedGroups start parent above found groups)
    (hregistered : ctx.Registered) (harena : ctx.Arena)
    (halong : ctx.along? start above = some parent.target)
    (hfound : ctx.FoundAlong parent includes found) :
    ctx.PlannedBelow start parent above includes groups.flatten where
  hung := by
    refine EachAfter.flatten ?_ fun group hmem => ?_
    · rintro before before' i hsub ⟨upper, p, route, hparent, hi⟩
      refine ⟨upper, p, route, ?_, hi⟩
      cases hparent with
      | start => exact .start
      | earlier hj hpath => exact .earlier (hsub hj) hpath
    · obtain ⟨c, -, own, below, route, rfl, hgroup⟩ := exists_of_forall₂_right hgroups hmem
      exact hgroup.hung
  nodup := hgroups.nodup hfound.nodup
  wanted _ hi := hgroups.wanted hregistered harena hfound hi
  covered _ hpath _ hne hrest := hgroups.covered hregistered harena halong hfound hpath hne hrest

end PlannedGroups

/-! ## The recursion -/

/-- Behind a collection a path has fewer parts. -/
theorem FoundAlong.length_lt {depth : Nat} (hfound : ctx.FoundAlong parent includes found)
    (hdepth : ∀ path ∈ includes, (Path.segments path).length ≤ depth + 1) (hc : c ∈ found) :
    ∀ nested ∈ c.nested, (Path.segments nested).length ≤ depth := by
  intro nested hnested
  obtain ⟨route, hbelow, -, -, hall⟩ := hfound.below c hc
  obtain ⟨path, hpath, rest, hne, hsplit, rfl⟩ := hall nested hnested
  have hrest := hfound.parts_of_split hpath hsplit
  have hlen := hdepth path hpath
  have hroute := List.length_pos_of_ne_nil hbelow.first.ne_nil
  rw [hsplit, List.length_append] at hlen
  rw [hrest.segments_join hne]
  omega

theorem includesBelow_planned {depth : Nat} (hregistered : ctx.Registered) (harena : ctx.Arena)
    (hparts : Path.AreParts above) (halong : ctx.along? start above = some parent.target)
    (habove : above = [] ∨ ctx.LeadsToCollection start above)
    (hdepth : ∀ path ∈ includes, (Path.segments path).length ≤ depth) :
    (includesBelow depth parent (Path.join above) includes).Leads ctx
      fun plans ctx' => ctx'.PlannedBelow start parent above includes plans := by
  induction depth generalizing ctx parent above includes with
  | zero =>
      -- every path has a part
      have hnone : includes = [] := by
        refine List.eq_nil_iff_forall_not_mem.mpr fun path hpath => ?_
        have hlen := hdepth path hpath
        simp [Path.segments, Path.splitDots_ne_nil] at hlen
      rw [hnone]
      exact Leads.pure ⟨.nil, List.nodup_nil, by simp, by simp⟩
  | succ depth ih =>
      unfold includesBelow
      refine (firstCollections_find hregistered harena).bind fun found ctx₁ hgrows hfound => ?_
      have hregistered₁ := hregistered.grows hgrows
      have harena₁ := harena.grows hgrows
      have halong₁ := hgrows.along? halong
      have habove₁ := habove.imp_right (·.grows hregistered hgrows)
      refine Leads.bind (Leads.mapM_forall₂ (S := fun c group ctx' => ctx'.Registered ∧
        ∃ own below route, group = own :: below ∧
          ctx'.PlannedGroup start parent above c own below route) ?_ ?_) ?_
      · rintro c group ctx₂ ctx₃ hgrows' ⟨hregistered₂, own, below, route, rfl, hgroup⟩
        exact ⟨hregistered₂.grows hgrows', own, below, route, rfl,
          hgroup.grows hregistered₂ hgrows'⟩
      · intro c ctx₂ hc hgrows₂
        have hregistered₂ := hregistered₁.grows hgrows₂
        obtain ⟨route, hbelow, hpath, -⟩ := hfound.below c hc
        have hbelow₂ := hbelow.grows hregistered₁ hgrows₂
        refine (collectionPlan_hangs hregistered₂ hparts (hgrows₂.along? halong₁)
          (habove₁.imp_right (·.grows hregistered₁ hgrows₂)) hbelow₂ hpath).bind ?_
        intro own ctx₃ hgrows₃ hown
        have hregistered₃ := hregistered₂.grows hgrows₃
        have htarget : own.plan.target = c.node := Option.some.inj
          (hown.below.first.along.symm.trans (hgrows₃.along? hbelow₂.first.along))
        have hend : ctx₃.along? start (above ++ route) = some own.plan.target := by
          rw [along?_append_of hown.along, hown.below.first.along]
        rw [hown.path]
        refine (ih hregistered₃ (harena₁.grows (hgrows₂.trans hgrows₃))
          hown.areParts hend (.inr hown.leadsToCollection)
          (hfound.length_lt hdepth hc)).bind fun below ctx₄ hgrows₄ hplanned => ?_
        exact Leads.pure ⟨hregistered₃.grows hgrows₄, own, below, route, rfl,
          hown.grows hregistered₃ hgrows₄, htarget, hplanned⟩
      · intro groups ctx₂ hgrows₂ hgroups
        have hgroups : ctx₂.PlannedGroups start parent above found groups :=
          hgroups.imp fun c group h => h.2
        exact Leads.pure (hgroups.plannedBelow (hregistered₁.grows hgrows₂) (harena₁.grows hgrows₂)
          (hgrows₂.along? halong₁) (hfound.grows hregistered₁ hgrows₂))

end Context

/-- The longest path bounds the depth. -/
theorem Plan.includes_planned {ctx : Context} {p : Plan} {paths : List String}
    (hregistered : ctx.Registered) (harena : ctx.Arena) : (p.includes paths).Leads ctx
      fun plans ctx' => ctx'.PlannedBelow p.target p [] paths plans := by
  unfold Plan.includes
  show (Context.includesBelow _ p (Path.join []) paths).Leads ctx _
  refine Context.includesBelow_planned hregistered harena Path.AreParts.nil
    Context.along?_nil (.inl rfl) fun path hpath => ?_
  rw [List.foldl_max]
  exact Nat.le_trans (List.le_max?_getD_of_mem (List.mem_map.mpr ⟨path, hpath, rfl⟩))
    (Nat.le_max_right ..)

/-! ## Requests -/

namespace Request

variable {ctx ctx' : Context} {target : Nat} {r : Request} {q : PlannedQuery}

/-- The plan that answers the rows of a request has its select list. -/
theorem strategy_resultPlan {Q : Draft → Context → Prop}
    (h : (r.draft target .outer).Leads ctx Q) : (r.strategy target).Leads ctx
      fun s ctx' => ∃ d, Q d ctx' ∧ s.resultPlan.target = d.target ∧
        s.resultPlan.select = d.select := by
  unfold Request.strategy
  refine Leads.bind (Leads.look_bind fun _ _ => h) fun d ctx₁ _ hd => Leads.look fun s hs => ?_
  refine ⟨d, hd, ?_⟩
  cases s with
  | direct p =>
      obtain ⟨-, -, hdraft, -⟩ := Context.plan_eq_ok (Context.strategy_eq_direct hs).1
      exact ⟨congrArg Draft.target hdraft, congrArg Draft.select hdraft⟩
  | twoPhase keys rows =>
      obtain ⟨key, -, -, hrows⟩ := Context.strategy_eq_twoPhase hs
      obtain ⟨-, -, hdraft, -⟩ := Context.plan_eq_ok hrows
      have htarget : rows.target = (d.rowsPhase key).target := congrArg Draft.target hdraft
      have hselect : rows.select = (d.rowsPhase key).select := congrArg Draft.select hdraft
      exact ⟨htarget, hselect⟩

theorem planned_eq_ok (h : (r.planned target).run ctx = (.ok q, ctx')) : ∃ ctx₁,
    (r.strategy target).run ctx = (.ok q.strategy, ctx₁) ∧
      (q.strategy.resultPlan.includes r.includes).run ctx₁ = (.ok q.includes, ctx') := by
  unfold Request.planned at h
  obtain ⟨s, ctx₁, hstrategy, h⟩ := run_bind_eq_ok_iff.mp h
  obtain ⟨plans, ctx₂, hplans, h⟩ := run_bind_eq_ok_iff.mp h
  cases h
  exact ⟨ctx₁, hstrategy, hplans⟩

theorem planned_grows (h : (r.planned target).run ctx = (.ok q, ctx')) : ctx.Grows ctx' := by
  obtain ⟨ctx₁, hstrategy, hplans⟩ := planned_eq_ok h
  have hfirst : ctx.Grows ((r.strategy target).run ctx).2 := (r.strategy_leads target).grows
  have hsecond : ctx₁.Grows ((q.strategy.resultPlan.includes r.includes).run ctx₁).2 :=
    (q.strategy.resultPlan.includes_leads r.includes).grows
  rw [hstrategy] at hfirst
  rw [hplans] at hsecond
  exact hfirst.trans hsecond

/-- The included collections of a request are planned below the plan that answers its rows. -/
theorem planned_below (hctx : Context.Reachable ctx)
    (h : (r.planned target).run ctx = (.ok q, ctx')) : Context.Reachable ctx' ∧
      ctx'.PlannedBelow target q.strategy.resultPlan [] r.includes q.includes := by
  obtain ⟨ctx₁, hstrategy, hplans⟩ := planned_eq_ok h
  have htarget := (strategy_resultPlan (r.draft_leads target .outer)).answer q.strategy
    (congrArg (·.1) hstrategy)
  obtain ⟨d, hd, htarget, -⟩ := htarget
  have hctx₁ : Context.Reachable ctx₁ := by
    have hcall := hctx.call (.strategy r target)
    rwa [hstrategy] at hcall
  have hctx' : Context.Reachable ctx' := by
    have hcall := hctx₁.call (.includes q.strategy.resultPlan r.includes)
    rwa [hplans] at hcall
  have hplanned := (Plan.includes_planned hctx₁.registered hctx₁.arena).answer q.includes
    (congrArg (·.1) hplans)
  rw [hplans, htarget, hd.target] at hplanned
  exact ⟨hctx', hplanned⟩

end Request

/-! ## Authors, books and chapters -/

def authorTables : List Table :=
  [{ entity := "Author", table := "authors"
     columns := [{ member := "Id", column := "id", type := .int64, primaryKey := true }]
     relationships := [
       { name := "Books", kind := .oneToMany, foreignKey := ⟨"Book", "AuthorId"⟩
         primaryKey := ⟨"Author", "Id"⟩ }]
     permissions := {} },
   { entity := "Book", table := "books"
     columns := [
       { member := "Id", column := "id", type := .int64, primaryKey := true },
       { member := "AuthorId", column := "author_id", type := .int64, shadow := true }]
     relationships := [
       { name := "Chapters", kind := .oneToMany, foreignKey := ⟨"Chapter", "BookId"⟩
         primaryKey := ⟨"Book", "Id"⟩ }]
     permissions := {} },
   { entity := "Chapter", table := "chapters"
     columns := [
       { member := "Id", column := "id", type := .int64, primaryKey := true },
       { member := "BookId", column := "book_id", type := .int64 }]
     relationships := []
     permissions := {} }]

def authorContext : Context :=
  { catalog := ⟨authorTables, []⟩
    nodes := #[{ index := 0, entity := "Author", table := "authors", level := 0, link := none
                 joinKind := .inner, children := [] }] }

theorem reachable_authorContext : Context.Reachable authorContext :=
  have haccepted : Definition.toCatalog ⟨[], authorTables⟩ = .ok ⟨authorTables, []⟩ := rfl
  have hctx : Context.ofEntity ⟨authorTables, []⟩ "Author" = .ok authorContext := rfl
  .start haccepted hctx

/-- The chapters behind the books of authors. -/
def chaptersOfBooks : Request :=
  { selection := .allColumns ["Books.Chapters", "Books"] }

end EntityMap
