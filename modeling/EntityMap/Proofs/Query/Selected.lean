import EntityMap.Proofs.Context.Routes
import EntityMap.Proofs.Query.Planned

/-!
# What is selected

The columns that a plan answers when all of its target is asked for, with
what lies along included paths. Each of them is the column behind a
member of a node that a route leads to (`Context.Answers`), under the name
that joins the route and the member, and no member of the target itself
is left out (`Context.Selects`). Selecting starts at the target, goes on
along each path, and keeps this in every step (`Selects.selectEntity`).
-/

namespace EntityMap

open Growing

/-- Whether a query that asks for all of an entity answers a member of it. -/
def Column.isAnswered (c : Column) : Bool :=
  (c.selectable || c.primaryKey) && !c.shadow

namespace Context

variable {ctx ctx' : Context} {target i k : Nat} {route segments : List String}
  {select select' : List NodeColumn} {c : NodeColumn}

/-- A column that is selected for a member of the node at the end of a route. -/
structure Answers (ctx : Context) (target : Nat) (route : List String) (k : Nat) (mapped : Column)
    (c : NodeColumn) : Prop where
  parts : Path.AreParts route
  along : ctx.along? target route = some k
  hasColumn : ∃ t, ctx.table k = .ok t ∧ mapped ∈ t.columns
  isAnswered : mapped.isAnswered
  resolves : ∃ r, ctx.Resolves target k mapped.member r ∧
    c = r.withLabel (Path.join (route ++ [mapped.member]))

/-- The columns that answer members along routes, those of the target among them. -/
structure Selects (ctx : Context) (target : Nat) (select : List NodeColumn) : Prop where
  answers : ∀ c ∈ select, ∃ route k mapped, ctx.Answers target route k mapped c
  own : ∀ t, ctx.table target = .ok t → ∀ mapped ∈ t.columns, mapped.isAnswered →
    selects select mapped.member

theorem selects_iff {label : String} :
    selects select label ↔ ∃ c ∈ select, c.label = some label := by
  simp [selects]

theorem Answers.label {mapped : Column} (h : ctx.Answers target route k mapped c) :
    c.label = some (Path.join (route ++ [mapped.member])) := by
  obtain ⟨r, -, rfl⟩ := h.resolves
  rfl

theorem Answers.grows {mapped : Column} (h : ctx.Answers target route k mapped c)
    (hgrows : ctx.Grows ctx') : ctx'.Answers target route k mapped c where
  parts := h.parts
  along := hgrows.along? h.along
  hasColumn := by
    obtain ⟨t, ht, hmapped⟩ := h.hasColumn
    exact ⟨t, hgrows.table_eq ht, hmapped⟩
  isAnswered := h.isAnswered
  resolves := by
    obtain ⟨r, hr, heq⟩ := h.resolves
    exact ⟨r, hr.grows hgrows, heq⟩

theorem Selects.grows (h : ctx.Selects target select) (hgrows : ctx.Grows ctx')
    (ht : ∃ t, ctx.table target = .ok t) : ctx'.Selects target select where
  answers c hc := by
    obtain ⟨route, k, mapped, hanswers⟩ := h.answers c hc
    exact ⟨route, k, mapped, hanswers.grows hgrows⟩
  own t ht' mapped hmapped := by
    obtain ⟨t₀, ht⟩ := ht
    obtain rfl := Except.ok.inj ((hgrows.table_eq ht).symm.trans ht')
    exact h.own t₀ ht mapped hmapped

/-! ## One entity -/

/-- Selecting a member keeps what is selected, and answers the member. -/
theorem selectMember_eq_ok {path : String} {mapped : Column}
    (h : ctx.selectMember k target path select mapped = .ok select') :
    selects select' (Path.below path mapped.member) ∧ ∃ more, select' = select ++ more ∧
      ∀ c ∈ more, ∃ r, ctx.Resolves target k mapped.member r ∧
        c = r.withLabel (Path.below path mapped.member) := by
  unfold selectMember at h
  dsimp only at h
  split at h
  · rename_i hthere
    cases h
    exact ⟨hthere, [], by simp, by simp⟩
  · obtain ⟨r, hr, h⟩ := Except.bind_eq_ok_iff.mp h
    cases h
    refine ⟨by simp [selects, NodeColumn.withLabel], [_], rfl, fun c hc => ?_⟩
    exact ⟨r, resolves_of_resolveMember hr, List.mem_singleton.mp hc⟩

/-- What is added when the members of an entity are selected. -/
theorem foldlM_selectMember_eq_ok {path : String} {columns : List Column}
    (h : columns.foldlM (ctx.selectMember k target path) select = .ok select') :
    (∀ mapped ∈ columns, selects select' (Path.below path mapped.member)) ∧
      ∃ more, select' = select ++ more ∧ ∀ c ∈ more, ∃ mapped ∈ columns, ∃ r,
        ctx.Resolves target k mapped.member r ∧
          c = r.withLabel (Path.below path mapped.member) := by
  induction columns generalizing select with
  | nil =>
      cases h
      exact ⟨by simp, [], by simp, by simp⟩
  | cons mapped rest ih =>
      rw [List.foldlM_cons] at h
      obtain ⟨select₁, hfirst, hrest⟩ := Except.bind_eq_ok_iff.mp h
      obtain ⟨hthere, first, rfl, hnew⟩ := selectMember_eq_ok hfirst
      obtain ⟨hothers, more, rfl, hmore⟩ := ih hrest
      refine ⟨?_, first ++ more, List.append_assoc .., ?_⟩
      · refine List.forall_mem_cons.mpr ⟨?_, hothers⟩
        obtain ⟨c, hc, hlabel⟩ := selects_iff.mp hthere
        exact selects_iff.mpr ⟨c, List.mem_append_left _ hc, hlabel⟩
      · intro c hc
        rcases List.mem_append.mp hc with hc | hc
        · exact ⟨mapped, List.mem_cons_self .., hnew c hc⟩
        · obtain ⟨other, hother, hc⟩ := hmore c hc
          exact ⟨other, List.mem_cons_of_mem _ hother, hc⟩

/-- What is added when the columns at the end of a route are selected answers their members. -/
theorem selectEntity_eq_ok (hparts : Path.AreParts route)
    (halong : ctx.along? target route = some k)
    (h : ctx.selectEntity k target (Path.join route) select = .ok select') :
    (∀ t, ctx.table k = .ok t → ∀ mapped ∈ t.columns, mapped.isAnswered →
      selects select' (Path.join (route ++ [mapped.member]))) ∧
    ∃ more, select' = select ++ more ∧ ∀ c ∈ more, ∃ mapped,
      ctx.Answers target route k mapped c := by
  unfold selectEntity at h
  obtain ⟨t, ht, h⟩ := Except.bind_eq_ok_iff.mp h
  obtain ⟨hthere, more, rfl, hmore⟩ := foldlM_selectMember_eq_ok h
  constructor
  · intro t' ht' mapped hmapped hanswered
    obtain rfl := Except.ok.inj (ht.symm.trans ht')
    rw [← Path.below_join_singleton hparts]
    exact hthere mapped (List.mem_filter.mpr ⟨hmapped, hanswered⟩)
  · refine ⟨more, rfl, fun c hc => ?_⟩
    obtain ⟨mapped, hmapped, r, hr, heq⟩ := hmore c hc
    obtain ⟨hmem, hanswered⟩ := List.mem_filter.mp hmapped
    rw [Path.below_join_singleton hparts] at heq
    exact ⟨mapped, hparts, halong, ⟨t, ht, hmem⟩, hanswered, r, hr, heq⟩

theorem Selects.selectEntity (h : ctx.Selects target select) (hparts : Path.AreParts route)
    (halong : ctx.along? target route = some k)
    (hok : ctx.selectEntity k target (Path.join route) select = .ok select') :
    ctx.Selects target select' := by
  obtain ⟨-, more, rfl, hmore⟩ := selectEntity_eq_ok hparts halong hok
  constructor
  case answers =>
    intro c hc
    rcases List.mem_append.mp hc with hc | hc
    · exact h.answers c hc
    · obtain ⟨mapped, hanswers⟩ := hmore c hc
      exact ⟨route, k, mapped, hanswers⟩
  case own =>
    intro t ht mapped hmapped hanswered
    obtain ⟨c, hc, hlabel⟩ := selects_iff.mp (h.own t ht mapped hmapped hanswered)
    exact selects_iff.mpr ⟨c, List.mem_append_left _ hc, hlabel⟩

/-! ## Along included paths -/

theorem includeSegments_eq_ok_iff {path : String} :
    includeSegments path = .ok segments ↔
      Path.hasBlank path = false ∧ segments = Path.segments path := by
  unfold includeSegments
  cases Path.hasBlank path <;> simp [eq_comm]

theorem selectAlong_selects (hparts : Path.AreParts (route ++ segments))
    (hi : ctx.along? target route = some i) (ht : ∃ t, ctx.table target = .ok t)
    (h : ctx.Selects target select) :
    (selectAlong target i (Path.join route) select segments).Leads ctx
      fun select ctx' => ctx'.Selects target select := by
  induction segments generalizing ctx route i select with
  | nil => exact Leads.pure h
  | cons segment rest ih =>
      rw [List.append_cons] at hparts
      have hroute : Path.AreParts (route ++ [segment]) := (Path.AreParts.append_iff.mp hparts).1
      obtain ⟨hbefore, hsegment⟩ := Path.AreParts.append_iff.mp hroute
      unfold selectAlong
      refine (addPath_part_leads i hsegment).adapt.bind fun next ctx' hgrows hnext => ?_
      have ht' : ∃ t, ctx'.table target = .ok t := ht.imp fun t ht => hgrows.table_eq ht
      have hselects := h.grows hgrows ht
      refine Leads.get_bind ?_
      split
      · exact Leads.pure hselects
      · refine Leads.look_bind fun select' hselect' => ?_
        have halong : ctx'.along? target (route ++ [segment]) = some next := by
          rw [along?_append_of (hgrows.along? hi), hnext]
        rw [Path.below_join_singleton hbefore] at hselect' ⊢
        have hstep := hselects.selectEntity hroute halong (Except.mapError_eq_ok_iff.mp hselect')
        exact ih hparts halong ht' hstep

theorem selectAll_selects (target : Nat) (includes : List String) :
    (selectAll target includes).Leads ctx
      fun select ctx' => (∃ t, ctx'.table target = .ok t) ∧ ctx'.Selects target select := by
  unfold selectAll
  refine Leads.look_bind fun own hown => ?_
  have hown := Except.mapError_eq_ok_iff.mp hown
  have ht : ∃ t, ctx.table target = .ok t := by
    obtain ⟨t, ht, -⟩ := Except.bind_eq_ok_iff.mp hown
    exact ⟨t, ht⟩
  obtain ⟨hthere, more, rfl, hmore⟩ := selectEntity_eq_ok Path.AreParts.nil along?_nil hown
  refine Leads.foldlM ⟨ht, fun c hc => ?_, hthere⟩ ?_
  · obtain ⟨mapped, hanswers⟩ := hmore c hc
    exact ⟨[], target, mapped, hanswers⟩
  · intro select path ctx' _ _ ⟨ht, hselects⟩
    refine Leads.look_bind fun segments hsegments => ?_
    obtain ⟨hblank, rfl⟩ := includeSegments_eq_ok_iff.mp hsegments
    have hparts := Path.areParts_segments hblank
    have halong : (selectAlong target target (Path.join []) select (Path.segments path)).Leads ctx'
        fun select ctx'' => ctx''.Selects target select :=
      selectAlong_selects hparts along?_nil ht hselects
    exact halong.mono
      fun select ctx'' hgrows hselects => ⟨ht.imp fun t ht => hgrows.table_eq ht, hselects⟩

end Context

namespace Request

variable {ctx ctx' : Context} {target : Nat} {r : Request}

/-- What holds of the columns that a selection binds, and goes on to hold as the context grows,
holds of those that a draft selects. -/
theorem draft_leads_of_bind {S : List NodeColumn → Context → Prop} (scope : Scope)
    (hkeep : ∀ select (ctx ctx' : Context), ctx.Grows ctx' → S select ctx → S select ctx')
    (hbind : (r.selection.bind target).Leads ctx S) :
    (r.draft target scope).Leads ctx fun d ctx' => d.target = target ∧ S d.select ctx' := by
  refine (draft_leads_of (F := fun _ _ => True) (O := fun _ _ => True) scope hkeep
    (fun _ _ _ _ _ => trivial) hbind (fun _ _ => filter_leads.only) (fun _ _ => orderBy_leads _)
    fun _ => trivial).mono ?_
  exact fun d ctx' _ ⟨_, hselect, _, _, _, _, htarget⟩ => ⟨htarget, hselect⟩

/-- A request for all columns selects all of its target. -/
theorem draft_selects {paths : List String} (scope : Scope)
    (hall : r.selection = .allColumns paths) : (r.draft target scope).Leads ctx
      fun d ctx' => d.target = target ∧ ctx'.Selects target d.select := by
  refine (draft_leads_of_bind (S := fun select ctx' => (∃ t, ctx'.table target = .ok t) ∧
    ctx'.Selects target select) scope ?_ ?_).mono fun d ctx' _ ⟨htarget, _, hselects⟩ =>
      ⟨htarget, hselects⟩
  · exact fun select ctx ctx' hgrows ⟨⟨t, ht⟩, hselects⟩ =>
      ⟨⟨t, hgrows.table_eq ht⟩, hselects.grows hgrows ⟨t, ht⟩⟩
  · rw [hall]
    exact Context.selectAll_selects target paths

/-- A projection selects a column for each of its entries. -/
theorem plan_projects {entries : List Projection} (scope : Scope)
    (hentries : r.selection = .projection entries) (hsome : entries ≠ []) :
    (r.plan target scope).Leads ctx fun p _ => p.select.length = entries.length := by
  have hbind : (r.selection.bind target).Leads ctx
      fun select _ => select.length = entries.length := by
    obtain ⟨entry, rest, rfl⟩ := List.exists_cons_of_ne_nil hsome
    rw [hentries]
    refine (Leads.mapM_forall₂ (S := fun _ _ _ => True) (fun _ _ _ _ _ _ => trivial)
      fun entry ctx' _ _ => (Context.selectProjection_leads target entry)).adapt.mono ?_
    exact fun select _ _ h => h.length_eq.symm
  unfold plan checkedDraft
  refine Leads.bind (Leads.look_bind fun _ _ =>
    draft_leads_of_bind scope (fun _ _ _ _ h => h) hbind) fun d ctx' _ ⟨_, hlength⟩ => ?_
  refine Leads.look fun p hp => ?_
  obtain ⟨_, -, hdraft, -⟩ := Context.plan_eq_ok hp
  rw [← hdraft] at hlength
  exact hlength

end Request

end EntityMap
