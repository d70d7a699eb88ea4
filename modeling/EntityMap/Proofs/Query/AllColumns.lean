import EntityMap.Proofs.Query.Resolved
import EntityMap.Proofs.Query.Stitching
import EntityMap.Proofs.Query.Sufficiency

/-!
# All columns of a target

A query for all columns answers those of its target and those along each
included path, up to the first collection. Paths may overlap and repeat,
and a column is taken once, by its label. What is selected in the end can
be told from the catalog alone: the columns of every entity that a part
of some included path leads to by references (`Catalog.Asks`). Selecting
keeps an account of the routes that have been taken so far
(`Context.Flattens`), and no two entries have one label, so nothing is
selected twice and nothing is left out (`Context.SelectsAll`).
-/

namespace EntityMap

open Growing

/-- The entity that a chain of references leads to, none of them a collection. -/
def Catalog.referencedAlong? (catalog : Catalog) (entity : String) : List String → Option String
  | [] => some entity
  | member :: rest => do
    let r ← (← catalog.table? entity).relationship? member
    if r.isInverseFrom entity then none else catalog.referencedAlong? (r.target entity) rest

/-- The parts of included paths, and the empty one. -/
def IncludedParts (includes : List String) (route : List String) : Prop :=
  route = [] ∨ ∃ path ∈ includes, route <+: Path.segments path

/-- A column is asked for by a query for all columns of an entity. -/
structure Catalog.Asks (catalog : Catalog) (entity : String) (includes : List String)
    (route : List String) (mapped : Column) : Prop where
  isPart : IncludedParts includes route
  along : ∃ e t, catalog.referencedAlong? entity route = some e ∧ catalog.table e = .ok t ∧
    mapped ∈ t.columns
  isAnswered : mapped.isAnswered

namespace Catalog

variable {catalog : Catalog} {entity : String} {route route' : List String} {t : Table}
  {r : Relationship} {member : String}

theorem referencedAlong?_cons (ht : catalog.table entity = .ok t)
    (hr : t.relationship? member = some r) :
    catalog.referencedAlong? entity (member :: route) =
      if r.isInverseFrom entity then none
      else catalog.referencedAlong? (r.target entity) route := by
  rw [referencedAlong?, table_eq_ok_iff.mp ht]
  simp [hr]

theorem referencedAlong?_append :
    catalog.referencedAlong? entity (route ++ route') =
      (catalog.referencedAlong? entity route).bind (catalog.referencedAlong? · route') := by
  induction route generalizing entity with
  | nil => rfl
  | cons member rest ih =>
      simp only [List.cons_append, referencedAlong?, Option.bind_eq_bind, Option.bind_assoc]
      refine Option.bind_congr fun t _ => Option.bind_congr fun r _ => ?_
      split
      · rfl
      · exact ih

end Catalog

namespace Context

variable {ctx ctx' : Context} {target i k : Nat} {route segments : List String}
  {select select' : List NodeColumn} {entity member : String} {R R' : List String → Prop}
  {n : Node}

/-! ## References -/

/-- A child under a navigation member is a collection, or what the catalog refers to. -/
theorem Registered.referencedAlong?_of_child? (h : ctx.Registered) (harena : ctx.Arena)
    (hn : ctx.nodes[i]? = some n) (hchild : ctx.child? i (.navigation member) = some k) :
    ∃ m, ctx.nodes[k]? = some m ∧ ∀ rest,
      ctx.catalog.referencedAlong? n.entity (member :: rest) =
        if ctx.isInverse k then none else ctx.catalog.referencedAlong? m.entity rest := by
  obtain ⟨t, r, m, nullable, ht, hr, hm, hentity, hlink⟩ := h.exists_link_of_child? harena hn hchild
  have hinverse : ctx.isInverse k = r.isInverseFrom n.entity := by
    rw [isInverse_of_link? hlink, linkOf]
    split <;> simp_all
  refine ⟨m, hm, fun rest => ?_⟩
  rw [Catalog.referencedAlong?_cons ht hr, hinverse, hentity]

/-! ## One column for each label -/

/-- No two columns of a select list have one label. -/
def DistinctLabels (select : List NodeColumn) : Prop :=
  (select.map (·.label)).Nodup

theorem DistinctLabels.selectMember {path : String} {mapped : Column} (h : DistinctLabels select)
    (hok : ctx.selectMember k target path select mapped = .ok select') :
    DistinctLabels select' := by
  unfold Context.selectMember at hok
  dsimp only at hok
  split at hok
  · cases hok
    exact h
  · rename_i hnew
    obtain ⟨r, -, hok⟩ := Except.bind_eq_ok_iff.mp hok
    cases hok
    have hfree : some (Path.below path mapped.member) ∉ select.map (·.label) := by
      intro hmem
      obtain ⟨c, hc, hlabel⟩ := List.mem_map.mp hmem
      exact hnew (selects_iff.mpr ⟨c, hc, hlabel⟩)
    rw [DistinctLabels, List.map_append, List.map_singleton]
    exact List.nodup_append.mpr ⟨h, List.nodup_singleton _, by
      rintro a ha b hb rfl
      obtain rfl := List.mem_singleton.mp hb
      exact hfree ha⟩

theorem DistinctLabels.foldlM_selectMember {path : String} {columns : List Column}
    (h : DistinctLabels select)
    (hok : columns.foldlM (ctx.selectMember k target path) select = .ok select') :
    DistinctLabels select' := by
  induction columns generalizing select with
  | nil =>
      cases hok
      exact h
  | cons mapped rest ih =>
      rw [List.foldlM_cons] at hok
      obtain ⟨select₁, hfirst, hrest⟩ := Except.bind_eq_ok_iff.mp hok
      exact ih (h.selectMember hfirst) hrest

theorem DistinctLabels.selectEntity {path : String} (h : DistinctLabels select)
    (hok : ctx.selectEntity k target path select = .ok select') : DistinctLabels select' := by
  unfold Context.selectEntity at hok
  obtain ⟨t, -, hok⟩ := Except.bind_eq_ok_iff.mp hok
  exact h.foldlM_selectMember hok

/-! ## The routes that have been taken -/

/-- The columns along the routes that have been taken so far, as far as these are references. -/
structure Flattens (ctx : Context) (target : Nat) (entity : String) (taken : List String → Prop)
    (select : List NodeColumn) : Prop where
  distinct : DistinctLabels select
  answers : ∀ c ∈ select, ∃ route k mapped, taken route ∧
    (ctx.catalog.referencedAlong? entity route).isSome ∧ ctx.Answers target route k mapped c
  covers : ∀ route e t, taken route → ctx.catalog.referencedAlong? entity route = some e →
    ctx.catalog.table e = .ok t → ∀ mapped ∈ t.columns, mapped.isAnswered →
      selects select (Path.join (route ++ [mapped.member]))

namespace Flattens

theorem grows (h : ctx.Flattens target entity R select) (hgrows : ctx.Grows ctx') :
    ctx'.Flattens target entity R select where
  distinct := h.distinct
  answers c hc := by
    obtain ⟨route, k, mapped, htaken, hsome, hanswers⟩ := h.answers c hc
    exact ⟨route, k, mapped, htaken, by rwa [hgrows.catalog], hanswers.grows hgrows⟩
  covers := by
    rw [hgrows.catalog]
    exact h.covers

/-- Routes that pass a collection add nothing. -/
theorem more (h : ctx.Flattens target entity R select) (hsub : ∀ route, R route → R' route)
    (hnew : ∀ route, R' route → R route ∨ ctx.catalog.referencedAlong? entity route = none) :
    ctx.Flattens target entity R' select where
  distinct := h.distinct
  answers c hc := by
    obtain ⟨route, k, mapped, htaken, hanswers⟩ := h.answers c hc
    exact ⟨route, k, mapped, hsub route htaken, hanswers⟩
  covers route e t htaken halong := by
    rcases hnew route htaken with htaken | hnone
    · exact h.covers route e t htaken halong
    · rw [hnone] at halong
      cases halong

/-- One more route is taken, to a node of an entity that is referred to. -/
theorem selectEntity (h : ctx.Flattens target entity R select) (hparts : Path.AreParts route)
    (halong : ctx.along? target route = some k) (hn : ctx.nodes[k]? = some n)
    (href : ctx.catalog.referencedAlong? entity route = some n.entity)
    (hok : ctx.selectEntity k target (Path.join route) select = .ok select') :
    ctx.Flattens target entity (fun route' => R route' ∨ route' = route) select' := by
  obtain ⟨hthere, more, rfl, hmore⟩ := selectEntity_eq_ok hparts halong hok
  constructor
  case distinct => exact h.distinct.selectEntity hok
  case answers =>
    intro c hc
    rcases List.mem_append.mp hc with hc | hc
    · obtain ⟨route', k', mapped, htaken, hanswers⟩ := h.answers c hc
      exact ⟨route', k', mapped, .inl htaken, hanswers⟩
    · obtain ⟨mapped, hanswers⟩ := hmore c hc
      exact ⟨route, k, mapped, .inr rfl, by rw [href]; rfl, hanswers⟩
  case covers =>
    rintro route' e t (htaken | rfl) halong' ht mapped hmapped hanswered
    · obtain ⟨c, hc, hlabel⟩ :=
        selects_iff.mp (h.covers route' e t htaken halong' ht mapped hmapped hanswered)
      exact selects_iff.mpr ⟨c, List.mem_append_left _ hc, hlabel⟩
    · cases href.symm.trans halong'
      exact hthere t (table_eq_ok_iff.mpr ⟨n, hn, ht⟩) mapped hmapped hanswered

end Flattens

/-- Going on from the end of a route takes the routes to each part of what follows. -/
theorem selectAlong_flattens (hparts : Path.AreParts (route ++ segments)) (harena : ctx.Arena)
    (hregistered : ctx.Registered) (hi : ctx.along? target route = some i)
    (hn : ctx.nodes[i]? = some n)
    (href : ctx.catalog.referencedAlong? entity route = some n.entity) (hroute : R route)
    (h : ctx.Flattens target entity R select) :
    (selectAlong target i (Path.join route) select segments).Leads ctx fun select ctx' =>
      ctx'.Flattens target entity
        (fun route' => R route' ∨ ∃ taken, taken <+: segments ∧ route' = route ++ taken)
        select := by
  induction segments generalizing ctx route i select R n with
  | nil =>
      refine Leads.pure (h.more (fun _ => .inl) ?_)
      rintro _ (htaken | ⟨taken, htaken, rfl⟩)
      · exact .inl htaken
      · obtain rfl := List.prefix_nil.mp htaken
        exact .inl (by rwa [List.append_nil])
  | cons segment rest ih =>
      rw [List.append_cons] at hparts
      have hbefore : Path.AreParts (route ++ [segment]) := (Path.AreParts.append_iff.mp hparts).1
      obtain ⟨hrouteParts, hsegment⟩ := Path.AreParts.append_iff.mp hbefore
      unfold selectAlong
      refine (addPath_part_leads i hsegment).adapt.bind fun next ctx' hgrows hnext => ?_
      obtain ⟨n', hn', more, rfl⟩ := hgrows.node hn
      have harena' := harena.grows hgrows
      have hregistered' := hregistered.grows hgrows
      have hchild : ctx'.child? i (.navigation segment) = some next := by
        obtain ⟨k, hk, hrest⟩ := Option.bind_eq_some_iff.mp hnext
        cases hrest
        exact hk
      obtain ⟨m, hm, hstep⟩ := hregistered'.referencedAlong?_of_child? harena' hn' hchild
      have href' : ∀ rest, ctx'.catalog.referencedAlong? entity (route ++ segment :: rest) =
          if ctx'.isInverse next then none else ctx'.catalog.referencedAlong? m.entity rest := by
        intro rest
        rw [Catalog.referencedAlong?_append, hgrows.catalog, href, Option.bind_some,
          ← hgrows.catalog]
        exact hstep rest
      have hflattens := h.grows hgrows
      refine Leads.get_bind ?_
      split
      · -- behind a collection nothing is referred to
        rename_i hinverse
        refine Leads.pure (hflattens.more (fun _ => .inl) ?_)
        rintro _ (htaken | ⟨taken, htaken, rfl⟩)
        · exact .inl htaken
        · cases taken with
          | nil => exact .inl (by rwa [List.append_nil])
          | cons first taken =>
              obtain ⟨rfl, -⟩ := List.cons_prefix_cons.mp htaken
              exact .inr (by rw [href', if_pos hinverse])
      · rename_i hforward
        refine Leads.look_bind fun select' hselect' => ?_
        have halong : ctx'.along? target (route ++ [segment]) = some next := by
          rw [along?_append_of (hgrows.along? hi), hnext]
        have hrefNext : ctx'.catalog.referencedAlong? entity (route ++ [segment]) =
            some m.entity := by
          rw [href', if_neg hforward]
          rfl
        rw [Path.below_join_singleton hrouteParts] at hselect' ⊢
        have hstep := hflattens.selectEntity hbefore halong hm hrefNext
          (Except.mapError_eq_ok_iff.mp hselect')
        refine (ih hparts harena' hregistered' halong hm hrefNext (.inr rfl) hstep).mono ?_
        refine fun select'' ctx'' _ hall => hall.more ?_ ?_
        · rintro route' ((htaken | rfl) | ⟨taken, htaken, rfl⟩)
          · exact .inl htaken
          · exact .inr ⟨[segment], by simp, rfl⟩
          · refine .inr ⟨segment :: taken, ?_, by simp⟩
            exact (List.prefix_cons_inj segment).mpr htaken
        · rintro route' (htaken | ⟨taken, htaken, rfl⟩)
          · exact .inl (.inl (.inl htaken))
          · cases taken with
            | nil => exact .inl (.inl (.inl (by rwa [List.append_nil])))
            | cons first taken =>
                obtain ⟨rfl, hrest⟩ := List.cons_prefix_cons.mp htaken
                exact .inl (.inr ⟨taken, hrest, by simp⟩)

/-- In the end the routes that have been taken are the parts of the included paths. -/
theorem selectAll_flattens {includes : List String} (harena : ctx.Arena)
    (hregistered : ctx.Registered) (hn : ctx.nodes[target]? = some n) :
    (selectAll target includes).Leads ctx fun select ctx' =>
      ctx'.Flattens target n.entity (IncludedParts includes) select := by
  unfold selectAll
  refine Leads.look_bind fun own hown => ?_
  have hnothing : ctx.Flattens target n.entity (fun _ => False) [] :=
    ⟨List.nodup_nil, fun _ hc => absurd hc (List.not_mem_nil), fun _ _ _ h => h.elim⟩
  have hown := hnothing.selectEntity Path.AreParts.nil along?_nil hn rfl
    (Except.mapError_eq_ok_iff.mp hown)
  have hstart : ctx.Flattens target n.entity (IncludedParts []) own := by
    refine hown.more (fun route h => .inl (h.resolve_left id)) ?_
    rintro route (rfl | ⟨path, hpath, -⟩)
    · exact .inl (.inr rfl)
    · exact absurd hpath (List.not_mem_nil)
  have hall := @Leads.foldlM_seen _ _ _ ctx
    (fun seen select ctx' => ctx'.Flattens target n.entity (IncludedParts seen) select)
    (fun select path => do
      let segments ← Growing.look fun _ => includeSegments path
      selectAlong target target "" select segments) own includes [] hstart
    (fun seen select path ctx' _ hgrows hselect => by
      refine Leads.look_bind fun segments hsegments => ?_
      obtain ⟨hblank, rfl⟩ := includeSegments_eq_ok_iff.mp hsegments
      obtain ⟨n', hn', more, rfl⟩ := hgrows.node hn
      have halong : (selectAlong target target (Path.join []) select (Path.segments path)).Leads
          ctx' _ := selectAlong_flattens (Path.areParts_segments hblank) (harena.grows hgrows)
        (hregistered.grows hgrows) along?_nil hn' rfl (.inl rfl) hselect
      refine halong.mono fun select' ctx'' _ h => h.more ?_ ?_
      · rintro route (hpart | ⟨taken, htaken, rfl⟩)
        · rcases hpart with rfl | ⟨other, hother, hpre⟩
          · exact .inl rfl
          · exact .inr ⟨other, List.mem_append_left _ hother, hpre⟩
        · exact .inr ⟨path, by simp, htaken⟩
      · rintro route (rfl | ⟨other, hother, hpre⟩)
        · exact .inl (.inl (.inl rfl))
        · rcases List.mem_append.mp hother with hother | hother
          · exact .inl (.inl (.inr ⟨other, hother, hpre⟩))
          · obtain rfl := List.mem_singleton.mp hother
            exact .inl (.inr ⟨route, hpre, rfl⟩))
  exact hall

/-! ## What is selected in the end -/

/-- The column of a select list for a member at the end of a route. -/
def Entry (ctx : Context) (target : Nat) (route : List String) (mapped : Column)
    (c : NodeColumn) : Prop :=
  ∃ k resolved, ctx.along? target route = some k ∧
    ctx.resolveMember k mapped.member target = .ok resolved ∧
    c = resolved.withLabel (Path.join (route ++ [mapped.member]))

/-- A select list has one column for each member that is asked for, resolved at the end of its
route, no other column, and no label twice. -/
structure SelectsAll (ctx : Context) (target : Nat) (includes : List String)
    (select : List NodeColumn) : Prop where
  distinct : DistinctLabels select
  entry : ∀ n route mapped, ctx.nodes[target]? = some n →
    ctx.catalog.Asks n.entity includes route mapped → ∃ c ∈ select, ctx.Entry target route mapped c
  only : ∀ c ∈ select, ∃ n route mapped, ctx.nodes[target]? = some n ∧
    ctx.catalog.Asks n.entity includes route mapped ∧ ctx.Entry target route mapped c

theorem Entry.label {mapped : Column} {c : NodeColumn} (h : ctx.Entry target route mapped c) :
    c.label = some (Path.join (route ++ [mapped.member])) := by
  obtain ⟨k, resolved, -, -, rfl⟩ := h
  rfl

theorem Entry.unique {mapped : Column} {c c' : NodeColumn} (h : ctx.Entry target route mapped c)
    (h' : ctx.Entry target route mapped c') : c' = c := by
  obtain ⟨k, resolved, hk, hresolved, rfl⟩ := h
  obtain ⟨k', resolved', hk', hresolved', rfl⟩ := h'
  cases hk.symm.trans hk'
  cases hresolved.symm.trans hresolved'
  rfl

theorem Entry.grows {mapped : Column} {c : NodeColumn} (h : ctx.Entry target route mapped c)
    (hgrows : ctx.Grows ctx') : ctx'.Entry target route mapped c := by
  obtain ⟨k, resolved, hk, hresolved, heq⟩ := h
  have hresolves := (resolveMember_eq_ok_iff.mp hresolved).grows hgrows
  exact ⟨k, resolved, hgrows.along? hk, resolveMember_eq_ok_iff.mpr hresolves, heq⟩

theorem Answers.entry {mapped : Column} {c : NodeColumn}
    (h : ctx.Answers target route k mapped c) : ctx.Entry target route mapped c := by
  obtain ⟨resolved, hresolved, heq⟩ := h.resolves
  exact ⟨k, resolved, h.along, resolveMember_eq_ok_iff.mpr hresolved, heq⟩

/-- What a route of references leads to is of the entity that the catalog says. -/
theorem Registered.entity_of_referencedAlong? {e : String} (h : ctx.Registered)
    (harena : ctx.Arena) (hn : ctx.nodes[i]? = some n) (hk : ctx.along? i route = some k)
    (href : ctx.catalog.referencedAlong? n.entity route = some e) :
    ∃ m, ctx.nodes[k]? = some m ∧ m.entity = e := by
  induction route generalizing i n with
  | nil =>
      obtain rfl := Option.some.inj hk
      obtain rfl := Option.some.inj href
      exact ⟨n, hn, rfl⟩
  | cons member rest ih =>
      obtain ⟨next, hchild, hk⟩ := Option.bind_eq_some_iff.mp hk
      obtain ⟨m, hm, hstep⟩ := h.referencedAlong?_of_child? harena hn hchild
      rw [hstep] at href
      split at href
      · cases href
      · exact ih hm hk href

theorem dotless_of_includedParts {includes : List String} (h : IncludedParts includes route) :
    ∀ name ∈ route, '.' ∉ name.toList := by
  rcases h with rfl | ⟨path, -, hpre⟩
  · exact fun _ hname => absurd hname (List.not_mem_nil)
  · exact fun name hname => Path.notMem_of_mem_segments (hpre.subset hname)

/-- Where no member has a dot in its name, a label tells which member it stands for. -/
theorem Flattens.selectsAll {includes : List String}
    (h : ctx.Flattens target n.entity (IncludedParts includes) select) (harena : ctx.Arena)
    (hregistered : ctx.Registered) (haccepted : ctx.catalog.Accepted)
    (hdotless : ctx.catalog.Dotless) (hn : ctx.nodes[target]? = some n) :
    ctx.SelectsAll target includes select := by
  have hentity : ∀ {route k mapped c}, ctx.Answers target route k mapped c → ∀ {e},
      ctx.catalog.referencedAlong? n.entity route = some e →
      ∃ t, ctx.catalog.table e = .ok t ∧ mapped ∈ t.columns := by
    intro route k mapped c hanswers e href
    obtain ⟨m, hm, rfl⟩ := hregistered.entity_of_referencedAlong? harena hn hanswers.along href
    obtain ⟨t, ht, hmapped⟩ := hanswers.hasColumn
    obtain ⟨m', hm', htable⟩ := table_eq_ok_iff.mp ht
    cases hm.symm.trans hm'
    exact ⟨t, htable, hmapped⟩
  constructor
  case distinct => exact h.distinct
  case only =>
    intro c hc
    obtain ⟨route, k, mapped, htaken, hsome, hanswers⟩ := h.answers c hc
    obtain ⟨e, href⟩ := Option.isSome_iff_exists.mp hsome
    obtain ⟨t, ht, hmapped⟩ := hentity hanswers href
    exact ⟨n, route, mapped, hn, ⟨htaken, ⟨e, t, href, ht, hmapped⟩, hanswers.isAnswered⟩,
      hanswers.entry⟩
  case entry =>
    intro n' route mapped hn' hasks
    cases hn.symm.trans hn'
    obtain ⟨e, t, href, ht, hmapped⟩ := hasks.along
    obtain ⟨c, hc, hlabel⟩ := selects_iff.mp
      (h.covers route e t hasks.isPart href ht mapped hmapped hasks.isAnswered)
    obtain ⟨route', k, mapped', htaken, hsome, hanswers⟩ := h.answers c hc
    obtain ⟨e', href'⟩ := Option.isSome_iff_exists.mp hsome
    obtain ⟨t', ht', hmapped'⟩ := hentity hanswers href'
    have hnames : ∀ {route t e} {mapped : Column}, IncludedParts includes route →
        ctx.catalog.table e = .ok t → mapped ∈ t.columns →
        ∀ name ∈ route ++ [mapped.member], '.' ∉ name.toList := by
      intro route t e mapped hpart ht hmapped name hname
      rcases List.mem_append.mp hname with hname | hname
      · exact dotless_of_includedParts hpart name hname
      · obtain rfl := List.mem_singleton.mp hname
        exact hdotless t (Catalog.mem_of_table ht).1 mapped hmapped
    have hsame := Path.join_inj (by simp) (by simp) (hnames htaken ht' hmapped')
      (hnames hasks.isPart ht hmapped) (Option.some.inj (hanswers.label.symm.trans hlabel))
    obtain ⟨rfl, hmember⟩ := List.append_inj' hsame rfl
    cases href.symm.trans href'
    cases ht.symm.trans ht'
    obtain rfl := haccepted.eq_of_member (Catalog.mem_of_table ht).1 hmapped hmapped'
      (List.singleton_inj.mp hmember).symm
    exact ⟨c, hc, hanswers.entry⟩

/-! ## However the paths are ordered -/

/-- The same labels, and behind each the same column of nodes to which the same keys lead. -/
structure SameColumns (ctx : Context) (target : Nat) (select : List NodeColumn) (ctx' : Context)
    (select' : List NodeColumn) : Prop where
  forth : ∀ c ∈ select, ∃ c' ∈ select', c'.label = c.label ∧
    ctx.AlikeColumns target ctx' target c c'
  back : ∀ c' ∈ select', ∃ c ∈ select, c'.label = c.label ∧
    ctx.AlikeColumns target ctx' target c c'

theorem asks_of_includes {catalog : Catalog} {includes includes' : List String} {mapped : Column}
    (hsame : ∀ path, path ∈ includes' ↔ path ∈ includes)
    (h : catalog.Asks entity includes route mapped) :
    catalog.Asks entity includes' route mapped where
  isPart := h.isPart.imp_right fun ⟨path, hpath, hpre⟩ => ⟨path, (hsame path).mpr hpath, hpre⟩
  along := h.along
  isAnswered := h.isAnswered

/-- The columns of a member in two contexts are alike. -/
theorem Twins.alike_of_entry {mapped : Column} {c c' : NodeColumn}
    (h : Twins ctx target ctx' target) (hc : ctx.Entry target route mapped c)
    (hc' : ctx'.Entry target route mapped c') :
    c'.label = c.label ∧ ctx.AlikeColumns target ctx' target c c' := by
  refine ⟨by rw [hc.label, hc'.label], ?_⟩
  obtain ⟨k, resolved, hk, hresolved, rfl⟩ := hc
  obtain ⟨k', resolved', hk', hresolved', rfl⟩ := hc'
  have halike := h.alike_of_resolves ⟨_, hk, hk'⟩ (resolveMember_eq_ok_iff.mp hresolved)
    (resolveMember_eq_ok_iff.mp hresolved')
  exact ⟨halike.node, halike.member, halike.column⟩

theorem SelectsAll.sameColumns {includes includes' : List String}
    (h : ctx.SelectsAll target includes select)
    (h' : ctx'.SelectsAll target includes' select') (htwins : Twins ctx target ctx' target)
    (hsame : ∀ path, path ∈ includes' ↔ path ∈ includes) :
    ctx.SameColumns target select ctx' select' := by
  obtain ⟨n, n', hn, hn', hentity⟩ := htwins.entity
  constructor
  case forth =>
    intro c hc
    obtain ⟨m, route, mapped, hm, hasks, hentry⟩ := h.only c hc
    cases hn.symm.trans hm
    have hasks' := asks_of_includes hsame hasks
    rw [← htwins.catalog, ← hentity] at hasks'
    obtain ⟨c', hc', hentry'⟩ := h'.entry n' route mapped hn' hasks'
    exact ⟨c', hc', htwins.alike_of_entry hentry hentry'⟩
  case back =>
    intro c' hc'
    obtain ⟨m, route, mapped, hm, hasks, hentry'⟩ := h'.only c' hc'
    cases hn'.symm.trans hm
    have hasks' := asks_of_includes (fun path => (hsame path).symm) hasks
    rw [htwins.catalog, hentity] at hasks'
    obtain ⟨c, hc, hentry⟩ := h.entry n route mapped hn hasks'
    exact ⟨c, hc, htwins.alike_of_entry hentry hentry'⟩

/-- In a context that has grown the very same columns are selected. -/
theorem SelectsAll.mem_iff {includes includes' : List String}
    (h : ctx.SelectsAll target includes select) (h' : ctx'.SelectsAll target includes' select')
    (hgrows : ctx.Grows ctx') (hn : ctx.nodes[target]? = some n)
    (hsame : ∀ path, path ∈ includes' ↔ path ∈ includes) (c : NodeColumn) :
    c ∈ select' ↔ c ∈ select := by
  obtain ⟨n', hn', more, rfl⟩ := hgrows.node hn
  constructor
  · intro hc
    obtain ⟨m, route, mapped, hm, hasks, hentry⟩ := h'.only c hc
    cases hn'.symm.trans hm
    have hasks' := asks_of_includes (fun path => (hsame path).symm) hasks
    rw [hgrows.catalog] at hasks'
    obtain ⟨c', hc', hentry'⟩ := h.entry n route mapped hn hasks'
    obtain rfl := hentry.unique (hentry'.grows hgrows)
    exact hc'
  · intro hc
    obtain ⟨m, route, mapped, hm, hasks, hentry⟩ := h.only c hc
    cases hn.symm.trans hm
    have hasks' := asks_of_includes hsame hasks
    rw [← hgrows.catalog] at hasks'
    obtain ⟨c', hc', hentry'⟩ := h'.entry _ route mapped hn' hasks'
    obtain rfl := hentry'.unique (hentry.grows hgrows)
    exact hc'

end Context

namespace Request

variable {ctx ctx' ctx₁ : Context} {target : Nat} {r r' : Request} {p p' : Plan}

/-- A plan for the rows of a request: the single plan of some scope, or the one whose rows a
strategy answers. -/
inductive Yields (r : Request) (target : Nat) (ctx : Context) (p : Plan) (ctx' : Context) : Prop
  | plan {scope : Scope} (hrun : (r.plan target scope).run ctx = (.ok p, ctx'))
  | result {s : Strategy} (hrun : (r.strategy target).run ctx = (.ok s, ctx'))
      (hresult : s.resultPlan = p)

theorem Yields.call (h : r.Yields target ctx p ctx') : ctx.Call ctx' := by
  cases h with
  | @plan scope hrun =>
      have hcall : ctx.Call ((r.plan target scope).run ctx).2 := .plan r target scope
      rwa [hrun] at hcall
  | result hrun =>
      have hcall : ctx.Call ((r.strategy target).run ctx).2 := .strategy r target
      rwa [hrun] at hcall

/-- A plan selects what a draft of the request does. -/
theorem Yields.exists_draft {Q : Draft → Context → Prop} (h : r.Yields target ctx p ctx')
    (hdraft : ∀ scope, (r.draft target scope).Leads ctx Q) :
    ∃ d, Q d ctx' ∧ p.target = d.target ∧ p.select = d.select := by
  cases h with
  | @plan scope hrun =>
      have hplan : (r.plan target scope).Leads ctx fun p ctx' =>
          ∃ d, Q d ctx' ∧ p.target = d.target ∧ p.select = d.select := by
        unfold Request.plan checkedDraft
        refine Leads.bind (Leads.look_bind fun _ _ => hdraft scope) fun d ctx₁ _ hd => ?_
        refine Leads.look fun p hp => ?_
        obtain ⟨_, -, rfl, -⟩ := Context.plan_eq_ok hp
        exact ⟨_, hd, rfl, rfl⟩
      have hselect := hplan.answer p (congrArg (·.1) hrun)
      rwa [hrun] at hselect
  | @result s hrun hresult =>
      obtain ⟨d, hd, htarget, hselect⟩ :=
        (strategy_resultPlan (hdraft .outer)).answer s (congrArg (·.1) hrun)
      rw [hrun] at hd
      exact ⟨d, hd, hresult ▸ htarget, hresult ▸ hselect⟩

theorem Yields.exists_node (h : r.Yields target ctx p ctx') :
    ∃ n, ctx.nodes[target]? = some n := by
  obtain ⟨d, hd, -, -⟩ := h.exists_draft (Q := fun d ctx' => r.Drafts ctx ctx' target d)
    fun scope => r.draft_leads target scope
  exact hd.node

theorem bind_eq_selectAll {selection : Selection} (h : selection.entries = []) :
    selection.bind target = Context.selectAll target selection.includes := by
  cases selection with
  | allColumns paths => rfl
  | projection entries =>
      obtain rfl : entries = [] := h
      rfl

theorem Yields.selectsAll (h : r.Yields target ctx p ctx') (harena : ctx.Arena)
    (hregistered : ctx.Registered) (haccepted : ctx.catalog.Accepted)
    (hdotless : ctx.catalog.Dotless) (hwhole : r.selection.entries = []) :
    ctx'.SelectsAll target r.includes p.select := by
  have hgrows := h.call.grows
  obtain ⟨n, hn⟩ := h.exists_node
  obtain ⟨n', hn', more, heq⟩ := hgrows.node hn
  have hentity : n'.entity = n.entity := by rw [heq]
  have hbind : (r.selection.bind target).Leads ctx fun select ctx' =>
      ctx'.Flattens target n.entity (IncludedParts r.includes) select := by
    rw [bind_eq_selectAll hwhole]
    exact Context.selectAll_flattens harena hregistered hn
  obtain ⟨d, ⟨-, hflattens⟩, -, hselect⟩ := h.exists_draft fun scope =>
    draft_leads_of_bind scope (fun _ _ _ hgrows h => h.grows hgrows) hbind
  rw [← hentity] at hflattens
  rw [hselect]
  exact hflattens.selectsAll (harena.grows hgrows) (hregistered.grows hgrows)
    (by rwa [hgrows.catalog]) (by rwa [hgrows.catalog]) hn'

theorem Yields.twins (hctx : ctx.Reachable) (h : r.Yields target ctx p ctx')
    (h' : r'.Yields target ctx p' ctx₁) : ctx'.Twins target ctx₁ target := by
  obtain ⟨n, hn⟩ := h.exists_node
  obtain ⟨n', hn', more, rfl⟩ := h.call.grows.node hn
  obtain ⟨n₁, hn₁, more₁, rfl⟩ := h'.call.grows.node hn
  have hreachable := hctx.call h.call
  exact ⟨hreachable, hctx.call h'.call, hreachable.catalog_accepted,
    h'.call.grows.catalog.trans h.call.grows.catalog.symm, _, _, hn', hn₁, rfl⟩

/-- A query for all columns selects those that are asked for, each once and under the name of its
member below its path. The order and the repetition of the included paths do not matter: from one
context they lead to the same columns, but for the numbers of the nodes, and to the very same in a
context in which the paths are there. -/
theorem selectsAll_of_yields (hctx : ctx.Reachable) (hdotless : ctx.catalog.Dotless)
    (hwhole : r.selection.entries = []) (h : r.Yields target ctx p ctx') :
    ctx'.SelectsAll target r.includes p.select ∧
      ∀ r' : Request, r'.selection.entries = [] →
        (∀ path, path ∈ r'.includes ↔ path ∈ r.includes) →
          (∀ p' ctx₁, r'.Yields target ctx p' ctx₁ →
            ctx'.SameColumns target p.select ctx₁ p'.select) ∧
          ∀ p' ctx₁ ctx₂, ctx'.Grows ctx₁ → r'.Yields target ctx₁ p' ctx₂ →
            ∀ c, c ∈ p'.select ↔ c ∈ p.select := by
  have harena := hctx.arena
  have hregistered := hctx.registered
  have haccepted := hctx.catalog_accepted
  have hgrows := h.call.grows
  have hall := h.selectsAll harena hregistered haccepted hdotless hwhole
  refine ⟨hall, fun r' hwhole' hsame => ⟨fun p' ctx₁ h' => ?_, fun p' ctx₁ ctx₂ hlater h' => ?_⟩⟩
  · have hall' := h'.selectsAll harena hregistered haccepted hdotless hwhole'
    exact hall.sameColumns hall' (h.twins hctx h') hsame
  · have hfrom := hgrows.trans hlater
    have hall' := h'.selectsAll (harena.grows hfrom) (hregistered.grows hfrom)
      (by rwa [hfrom.catalog]) (by rwa [hfrom.catalog]) hwhole'
    obtain ⟨n, hn⟩ := h.exists_node
    obtain ⟨n', hn', -⟩ := hgrows.node hn
    exact hall.mem_iff hall' (hlater.trans h'.call.grows) hn' hsame

end Request

/-! ## Transfers between accounts -/

def transferTables : List Table :=
  [{ entity := "Transfer", table := "transfers"
     columns := [
       { member := "Id", column := "id", type := .int64, primaryKey := true },
       { member := "FromId", column := "from_id", type := .int64, shadow := true },
       { member := "ToId", column := "to_id", type := .int64, shadow := true }]
     relationships := [
       { name := "From", kind := .manyToOne, foreignKey := ⟨"Transfer", "FromId"⟩
         primaryKey := ⟨"Account", "Id"⟩ },
       { name := "To", kind := .manyToOne, foreignKey := ⟨"Transfer", "ToId"⟩
         primaryKey := ⟨"Account", "Id"⟩ }]
     permissions := {} },
   { entity := "Account", table := "accounts"
     columns := [
       { member := "Id", column := "id", type := .int64, primaryKey := true },
       { member := "Owner", column := "owner", type := .text }]
     relationships := []
     permissions := {} }]

def transferContext : Context :=
  { catalog := ⟨transferTables, []⟩
    nodes := #[{ index := 0, entity := "Transfer", table := "transfers", level := 0, link := none
                 joinKind := .inner, children := [] }] }

theorem reachable_transferContext : transferContext.Reachable :=
  have haccepted : Definition.toCatalog ⟨[], transferTables⟩ = .ok ⟨transferTables, []⟩ := rfl
  have hctx : Context.ofEntity ⟨transferTables, []⟩ "Transfer" = .ok transferContext := rfl
  .start haccepted hctx

def transfersAlong (paths : List String) : Request :=
  { selection := .allColumns paths }

/-- The columns of a transfer and of its accounts, by the nodes of the accounts. The keys of the
accounts are read from the transfer. -/
def transferColumns (sender receiver : Nat) : List NodeColumn :=
  [{ node := 0, member := "Id", column := "id", label := some "Id" },
   { node := 0, member := "FromId", column := "from_id", label := some "From.Id" },
   { node := sender, member := "Owner", column := "owner", label := some "From.Owner" },
   { node := 0, member := "ToId", column := "to_id", label := some "To.Id" },
   { node := receiver, member := "Owner", column := "owner", label := some "To.Owner" }]

/-- The accounts are numbered in the order of the paths, but the same is selected of them. -/
theorem selectsAll_transfersAlong : ∃ p p' ctx₁ ctx₂,
    (transfersAlong ["From", "To"]).Yields 0 transferContext p ctx₁ ∧
      (transfersAlong ["To", "From", "To"]).Yields 0 transferContext p' ctx₂ ∧
      p.select = transferColumns 1 2 ∧ (∀ c ∈ transferColumns 2 1, c ∈ p'.select) ∧
      ctx₁.SelectsAll 0 ["From", "To"] p.select ∧
      ctx₁.SameColumns 0 p.select ctx₂ p'.select := by
  have hfirst : (((transfersAlong ["From", "To"]).plan 0 .outer).run
      transferContext).1.toOption.map (·.select) = some (transferColumns 1 2) := by cbv
  have hsecond : (((transfersAlong ["To", "From", "To"]).plan 0 .outer).run
      transferContext).1.toOption.any fun p => (transferColumns 2 1).all p.select.contains := by cbv
  rcases hrun : ((transfersAlong ["From", "To"]).plan 0 .outer).run transferContext with
    ⟨e | p, ctx₁⟩
  · rw [hrun] at hfirst
    cases hfirst
  rcases hrun' : ((transfersAlong ["To", "From", "To"]).plan 0 .outer).run transferContext with
    ⟨e | p', ctx₂⟩
  · rw [hrun'] at hsecond
    cases hsecond
  rw [hrun] at hfirst
  rw [hrun'] at hsecond
  have hall := Request.selectsAll_of_yields reachable_transferContext (by decide) rfl (.plan hrun)
  have hsame := (hall.2 (transfersAlong ["To", "From", "To"]) rfl
    (by simp [Request.includes, Selection.includes, transfersAlong, or_comm])).1 p' ctx₂
    (.plan hrun')
  have hthere : (transferColumns 2 1).all p'.select.contains := hsecond
  exact ⟨p, p', ctx₁, ctx₂, .plan hrun, .plan hrun', Option.some.inj hfirst,
    by simpa using hthere, hall.1, hsame⟩

end EntityMap
