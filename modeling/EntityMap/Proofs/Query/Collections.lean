import EntityMap.Proofs.Query.Selected

/-!
# The collections that included paths come to first

Walking along included paths finds the collections that they come to
first, each once, with what goes on behind it (`Context.FoundAlong`): a
path either comes to no collection at all, or to one that is found, and
then its rest is among what goes on there. For each of them one query is
planned (`Context.collectionPlan_hangs`), which hangs on the plan that
answers the keys of the parent rows (`IncludePlan.HangsOn`).

Nothing of this changes while the context grows further.
-/

namespace EntityMap

open Growing

namespace Context

variable {ctx ctx' : Context} {target i k : Nat} {parent : Plan} {label path : String}
  {route above done rest segments includes : List String}

theorem Grows.key {key : Column} (h : ctx.Grows ctx') (hkey : ctx.key i = .ok key) :
    ctx'.key i = .ok key := by
  obtain ⟨t, ht, hkey⟩ := Except.bind_eq_ok_iff.mp hkey
  exact Except.bind_eq_ok_iff.mpr ⟨t, h.table_eq ht, hkey⟩

/-- A collection that a route from the target of a plan comes to first. The plan answers the key
of the node that the collection hangs off, under the name that joins the way there and the key. -/
structure CollectionBelow (ctx : Context) (parent : Plan) (route : List String) (k : Nat)
    (label : String) : Prop where
  parts : Path.AreParts route
  first : ctx.FirstCollection parent.target route k
  selected : (parent.columnPosition? label).isSome
  keyed : ∃ o key, ctx.along? parent.target route.dropLast = some o ∧ ctx.key o = .ok key ∧
    label = Path.join (route.dropLast ++ [key.member])

theorem CollectionBelow.grows (h : ctx.CollectionBelow parent route k label)
    (hregistered : ctx.Registered) (hgrows : ctx.Grows ctx') :
    ctx'.CollectionBelow parent route k label where
  parts := h.parts
  first := h.first.grows hregistered hgrows
  selected := h.selected
  keyed := by
    obtain ⟨o, key, ho, hkey, hlabel⟩ := h.keyed
    exact ⟨o, key, hgrows.along? ho, hgrows.key hkey, hlabel⟩

/-! ## One path -/

/-- What a walk along a path finds. -/
def FoundFirst (ctx : Context) (parent : Plan) (segments : List String) :
    Option IncludedCollection → Prop
  | none => ctx.Clear parent.target segments
  | some c => ∃ route rest, segments = route ++ rest ∧
      ctx.CollectionBelow parent route c.node c.parentKeyLabel ∧ c.path = Path.join route ∧
      c.nested = if rest.isEmpty then [] else [Path.join rest]

theorem collectionAt_eq_ok {next : Nat} {segment : String} {c : IncludedCollection}
    (h : ctx.collectionAt parent path i next done rest segment = .ok c) :
    c.node = next ∧ c.path = Path.join (done ++ [segment]) ∧
      c.nested = (if rest.isEmpty then [] else [Path.join rest]) ∧
      (parent.columnPosition? c.parentKeyLabel).isSome ∧
      ∃ key, ctx.key i = .ok key ∧ c.parentKeyLabel = Path.below (Path.join done) key.member := by
  unfold collectionAt at h
  obtain ⟨t, ht, h⟩ := Except.bind_eq_ok_iff.mp h
  obtain ⟨key, hkey, h⟩ := Except.bind_eq_ok_iff.mp h
  by_cases hmissing : (parent.columnPosition? (Path.below (Path.join done) key.member)).isNone
  · rw [if_pos hmissing] at h
    cases h
  · rw [if_neg hmissing] at h
    cases h
    have hkey : ctx.key i = .ok key :=
      Except.bind_eq_ok_iff.mpr ⟨t, Except.mapError_eq_ok_iff.mp ht,
        Except.mapError_eq_ok_iff.mpr (Except.mapError_eq_ok_iff.mp hkey)⟩
    exact ⟨rfl, rfl, rfl, by simpa [Option.isSome_iff_ne_none] using hmissing, key, hkey, rfl⟩

/-- A walk goes on from the end of a clear route. -/
theorem firstCollection_finds (hregistered : ctx.Registered)
    (hparts : Path.AreParts (done ++ segments))
    (hi : ctx.along? parent.target done = some i) (hclear : ctx.Clear parent.target done) :
    (firstCollection parent path i done segments).Leads ctx
      fun first ctx' => ctx'.FoundFirst parent (done ++ segments) first := by
  induction segments generalizing ctx done i with
  | nil => exact Leads.pure (by rwa [List.append_nil])
  | cons segment rest ih =>
      rw [List.append_cons] at hparts ⊢
      have hroute : Path.AreParts (done ++ [segment]) := (Path.AreParts.append_iff.mp hparts).1
      obtain ⟨hdone, hsegment⟩ := Path.AreParts.append_iff.mp hroute
      unfold firstCollection
      refine (addPath_part_leads i hsegment).adapt.bind fun next ctx' hgrows hnext => ?_
      have halong : ctx'.along? parent.target (done ++ [segment]) = some next := by
        rw [along?_append_of (hgrows.along? hi), hnext]
      refine Leads.get_bind ?_
      split
      · rename_i hinverse
        refine Leads.map (Leads.look fun c hc => ?_)
        obtain ⟨rfl, hpath, hnested, hselected, key, hkey, hlabel⟩ := collectionAt_eq_ok hc
        rw [Path.below_join_singleton hdone] at hlabel
        refine ⟨done ++ [segment], rest, rfl,
          ⟨hroute, ⟨by simp, halong, hinverse, ?_⟩, hselected, ?_⟩, hpath, hnested⟩
        · rw [List.dropLast_concat]
          exact hclear.grows hregistered hgrows
        · rw [List.dropLast_concat]
          exact ⟨i, key, hgrows.along? hi, hkey, hlabel⟩
      · rename_i hforward
        exact ih (hregistered.grows hgrows) hparts halong
          ((hclear.grows hregistered hgrows).concat halong (by simpa using hforward))

/-! ## All paths -/

/-- The collections that some paths come to first. -/
structure FoundAlong (ctx : Context) (parent : Plan) (includes : List String)
    (found : List IncludedCollection) : Prop where
  parts : ∀ path ∈ includes, Path.AreParts (Path.segments path)
  nodup : (found.map (·.node)).Nodup
  below : ∀ c ∈ found, ∃ route, ctx.CollectionBelow parent route c.node c.parentKeyLabel ∧
    c.path = Path.join route ∧ (∃ path ∈ includes, route <+: Path.segments path) ∧
    ∀ nested ∈ c.nested, ∃ path ∈ includes, ∃ rest, rest ≠ [] ∧
      Path.segments path = route ++ rest ∧ nested = Path.join rest
  covered : ∀ path ∈ includes, ctx.Clear parent.target (Path.segments path) ∨ ∃ c ∈ found,
    ∃ route rest, Path.segments path = route ++ rest ∧
      ctx.FirstCollection parent.target route c.node ∧ (rest ≠ [] → Path.join rest ∈ c.nested)

end Context

namespace IncludedCollection

variable {c c' : IncludedCollection} {found : List IncludedCollection}

theorem map_node_merge : (c.merge found).map (·.node) =
    if c.node ∈ found.map (·.node) then found.map (·.node) else found.map (·.node) ++ [c.node] := by
  induction found with
  | nil => rfl
  | cons other rest ih =>
      rw [merge]
      by_cases hsame : other.node = c.node
      · simp [hsame]
      · rw [if_neg hsame, List.map_cons, ih]
        by_cases hmem : c.node ∈ rest.map (·.node) <;> simp [hmem, Ne.symm hsame]

/-- What was found is still there, and so is the new one, with all that goes on behind it. -/
theorem exists_mem_merge (hc' : c' = c ∨ c' ∈ found) :
    ∃ c'' ∈ c.merge found, c''.node = c'.node ∧ ∀ nested ∈ c'.nested, nested ∈ c''.nested := by
  induction found with
  | nil =>
      obtain rfl := hc'.resolve_right List.not_mem_nil
      exact ⟨c', List.mem_singleton_self _, rfl, fun _ h => h⟩
  | cons other rest ih =>
      rw [merge]
      by_cases hsame : other.node = c.node
      · rw [if_pos hsame]
        rcases hc' with rfl | hc'
        · exact ⟨_, List.mem_cons_self .., hsame, fun _ h => List.mem_append_right _ h⟩
        · rcases List.mem_cons.mp hc' with rfl | hc'
          · exact ⟨_, List.mem_cons_self .., rfl, fun _ h => List.mem_append_left _ h⟩
          · exact ⟨c', List.mem_cons_of_mem _ hc', rfl, fun _ h => h⟩
      · rw [if_neg hsame]
        by_cases hother : c' = other
        · exact ⟨other, List.mem_cons_self .., hother ▸ rfl, hother ▸ fun _ h => h⟩
        · have hrest : c' = c ∨ c' ∈ rest :=
            hc'.imp_right fun h => (List.mem_cons.mp h).resolve_left hother
          obtain ⟨c'', hmem, h⟩ := ih hrest
          exact ⟨c'', List.mem_cons_of_mem _ hmem, h⟩

/-- Nothing is there but what was, and the new one, behind which more goes on. -/
theorem of_mem_merge (h : c' ∈ c.merge found) : c' = c ∨ c' ∈ found ∨
    ∃ other ∈ found, other.node = c.node ∧
      c' = { other with nested := other.nested ++ c.nested } := by
  induction found with
  | nil => exact .inl (List.mem_singleton.mp h)
  | cons other rest ih =>
      rw [merge] at h
      split at h
      · rename_i hsame
        rcases List.mem_cons.mp h with rfl | h
        · exact .inr (.inr ⟨other, List.mem_cons_self .., hsame, rfl⟩)
        · exact .inr (.inl (List.mem_cons_of_mem _ h))
      · rcases List.mem_cons.mp h with rfl | h
        · exact .inr (.inl (List.mem_cons_self ..))
        · rcases ih h with rfl | h | ⟨old, hold, h⟩
          · exact .inl rfl
          · exact .inr (.inl (List.mem_cons_of_mem _ h))
          · exact .inr (.inr ⟨old, List.mem_cons_of_mem _ hold, h⟩)

end IncludedCollection

namespace Context

variable {ctx ctx' : Context} {parent : Plan} {path : String} {includes : List String}
  {found : List IncludedCollection}

namespace FoundAlong

theorem grows (h : ctx.FoundAlong parent includes found) (hregistered : ctx.Registered)
    (hgrows : ctx.Grows ctx') : ctx'.FoundAlong parent includes found where
  parts := h.parts
  nodup := h.nodup
  below c hc := by
    obtain ⟨route, hbelow, hrest⟩ := h.below c hc
    exact ⟨route, hbelow.grows hregistered hgrows, hrest⟩
  covered path hpath := by
    refine (h.covered path hpath).imp (·.grows hregistered hgrows) ?_
    rintro ⟨c, hc, route, rest, hsplit, hfirst, hnested⟩
    exact ⟨c, hc, route, rest, hsplit, hfirst.grows hregistered hgrows, hnested⟩

/-- A path that comes to no collection adds none. -/
theorem clear (h : ctx.FoundAlong parent includes found)
    (hparts : Path.AreParts (Path.segments path))
    (hclear : ctx.Clear parent.target (Path.segments path)) :
    ctx.FoundAlong parent (includes ++ [path]) found where
  parts := List.forall_mem_append.mpr ⟨h.parts, by simpa using hparts⟩
  nodup := h.nodup
  below c hc := by
    obtain ⟨route, hbelow, hpath, ⟨earlier, hearlier, hroute⟩, hnested⟩ := h.below c hc
    refine ⟨route, hbelow, hpath, ⟨earlier, List.mem_append_left _ hearlier, hroute⟩, ?_⟩
    intro nested hmem
    obtain ⟨earlier, hearlier, hrest⟩ := hnested nested hmem
    exact ⟨earlier, List.mem_append_left _ hearlier, hrest⟩
  covered := List.forall_mem_append.mpr ⟨h.covered, by simpa using Or.inl hclear⟩

/-- A path that comes to a collection adds it, or its own rest to what goes on behind it. -/
theorem merge {c : IncludedCollection} {route rest : List String}
    (h : ctx.FoundAlong parent includes found) (hregistered : ctx.Registered) (harena : ctx.Arena)
    (hparts : Path.AreParts (Path.segments path)) (hsplit : Path.segments path = route ++ rest)
    (hbelow : ctx.CollectionBelow parent route c.node c.parentKeyLabel)
    (hpath : c.path = Path.join route)
    (hnested : c.nested = if rest.isEmpty then [] else [Path.join rest]) :
    ctx.FoundAlong parent (includes ++ [path]) (c.merge found) where
  parts := List.forall_mem_append.mpr ⟨h.parts, by simpa using hparts⟩
  nodup := by
    rw [IncludedCollection.map_node_merge]
    split
    · exact h.nodup
    · rename_i hnew
      exact List.nodup_append.mpr ⟨h.nodup, List.nodup_singleton _, by simpa using hnew⟩
  below c' hc' := by
    have hold : ∀ other ∈ found, ∃ route, ctx.CollectionBelow parent route other.node
        other.parentKeyLabel ∧ other.path = Path.join route ∧
        (∃ p ∈ includes ++ [path], route <+: Path.segments p) ∧
        ∀ nested ∈ other.nested, ∃ p ∈ includes ++ [path], ∃ rest, rest ≠ [] ∧
          Path.segments p = route ++ rest ∧ nested = Path.join rest := by
      intro other hother
      obtain ⟨route, hbelow, hpath, ⟨p, hp, hroute⟩, hnested⟩ := h.below other hother
      refine ⟨route, hbelow, hpath, ⟨p, List.mem_append_left _ hp, hroute⟩, fun nested hmem => ?_⟩
      obtain ⟨p, hp, hrest⟩ := hnested nested hmem
      exact ⟨p, List.mem_append_left _ hp, hrest⟩
    have hlast : path ∈ includes ++ [path] := List.mem_append_right _ (List.mem_singleton_self _)
    have hnew : ∀ nested ∈ c.nested, ∃ p ∈ includes ++ [path], ∃ rest, rest ≠ [] ∧
        Path.segments p = route ++ rest ∧ nested = Path.join rest := by
      intro nested hmem
      rw [hnested] at hmem
      split at hmem
      · cases hmem
      · rename_i hne
        exact ⟨path, hlast, rest, by simpa using hne, hsplit, List.mem_singleton.mp hmem⟩
    rcases IncludedCollection.of_mem_merge hc' with rfl | hc' | ⟨other, hother, hsame, rfl⟩
    · exact ⟨route, hbelow, hpath, ⟨path, hlast, hsplit ▸ List.prefix_append ..⟩, hnew⟩
    · exact hold c' hc'
    · obtain ⟨route', hbelow', hpath', hroute', hnested'⟩ := hold other hother
      have hend := hbelow'.first.along
      rw [hsame] at hend
      obtain rfl := hregistered.eq_of_along? harena hbelow.first.along hend
      refine ⟨route, hbelow', hpath', hroute', fun nested hmem => ?_⟩
      exact (List.mem_append.mp hmem).elim (hnested' nested) (hnew nested)
  covered := by
    refine List.forall_mem_append.mpr ⟨fun p hp => (h.covered p hp).imp_right ?_, ?_⟩
    · rintro ⟨c', hc', route', rest', hsplit', hfirst', hnested'⟩
      obtain ⟨c'', hmem, hnode, hsub⟩ := IncludedCollection.exists_mem_merge (c := c) (.inr hc')
      exact ⟨c'', hmem, route', rest', hsplit', hnode ▸ hfirst', fun hne => hsub _ (hnested' hne)⟩
    · refine List.forall_mem_singleton.mpr (.inr ?_)
      obtain ⟨c'', hmem, hnode, hsub⟩ := IncludedCollection.exists_mem_merge (c := c) (.inl rfl)
      refine ⟨c'', hmem, route, rest, hsplit, hnode ▸ hbelow.first, fun hne => hsub _ ?_⟩
      rw [hnested, if_neg (by simpa using hne)]
      exact List.mem_singleton_self _

end FoundAlong

theorem firstCollections_find (hregistered : ctx.Registered) (harena : ctx.Arena) :
    (firstCollections parent includes).Leads ctx
      fun found ctx' => ctx'.FoundAlong parent includes found := by
  unfold firstCollections
  refine Leads.foldlM_seen (S := fun seen found ctx' => ctx'.FoundAlong parent seen found)
    [] ⟨by simp, by simp, by simp, by simp⟩ ?_
  intro seen found path ctx₁ _ hgrows h
  refine Leads.look_bind fun segments hsegments => ?_
  obtain ⟨hblank, rfl⟩ := includeSegments_eq_ok_iff.mp hsegments
  have hparts := Path.areParts_segments hblank
  have hregistered := hregistered.grows hgrows
  have hwalk : (firstCollection parent path parent.target [] (Path.segments path)).Leads ctx₁
      fun first ctx' => ctx'.FoundFirst parent (Path.segments path) first :=
    firstCollection_finds hregistered hparts along?_nil Clear.nil
  refine hwalk.bind ?_
  intro first ctx₂ hgrows' hfirst
  have h := h.grows hregistered hgrows'
  cases first with
  | none => exact Leads.pure (h.clear hparts hfirst)
  | some c =>
      obtain ⟨route, rest, hsplit, hbelow, hpath, hnested⟩ := hfirst
      exact Leads.pure (h.merge (hregistered.grows hgrows')
        ((harena.grows hgrows).grows hgrows') hparts hsplit hbelow hpath hnested)

end Context

/-! ## The query of a collection -/

/-- The query of the rows of a collection, with the foreign keys that it is restricted to and
answers under a name. -/
structure Plan.OfCollection (ctx : Context) (p : Plan) (label : String) : Prop where
  restricted : ∃ link column select, ctx.link? p.target = some link ∧ label = link.nodeMember ∧
    ctx.columnName p.target label = .ok column ∧
    p.keyRestriction = some { column := { node := p.target, member := label, column } } ∧
    ctx.Selects p.target select ∧
    p.select = if Context.selects select label then select
      else select ++ [{ node := p.target, member := label, column, label := some label }]

/-- An include whose parent rows are answered by a plan. The routes lead from `start` to the
target of that plan, and from there to the collection. -/
structure IncludePlan.HangsOn (ctx : Context) (start : Nat) (above : List String) (parent : Plan)
    (route : List String) (i : IncludePlan) : Prop where
  parts : Path.AreParts above
  along : ctx.along? start above = some parent.target
  isCollection : above = [] ∨ ctx.LeadsToCollection start above
  below : ctx.CollectionBelow parent route i.plan.target i.parentKeyLabel
  path : i.path = Path.join (above ++ route)
  parent : i.parent = Path.join above
  ofCollection : i.plan.OfCollection ctx i.foreignKeyLabel

section

variable {ctx ctx' : Context} {start : Nat} {parent : Plan} {above route : List String}
  {i : IncludePlan}

theorem Plan.OfCollection.grows {p : Plan} {label : String} (h : p.OfCollection ctx label)
    (hgrows : ctx.Grows ctx') : p.OfCollection ctx' label := by
  obtain ⟨link, column, select, hlink, hlabel, hcolumn, hkeys, hselects, hselect⟩ := h.restricted
  obtain ⟨t, -, ht, -⟩ := Context.columnName_eq_ok_iff.mp hcolumn
  exact ⟨link, column, select, hgrows.link? hlink, hlabel,
    Context.columnName_grows hgrows hcolumn, hkeys, hselects.grows hgrows ⟨t, ht⟩, hselect⟩

theorem IncludePlan.HangsOn.grows (h : i.HangsOn ctx start above parent route)
    (hregistered : ctx.Registered) (hgrows : ctx.Grows ctx') :
    i.HangsOn ctx' start above parent route where
  parts := h.parts
  along := hgrows.along? h.along
  isCollection := h.isCollection.imp_right (·.grows hregistered hgrows)
  below := h.below.grows hregistered hgrows
  path := h.path
  parent := h.parent
  ofCollection := h.ofCollection.grows hgrows

theorem IncludePlan.HangsOn.areParts (h : i.HangsOn ctx start above parent route) :
    Path.AreParts (above ++ route) :=
  Path.AreParts.append_iff.mpr ⟨h.parts, h.below.parts⟩

theorem IncludePlan.HangsOn.leadsToCollection (h : i.HangsOn ctx start above parent route) :
    ctx.LeadsToCollection start (above ++ route) :=
  (Context.LeadsToCollection.append_iff h.along h.below.first.ne_nil).mpr
    h.below.first.leadsToCollection

theorem Context.collectionPlan_hangs {c : IncludedCollection} (hregistered : ctx.Registered)
    (hparts : Path.AreParts above) (halong : ctx.along? start above = some parent.target)
    (habove : above = [] ∨ ctx.LeadsToCollection start above)
    (hbelow : ctx.CollectionBelow parent route c.node c.parentKeyLabel)
    (hpath : c.path = Path.join route) : (collectionPlan c (Path.join above)).Leads ctx
      fun own ctx' => own.HangsOn ctx' start above parent route := by
  unfold collectionPlan
  refine Leads.look_bind fun link hlink => Leads.look_bind fun column hcolumn => ?_
  have hlink : ctx.link? c.node = some link := by
    unfold Context.link at hlink
    split at hlink
    · rename_i hl
      cases hlink
      exact hl
    · cases hlink
  refine (selectAll_selects c.node c.nested).bind fun select ctx₁ hgrows ⟨_, hselects⟩ => ?_
  refine Leads.look_bind fun p hp => Leads.pure ?_
  obtain ⟨-, -, hdraft, -⟩ := plan_eq_ok hp
  have htarget : p.target = c.node := congrArg Draft.target hdraft
  exact
    { parts := hparts
      along := hgrows.along? halong
      isCollection := habove.imp_right (·.grows hregistered hgrows)
      below := by
        rw [htarget]
        exact hbelow.grows hregistered hgrows
      path := by
        rw [hpath]
        exact Path.below_join hparts hbelow.first.ne_nil
      parent := rfl
      ofCollection := by
        refine ⟨link, column, select, ?_, rfl, ?_, ?_, ?_, ?_⟩
        · rw [htarget]
          exact hgrows.link? hlink
        · rw [htarget]
          exact columnName_grows hgrows hcolumn
        · rw [htarget]
          exact congrArg Draft.keyRestriction hdraft
        · rw [htarget]
          exact hselects
        · rw [htarget]
          exact congrArg Draft.select hdraft }

end

end EntityMap
