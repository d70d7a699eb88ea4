import EntityMap.Proofs.Context.Arena
import EntityMap.Proofs.Names

/-!
# Routes over navigation members

A route is a list of navigation members, and leads from a node to at most
one other (`Context.along?`). A node that is reached is reached from then
on, and whether it is a collection never changes (`Grows.isInverse`), so
everything that is said here of routes stays true while a context grows.

A route passes collections on its way. The one it comes to first
(`Context.FirstCollection`) splits the route, and a route comes to one
collection first (`FirstCollection.eq_of_prefix`). The last one before
its end is what the end hangs on (`Context.NearestAbove`).
-/

namespace EntityMap

namespace Context

open Growing

variable {ctx ctx' : Context} {start i k : Nat} {route route' above : List String}

/-- The node that a route leads to. -/
def along? (ctx : Context) (start : Nat) (route : List String) : Option Nat :=
  ctx.descend? start (route.map .navigation)

@[simp]
theorem along?_nil : ctx.along? start [] = some start := rfl

theorem along?_append :
    ctx.along? start (route ++ route') = (ctx.along? start route).bind (ctx.along? · route') := by
  induction route generalizing start with
  | nil => rfl
  | cons member rest ih =>
      have hcons : ∀ route, ctx.along? start (member :: route) =
          (ctx.child? start (.navigation member)).bind (ctx.along? · route) := fun _ => rfl
      rw [List.cons_append, hcons, hcons, Option.bind_assoc]
      exact Option.bind_congr fun next _ => ih

theorem along?_append_of (hi : ctx.along? start route = some i) :
    ctx.along? start (route ++ route') = ctx.along? i route' := by
  rw [along?_append, hi, Option.bind_some]

theorem Grows.along? (h : ctx.Grows ctx') (hk : ctx.along? start route = some k) :
    ctx'.along? start route = some k :=
  h.descend? hk

/-- A path of one part leads one member further. -/
theorem addPath_part_leads {member : String} (i : Nat) (hpart : Path.AreParts [member]) :
    (addPath i member).Leads ctx fun next ctx' => ctx'.along? i [member] = some next := by
  have hblank : Path.hasBlank member = false := by
    obtain ⟨hdotless, hblank⟩ := hpart member (List.mem_singleton_self _)
    simp [Path.hasBlank, Path.splitDots_of_notMem hdotless, hblank]
  have hsegments : pathSegments member = .ok [member] := by
    have hne : member ≠ "" := hpart.join_ne_empty (by simp)
    have hempty : member.isEmpty = false := by simpa [String.isEmpty_iff] using hne
    have hself := Path.segments_of_notMem (hpart.dotless member (List.mem_singleton_self _))
    simp [pathSegments, hempty, hblank, hself]
  refine (addPath_leads i member).mono fun next ctx' _ hreaches => ?_
  obtain ⟨segments, hok, hnext⟩ := hreaches
  obtain rfl := Except.ok.inj (hsegments.symm.trans hok)
  exact hnext

/-- One route leads to a node. -/
theorem Registered.eq_of_along? (h : ctx.Registered) (harena : ctx.Arena)
    (hk : ctx.along? start route = some k) (hk' : ctx.along? start route' = some k) :
    route = route' :=
  List.map_injective_iff.mpr (fun _ _ => ChildKey.navigation.inj) (h.eq_of_descend? harena hk hk')

theorem isInverse_of_link? {link : Link} (h : ctx.link? i = some link) :
    ctx.isInverse i = decide (link.traversal = .inverse) := by
  obtain ⟨n, hn, hlink⟩ := Option.bind_eq_some_iff.mp h
  simp [isInverse, hn, Node.isInverse, hlink]

/-- Whether a node that a step leads to is a collection does not change. -/
theorem Grows.isInverse (h : ctx.Grows ctx') (hregistered : ctx.Registered)
    (hk : ctx.along? start route = some k) (hne : route ≠ []) :
    ctx'.isInverse k = ctx.isInverse k := by
  obtain ⟨before, member, rfl⟩ := List.eq_nil_or_concat' route |>.resolve_left hne
  rw [Context.along?, List.map_append, List.map_singleton] at hk
  obtain ⟨link, hlink, -⟩ := hregistered.exists_link_of_descend? hk
  rw [isInverse_of_link? hlink, isInverse_of_link? (h.link? hlink)]

/-! ## Collections along a route -/

/-- A route leads to a collection. -/
structure LeadsToCollection (ctx : Context) (start : Nat) (route : List String) : Prop where
  ne_nil : route ≠ []
  isInverse : ∃ k, ctx.along? start route = some k ∧ ctx.isInverse k = true

/-- A route leads to its end without passing a collection. -/
def Clear (ctx : Context) (start : Nat) (route : List String) : Prop :=
  ∀ above, above <+: route → above ≠ [] →
    ∃ k, ctx.along? start above = some k ∧ ctx.isInverse k = false

/-- A route leads to a collection, and passes no other on its way. -/
structure FirstCollection (ctx : Context) (start : Nat) (route : List String) (k : Nat) : Prop where
  ne_nil : route ≠ []
  along : ctx.along? start route = some k
  isInverse : ctx.isInverse k = true
  clear : ctx.Clear start route.dropLast

/-- What the end of a route hangs on: the last collection before it, or else the start. -/
structure NearestAbove (ctx : Context) (start : Nat) (route above : List String) : Prop where
  isPrefix : above <+: route
  proper : above ≠ route
  collection : above = [] ∨ ctx.LeadsToCollection start above
  last : ∀ other, other <+: route → other ≠ route → ctx.LeadsToCollection start other →
    other <+: above

namespace Clear

theorem nil : ctx.Clear start [] := by
  intro above hpre hne
  exact absurd (List.prefix_nil.mp hpre) hne

theorem concat {member : String} (h : ctx.Clear start route)
    (hk : ctx.along? start (route ++ [member]) = some k) (hforward : ctx.isInverse k = false) :
    ctx.Clear start (route ++ [member]) := by
  intro above hpre hne
  rcases List.prefix_concat_iff.mp hpre with rfl | hpre
  · exact ⟨k, hk, hforward⟩
  · exact h above hpre hne

theorem not_leadsToCollection (h : ctx.Clear start route) (hpre : above <+: route) :
    ¬ ctx.LeadsToCollection start above := by
  rintro ⟨hne, k, hk, hinverse⟩
  obtain ⟨k', hk', hforward⟩ := h above hpre hne
  obtain rfl := Option.some.inj (hk.symm.trans hk')
  rw [hinverse] at hforward
  cases hforward

theorem grows (h : ctx.Clear start route) (hregistered : ctx.Registered)
    (hgrows : ctx.Grows ctx') : ctx'.Clear start route := by
  intro above hpre hne
  obtain ⟨k, hk, hforward⟩ := h above hpre hne
  exact ⟨k, hgrows.along? hk, by rw [hgrows.isInverse hregistered hk hne, hforward]⟩

end Clear

namespace LeadsToCollection

theorem grows (h : ctx.LeadsToCollection start route) (hregistered : ctx.Registered)
    (hgrows : ctx.Grows ctx') : ctx'.LeadsToCollection start route := by
  obtain ⟨hne, k, hk, hinverse⟩ := h
  exact ⟨hne, k, hgrows.along? hk, by rw [hgrows.isInverse hregistered hk hne, hinverse]⟩

/-- Whether the rest of a route leads to a collection can be told from where the rest starts. -/
theorem append_iff (hi : ctx.along? start route = some i) (hne : route' ≠ []) :
    ctx.LeadsToCollection start (route ++ route') ↔ ctx.LeadsToCollection i route' := by
  constructor
  · rintro ⟨-, k, hk, hinverse⟩
    exact ⟨hne, k, by rw [← along?_append_of hi, hk], hinverse⟩
  · rintro ⟨-, k, hk, hinverse⟩
    exact ⟨by simp [hne], k, by rw [along?_append_of hi, hk], hinverse⟩

end LeadsToCollection

namespace FirstCollection

theorem leadsToCollection (h : ctx.FirstCollection start route k) :
    ctx.LeadsToCollection start route :=
  ⟨h.ne_nil, k, h.along, h.isInverse⟩

theorem grows (h : ctx.FirstCollection start route k) (hregistered : ctx.Registered)
    (hgrows : ctx.Grows ctx') : ctx'.FirstCollection start route k where
  ne_nil := h.ne_nil
  along := hgrows.along? h.along
  isInverse := by rw [hgrows.isInverse hregistered h.along h.ne_nil, h.isInverse]
  clear := h.clear.grows hregistered hgrows

/-- A collection hangs off the node that the route leads to before. -/
theorem along_origin {link : Link} (h : ctx.FirstCollection start route k)
    (hregistered : ctx.Registered) (hlink : ctx.link? k = some link) :
    ctx.along? start route.dropLast = some link.origin := by
  obtain ⟨before, last, hroute⟩ := List.eq_nil_or_concat' route |>.resolve_left h.ne_nil
  have hend := h.along
  rw [hroute, along?, List.map_append, List.map_singleton] at hend
  obtain ⟨link', hlink', -, horigin⟩ := hregistered.exists_link_of_descend? hend
  obtain rfl := Option.some.inj (hlink.symm.trans hlink')
  rw [hroute, List.dropLast_concat]
  exact horigin

/-- What a route leads to before its end is no collection. -/
theorem eq_of_prefix (h : ctx.FirstCollection start route k) (hpre : above <+: route)
    (habove : ctx.LeadsToCollection start above) : above = route := by
  rw [← List.dropLast_concat_getLast h.ne_nil] at hpre ⊢
  rcases List.prefix_concat_iff.mp hpre with heq | hpre
  · exact heq
  · exact absurd habove (h.clear.not_leadsToCollection hpre)

/-- What lies behind a collection that a route comes to first is nearest above the collection that
comes next. -/
theorem nearestAbove (hi : ctx.along? start above = some i)
    (habove : above = [] ∨ ctx.LeadsToCollection start above)
    (h : ctx.FirstCollection i route k) : ctx.NearestAbove start (above ++ route) above where
  isPrefix := List.prefix_append _ _
  proper := by simpa using h.ne_nil
  collection := habove
  last := by
    intro other hpre hne hother
    rcases List.prefix_or_prefix_of_prefix hpre (List.prefix_append above route) with h' | h'
    · exact h'
    · obtain ⟨rest, rfl⟩ := h'
      have hrest : rest <+: route := (List.prefix_append_right_inj above).mp hpre
      cases rest with
      | nil => simp
      | cons member more =>
          have hmore := (LeadsToCollection.append_iff hi (by simp)).mp hother
          exact absurd (congrArg (above ++ ·) (h.eq_of_prefix hrest hmore)) hne

end FirstCollection

end Context

end EntityMap
