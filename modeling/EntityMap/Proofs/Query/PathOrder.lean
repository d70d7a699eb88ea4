import EntityMap.Proofs.Context.Drawn
import EntityMap.Proofs.Names
import EntityMap.Proofs.Query.Sufficiency

/-!
# Paths in any order

Paths that are added to a context share their common beginnings, add
nodes even when they fail half way, and number the nodes as they come.
What they draw depends on nothing but the paths: neither on their order
nor on repetitions (`Context.addPaths_isomorphic`). A path that was added
is found from then on (`Context.find?_of_calls`), and a path can be added
in two parts (`Context.Sound.addPath_join_iff`).

`Context.site?` is what lies at the end of a chain of keys, with the
numbers taken out. Since every node lies at the end of one chain, two
contexts with the same sites differ in their numbers only
(`Context.Isomorphic`).
-/

namespace EntityMap

namespace Context

open Growing

variable {ctx ctx' : Context} {i k start : Nat} {n n' : Node} {path p q : String}
  {paths paths' segments : List String} {keys : List ChildKey}

theorem pathSegments_eq_ok_iff (hpath : path ≠ "") :
    pathSegments path = .ok segments ↔
      Path.hasBlank path = false ∧ segments = Path.segments path := by
  unfold pathSegments
  rw [if_neg (by simpa using hpath)]
  cases Path.hasBlank path <;> simp [eq_comm]

theorem pathSegments_join_eq_ok_iff (hp : p ≠ "") (hq : q ≠ "") :
    pathSegments (p ++ "." ++ q) = .ok segments ↔ ∃ before after,
      pathSegments p = .ok before ∧ pathSegments q = .ok after ∧ segments = before ++ after := by
  have hjoin : p ++ "." ++ q ≠ "" := by simp [hp]
  rw [pathSegments_eq_ok_iff hjoin, Path.hasBlank_join, Path.segments_join, Bool.or_eq_false_iff]
  simp only [pathSegments_eq_ok_iff hp, pathSegments_eq_ok_iff hq]
  constructor
  · rintro ⟨⟨hbefore, hafter⟩, rfl⟩
    exact ⟨_, _, ⟨hbefore, rfl⟩, ⟨hafter, rfl⟩, rfl⟩
  · rintro ⟨_, _, ⟨hbefore, rfl⟩, ⟨hafter, rfl⟩, rfl⟩
    exact ⟨⟨hbefore, hafter⟩, rfl⟩

theorem addSegments_append (before after : List String) :
    addSegments path i (before ++ after) =
      addSegments path i before >>= fun j => addSegments path j after := by
  induction before generalizing i with
  | nil => rfl
  | cons member rest ih =>
      simp only [List.cons_append, addSegments, bind_assoc, ih]
      refine bind_congr fun ctx => ?_
      cases ctx.child? i (.navigation member) <;> simp only [bind_assoc]

/-! ## One path in two parts -/

theorem run_addPath_out_of_range (path : String) (hn : ctx.nodes[i]? = none) :
    (addPath i path).run ctx = (.error (.nodeOutOfRange i), ctx) := by
  unfold addPath
  rw [run_look_bind]
  simp [node, hn]

namespace Sound

theorem addSegments (h : ctx.Sound) : ((Context.addSegments path i segments).run ctx).2.Sound :=
  h.of_grows (addSegments_leads i).grows (addSegments_keeps path i segments ctx h.complete)

/-- A walk from a node ends at a node. -/
theorem exists_node_addSegments (h : ctx.Sound) (hn : ctx.nodes[i]? = some n)
    (hrun : (Context.addSegments path i segments).run ctx = (.ok k, ctx')) :
    ctx'.Sound ∧ ∃ m, ctx'.nodes[k]? = some m := by
  have hleads : (Context.addSegments path i segments).Leads ctx _ := addSegments_leads i
  have hend := hleads.answer k (congrArg (·.1) hrun)
  have hgrows := hleads.grows
  have hsound : ((Context.addSegments path i segments).run ctx).2.Sound := h.addSegments
  rw [hrun] at hend hgrows hsound
  obtain ⟨n', hn', -⟩ := hgrows.node hn
  obtain ⟨m, hm, -⟩ := hsound.entityAlong?_of_descend? hn' hend
  exact ⟨hsound, m, hm⟩

/-- A path succeeds where it is well-formed and its walk succeeds, whatever path is quoted. -/
theorem addPath_eq_ok_iff (h : ctx.Sound) (hn : ctx.nodes[i]? = some n) (quoted : String) :
    (addPath i path).run ctx = (.ok k, ctx') ↔ ∃ segments,
      pathSegments path = .ok segments ∧
        (Context.addSegments quoted i segments).run ctx = (.ok k, ctx') := by
  rw [run_addPath path hn]
  cases pathSegments path with
  | error e =>
      constructor
      · intro hrun
        cases hrun
      · rintro ⟨segments, hsegments, -⟩
        cases hsegments
  | ok segments =>
      constructor
      · exact fun hrun => ⟨segments, rfl, (h.addSegments_eq_ok_iff hn).mp hrun⟩
      · rintro ⟨_, hsegments, hrun⟩
        obtain rfl := Except.ok.inj hsegments
        exact (h.addSegments_eq_ok_iff hn).mpr hrun

/-- Adding a path and then another one from its end comes to the same as adding the two joined by
a dot. -/
theorem addPath_join_iff (h : ctx.Sound) (hp : p ≠ "") (hq : q ≠ "") :
    (addPath i p >>= fun j => addPath j q).run ctx = (.ok k, ctx') ↔
      (addPath i (p ++ "." ++ q)).run ctx = (.ok k, ctx') := by
  cases hn : ctx.nodes[i]? with
  | none =>
      rw [run_bind, run_addPath_out_of_range _ hn, run_addPath_out_of_range _ hn]
  | some n =>
      rw [run_bind_eq_ok_iff, h.addPath_eq_ok_iff hn ""]
      constructor
      · rintro ⟨j, ctx₁, hfirst, hsecond⟩
        obtain ⟨before, hbefore, hfirst⟩ := (h.addPath_eq_ok_iff hn "").mp hfirst
        obtain ⟨hsound, m, hm⟩ := h.exists_node_addSegments hn hfirst
        obtain ⟨after, hafter, hsecond⟩ := (hsound.addPath_eq_ok_iff hm "").mp hsecond
        refine ⟨before ++ after, (pathSegments_join_eq_ok_iff hp hq).mpr
          ⟨before, after, hbefore, hafter, rfl⟩, ?_⟩
        rw [addSegments_append]
        exact run_bind_eq_ok_iff.mpr ⟨j, ctx₁, hfirst, hsecond⟩
      · rintro ⟨segments, hsegments, hrun⟩
        obtain ⟨before, after, hbefore, hafter, rfl⟩ :=
          (pathSegments_join_eq_ok_iff hp hq).mp hsegments
        rw [addSegments_append] at hrun
        obtain ⟨j, ctx₁, hfirst, hsecond⟩ := run_bind_eq_ok_iff.mp hrun
        obtain ⟨hsound, m, hm⟩ := h.exists_node_addSegments hn hfirst
        exact ⟨j, ctx₁, (h.addPath_eq_ok_iff hn "").mpr ⟨before, hbefore, hfirst⟩,
          (hsound.addPath_eq_ok_iff hm "").mpr ⟨after, hafter, hsecond⟩⟩

end Sound

/-! ## Paths are found again -/

theorem exists_walk?_of_descend? (hk : ctx.descend? i (segments.map .navigation) = some k) :
    ∃ reached, ctx.walk? i segments = some reached ∧ reached.getLast?.getD i = k := by
  induction segments generalizing i with
  | nil => exact ⟨[], rfl, Option.some.inj hk⟩
  | cons member rest ih =>
      rw [List.map_cons, descend?_cons] at hk
      obtain ⟨next, hchild, hk⟩ := Option.bind_eq_some_iff.mp hk
      obtain ⟨reached, hwalk, hlast⟩ := ih hk
      refine ⟨next :: reached, ?_, ?_⟩
      · simp only [walk?, hchild, hwalk, Option.bind_eq_bind, Option.bind_some, Option.pure_def]
      · rw [List.getLast?_cons, Option.getD_some]
        exact hlast

theorem Reaches.find? (h : ctx.Reaches start path k) (hn : ctx.nodes[start]? = some n) :
    ctx.find? start path = some k := by
  obtain ⟨segments, hsegments, hk⟩ := h
  obtain ⟨reached, hwalk, hlast⟩ := exists_walk?_of_descend? hk
  simp only [Context.find?, nodesInPath?, Except.toOption_eq_some_iff.mpr hsegments, hn, hwalk,
    Option.bind_eq_bind, Option.bind_some, Option.map_some, hlast]

theorem grows_of_calls (h : Relation.ReflTransGen Call ctx ctx') : ctx.Grows ctx' := by
  induction h with
  | refl => exact Grows.refl ctx
  | tail _ hcall ih => exact ih.trans hcall.grows

/-- A path that was added is found at the same index, whatever calls follow. -/
theorem find?_of_calls {later : Context} (hrun : (addPath start path).run ctx = (.ok k, ctx'))
    (hcalls : Relation.ReflTransGen Call ctx' later) : later.find? start path = some k := by
  have hleads : (addPath start path).Leads ctx _ := addPath_leads start path
  obtain ⟨segments, hsegments, hend⟩ := hleads.answer k (congrArg (·.1) hrun)
  have hgrows := hleads.grows
  rw [hrun] at hend hgrows
  cases hn : ctx.nodes[start]? with
  | none =>
      rw [run_addPath_out_of_range path hn] at hrun
      cases hrun
  | some n =>
      have hlater := grows_of_calls hcalls
      obtain ⟨n', hn', -⟩ := (hgrows.trans hlater).node hn
      exact Reaches.find? ⟨segments, hsegments, hlater.descend? hend⟩ hn'

/-! ## Many paths -/

/-- The context that is left when paths are added to the root, one after the other, whether they
succeed or fail. -/
def addPaths (ctx : Context) (paths : List String) : Context :=
  paths.foldl (fun ctx path => ((addPath root path).run ctx).2) ctx

theorem addPaths_cons (path : String) (rest : List String) :
    ctx.addPaths (path :: rest) = ((addPath root path).run ctx).2.addPaths rest :=
  rfl

theorem Reachable.addPaths (h : Reachable ctx) : Reachable (ctx.addPaths paths) := by
  induction paths generalizing ctx with
  | nil => exact h
  | cons path rest ih => exact ih (.call h (.addPath root path))

theorem grows_addPaths : ctx.Grows (ctx.addPaths paths) := by
  induction paths generalizing ctx with
  | nil => exact Grows.refl ctx
  | cons path rest ih => exact (addPath_leads root path).grows.trans ih

theorem Within.addPaths {all : List String} (hwithin : ctx.Within all) (h : Reachable ctx)
    (hpaths : ∀ path ∈ paths, path ∈ all) : (ctx.addPaths paths).Within all := by
  induction paths generalizing ctx with
  | nil => exact hwithin
  | cons path rest ih =>
      refine ih (hwithin.addPath h.sound (hpaths path (List.mem_cons_self ..)))
        (.call h (.addPath root path)) fun other hother => ?_
      exact hpaths other (List.mem_cons_of_mem _ hother)

/-- Each path has drawn its chain, as far as the catalog lets it. -/
theorem exists_descend?_addPaths {members : List String} {e : String} (h : Reachable ctx)
    (hroot : ctx.nodes[root]? = some n) (hpath : path ∈ paths)
    (hsegments : pathSegments path = .ok segments) (hmembers : members <+: segments)
    (halong : ctx.catalog.entityAlong? n.entity members = some e) :
    ∃ k, (ctx.addPaths paths).descend? root (members.map .navigation) = some k := by
  induction paths generalizing ctx n with
  | nil => cases hpath
  | cons first rest ih =>
      have hleads : (addPath root first).Leads ctx _ := addPath_leads root first
      rcases List.mem_cons.mp hpath with rfl | hpath
      · obtain ⟨k, hk⟩ : ∃ k, ((addSegments path root segments).run ctx).2.descend? root
            (members.map .navigation) = some k :=
          h.sound.exists_descend?_addSegments hroot hmembers halong
        have hrun : (addPath root path).run ctx = (addSegments path root segments).run ctx := by
          rw [run_addPath path hroot, hsegments]
        refine ⟨k, ?_⟩
        rw [addPaths_cons, hrun]
        exact grows_addPaths.descend? hk
      · obtain ⟨n', hn', more, rfl⟩ := hleads.grows.node hroot
        exact ih (.call h (.addPath root first)) hn' hpath
          (by rw [hleads.grows.catalog]; exact halong)

end Context

/-! ## Sites -/

/-- What a node is, apart from where it and its children stand in the context. -/
def Node.unplaced (n : Node) : Node :=
  { n with index := 0, link := n.link.map ({ · with origin := 0 }), children := [] }

namespace Context

variable {ctx ctx' : Context} {i k : Nat} {n n' : Node} {paths paths' : List String}
  {keys : List ChildKey}

/-- What lies at the end of a chain from the root. -/
def site? (ctx : Context) (keys : List ChildKey) : Option Node :=
  ((ctx.descend? root keys).bind (ctx.nodes[·]?)).map Node.unplaced

/-- Two contexts have the same sites, and every node of either lies at the end of one chain, so
only the indices of the nodes may differ. -/
structure Isomorphic (ctx ctx' : Context) : Prop where
  chains : ∀ i, i < ctx.nodes.size → ∃! keys, ctx.descend? root keys = some i
  chains' : ∀ i, i < ctx'.nodes.size → ∃! keys, ctx'.descend? root keys = some i
  sites : ∀ keys, ctx.site? keys = ctx'.site? keys

/-- Apart from its place, a node is as it was when it was attached. -/
theorem Reachable.unplaced_eq_attached {link : Link} {origin : Node} (h : Reachable ctx)
    (hn : ctx.nodes[i]? = some n) (hlink : n.link = some link)
    (horigin : ctx.nodes[link.origin]? = some origin) :
    ∃ t, ctx.catalog.table n.entity = .ok t ∧
      n.unplaced = (attached i n.entity t.table link origin).unplaced := by
  obtain ⟨t, ht, htable⟩ := h.arena.table hn
  obtain ⟨o, ho, hkind⟩ := h.joined.kind hn hlink
  obtain rfl : origin = o := Option.some.inj (horigin.symm.trans ho)
  obtain ⟨o, hangs⟩ := h.arena.hangs hn hlink
  obtain rfl : origin = o := Option.some.inj (horigin.symm.trans hangs.origin_eq)
  have hjoin : n.joinKind = (attached i n.entity t.table link origin).joinKind :=
    JoinKind.eq_of_left_iff (hkind.trans attached_joinKind_eq_left_iff.symm)
  refine ⟨t, ht, ?_⟩
  unfold Node.unplaced
  rw [hlink, hjoin, htable, hangs.level]
  rfl

/-- A chain that has a node leads to the same node, but for its place, in every context in which
it has one. -/
theorem unplaced_eq (h : Reachable ctx) (h' : Reachable ctx')
    (hcatalog : ctx'.catalog = ctx.catalog)
    (hroot : ∃ m m', ctx.nodes[root]? = some m ∧ ctx'.nodes[root]? = some m' ∧
      m'.unplaced = m.unplaced)
    (hi : ctx.descend? root keys = some i) (hk : ctx'.descend? root keys = some k)
    (hn : ctx.nodes[i]? = some n) (hn' : ctx'.nodes[k]? = some n') : n'.unplaced = n.unplaced := by
  induction keys using List.reverseRecOn generalizing i k n n' with
  | nil =>
      obtain rfl := Option.some.inj hi
      obtain rfl := Option.some.inj hk
      obtain ⟨m, m', hm, hm', heq⟩ := hroot
      obtain rfl := Option.some.inj (hn.symm.trans hm)
      obtain rfl := Option.some.inj (hn'.symm.trans hm')
      exact heq
  | append_singleton keys key ih =>
      obtain ⟨link, hlink, rfl, hprefix⟩ := h.registered.exists_link_of_descend? hi
      obtain ⟨link', hlink', hkey, hprefix'⟩ := h'.registered.exists_link_of_descend? hk
      rw [link?, hn, Option.bind_some] at hlink
      rw [link?, hn', Option.bind_some] at hlink'
      obtain ⟨origin, hangs⟩ := h.arena.hangs hn hlink
      obtain ⟨origin', hangs'⟩ := h'.arena.hangs hn' hlink'
      have horigin := ih hprefix hprefix' hangs.origin_eq hangs'.origin_eq
      have hentity : origin'.entity = origin.entity := congrArg (·.entity) horigin
      have hlevel : origin'.level = origin.level := congrArg (·.level) horigin
      have hkind : origin'.joinKind = origin.joinKind := congrArg (·.joinKind) horigin
      have hdeclared := hangs'.declared
      rw [hcatalog, hentity] at hdeclared
      obtain ⟨hsame, hlinks⟩ := hangs.declared.unique h.sound.accepted hdeclared hkey.symm
      obtain ⟨t, ht, hattached⟩ := h.unplaced_eq_attached hn hlink hangs.origin_eq
      obtain ⟨t', ht', hattached'⟩ := h'.unplaced_eq_attached hn' hlink' hangs'.origin_eq
      rw [hcatalog, hsame, ht] at ht'
      obtain rfl := Except.ok.inj ht'
      rw [hattached, hattached', hsame, hlinks]
      simp [attached, Node.unplaced, hlevel, hkind, Link.isOpen]

/-! ## The same paths -/

/-- A node that navigation members lead to is no lookup. -/
theorem Sound.isLookup_eq_false {members : List String} (h : ctx.Sound)
    (hi : ctx.descend? root (members.map .navigation) = some i) (hn : ctx.nodes[i]? = some n) :
    n.isLookup = false := by
  cases members using List.reverseRecOn with
  | nil =>
      obtain rfl := Option.some.inj hi
      obtain ⟨m, hm, hlink⟩ := h.arena.root
      obtain rfl := Option.some.inj (hn.symm.trans hm)
      simp [Node.isLookup, hlink]
  | append_singleton members member =>
      rw [List.map_append, List.map_singleton] at hi
      obtain ⟨link, hlink, hkey, -⟩ := h.registered.exists_link_of_descend? hi
      rw [link?, hn, Option.bind_some] at hlink
      obtain ⟨origin, hangs⟩ := h.arena.hangs hn hlink
      have hdeclared := hangs.declared
      generalize n.entity = entity at hdeclared
      cases hdeclared with
      | lookup => simp at hkey
      | navigation =>
          rw [Node.isLookup, hlink, linkOf]
          split <;> simp

/-- A lookup child stands for a lookup column of the entity. -/
theorem Sound.exists_lookup_of_child? {column : String} (h : ctx.Sound)
    (hn : ctx.nodes[i]? = some n) (hchild : ctx.child? i (.lookup column) = some k) :
    ∃ t entry, ctx.catalog.table n.entity = .ok t ∧ entry ∈ t.lookupColumns ∧
      entry.1.member = column := by
  obtain ⟨link, hlink, rfl, hkey⟩ := h.registered.hangs hchild
  obtain ⟨m, origin, -, hangs⟩ := h.arena.hangs_of_link? hlink
  obtain rfl : n = origin := Option.some.inj (hn.symm.trans hangs.origin_eq)
  have hdeclared := hangs.declared
  generalize m.entity = entity at hdeclared
  cases hdeclared with
  | @lookup t target c key lookup _ ht hc hlookup _ _ =>
      exact ⟨t, (c, lookup), ht, List.mem_filterMap.mpr ⟨c, hc, by rw [hlookup]; rfl⟩,
        ChildKey.lookup.inj hkey⟩
  | navigation => simp at hkey

/-- What some paths draw, more paths draw too. -/
theorem exists_descend?_of_subset {start : Context} (h : Reachable start)
    (hwithin : start.Within paths) (hpaths : ∀ path ∈ paths, path ∈ paths')
    (hk : (start.addPaths paths).descend? root keys = some k) :
    ∃ k', (start.addPaths paths').descend? root keys = some k' := by
  have hsound : (start.addPaths paths).Sound := h.addPaths.sound
  have hsound' : (start.addPaths paths').Sound := h.addPaths.sound
  obtain ⟨r, hroot, -⟩ := h.arena.root
  have hgrows : start.Grows (start.addPaths paths) := grows_addPaths
  have hgrows' : start.Grows (start.addPaths paths') := grows_addPaths
  obtain ⟨r₁, hr₁, more, rfl⟩ := hgrows.node hroot
  obtain ⟨r₂, hr₂, more', rfl⟩ := hgrows'.node hroot
  obtain ⟨members, halong, hkeys⟩ := hwithin.addPaths h (fun _ hpath => hpath) keys k hk
  -- the chain of the node, or of the node whose lookup it is
  have hchain : ∀ i, (start.addPaths paths).descend? root (members.map .navigation) = some i →
      ∃ n i' n', (start.addPaths paths).nodes[i]? = some n ∧
        (start.addPaths paths').descend? root (members.map .navigation) = some i' ∧
        (start.addPaths paths').nodes[i']? = some n' ∧ n'.entity = n.entity := by
    intro i hi
    obtain ⟨n, hn, hentity⟩ := hsound.entityAlong?_of_descend? hr₁ hi
    obtain ⟨i', hi'⟩ : ∃ i', (start.addPaths paths').descend? root (members.map .navigation) =
        some i' := by
      rcases halong with rfl | ⟨path, hpath, segments, hsegments, hprefix⟩
      · exact ⟨root, rfl⟩
      · rw [hgrows.catalog] at hentity
        exact exists_descend?_addPaths h hroot (hpaths path hpath) hsegments hprefix hentity
    obtain ⟨n', hn', hentity'⟩ := hsound'.entityAlong?_of_descend? hr₂ hi'
    rw [hgrows.catalog] at hentity
    rw [hgrows'.catalog] at hentity'
    exact ⟨n, i', n', hn, hi', hn', Option.some.inj (hentity'.symm.trans hentity)⟩
  rcases hkeys with rfl | ⟨column, rfl⟩
  · obtain ⟨n, i', n', -, hi', -⟩ := hchain k hk
    exact ⟨i', hi'⟩
  · rw [descend?_concat] at hk ⊢
    obtain ⟨i, hi, hchild⟩ := Option.bind_eq_some_iff.mp hk
    obtain ⟨n, i', n', hn, hi', hn', hentity⟩ := hchain i hi
    obtain ⟨t, entry, ht, hentry, rfl⟩ := hsound.exists_lookup_of_child? hn hchild
    rw [hgrows.catalog, ← hentity, ← hgrows'.catalog] at ht
    rw [hi', Option.bind_some]
    exact Option.isSome_iff_exists.mp
      (hsound'.complete.furnished i' n' t hn' (hsound'.isLookup_eq_false hi' hn') ht entry hentry)

/-- Every node is below the root. -/
theorem isAncestorOrSelf_root (h : ctx.Arena) (hi : i < ctx.nodes.size) :
    ctx.isAncestorOrSelf root i := by
  induction i using Nat.strongRecOn with
  | ind i ih =>
      by_cases hroot : i = root
      · simp [isAncestorOrSelf, hroot]
      · have hn : ctx.nodes[i]? = some ctx.nodes[i] := Array.getElem?_eq_getElem hi
        cases hlink : ctx.nodes[i].link with
        | none => exact absurd (h.linked hn hlink) hroot
        | some link =>
            obtain ⟨origin, hangs⟩ := h.hangs hn hlink
            have horigin : ctx.origin? i = some link.origin := by
              rw [origin?, link?, hn, Option.bind_some, hlink, Option.map_some]
            have hlt : link.origin < ctx.nodes.size := Nat.lt_trans hangs.lt hi
            exact (h.isAncestorOrSelf_iff horigin hroot).mpr (ih link.origin hangs.lt hlt)

theorem Reachable.existsUnique_descend? (h : Reachable ctx) (hi : i < ctx.nodes.size) :
    ∃! keys, ctx.descend? root keys = some i := by
  have hbelow := isAncestorOrSelf_root h.arena hi
  obtain ⟨keys, hkeys⟩ := h.registered.exists_descend? h.arena hbelow
  exact ⟨keys, hkeys, fun other hother => h.registered.eq_of_descend? h.arena hother hkeys⟩

/-- Paths draw the same graph in whatever order, and however often, they are added. -/
theorem addPaths_isomorphic {start : Context} (h : Reachable start)
    (hwithin : ∀ paths, start.Within paths) (hpaths : ∀ path, path ∈ paths ↔ path ∈ paths') :
    (start.addPaths paths).Isomorphic (start.addPaths paths') := by
  have hctx : Reachable (start.addPaths paths) := h.addPaths
  have hctx' : Reachable (start.addPaths paths') := h.addPaths
  refine ⟨fun i => hctx.existsUnique_descend?, fun i => hctx'.existsUnique_descend?, fun keys => ?_⟩
  have hgrows : start.Grows (start.addPaths paths) := grows_addPaths
  have hgrows' : start.Grows (start.addPaths paths') := grows_addPaths
  obtain ⟨r, hroot, -⟩ := h.arena.root
  obtain ⟨r₁, hr₁, more, rfl⟩ := hgrows.node hroot
  obtain ⟨r₂, hr₂, more', rfl⟩ := hgrows'.node hroot
  have hto : ∀ k, (start.addPaths paths).descend? root keys = some k → _ := fun k hk =>
    exists_descend?_of_subset h (hwithin paths) (fun path => (hpaths path).mp) hk
  have hback : ∀ k, (start.addPaths paths').descend? root keys = some k → _ := fun k hk =>
    exists_descend?_of_subset h (hwithin paths') (fun path => (hpaths path).mpr) hk
  unfold site?
  cases hi : (start.addPaths paths).descend? root keys with
  | none =>
      cases hk : (start.addPaths paths').descend? root keys with
      | none => rfl
      | some k =>
          obtain ⟨i, hi'⟩ := hback k hk
          cases hi.symm.trans hi'
  | some i =>
      obtain ⟨k, hk⟩ := hto i hi
      have hi' := hctx.registered.lt_of_descend? (Array.getElem?_eq_some_iff.mp hr₁).1 hi
      have hk' := hctx'.registered.lt_of_descend? (Array.getElem?_eq_some_iff.mp hr₂).1 hk
      have hn := Array.getElem?_eq_getElem hi'
      have hn' := Array.getElem?_eq_getElem hk'
      have heq := unplaced_eq hctx hctx' (hgrows'.catalog.trans hgrows.catalog.symm)
        ⟨_, _, hr₁, hr₂, rfl⟩ hi hk hn hn'
      simp only [Option.bind_some, hk, hn, hn', Option.map_some, heq]

/-- One node stands for each navigation path, whatever the order of calls. Paths that are added
to the context of an entity draw the same graph in every order and with any repetitions, also
where some of them fail. In every context that calls lead to, a path that was added is found at
the same index from then on, and to add a path and then another one from its end comes to the
same as to add the two joined by a dot. -/
theorem paths_in_any_order {d : Definition} {catalog : Catalog} {entity : String} {start : Context}
    (haccepted : d.toCatalog = .ok catalog) (hstart : ofEntity catalog entity = .ok start) :
    (∀ paths paths' : List String, (∀ path, path ∈ paths ↔ path ∈ paths') →
      (start.addPaths paths).Isomorphic (start.addPaths paths')) ∧
    ∀ ctx, Reachable ctx →
      (∀ s p i ctx', (addPath s p).run ctx = (.ok i, ctx') →
        ∀ later, Relation.ReflTransGen Call ctx' later → later.find? s p = some i) ∧
      ∀ s p q, p ≠ "" → q ≠ "" → ∀ i ctx',
        (addPath s p >>= fun j => addPath j q).run ctx = (.ok i, ctx') ↔
          (addPath s (p ++ "." ++ q)).run ctx = (.ok i, ctx') := by
  have hreachable : Reachable start := .start haccepted hstart
  have hkeyed := Definition.lookupsKeyed_of_toCatalog haccepted
  refine ⟨fun paths paths' hpaths => ?_, fun ctx hctx => ⟨?_, ?_⟩⟩
  · exact addPaths_isomorphic hreachable (fun _ => within_of_ofEntity hkeyed hstart) hpaths
  · exact fun s p i ctx' hrun later hlater => find?_of_calls hrun hlater
  · exact fun s p q hp hq i ctx' => hctx.sound.addPath_join_iff hp hq

/-! ## Employees above and below employees -/

def staffTables : List Table :=
  [{ entity := "Employee", table := "employees"
     columns := [
       { member := "Id", column := "id", type := .int64, primaryKey := true },
       { member := "ManagerId", column := "manager_id", type := .int64, nullable := true },
       { member := "Grade", column := "grade_id", type := .int64
         lookup := some ⟨"Grade", "Name"⟩ }]
     relationships := [
       { name := "Manager", kind := .manyToOne, foreignKey := ⟨"Employee", "ManagerId"⟩
         primaryKey := ⟨"Employee", "Id"⟩ },
       { name := "Reports", kind := .oneToMany, foreignKey := ⟨"Employee", "ManagerId"⟩
         primaryKey := ⟨"Employee", "Id"⟩ }]
     permissions := {} },
   { entity := "Grade", table := "grades"
     columns := [
       { member := "Id", column := "id", type := .int64, primaryKey := true },
       { member := "Name", column := "name", type := .text }]
     relationships := []
     permissions := {} }]

/-- The manager comes before the reports in one context and after them in the other, where the
path that fails is added first. -/
theorem paths_in_any_order_staff : ∃ start,
    ofEntity ⟨staffTables, []⟩ "Employee" = .ok start ∧
      (start.addPaths ["Manager", "Reports.Owner"]).find? root "Manager" = some 2 ∧
      (start.addPaths ["Reports.Owner", "Manager", "Manager"]).find? root "Manager" = some 4 ∧
      (start.addPaths ["Manager", "Reports.Owner"]).Isomorphic
        (start.addPaths ["Reports.Owner", "Manager", "Manager"]) ∧
      ∀ i ctx',
        (addPath root "Manager" >>= fun j => addPath j "Reports").run start = (.ok i, ctx') ↔
        (addPath root "Manager.Reports").run start = (.ok i, ctx') := by
  have haccepted : Definition.toCatalog ⟨[], staffTables⟩ = .ok ⟨staffTables, []⟩ := rfl
  obtain ⟨start, hstart⟩ : ∃ start, ofEntity ⟨staffTables, []⟩ "Employee" = .ok start := ⟨_, rfl⟩
  obtain ⟨hgraphs, hcalls⟩ := paths_in_any_order haccepted hstart
  refine ⟨start, hstart, ?_, ?_, hgraphs _ _ (by simp; tauto), ?_⟩
  · cases hstart
    decide +kernel
  · cases hstart
    decide +kernel
  · exact (hcalls start (.start haccepted hstart)).2 root "Manager" "Reports"
      (by decide) (by decide)

end Context

end EntityMap
