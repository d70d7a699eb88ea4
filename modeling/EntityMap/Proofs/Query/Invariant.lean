import EntityMap.Proofs.Context.Lookups
import EntityMap.Proofs.Query.Twins

/-!
# The invariant of contexts

Every call grows its context along paths and in no other way: what
`addPath` and `addLookups` keep, every call keeps (`Context.Call.keeps`).
With what one attached node leaves as it was, this gives the invariant
that planning relies on, of every context that calls lead to
(`Context.Reachable.wellFormed`).
-/

namespace EntityMap

open Growing

/-! ## What paths keep, calls keep -/

section Paths

variable {P : Context → Prop} (hpath : ∀ start path, (Context.addPath start path).Keeps P)

include hpath

namespace Context

theorem resolvePath_keeps (start : Nat) (path : String) : (resolvePath start path).Keeps P := by
  unfold resolvePath
  split
  · exact Keeps.throw _
  · exact (hpath start _).bind fun _ => Keeps.look _

theorem selectAlong_keeps (target i : Nat) (path : String) (select : List NodeColumn)
    (segments : List String) : (selectAlong target i path select segments).Keeps P := by
  induction segments generalizing i path select with
  | nil => exact Keeps.pure select
  | cons segment rest ih =>
      unfold selectAlong
      refine (hpath i segment).adapt.bind fun next => Keeps.get_bind fun ctx => ?_
      split
      · exact Keeps.pure select
      · exact (Keeps.look _).bind fun select => ih next _ select

theorem selectAll_keeps (target : Nat) (includes : List String) :
    (selectAll target includes).Keeps P := by
  unfold selectAll
  refine (Keeps.look _).bind fun select => Keeps.foldlM select fun select path _ => ?_
  exact (Keeps.look _).bind fun segments => selectAlong_keeps hpath target target "" select segments

end Context

theorem Selection.bind_keeps (target : Nat) (selection : Selection) :
    (selection.bind target).Keeps P := by
  unfold Selection.bind
  split
  · exact Context.selectAll_keeps hpath target _
  · exact Context.selectAll_keeps hpath target _
  · refine Keeps.adapt (Keeps.mapM fun entry _ => ?_)
    exact (Context.resolvePath_keeps hpath target entry.path).bind fun _ => Keeps.pure _

theorem Filter.bind_keeps (target : Nat) (filter : Filter) :
    (Filter.bind target filter).Keeps P := by
  induction filter with
  | member path =>
      exact (Context.resolvePath_keeps hpath target path).adapt.bind fun _ => Keeps.pure _
  | literal v => exact Keeps.pure _
  | binary op left right ihleft ihright =>
      unfold Filter.bind
      refine ihleft.bind fun l => ihright.bind fun r => ?_
      split
      · exact Keeps.pure _
      · exact (Keeps.look _).bind fun _ => Keeps.pure _

theorem Order.bind_keeps (target : Nat) (order : Order) : (order.bind target).Keeps P :=
  (Context.resolvePath_keeps hpath target order.path).bind fun _ => Keeps.pure _

namespace Request

theorem filter_keeps (target : Nat) (filter : Option Filter) : Keeps P (filter.mapM fun filter =>
    (Filter.bind target filter).adapt PlanError.filter : Growing PlanError _) := by
  cases filter with
  | none => exact Keeps.pure none
  | some filter => exact (Filter.bind_keeps hpath target filter).adapt.map

theorem checkedDraft_keeps (r : Request) (target : Nat) (scope : Scope) :
    (r.checkedDraft target scope).Keeps P := by
  unfold checkedDraft draft
  refine (Keeps.look _).bind fun _ => (Keeps.look _).bind fun _ => ?_
  refine (r.selection.bind_keeps hpath target).bind fun select => ?_
  have horder : Keeps P (ExceptT.adapt PlanError.context (r.orderBy.mapM (Order.bind target))) :=
    Keeps.adapt (Keeps.mapM fun order _ => order.bind_keeps hpath target)
  refine (filter_keeps hpath target r.filter).bind fun filter => ?_
  cases scope with
  | outer => exact horder.bind fun orderBy => Keeps.pure _
  | nested => exact Keeps.pure _

theorem plan_keeps (r : Request) (target : Nat) (scope : Scope) : (r.plan target scope).Keeps P :=
  (r.checkedDraft_keeps hpath target scope).bind fun _ => Keeps.look _

theorem strategy_keeps (r : Request) (target : Nat) : (r.strategy target).Keeps P :=
  (r.checkedDraft_keeps hpath target .outer).bind fun _ => Keeps.look _

end Request

namespace Context

theorem firstCollection_keeps (parent : Plan) (path : String) (i : Nat) (done : List String)
    (segments : List String) : (firstCollection parent path i done segments).Keeps P := by
  induction segments generalizing i done with
  | nil => exact Keeps.pure none
  | cons segment rest ih =>
      unfold firstCollection
      refine (hpath i segment).adapt.bind fun next => Keeps.get_bind fun ctx => ?_
      split
      · exact (Keeps.look _).map
      · exact ih next _

theorem firstCollections_keeps (parent : Plan) (includes : List String) :
    (firstCollections parent includes).Keeps P := by
  unfold firstCollections
  refine Keeps.foldlM [] fun found path _ => (Keeps.look _).bind fun segments => ?_
  refine (firstCollection_keeps hpath parent path _ [] segments).bind fun first => ?_
  split <;> exact Keeps.pure _

theorem collectionPlan_keeps (c : IncludedCollection) (parentPath : String) :
    (collectionPlan c parentPath).Keeps P := by
  unfold collectionPlan
  refine (Keeps.look _).bind fun link => (Keeps.look _).bind fun column => ?_
  refine (selectAll_keeps hpath c.node c.nested).bind fun select => ?_
  exact (Keeps.look _).bind fun _ => Keeps.pure _

theorem includesBelow_keeps (depth : Nat) (parent : Plan) (parentPath : String)
    (includes : List String) : (includesBelow depth parent parentPath includes).Keeps P := by
  induction depth generalizing parent parentPath includes with
  | zero => exact Keeps.pure []
  | succ depth ih =>
      unfold includesBelow
      refine (firstCollections_keeps hpath parent includes).bind fun collections => ?_
      refine Keeps.bind (Keeps.mapM fun c _ => ?_) fun plans => Keeps.pure _
      refine (collectionPlan_keeps hpath c parentPath).bind fun own => ?_
      exact (ih own.plan own.path c.nested).bind fun below => Keeps.pure _

/-- What paths and lookups keep, every call keeps, whether it succeeds or fails. -/
theorem Call.keeps {ctx ctx' : Context} (hlookups : ∀ i, (Context.addLookups i).Keeps P)
    (h : ctx.Call ctx') (hctx : P ctx) : P ctx' := by
  cases h with
  | addPath start path => exact hpath start path ctx hctx
  | addLookups i => exact hlookups i ctx hctx
  | resolvePath start path => exact resolvePath_keeps hpath start path ctx hctx
  | bind target filter => exact Filter.bind_keeps hpath target filter ctx hctx
  | plan r target scope => exact r.plan_keeps hpath target scope ctx hctx
  | strategy r target => exact r.strategy_keeps hpath target ctx hctx
  | includes parent paths => exact includesBelow_keeps hpath _ parent "" paths ctx hctx

end Context

end Paths

/-! ## How nodes are joined and named -/

theorem JoinKind.eq_of_left_iff {kind kind' : JoinKind} (h : kind = .left ↔ kind' = .left) :
    kind = kind' := by
  cases kind <;> cases kind' <;> simp at h ⊢

namespace Node

variable {n : Node} {key : ChildKey} {i : Nat}

theorem child?_eq_none_iff : n.child? key = none ↔ key ∉ n.children.map (·.1) := by
  rw [child?, List.lookup_eq_none_iff, List.mem_map]
  constructor
  · rintro h ⟨entry, hentry, rfl⟩
    simpa using h entry hentry
  · intro h entry hentry
    exact bne_iff_ne.mpr fun heq => h ⟨entry, hentry, heq.symm⟩

/-- A name that is given once leads to the child that it is given to. -/
theorem child?_eq_some_iff (hnames : (n.children.map (·.1)).Nodup) :
    n.child? key = some i ↔ (key, i) ∈ n.children :=
  lookup_eq_some_iff_mem hnames

end Node

namespace Context

variable {ctx ctx' : Context}

/-- A node is joined as `left` when its origin is or its link is open, and no two children of a
node have one name. -/
structure Joined (ctx : Context) : Prop where
  kind : ∀ {i : Nat} {n : Node} {link : Link}, ctx.nodes[i]? = some n → n.link = some link →
    ∃ origin, ctx.nodes[link.origin]? = some origin ∧
      (n.joinKind = .left ↔ origin.joinKind = .left ∨ link.traversal = .inverse ∨ link.nullable)
  names : ∀ {i : Nat} {n : Node}, ctx.nodes[i]? = some n → (n.children.map (·.1)).Nodup

theorem joined_root {catalog : Catalog} {entity table : String} :
    Joined { catalog
             nodes := #[{ index := root, entity, table, level := 0, link := none
                          joinKind := .inner, children := [] }] } := by
  have only : ∀ {i : Nat} {n m : Node}, #[m][i]? = some n → n = m := by
    intro i n m h
    exact Array.mem_singleton.mp (Array.mem_of_getElem? h)
  constructor
  · intro i n link hn hl
    obtain rfl := only hn
    cases hl
  · intro i n hn
    obtain rfl := only hn
    exact List.nodup_nil

theorem attached_joinKind_eq_left_iff {index : Nat} {entity table : String} {link : Link}
    {origin : Node} : (attached index entity table link origin).joinKind = .left ↔
      origin.joinKind = .left ∨ link.traversal = .inverse ∨ link.nullable := by
  unfold attached Link.isOpen
  by_cases hleft : origin.joinKind = .left <;> by_cases hinverse : link.traversal = .inverse <;>
    simp [hleft, hinverse]

namespace Joined

/-- One step keeps both. -/
theorem attaches (h : ctx.Joined) (hstep : ctx.Attaches ctx') : ctx'.Joined := by
  constructor
  case kind =>
    intro i n' link hn' hl
    rcases hstep.node_cases hn' with ⟨n, hn, more, rfl⟩ | ⟨t, link', o, -, ho, -, -, heq⟩
    · obtain ⟨o, ho, hkind⟩ := h.kind hn hl
      obtain ⟨o', ho', more', rfl⟩ := hstep.node ho
      exact ⟨_, ho', hkind⟩
    · rw [heq] at hl ⊢
      cases hl
      obtain ⟨o', ho', more', rfl⟩ := hstep.node ho
      exact ⟨_, ho', attached_joinKind_eq_left_iff⟩
  case names =>
    intro i n' hn'
    cases hstep with
    | @intro entity t link origin horigin _ _ hfree =>
        rcases Nat.lt_or_ge i ctx.nodes.size with hi | hi
        · rw [attach_of_lt horigin hi] at hn'
          obtain ⟨n, hn, rfl⟩ := Option.map_eq_some_iff.mp hn'
          have hnames := h.names hn
          split
          · rename_i hio
            obtain rfl : n = origin := Option.some.inj (hn.symm.trans (hio ▸ horigin))
            rw [Node.addChild, List.map_append, List.nodup_append_comm]
            exact List.nodup_cons.mpr ⟨Node.child?_eq_none_iff.mp hfree, hnames⟩
          · exact hnames
        · obtain rfl : i = ctx.nodes.size := by
            have hlt := (Array.getElem?_eq_some_iff.mp hn').1
            rw [size_attach horigin] at hlt
            omega
          rw [attach_last horigin] at hn'
          cases hn'
          exact List.nodup_nil

theorem grows (h : ctx.Joined) (hgrows : ctx.Grows ctx') : ctx'.Joined := by
  induction hgrows with
  | refl => exact h
  | tail _ hstep ih => exact ih.attaches hstep

end Joined

/-! ## The invariant -/

/-- What planning relies on. The index of a node is its place. -/
structure WellFormed (ctx : Context) : Prop where
  /-- A node keeps its place. -/
  index : ∀ {i : Nat} {n : Node}, ctx.nodes[i]? = some n → n.index = i
  /-- The first node is there, and it alone has no link. -/
  root : ∃ n, ctx.nodes[0]? = some n ∧ n.level = 0 ∧ n.joinKind = .inner
  link : ∀ {i : Nat} {n : Node}, ctx.nodes[i]? = some n → (n.link = none ↔ i = 0)
  /-- Every other node hangs on an earlier one, a level above it. -/
  origin : ∀ {i : Nat} {n : Node} {link : Link}, ctx.nodes[i]? = some n → n.link = some link →
    ∃ origin, ctx.nodes[link.origin]? = some origin ∧ link.origin < i ∧
      n.level = origin.level + 1 ∧
      (n.joinKind = .left ↔ origin.joinKind = .left ∨ link.traversal = .inverse ∨ link.nullable)
  /-- Children and links are inverse to each other, and a name is given to one child. -/
  children : ∀ {o i : Nat} {n : Node} {key : ChildKey}, ctx.nodes[o]? = some n →
    ((key, i) ∈ n.children ↔ ∃ link, ctx.link? i = some link ∧ link.origin = o ∧ link.key = key)
  names : ∀ {i : Nat} {n : Node}, ctx.nodes[i]? = some n → (n.children.map (·.1)).Nodup
  /-- Every node but a lookup has a lookup child for each lookup column of its entity. -/
  lookups : ∀ {i : Nat} {n : Node}, ctx.nodes[i]? = some n → n.isLookup = false →
    ∃ t, ctx.catalog.table n.entity = .ok t ∧ ∀ c ∈ t.columns, ∀ lookup, c.lookup = some lookup →
      ∃ k child, (.lookup c.member, k) ∈ n.children ∧ ctx.nodes[k]? = some child ∧
        child.isLookup ∧ child.entity = lookup.entity

namespace Reachable

theorem complete (h : Reachable ctx) : ctx.Complete := by
  induction h with
  | start haccepted hctx =>
      exact complete_of_ofEntity (Definition.lookupsKeyed_of_toCatalog haccepted) hctx
  | call _ hcall ih => exact hcall.keeps addPath_keeps addLookups_keeps ih

theorem joined (h : Reachable ctx) : ctx.Joined := by
  induction h with
  | start _ hctx =>
      obtain ⟨t, -, hgrows⟩ := ofEntity_grows hctx
      exact joined_root.grows hgrows
  | call _ hcall ih => exact ih.grows hcall.grows

theorem exists_root (h : Reachable ctx) :
    ∃ n, ctx.nodes[0]? = some n ∧ n.level = 0 ∧ n.joinKind = .inner := by
  induction h with
  | start _ hctx =>
      obtain ⟨t, -, hgrows⟩ := ofEntity_grows hctx
      obtain ⟨n, hn, more, rfl⟩ := hgrows.node (i := 0) rfl
      exact ⟨_, hn, rfl, rfl⟩
  | call _ hcall ih =>
      obtain ⟨n, hn, hlevel, hkind⟩ := ih
      obtain ⟨n', hn', more, rfl⟩ := hcall.grows.node hn
      exact ⟨_, hn', hlevel, hkind⟩

end Reachable

/-- The child of a node behind a lookup column is a lookup, of the entity that the column names. -/
theorem lookup_of_child? {i k : Nat} {n : Node} {t : Table} {c : Column} {lookup : Lookup}
    (harena : ctx.Arena) (hregistered : ctx.Registered) (haccepted : ctx.catalog.Accepted)
    (hn : ctx.nodes[i]? = some n) (ht : ctx.catalog.table n.entity = .ok t) (hc : c ∈ t.columns)
    (hlookup : c.lookup = some lookup) (hk : ctx.child? i (.lookup c.member) = some k) :
    ∃ child, ctx.nodes[k]? = some child ∧ child.isLookup ∧ child.entity = lookup.entity := by
  obtain ⟨link, hlink, rfl, hkey⟩ := hregistered.hangs hk
  obtain ⟨child, hchild, hl⟩ := Option.bind_eq_some_iff.mp hlink
  obtain ⟨origin, hangs⟩ := harena.hangs hchild hl
  obtain rfl : origin = n := Option.some.inj (hangs.origin_eq.symm.trans hn)
  refine ⟨child, hchild, ?_⟩
  have hdeclared := hangs.declared
  generalize child.entity = entity at hdeclared
  cases hdeclared with
  | lookup _ ht' hc' hlookup' _ _ =>
      cases ht.symm.trans ht'
      obtain rfl := haccepted.eq_of_member (Catalog.mem_of_table ht).1 hc hc'
        (ChildKey.lookup.inj hkey).symm
      cases hlookup.symm.trans hlookup'
      exact ⟨by simp [Node.isLookup, hl], rfl⟩
  | navigation => simp at hkey

theorem Reachable.wellFormed (h : Reachable ctx) : ctx.WellFormed := by
  have harena := h.arena
  have hregistered := h.registered
  have hjoined := h.joined
  constructor
  case index => exact harena.index
  case root => exact h.exists_root
  case link =>
    intro i n hn
    refine ⟨harena.linked hn, ?_⟩
    rintro rfl
    obtain ⟨m, hm, hl⟩ := harena.root
    obtain rfl : n = m := Option.some.inj (hn.symm.trans hm)
    exact hl
  case origin =>
    intro i n link hn hl
    obtain ⟨origin, horigin, hkind⟩ := hjoined.kind hn hl
    obtain ⟨origin', hangs⟩ := harena.hangs hn hl
    obtain rfl : origin = origin' := Option.some.inj (horigin.symm.trans hangs.origin_eq)
    exact ⟨origin, horigin, hangs.lt, hangs.level, hkind⟩
  case children =>
    intro o i n key hn
    have hchild : ctx.child? o key = n.child? key := by rw [child?, hn]; rfl
    rw [← Node.child?_eq_some_iff (hjoined.names hn), ← hchild]
    constructor
    · exact hregistered.hangs
    · rintro ⟨link, hlink, rfl, rfl⟩
      exact hregistered.child hlink
  case names => exact hjoined.names
  case lookups =>
    intro i n hn hplain
    obtain ⟨t, ht, -⟩ := harena.table hn
    refine ⟨t, ht, fun c hc lookup hlookup => ?_⟩
    have hmem : (c, lookup) ∈ t.lookupColumns :=
      List.mem_filterMap.mpr ⟨c, hc, by rw [hlookup]; rfl⟩
    obtain ⟨k, hk⟩ := Option.isSome_iff_exists.mp
      (h.complete.furnished i n t hn hplain ht (c, lookup) hmem)
    obtain ⟨d, hd⟩ := h.accepted
    obtain ⟨child, hchild, hisLookup, hentity⟩ := lookup_of_child? harena hregistered
      (Definition.accepted_of_toCatalog hd) hn ht hc hlookup hk
    rw [child?, hn] at hk
    exact ⟨k, child, (Node.child?_eq_some_iff (hjoined.names hn)).mp hk, hchild, hisLookup, hentity⟩

/-- Every context of an accepted catalog that calls lead to, successful or not, is well-formed, and
in it a call removes no node and changes none but for adding children. -/
theorem Reachable.wellFormed_and_kept (h : Reachable ctx) :
    ctx.WellFormed ∧ ∀ ctx', ctx.Call ctx' → ∀ (i : Nat) (n : Node), ctx.nodes[i]? = some n →
      ∃ n', ctx'.nodes[i]? = some n' ∧ Kept n n' :=
  ⟨h.wellFormed, fun _ hcall _ _ hn => hcall.grows.node hn⟩

/-! ## Tickets below tickets -/

def deskTables : List Table :=
  [{ entity := "Ticket", table := "tickets"
     columns := [
       { member := "Id", column := "id", type := .int64, primaryKey := true },
       { member := "ParentId", column := "parent_id", type := .int64, nullable := true },
       { member := "State", column := "state_id", type := .int64
         lookup := some ⟨"State", "Name"⟩ }]
     relationships := [
       { name := "Parent", kind := .manyToOne, foreignKey := ⟨"Ticket", "ParentId"⟩
         primaryKey := ⟨"Ticket", "Id"⟩ }]
     permissions := {} },
   { entity := "State", table := "states"
     columns := [
       { member := "Id", column := "id", type := .int64, primaryKey := true },
       { member := "Name", column := "name", type := .text }]
     relationships := []
     permissions := {} }]

/-- The ticket and its state. -/
def deskContext : Context :=
  { catalog := ⟨deskTables, []⟩
    nodes := #[
      { index := 0, entity := "Ticket", table := "tickets", level := 0, link := none
        joinKind := .inner, children := [(.lookup "State", 1)] },
      { index := 1, entity := "State", table := "states", level := 1, joinKind := .inner
        children := []
        link := some
          { origin := 0, key := .lookup "State", traversal := .lookup, originMember := "State"
            nodeMember := "Id", nullable := false } }] }

theorem reachable_deskContext : Reachable deskContext :=
  have haccepted : Definition.toCatalog ⟨[], deskTables⟩ = .ok ⟨deskTables, []⟩ := rfl
  have hctx : ofEntity ⟨deskTables, []⟩ "Ticket" = .ok deskContext := rfl
  .start haccepted hctx

/-- A ticket has no owner, so this path fails at its second step; the parent stays, and has its
state. -/
theorem wellFormed_and_kept_owner : ∃ e ctx,
    (addPath 0 "Parent.Owner").run deskContext = (.error e, ctx) ∧ ctx.nodes.size = 4 ∧
      ctx.WellFormed ∧ ∀ ctx', ctx.Call ctx' → ∀ (i : Nat) (n : Node), ctx.nodes[i]? = some n →
        ∃ n', ctx'.nodes[i]? = some n' ∧ Kept n n' := by
  rcases hrun : (addPath 0 "Parent.Owner").run deskContext with ⟨answer, ctx⟩
  have hsize : ((addPath 0 "Parent.Owner").run deskContext).2.nodes.size = 4 := by decide +kernel
  have hfails : ((addPath 0 "Parent.Owner").run deskContext).1.toOption = none := by decide +kernel
  have hctx : Reachable ((addPath 0 "Parent.Owner").run deskContext).2 :=
    .call reachable_deskContext (.addPath 0 "Parent.Owner")
  rw [hrun] at hsize hfails hctx
  cases answer with
  | ok i => cases hfails
  | error e => exact ⟨e, ctx, rfl, hsize, hctx.wellFormed_and_kept⟩

end Context

end EntityMap
