import EntityMap.Proofs.Catalog.Accepted
import EntityMap.Proofs.Context.Growing

/-!
# Lookups come with their nodes

A node that is not itself a lookup has a child for every lookup column of
its entity (`Context.Furnished`). The children are attached after the
node, one by one, so in between this holds of all nodes but the new one.
In an accepted catalog the children can always be attached
(`Context.exists_run_addLookups`); hence no path leaves a node without
them, also when it fails half way (`Context.addPath_keeps`).
-/

namespace EntityMap

/-! ## What a computation keeps -/

namespace Growing

variable {ε ε' α β : Type} {P : Context → Prop}

/-- A computation keeps a property of the context, whether it succeeds or fails. -/
def Keeps (P : Context → Prop) (m : Growing ε α) : Prop :=
  ∀ ctx, P ctx → P (m.run ctx).2

namespace Keeps

theorem pure (a : α) : Keeps P (pure a : Growing ε α) := fun _ h => h

theorem throw (e : ε) : Keeps P (throw e : Growing ε α) := fun _ h => h

theorem look (f : Context → Except ε α) : Keeps P (Growing.look f) := fun _ h => h

theorem bind {m : Growing ε α} {f : α → Growing ε β} (hm : Keeps P m) (hf : ∀ a, Keeps P (f a)) :
    Keeps P (m >>= f) := by
  intro ctx h
  have hrun := hm ctx h
  rw [run_bind]
  rcases hcase : m.run ctx with ⟨e | a, ctx'⟩
  · rw [hcase] at hrun
    exact hrun
  · rw [hcase] at hrun
    exact hf a ctx' hrun

theorem get_bind {f : Context → Growing ε β} (hf : ∀ ctx, Keeps P (f ctx)) :
    Keeps P (MonadState.get >>= f) := fun ctx h => hf ctx ctx h

theorem adapt {m : Growing ε α} {g : ε → ε'} (h : Keeps P m) : Keeps P (ExceptT.adapt g m) := h

theorem map {m : Growing ε α} {f : α → β} (h : Keeps P m) : Keeps P (f <$> m) := by
  rw [map_eq_pure_bind]
  exact h.bind fun a => Keeps.pure (f a)

theorem foldlM {f : β → α → Growing ε β} {l : List α} (b : β)
    (hf : ∀ b, ∀ a ∈ l, Keeps P (f b a)) : Keeps P (l.foldlM f b) := by
  induction l generalizing b with
  | nil => exact Keeps.pure b
  | cons a rest ih =>
      rw [List.foldlM_cons]
      exact (hf b a (List.mem_cons_self ..)).bind fun b =>
        ih b fun b a ha => hf b a (List.mem_cons_of_mem _ ha)

theorem mapM {f : α → Growing ε β} {l : List α} (hf : ∀ a ∈ l, Keeps P (f a)) :
    Keeps P (l.mapM f) := by
  induction l with
  | nil => exact Keeps.pure []
  | cons a rest ih =>
      rw [List.mapM_cons]
      refine (hf a (List.mem_cons_self ..)).bind fun b => ?_
      exact (ih fun a ha => hf a (List.mem_cons_of_mem _ ha)).bind fun bs => Keeps.pure (b :: bs)

end Keeps

/-- What a computation keeps holds in the context that it leads to. -/
theorem Leads.kept {ctx : Context} {m : Growing ε α} {Q : α → Context → Prop} (h : m.Leads ctx Q)
    (hkeeps : m.Keeps P) (hctx : P ctx) : m.Leads ctx fun a ctx' => Q a ctx' ∧ P ctx' :=
  ⟨h.grows, fun a ha => ⟨h.answer a ha, hkeeps ctx hctx⟩⟩

end Growing

namespace Context

open Growing

variable {ctx : Context} {entity : String} {t target : Table} {link : Link} {n origin : Node}
  {column key : Column} {lookup : Lookup} {i : Nat}

/-! ## Furnished nodes -/

/-- A node has a child for each lookup column of its entity, unless it is a lookup itself. -/
def Furnished (ctx : Context) (i : Nat) : Prop :=
  ∀ n t, ctx.nodes[i]? = some n → n.isLookup = false → ctx.catalog.table n.entity = .ok t →
    ∀ entry ∈ t.lookupColumns, (ctx.child? i (.lookup entry.1.member)).isSome

/-- Where a node was, a node of its entity and its kind still is. -/
theorem exists_node_of_attach {table : String} (horigin : ctx.nodes[link.origin]? = some origin)
    (hi : i < ctx.nodes.size) (hn : (ctx.attach entity table link).nodes[i]? = some n) :
    ∃ m, ctx.nodes[i]? = some m ∧ n.entity = m.entity ∧ n.isLookup = m.isLookup := by
  rw [attach_of_lt horigin hi] at hn
  obtain ⟨m, hm, rfl⟩ := Option.map_eq_some_iff.mp hn
  exact ⟨m, hm, by split <;> exact ⟨rfl, rfl⟩⟩

theorem isSome_child?_attach {table : String} {j : Nat} {name : ChildKey}
    (horigin : ctx.nodes[link.origin]? = some origin) (h : (ctx.child? j name).isSome) :
    ((ctx.attach entity table link).child? j name).isSome := by
  rw [child?_attach horigin, Option.isSome_or, h, Bool.true_or]

/-- The nodes that are there stay furnished, and so is the new one if it is a lookup. -/
theorem Furnished.attach {table : String} (h : ctx.Furnished i)
    (horigin : ctx.nodes[link.origin]? = some origin)
    (hnew : i = ctx.nodes.size → link.traversal = .lookup) :
    (ctx.attach entity table link).Furnished i := by
  intro n t hn hplain ht entry hentry
  rw [catalog_attach horigin] at ht
  rcases Nat.lt_trichotomy i ctx.nodes.size with hlt | heq | hgt
  · obtain ⟨m, hm, hentity, hkind⟩ := exists_node_of_attach horigin hlt hn
    rw [hentity] at ht
    rw [hkind] at hplain
    exact isSome_child?_attach horigin (h m t hm hplain ht entry hentry)
  · rw [heq, attach_last horigin] at hn
    cases hn
    simp [attached, Node.isLookup, hnew heq] at hplain
  · have hsize : (ctx.attach entity table link).nodes.size ≤ i := by
      rw [size_attach horigin]
      omega
    rw [Array.getElem?_eq_none hsize] at hn
    cases hn

/-- Lookups have been attached to a node, and nothing else. -/
structure Equips (i : Nat) (ctx ctx' : Context) : Prop where
  catalog : ctx'.catalog = ctx.catalog
  furnished : ∀ j, ctx.Furnished j → ctx'.Furnished j
  node : ∀ n, ctx.nodes[i]? = some n → ∃ n', ctx'.nodes[i]? = some n' ∧ n'.entity = n.entity
  child : ∀ name, (ctx.child? i name).isSome → (ctx'.child? i name).isSome

theorem Equips.refl (i : Nat) (ctx : Context) : Equips i ctx ctx :=
  ⟨rfl, fun _ h => h, fun n hn => ⟨n, hn, rfl⟩, fun _ h => h⟩

theorem Equips.trans {a b c : Context} (h : Equips i a b) (h' : Equips i b c) : Equips i a c where
  catalog := h'.catalog.trans h.catalog
  furnished j hj := h'.furnished j (h.furnished j hj)
  node n hn := by
    obtain ⟨n', hn', hentity⟩ := h.node n hn
    obtain ⟨n'', hn'', hentity'⟩ := h'.node n' hn'
    exact ⟨n'', hn'', hentity'.trans hentity⟩
  child name hname := h'.child name (h.child name hname)

/-- The link behind a lookup column of a node. -/
def lookupLink (i : Nat) (column key : Column) : Link :=
  { origin := i, key := .lookup column.member, traversal := .lookup
    originMember := column.member, nodeMember := key.member, nullable := column.nullable }

theorem equips_attach {table : String} (hn : ctx.nodes[i]? = some n) :
    Equips i ctx (ctx.attach entity table (lookupLink i column key)) := by
  have horigin : ctx.nodes[(lookupLink i column key).origin]? = some n := hn
  refine ⟨catalog_attach horigin, fun j hj => hj.attach horigin fun _ => rfl, fun m hm => ?_,
    fun name hname => isSome_child?_attach horigin hname⟩
  rw [attach_of_lt horigin (Array.getElem?_eq_some_iff.mp hn).1, hm]
  exact ⟨_, rfl, by split <;> rfl⟩

/-! ## Attaching a node with its lookups -/

theorem run_addNode (ht : ctx.catalog.table entity = .ok t) :
    (addNode entity link).run ctx = (.ok ctx.nodes.size, ctx.attach entity t.table link) := by
  unfold addNode
  rw [run_look_bind, entityTable_eq_ok_iff.mpr ht]
  rfl

/-- The child behind a lookup column is attached, if it is missing. -/
theorem run_addLookup (htarget : ctx.catalog.table lookup.entity = .ok target)
    (hkey : target.key = .ok key) :
    (addLookup i column lookup).run ctx =
      (.ok (), if (ctx.child? i (.lookup column.member)).isNone then
        ctx.attach lookup.entity target.table (lookupLink i column key) else ctx) := by
  have hlook : (do (← ctx.entityTable lookup.entity).key.mapError .catalog) = .ok key :=
    Except.bind_eq_ok_iff.mpr
      ⟨target, entityTable_eq_ok_iff.mpr htarget, Except.mapError_eq_ok_iff.mpr hkey⟩
  show (if (ctx.child? i (.lookup column.member)).isNone then _ else _ :
    Growing ContextError Unit).run ctx = _
  split
  · rw [run_look_bind, hlook]
    dsimp only
    rw [run_bind, run_addNode htarget]
    rfl
  · rfl

/-- The child behind a lookup column of a node can be attached. -/
theorem exists_run_addLookup (column : Column) (hn : ctx.nodes[i]? = some n)
    (htarget : ctx.catalog.table lookup.entity = .ok target) (hkey : target.key = .ok key) :
    ∃ ctx', (addLookup i column lookup).run ctx = (.ok (), ctx') ∧ Equips i ctx ctx' ∧
      (ctx'.child? i (.lookup column.member)).isSome := by
  refine ⟨_, run_addLookup htarget hkey, ?_⟩
  split
  · have horigin : ctx.nodes[(lookupLink i column key).origin]? = some n := hn
    refine ⟨equips_attach hn, ?_⟩
    rw [child?_attach horigin, if_pos ⟨rfl, rfl⟩, Option.isSome_or,
      Option.isSome_some, Bool.or_true]
  · rename_i hthere
    exact ⟨Equips.refl i ctx, by simpa [Option.isSome_iff_ne_none] using hthere⟩

/-- So can the children behind a list of lookup columns. -/
theorem exists_run_forM_addLookup (entries : List (Column × Lookup))
    (hn : ctx.nodes[i]? = some n)
    (hkeyed : ∀ entry ∈ entries, ∃ target key,
      ctx.catalog.table entry.2.entity = .ok target ∧ target.key = .ok key) :
    ∃ ctx', (entries.forM fun (column, lookup) => addLookup i column lookup).run ctx =
        (.ok (), ctx') ∧ Equips i ctx ctx' ∧
      ∀ entry ∈ entries, (ctx'.child? i (.lookup entry.1.member)).isSome := by
  induction entries generalizing ctx n with
  | nil => exact ⟨ctx, rfl, Equips.refl i ctx, by simp⟩
  | cons entry rest ih =>
      obtain ⟨target, key, htarget, hkey⟩ := hkeyed entry (List.mem_cons_self ..)
      obtain ⟨ctx₁, hrun, hfirst, hchild⟩ := exists_run_addLookup entry.1 hn htarget hkey
      obtain ⟨n₁, hn₁, -⟩ := hfirst.node n hn
      obtain ⟨ctx', hrun', hrest, hchildren⟩ := ih hn₁ fun other hother => by
        rw [hfirst.catalog]
        exact hkeyed other (List.mem_cons_of_mem _ hother)
      refine ⟨ctx', ?_, hfirst.trans hrest, fun other hother => ?_⟩
      · show (addLookup i entry.1 entry.2 >>= fun _ =>
          rest.forM fun (column, lookup) => addLookup i column lookup).run ctx = _
        rw [run_bind, hrun]
        exact hrun'
      · rcases List.mem_cons.mp hother with rfl | hother
        · exact hrest.child _ hchild
        · exact hchildren other hother

/-- In a catalog whose lookups lead to keys, the lookups of a mapped node can be attached. -/
theorem exists_run_addLookups (hkeyed : ctx.catalog.LookupsKeyed)
    (hn : ctx.nodes[i]? = some n) (ht : ctx.catalog.table n.entity = .ok t) :
    ∃ ctx', (addLookups i).run ctx = (.ok (), ctx') ∧ Equips i ctx ctx' ∧ ctx'.Furnished i := by
  obtain ⟨ctx', hrun, hequips, hchildren⟩ := exists_run_forM_addLookup t.lookupColumns hn
    fun entry hentry => by
      obtain ⟨c, hc, heq⟩ := List.mem_filterMap.mp hentry
      obtain ⟨lookup, hlookup, rfl⟩ := Option.map_eq_some_iff.mp heq
      exact hkeyed t (Catalog.mem_of_table ht).1 c hc lookup hlookup
  refine ⟨ctx', ?_, hequips, ?_⟩
  · unfold addLookups
    rw [run_look_bind, table_eq_ok_iff.mpr ⟨n, hn, ht⟩]
    exact hrun
  · intro m t' hm _ ht' entry hentry
    obtain ⟨n', hn', hentity⟩ := hequips.node n hn
    cases hn'.symm.trans hm
    rw [hequips.catalog, hentity] at ht'
    cases ht.symm.trans ht'
    exact hchildren entry hentry

/-! ## Along paths -/

/-- Every node is furnished, in a catalog whose lookups lead to keys. -/
structure Complete (ctx : Context) : Prop where
  keyed : ctx.catalog.LookupsKeyed
  furnished : ∀ i, ctx.Furnished i

theorem addLookups_keeps (i : Nat) : (addLookups i).Keeps Complete := by
  intro ctx h
  cases ht : ctx.table i with
  | error e =>
      have hrun : (addLookups i).run ctx = (.error e, ctx) := by
        unfold addLookups
        rw [run_look_bind, ht]
      rw [hrun]
      exact h
  | ok t =>
      obtain ⟨n, hn, ht⟩ := table_eq_ok_iff.mp ht
      obtain ⟨ctx', hrun, hequips, -⟩ := exists_run_addLookups h.keyed hn ht
      rw [hrun]
      exact ⟨by rw [hequips.catalog]; exact h.keyed, fun j => hequips.furnished j (h.furnished j)⟩

/-- A node that hangs on another one gets its lookups before anything else happens. -/
theorem addNode_addLookups_keeps (entity : String) (h : ctx.Complete)
    (horigin : ctx.nodes[link.origin]? = some origin) :
    ((do let index ← addNode entity link; addLookups index; return index :
      Growing ContextError Nat).run ctx).2.Complete := by
  cases ht : ctx.catalog.table entity with
  | error e =>
      have hnode : (addNode entity link).run ctx = (.error (.catalog e), ctx) := by
        unfold addNode
        rw [run_look_bind, entityTable, ht]
        rfl
      rw [run_bind, hnode]
      exact h
  | ok t =>
      have hcatalog : (ctx.attach entity t.table link).catalog = ctx.catalog :=
        catalog_attach horigin
      have hlast : (ctx.attach entity t.table link).nodes[ctx.nodes.size]? =
          some (attached ctx.nodes.size entity t.table link origin) := attach_last horigin
      obtain ⟨ctx', hrun, hequips, hnew⟩ := exists_run_addLookups
        (by rw [hcatalog]; exact h.keyed) hlast (by rw [hcatalog]; exact ht)
      have hend : ((do let index ← addNode entity link; addLookups index; return index :
          Growing ContextError Nat).run ctx) = (.ok ctx.nodes.size, ctx') := by
        rw [run_bind, run_addNode ht]
        simp only
        rw [run_bind, hrun]
        rfl
      rw [hend]
      refine ⟨by rw [hequips.catalog, hcatalog]; exact h.keyed, fun j => ?_⟩
      -- of the new node only the end of `addLookups` tells
      by_cases hj : j = ctx.nodes.size
      · exact hj ▸ hnew
      · exact hequips.furnished j ((h.furnished j).attach horigin fun heq => absurd heq hj)

theorem addNavigation_keeps (i : Nat) (member path : String) :
    (addNavigation i member path).Keeps Complete := by
  intro ctx h
  unfold addNavigation
  rw [run_look_bind]
  split
  · rename_i found hfound
    obtain ⟨target, link⟩ := found
    obtain ⟨n, hn, hfound⟩ := Except.bind_eq_ok_iff.mp hfound
    obtain ⟨table, -, hfound⟩ := Except.bind_eq_ok_iff.mp hfound
    have hlink : link.origin = i := by
      split at hfound
      · cases hfound
      · obtain ⟨_, -, hfound⟩ := Except.bind_eq_ok_iff.mp hfound
        obtain ⟨_, -, hfound⟩ := Except.bind_eq_ok_iff.mp hfound
        cases hfound
        exact linkOf_origin ..
    exact addNode_addLookups_keeps target h (hlink ▸ node_eq_ok_iff.mp hn)
  · exact h

theorem addSegments_keeps (path : String) (i : Nat) (segments : List String) :
    (addSegments path i segments).Keeps Complete := by
  induction segments generalizing i with
  | nil => exact Keeps.pure i
  | cons member rest ih =>
      unfold addSegments
      refine Keeps.get_bind fun ctx => ?_
      split
      · exact (Keeps.pure _).bind fun next => ih next
      · exact (addNavigation_keeps i member path).bind fun next => ih next

/-- No path leaves a node without its lookups, also when it fails half way. -/
theorem addPath_keeps (start : Nat) (path : String) : (addPath start path).Keeps Complete := by
  unfold addPath
  refine (Keeps.look _).bind fun _ => (Keeps.look _).bind fun segments => ?_
  exact addSegments_keeps path start segments

/-- A context can be started for every entity, and has the lookups of its root. -/
theorem exists_ofEntity {catalog : Catalog} (hkeyed : catalog.LookupsKeyed)
    (ht : catalog.table entity = .ok t) :
    ∃ ctx, ofEntity catalog entity = .ok ctx ∧ ctx.Complete := by
  let first : Node :=
    { index := root, entity, table := t.table, level := 0, link := none, joinKind := .inner
      children := [] }
  let start : Context := { catalog, nodes := #[first] }
  have hstart : start.catalog.LookupsKeyed := hkeyed
  have hroot : start.nodes[root]? = some first := rfl
  obtain ⟨ctx, hrun, hequips, hnew⟩ := exists_run_addLookups hstart hroot ht
  refine ⟨ctx, ?_, by rw [hequips.catalog]; exact hkeyed, fun j => ?_⟩
  · unfold ofEntity
    rw [ht]
    dsimp only [Except.mapError, bind, Except.bind]
    rw [hrun]
    rfl
  · cases j with
    | zero => exact hnew
    | succ j =>
        refine hequips.furnished (j + 1) fun n t hn => ?_
        simp [start] at hn

theorem complete_of_ofEntity {catalog : Catalog} (hkeyed : catalog.LookupsKeyed)
    (h : ofEntity catalog entity = .ok ctx) : ctx.Complete := by
  obtain ⟨t, ht, -⟩ := ofEntity_grows h
  obtain ⟨ctx', h', hcomplete⟩ := exists_ofEntity hkeyed ht
  cases h.symm.trans h'
  exact hcomplete

end Context

end EntityMap
