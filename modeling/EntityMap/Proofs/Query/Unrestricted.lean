import EntityMap.Proofs.Context.Growing
import EntityMap.Query.Planned

/-!
# Planning without permissions

What is permitted on a table is no part of what is planned: a catalog in
which everything is permitted leads to the same contexts, but for the
catalog in them, and to the same plans. `Growing.Blind` says so of a
computation, with one rule for each way to put computations together.
-/

namespace EntityMap

/-- A table on which everything is permitted. -/
def Table.unrestricted (t : Table) : Table :=
  { t with permissions := {} }

/-- A catalog in which everything is permitted. -/
def Catalog.unrestricted (catalog : Catalog) : Catalog :=
  { catalog with tables := catalog.tables.map Table.unrestricted }

theorem Catalog.table_unrestricted (catalog : Catalog) (entity : String) :
    catalog.unrestricted.table entity = (catalog.table entity).map Table.unrestricted := by
  have htable : catalog.unrestricted.table? entity =
      (catalog.table? entity).map Table.unrestricted := by
    unfold table? unrestricted
    rw [List.find?_map]
    rfl
  unfold table
  rw [htable]
  cases catalog.table? entity <;> rfl

namespace Table

variable (t : Table) (member : String)

@[simp] theorem entity_unrestricted : t.unrestricted.entity = t.entity := rfl

@[simp] theorem table_unrestricted : t.unrestricted.table = t.table := rfl

@[simp] theorem columns_unrestricted : t.unrestricted.columns = t.columns := rfl

@[simp] theorem relationships_unrestricted : t.unrestricted.relationships = t.relationships := rfl

@[simp] theorem column?_unrestricted : t.unrestricted.column? member = t.column? member := rfl

@[simp] theorem column_unrestricted : t.unrestricted.column member = t.column member := rfl

@[simp] theorem relationship?_unrestricted :
    t.unrestricted.relationship? member = t.relationship? member := rfl

@[simp] theorem key_unrestricted : t.unrestricted.key = t.key := rfl

@[simp] theorem lookupColumns_unrestricted : t.unrestricted.lookupColumns = t.lookupColumns := rfl

end Table

namespace Context

/-- A context over a catalog in which everything is permitted. -/
def unrestricted (ctx : Context) : Context :=
  { ctx with catalog := ctx.catalog.unrestricted }

variable (ctx : Context)

@[simp] theorem nodes_unrestricted : ctx.unrestricted.nodes = ctx.nodes := rfl

@[simp] theorem node_unrestricted (i : Nat) : ctx.unrestricted.node i = ctx.node i := rfl

@[simp] theorem child?_unrestricted (i : Nat) (key : ChildKey) :
    ctx.unrestricted.child? i key = ctx.child? i key := rfl

@[simp] theorem keyOnOrigin?_unrestricted (i : Nat) (member : String) :
    ctx.unrestricted.keyOnOrigin? i member = ctx.keyOnOrigin? i member := rfl

theorem entityTable_unrestricted (entity : String) :
    ctx.unrestricted.entityTable entity = (ctx.entityTable entity).map Table.unrestricted := by
  have htable := ctx.catalog.table_unrestricted entity
  unfold entityTable unrestricted
  rw [htable]
  cases ctx.catalog.table entity <;> rfl

theorem table_unrestricted (i : Nat) :
    ctx.unrestricted.table i = (ctx.table i).map Table.unrestricted := by
  unfold table
  simp only [node_unrestricted, entityTable_unrestricted]
  cases ctx.node i <;> rfl

theorem column_unrestricted (i : Nat) (member : String) :
    ctx.unrestricted.column i member = ctx.column i member := by
  unfold column
  rw [table_unrestricted, Except.map_bind]
  rfl

theorem attach_unrestricted (entity table : String) (link : Link) :
    ctx.unrestricted.attach entity table link = (ctx.attach entity table link).unrestricted := by
  unfold attach
  rw [nodes_unrestricted]
  cases ctx.nodes[link.origin]? <;> rfl

theorem resolveMember_unrestricted (i : Nat) (member : String) (boundary : Nat) :
    ctx.unrestricted.resolveMember i member boundary = ctx.resolveMember i member boundary := by
  unfold resolveMember
  simp only [node_unrestricted, entityTable_unrestricted, column_unrestricted,
    keyOnOrigin?_unrestricted, Except.map_bind, Table.column?_unrestricted,
    Table.relationship?_unrestricted, Table.column_unrestricted]
  rfl

end Context

/-! ## Growing -/

namespace Growing

variable {ε ε' α β : Type}

/-- A computation does the same where everything is permitted, and leaves the same context. -/
def Blind (m : Growing ε α) : Prop :=
  ∀ ctx : Context, m.run ctx.unrestricted = ((m.run ctx).1, (m.run ctx).2.unrestricted)

namespace Blind

theorem pure (a : α) : Blind (pure a : Growing ε α) :=
  fun _ => rfl

theorem throw (e : ε) : Blind (throw e : Growing ε α) :=
  fun _ => rfl

theorem look {f : Context → Except ε α} (hf : ∀ ctx : Context, f ctx.unrestricted = f ctx) :
    Blind (look f) := by
  intro ctx
  rw [run_look, run_look, hf]

theorem bind {m : Growing ε α} {f : α → Growing ε β} (hm : Blind m) (hf : ∀ a, Blind (f a)) :
    Blind (m >>= f) := by
  intro ctx
  rw [run_bind, run_bind, hm ctx]
  rcases m.run ctx with ⟨e | a, ctx'⟩
  · rfl
  · exact hf a ctx'

/-- What is done with a table does not look at what is permitted on it. -/
theorem table_bind {f : Context → Except ε Table} {g : Table → Growing ε β}
    (hf : ∀ ctx : Context, f ctx.unrestricted = (f ctx).map Table.unrestricted)
    (hg : ∀ t, Blind (g t)) (hgt : ∀ t, g t.unrestricted = g t) :
    Blind (Growing.look f >>= g) := by
  intro ctx
  rw [run_look_bind, run_look_bind, hf]
  cases f ctx with
  | error e => rfl
  | ok t =>
      show (g t.unrestricted).run ctx.unrestricted = _
      rw [hgt]
      exact hg t ctx

theorem get_bind {g : Context → Growing ε β} (hg : ∀ ctx, Blind (g ctx))
    (hgt : ∀ ctx : Context, g ctx.unrestricted = g ctx) : Blind (get >>= g) := by
  intro ctx
  show (g ctx.unrestricted).run ctx.unrestricted =
    (((g ctx).run ctx).1, ((g ctx).run ctx).2.unrestricted)
  rw [hgt]
  exact hg ctx ctx

theorem modify {g : Context → Context}
    (hg : ∀ ctx : Context, g ctx.unrestricted = (g ctx).unrestricted) :
    Blind (modify g : Growing ε PUnit) := by
  intro ctx
  show ((.ok (), g ctx.unrestricted) : Except ε PUnit × Context) = (.ok (), (g ctx).unrestricted)
  rw [hg]

theorem adapt {g : ε → ε'} {m : Growing ε α} (hm : Blind m) : Blind (ExceptT.adapt g m) := by
  intro ctx
  rw [run_adapt, run_adapt, hm ctx]

theorem map {f : α → β} {m : Growing ε α} (hm : Blind m) : Blind (f <$> m) := by
  rw [map_eq_pure_bind]
  exact hm.bind fun _ => pure _

theorem forM {f : α → Growing ε Unit} (hf : ∀ a, Blind (f a)) (l : List α) :
    Blind (l.forM f) := by
  induction l with
  | nil => exact pure ()
  | cons a rest ih => exact (hf a).bind fun _ => ih

theorem mapM {f : α → Growing ε β} (hf : ∀ a, Blind (f a)) (l : List α) :
    Blind (l.mapM f) := by
  induction l with
  | nil => exact pure []
  | cons a rest ih =>
      rw [List.mapM_cons]
      exact (hf a).bind fun _ => ih.bind fun _ => pure _

end Blind

end Growing

namespace Context

open Growing

theorem addNode_blind (entity : String) (link : Link) : Blind (addNode entity link) := by
  unfold addNode
  refine .table_bind (fun ctx => ctx.entityTable_unrestricted entity) (fun t => ?_) fun _ => rfl
  refine .get_bind (fun ctx => ?_) fun _ => rfl
  exact Blind.bind (.modify fun ctx => ctx.attach_unrestricted entity t.table link) fun _ => .pure _

theorem addLookup_blind (i : Nat) (column : Column) (lookup : Lookup) :
    Blind (addLookup i column lookup) := by
  unfold addLookup
  refine .get_bind (fun ctx => ?_) fun _ => rfl
  split
  · refine Blind.bind (.look fun ctx => ?_) fun target => (addNode_blind _ _).bind fun _ => .pure _
    rw [entityTable_unrestricted, Except.map_bind]
    rfl
  · exact .pure _

theorem addLookups_blind (i : Nat) : Blind (addLookups i) := by
  unfold addLookups
  refine .table_bind (fun ctx => ctx.table_unrestricted i) (fun t => ?_) fun _ => rfl
  exact Blind.forM (fun ⟨column, lookup⟩ => addLookup_blind i column lookup) _

theorem addNavigation_blind (origin : Nat) (member path : String) :
    Blind (addNavigation origin member path) := by
  unfold addNavigation
  refine Blind.bind (.look fun ctx => ?_) fun target => ?_
  · simp only [node_unrestricted, entityTable_unrestricted, Except.map_bind,
      Table.relationship?_unrestricted, Table.column_unrestricted]
  · exact (addNode_blind _ _).bind fun index => (addLookups_blind index).bind fun _ => .pure _

theorem addSegments_blind (path : String) (i : Nat) (segments : List String) :
    Blind (addSegments path i segments) := by
  induction segments generalizing i with
  | nil => exact .pure i
  | cons member rest ih =>
      unfold addSegments
      refine .get_bind (fun ctx => ?_) fun _ => rfl
      split
      · exact ih _
      · exact (addNavigation_blind _ _ _).bind fun next => ih next

theorem addPath_blind (start : Nat) (path : String) : Blind (addPath start path) := by
  unfold addPath
  exact Blind.bind (.look fun _ => rfl) fun _ => Blind.bind (.look fun _ => rfl)
    fun segments => addSegments_blind path start segments

theorem resolvePath_blind (start : Nat) (path : String) : Blind (resolvePath start path) := by
  unfold resolvePath
  split
  · exact .throw _
  · exact (addPath_blind start _).bind fun i =>
      .look fun ctx => ctx.resolveMember_unrestricted i _ start

/-- The context of an entity, but for what is permitted. -/
theorem ofEntity_unrestricted (catalog : Catalog) (entity : String) :
    ofEntity catalog.unrestricted entity = (ofEntity catalog entity).map unrestricted := by
  unfold ofEntity
  rw [catalog.table_unrestricted]
  cases catalog.table entity with
  | error e => rfl
  | ok t =>
      let first : Node :=
        { index := root, entity, table := t.table, level := 0, link := none, joinKind := .inner
          children := [] }
      have hlookups : (addLookups root).run { catalog := catalog.unrestricted, nodes := #[first] } =
          _ := addLookups_blind root { catalog, nodes := #[first] }
      dsimp only [Except.map, Except.mapError, bind, Except.bind, Table.table_unrestricted]
      rw [hlookups]
      rcases (addLookups root).run { catalog, nodes := #[first] } with ⟨_ | _, ctx⟩ <;> rfl

/-! ## Filters -/

theorem storedLiteral_unrestricted (ctx : Context) (column : NodeColumn) (v : Value) :
    ctx.unrestricted.storedLiteral column v = ctx.storedLiteral column v := by
  unfold storedLiteral
  rw [column_unrestricted]
  rfl

theorem comparison_unrestricted (ctx : Context) (left right : BoundFilter) :
    ctx.unrestricted.comparison left right = ctx.comparison left right := by
  unfold comparison
  simp only [storedLiteral_unrestricted]

end Context

open Growing

theorem Filter.bind_blind (target : Nat) (filter : Filter) : Blind (Filter.bind target filter) := by
  induction filter with
  | member path =>
      exact (Context.resolvePath_blind target path).adapt.bind fun column => .pure _
  | literal v => exact .pure _
  | binary op left right hleft hright =>
      refine hleft.bind fun left => hright.bind fun right => ?_
      split
      · exact .pure _
      · exact Blind.bind (.look fun ctx => ctx.comparison_unrestricted left right) fun _ => .pure _

/-! ## Plans -/

namespace Context

variable (ctx : Context)

@[simp] theorem origin?_unrestricted (i : Nat) : ctx.unrestricted.origin? i = ctx.origin? i := rfl

theorem ancestors_unrestricted (i : Nat) : ctx.unrestricted.ancestors i = ctx.ancestors i := by
  induction i using Nat.strongRecOn with
  | ind i ih =>
      rw [ancestors, ancestors, origin?_unrestricted]
      split
      · rename_i o _
        split
        · rename_i hlt
          rw [ih o hlt]
        · rfl
      · rfl

theorem closure_unrestricted (d : Draft) : ctx.unrestricted.closure d = ctx.closure d := by
  have hclose : ctx.unrestricted.close d.target = ctx.close d.target := by
    funext c i
    unfold close isAncestorOrSelf ancestorsUntil
    rw [ancestors_unrestricted]
  unfold closure
  rw [hclose]
  rfl

theorem columnName_unrestricted (i : Nat) (member : String) :
    ctx.unrestricted.columnName i member = ctx.columnName i member := by
  unfold columnName
  rw [table_unrestricted, Except.mapError_map, Except.map_bind]
  rfl

theorem join_unrestricted (forced : List Nat) (joined : List (Nat × JoinKind)) (i : Nat)
    (edge : Edge) : ctx.unrestricted.join forced joined i edge = ctx.join forced joined i edge := by
  unfold join
  simp only [columnName_unrestricted, nodes_unrestricted]
  rfl

theorem joins_unrestricted (forced : List Nat) (joined : List (Nat × JoinKind))
    (remaining : List Nat) :
    ctx.unrestricted.joins forced joined remaining = ctx.joins forced joined remaining := by
  have hedge : ctx.unrestricted.edge? = ctx.edge? := rfl
  induction hn : remaining.length using Nat.strongRecOn generalizing joined remaining with
  | ind n ih =>
      rw [joins, joins.eq_def ctx, hedge]
      split
      · rename_i i edge others hpick
        have hlt : others.length < n := by
          have := length_of_pick? hpick
          omega
        simp only [join_unrestricted, ih _ hlt _ _ rfl]
      · rfl

theorem keyColumn_unrestricted (i : Nat) : ctx.unrestricted.keyColumn i = ctx.keyColumn i := by
  unfold keyColumn
  rw [table_unrestricted, Except.mapError_map, Except.map_bind]
  rfl

theorem plan_unrestricted (d : Draft) : ctx.unrestricted.plan d = ctx.plan d := by
  unfold plan ancestorsUntil
  simp only [keyColumn_unrestricted, closure_unrestricted, joins_unrestricted,
    ancestors_unrestricted, node_unrestricted]
  rfl

end Context

/-- A request for the columns of some members is planned without a look at what is permitted. -/
theorem Request.plan_blind {r : Request} {entry : Projection} {rest : List Projection}
    (h : r.selection = .projection (entry :: rest)) (target : Nat) (scope : Scope) :
    Blind (r.plan target scope) := by
  have hselect : Blind (r.selection.bind target) := by
    rw [h]
    refine Blind.adapt (.mapM (fun entry => ?_) _)
    exact (Context.resolvePath_blind target _).bind fun column => .pure _
  have hfilter : Blind (r.filter.mapM fun filter =>
      (Filter.bind target filter).adapt PlanError.filter) := by
    cases r.filter with
    | none => exact .pure none
    | some filter => exact (Filter.bind_blind target filter).adapt.map
  have horder : Blind ((r.orderBy.mapM (Order.bind target)).adapt PlanError.context) := by
    refine Blind.adapt (.mapM (fun order => ?_) _)
    exact (Context.resolvePath_blind target _).bind fun column => .pure _
  have hdraft : Blind (r.draft target scope) := by
    refine Blind.bind (.look fun _ => rfl) fun _ => hselect.bind fun _ => hfilter.bind fun _ => ?_
    cases scope with
    | outer => exact horder.bind fun _ => .pure _
    | nested => exact Blind.bind (.pure []) fun _ => .pure _
  unfold plan checkedDraft
  exact (Blind.bind (.look fun _ => rfl) fun _ => hdraft).bind fun d =>
    .look fun ctx => ctx.plan_unrestricted d

end EntityMap
