import EntityMap.Query.Error
import EntityMap.Query.Plan

/-!
# The join tree of a draft

The nodes of a plan are those that its draft refers to, closed under the
way up to the target. They are put in an order (`Context.closure`) that
starts with the nodes which only the filter refers to: rows that fail
the filter need not be read, so the statement starts at the first of
these, and all of them are joined as inner. From the base,
`Context.joins` walks the tree outwards, in that order as far as
neighbours are joined already.
-/

namespace EntityMap

namespace Draft

/-- The nodes that a draft refers to outside its filter. -/
def referencedNodes (d : Draft) : List Nat :=
  d.target :: d.select.map (·.node) ++ d.orderBy.map (·.column.node) ++
    (d.keyRestriction.map (·.column.node)).toList

/-- The nodes that only the filter of a draft refers to. -/
def filterOnlyNodes (d : Draft) : List Nat :=
  match d.filter with
  | some filter => (BoundFilter.nodes filter).filter fun i => !d.referencedNodes.contains i
  | none => []

end Draft

/-- The nodes of a plan in their order, and those that are joined as inner
whatever their links are. -/
structure Closure where
  nodes : List Nat
  forced : List Nat
  deriving DecidableEq, Repr

namespace Closure

/-- Adds a node, unless it is there. -/
def insert (c : Closure) (i : Nat) : Closure :=
  if c.nodes.contains i then c else { c with nodes := c.nodes ++ [i] }

/-- Adds a node above another one; it is forced when it is new and the other is
forced. -/
def insertAbove (c : Closure) (below i : Nat) : Closure :=
  if c.nodes.contains i then c
  else
    { nodes := c.nodes ++ [i]
      forced := if c.forced.contains below then c.forced ++ [i] else c.forced }

end Closure

/-- How a node is joined on one that is joined already. -/
inductive Edge where
  /-- By its own link, on its origin. -/
  | fromOrigin (origin : Nat)
  /-- By the link of a child, on this child. -/
  | fromChild (child : Nat)
  deriving DecidableEq, Repr

/-- The first element with an answer, the answer, and the other elements. -/
def pick? {α β : Type} (f : α → Option β) : List α → Option (α × β × List α)
  | [] => none
  | a :: rest =>
    match f a with
    | some b => some (a, b, rest)
    | none => (pick? f rest).map fun (picked, b, others) => (picked, b, a :: others)

/-- One element is picked. -/
theorem length_of_pick? {α β : Type} {f : α → Option β} :
    ∀ {l : List α} {a : α} {b : β} {others : List α}, pick? f l = some (a, b, others) →
      others.length + 1 = l.length
  | [], _, _, _, h => by simp [pick?] at h
  | x :: rest, a, b, others, h => by
    unfold pick? at h
    split at h
    · simp only [Option.some.injEq, Prod.mk.injEq] at h
      simp [← h.2.2]
    · obtain ⟨⟨picked, c, left⟩, hrest, heq⟩ := Option.map_eq_some_iff.mp h
      simp only [Prod.mk.injEq] at heq
      have := length_of_pick? hrest
      simp only [← heq.2.2, List.length_cons]
      omega

namespace Context

/-! ## The nodes and their order -/

/-- Distinct nodes, those nearer to the root first, then by index. -/
def byLevel (ctx : Context) (nodes : List Nat) : List Nat :=
  nodes.eraseDups.mergeSort fun i j =>
    ctx.level i < ctx.level j || (ctx.level i = ctx.level j && i ≤ j)

/-- Adds a node below the target, behind the nodes between the two. -/
def close (ctx : Context) (target : Nat) (c : Closure) (i : Nat) : Except PlanError Closure :=
  if !ctx.isAncestorOrSelf target i then .error (.unsupported (.unreachable i target))
  else
    let between := if i = target then [] else (ctx.ancestorsUntil i target).reverse
    .ok ((between.foldl (·.insertAbove i) c).insert i)

/-- The nodes of a draft, closed under the way up to the target. -/
def closure (ctx : Context) (d : Draft) : Except PlanError Closure :=
  let filterOnly := ctx.byLevel d.filterOnlyNodes
  let others := ctx.byLevel d.referencedNodes
  (filterOnly ++ others).foldlM (ctx.close d.target) { nodes := [], forced := filterOnly }

/-! ## The joins -/

/-- How a node hangs on the nodes that are joined already. -/
def edge? (ctx : Context) (joined : List (Nat × JoinKind)) (i : Nat) : Option Edge :=
  match (ctx.origin? i).filter fun o => joined.any (·.1 = o) with
  | some o => some (.fromOrigin o)
  | none => (joined.find? fun (j, _) => ctx.origin? j = some i).map fun (j, _) => .fromChild j

/-- The stored name of a member of a node. -/
def columnName (ctx : Context) (i : Nat) (member : String) : Except PlanError String := do
  let table ← (ctx.table i).mapError .context
  return (← (table.column member).mapError .catalog).column

/-- The link of a node that is not the root. -/
def link (ctx : Context) (i : Nat) : Except PlanError Link :=
  match ctx.link? i with
  | some link => .ok link
  | none => .error (.context (.nodeOutOfRange i))

/-- A node joined over an edge. On its origin it is joined as inner when it is
one of `forced`, and else as left when its origin is or its link is open; on
its child it is always joined as inner. -/
def join (ctx : Context) (forced : List Nat) (joined : List (Nat × JoinKind)) (i : Nat)
    (edge : Edge) : Except PlanError Join := do
  let table := ((ctx.nodes[i]?).map (·.table)).getD ""
  match edge with
  | .fromOrigin origin =>
    let link ← ctx.link i
    return {
      node := i, table
      nodeColumn := ← ctx.columnName i link.nodeMember
      source := origin
      sourceColumn := ← ctx.columnName origin link.originMember
      kind :=
        if forced.contains i then .inner
        else if joined.lookup origin = some .left || link.isOpen then .left
        else .inner }
  | .fromChild child =>
    let link ← ctx.link child
    return {
      node := i, table
      nodeColumn := ← ctx.columnName i link.originMember
      source := child
      sourceColumn := ← ctx.columnName child link.nodeMember
      kind := .inner }

/-- Joins the remaining nodes, each time the first one that hangs on a node
which is joined already. -/
def joins (ctx : Context) (forced : List Nat) (joined : List (Nat × JoinKind))
    (remaining : List Nat) : Except PlanError (List Join) :=
  match _h : pick? (ctx.edge? joined) remaining with
  | some (i, edge, others) => do
    let join ← ctx.join forced joined i edge
    return join :: (← ctx.joins forced (joined ++ [(i, join.kind)]) others)
  | none => if remaining.isEmpty then .ok [] else .error (.unsupported .disconnected)
termination_by remaining.length
decreasing_by
  have := length_of_pick? _h
  omega

/-- The key column of a node, in its own table. -/
def keyColumn (ctx : Context) (i : Nat) : Except PlanError NodeColumn := do
  let key ← ((← (ctx.table i).mapError .context).key).mapError .catalog
  return { node := i, member := key.member, column := key.column }

/-- The plan of a draft: its join tree from the first node of the closure. When
that is not the target, the nodes on the way up to the target are joined as
inner. -/
def plan (ctx : Context) (d : Draft) : Except PlanError Plan := do
  let targetKey ← ctx.keyColumn d.target
  let closure ← ctx.closure d
  let base := closure.nodes.headD d.target
  let basePath := if base = d.target then [] else d.target :: ctx.ancestorsUntil base d.target
  let joins ← ctx.joins (basePath ++ closure.forced) [(base, .inner)] (closure.nodes.erase base)
  let node ← (ctx.node base).mapError .context
  return { d with
    targetKey
    base := { node := base, entity := node.entity, table := node.table }
    joins
    invertedNodes := closure.nodes.filter fun i => i ≠ d.target && ctx.isInverse i }

end Context

end EntityMap
