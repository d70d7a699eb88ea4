import EntityMap.Query.Error
import EntityMap.Query.Plan

/-!
# Drafts of requests

Binds a request to columns, growing the context along its paths. The
select list comes first, then the filter, then the order, and the first
fault is the answer.
-/

namespace EntityMap

/-- Whether a statement stands alone. Only an outer statement has an order. -/
inductive Scope where
  | outer
  | nested
  deriving DecidableEq, Repr

namespace Modifiers

/-- A page needs an order, and is given by one kind of limit. -/
def check (m : Modifiers) (isOrdered : Bool) : Except PlanError Unit :=
  if m.top.isSome && m.isPaged then .error (.unsupported .topWithPage)
  else if m.isPaged && !isOrdered then .error (.unsupported .pageWithoutOrder)
  else .ok ()

end Modifiers

namespace Context

/-- The parts of an included path, of which there is at least one. -/
def includeSegments (path : String) : Except PlanError (List String) :=
  if Path.hasBlank path then .error (.context (.invalidPath path)) else .ok (Path.segments path)

/-- Whether some column of a select list is answered under a name. -/
def selects (select : List NodeColumn) (label : String) : Bool :=
  select.any (·.label = some label)

/-- Selects a member of a node, unless the list has a column of that name. -/
def selectMember (ctx : Context) (i boundary : Nat) (path : String) (select : List NodeColumn)
    (column : Column) : Except ContextError (List NodeColumn) :=
  let label := Path.below path column.member
  if selects select label then .ok select
  else do
    let resolved ← ctx.resolveMember i column.member boundary
    return select ++ [resolved.withLabel label]

/-- Selects the columns of a node under its path: its keys and its selectable
columns, as far as records have them. -/
def selectEntity (ctx : Context) (i boundary : Nat) (path : String) (select : List NodeColumn) :
    Except ContextError (List NodeColumn) := do
  let columns := (← ctx.table i).columns.filter fun c => (c.selectable || c.primaryKey) && !c.shadow
  columns.foldlM (ctx.selectMember i boundary path) select

/-- Selects the columns of the nodes along an included path, up to the first
node of which a row above may have many. -/
def selectAlong (target i : Nat) (path : String) (select : List NodeColumn) :
    List String → Growing PlanError (List NodeColumn)
  | [] => return select
  | segment :: rest => do
    let next ← (addPath i segment).adapt .context
    if (← get).isInverse next then return select
    else
      let path := Path.below path segment
      let select ← Growing.look fun ctx =>
        (ctx.selectEntity next target path select).mapError .context
      selectAlong target next path select rest

/-- The columns of a target, and those along each included path. -/
def selectAll (target : Nat) (includes : List String) : Growing PlanError (List NodeColumn) := do
  let select ← Growing.look fun ctx => (ctx.selectEntity target target "" []).mapError .context
  includes.foldlM (fun select path => do
    let segments ← Growing.look fun _ => includeSegments path
    selectAlong target target "" select segments) select

/-- The column of a projected member, under its name. -/
def selectProjection (target : Nat) (entry : Projection) : Growing ContextError NodeColumn := do
  return (← resolvePath target entry.path).withLabel entry.label

end Context

/-- The select list that a selection asks for. -/
def Selection.bind (target : Nat) : Selection → Growing PlanError (List NodeColumn)
  | .allColumns includes => Context.selectAll target includes
  | .projection [] => Context.selectAll target []
  | .projection entries => (entries.mapM (Context.selectProjection target)).adapt .context

/-- The column that a member orders by. -/
def Order.bind (target : Nat) (order : Order) : Growing ContextError OrderTerm := do
  return { column := ← Context.resolvePath target order.path, direction := order.direction }

namespace Request

/-- A request bound to columns. -/
def draft (r : Request) (target : Nat) (scope : Scope) : Growing PlanError Draft := do
  let _ ← Growing.look fun ctx => (ctx.node target).mapError .context
  let select ← r.selection.bind target
  let filter ← r.filter.mapM fun filter => (Filter.bind target filter).adapt .filter
  let orderBy ← match scope with
    | .outer => (r.orderBy.mapM (Order.bind target)).adapt .context
    | .nested => pure []
  return { target, select, filter, orderBy, modifiers := r.modifiers }

/-- A request bound to columns, if its modifiers are ones that a plan can
express. -/
def checkedDraft (r : Request) (target : Nat) (scope : Scope) : Growing PlanError Draft := do
  Growing.look fun _ => r.modifiers.check (scope = .outer && !r.orderBy.isEmpty)
  r.draft target scope

end Request

end EntityMap
