import EntityMap.Context

/-!
# Growing a context

A context starts with its root and grows along paths, never shrinks, and
keeps every node it has. Each new node comes with a child for every
lookup column of its entity, so that lookups can be selected and
compared like plain columns. What a failing call has added before it
fails stays, hence the state below the errors in `Growing`.
-/

namespace EntityMap

/-- A computation that may grow the context and may fail. -/
abbrev Growing (ε α : Type) := ExceptT ε (StateM Context) α

namespace Growing

/-- Runs a computation that only looks at the context. -/
def look {ε α : Type} (f : Context → Except ε α) : Growing ε α := do
  ExceptT.mk (return f (← get))

end Growing

namespace Context

/-- Adds a node at the end and hangs it on its origin. It is joined as `left`
when its origin is, or when its link is open. -/
def attach (ctx : Context) (entity table : String) (link : Link) : Context :=
  match ctx.nodes[link.origin]? with
  | none => ctx
  | some origin =>
    let index := ctx.nodes.size
    let node : Node :=
      { index, entity, table, level := origin.level + 1, link := some link
        joinKind := if origin.joinKind = .left || link.isOpen then .left else .inner
        children := [] }
    { ctx with nodes := (ctx.nodes.modify link.origin (·.addChild link.key index)).push node }

/-- Adds a node of an entity and answers its index. -/
def addNode (entity : String) (link : Link) : Growing ContextError Nat := do
  let table ← Growing.look (·.entityTable entity)
  let index := (← get).nodes.size
  modify (·.attach entity table.table link)
  return index

/-- Adds the child behind a lookup column, unless it is there. -/
def addLookup (i : Nat) (column : Column) (lookup : Lookup) : Growing ContextError Unit := do
  let key := ChildKey.lookup column.member
  if ((← get).child? i key).isNone then
    let target ← Growing.look fun ctx => do
      (← ctx.entityTable lookup.entity).key.mapError .catalog
    let _ ← addNode lookup.entity
      { origin := i, key, traversal := .lookup, originMember := column.member
        nodeMember := target.member, nullable := column.nullable }

/-- Adds the children behind all lookup columns of a node. -/
def addLookups (i : Nat) : Growing ContextError Unit := do
  let table ← Growing.look (·.table i)
  table.lookupColumns.forM fun (column, lookup) => addLookup i column lookup

/-- The link that a relationship makes from a node of `entity`. -/
def linkOf (origin : Nat) (entity : String) (r : Relationship) (nullable : Bool) : Link :=
  if r.isInverseFrom entity then
    { origin, key := .navigation r.name, traversal := .inverse
      originMember := r.primaryKey.member, nodeMember := r.foreignKey.member, nullable }
  else
    { origin, key := .navigation r.name, traversal := .forward
      originMember := r.foreignKey.member, nodeMember := r.primaryKey.member, nullable }

/-- Adds the node behind a navigation member, with its lookups; `path` is what
messages quote. -/
def addNavigation (origin : Nat) (member path : String) : Growing ContextError Nat := do
  let (target, link) ← Growing.look fun ctx => do
    let entity := (← ctx.node origin).entity
    match (← ctx.entityTable entity).relationship? member with
    | none => throw (.unknownNavigation entity member path)
    | some r =>
      let foreignTable ← ctx.entityTable r.foreignKey.entity
      let foreignKey ← (foreignTable.column r.foreignKey.member).mapError .catalog
      return (r.target entity, linkOf origin entity r foreignKey.nullable)
  let index ← addNode target link
  addLookups index
  return index

/-- Walks along navigation members, adding the nodes that are missing. -/
def addSegments (path : String) (i : Nat) : List String → Growing ContextError Nat
  | [] => return i
  | member :: rest => do
    let next ← match (← get).child? i (.navigation member) with
      | some next => pure next
      | none => addNavigation i member path
    addSegments path next rest

/-- Walks along a path, adding the nodes that are missing, and answers the last.
The empty path leads to its start. -/
def addPath (start : Nat) (path : String) : Growing ContextError Nat := do
  let _ ← Growing.look (·.node start)
  let segments ← Growing.look fun _ => pathSegments path
  addSegments path start segments

/-- The stored column of the member at the end of a path, seen from `start`. -/
def resolvePath (start : Nat) (path : String) : Growing ContextError NodeColumn := do
  match Path.splitMember? path with
  | none => throw (.invalidPath path)
  | some (nodePath, member) =>
    let i ← addPath start nodePath
    Growing.look (·.resolveMember i member start)

/-- The context of an entity: its root with its lookups. -/
def ofEntity (catalog : Catalog) (entity : String) : Except ContextError Context := do
  let table ← (catalog.table entity).mapError .catalog
  let start : Context :=
    { catalog
      nodes := #[{ index := root, entity, table := table.table, level := 0, link := none
                   joinKind := .inner, children := [] }] }
  let (result, ctx) := (addLookups root).run start
  result
  return ctx

end Context

end EntityMap
