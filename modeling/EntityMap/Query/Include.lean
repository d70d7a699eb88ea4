import EntityMap.Query.Draft
import EntityMap.Query.JoinTree

/-!
# Included collections

An included path that passes a collection is answered by a query of its
own: the rows of the collection whose foreign key is among the keys of
the parent rows. `Plan.includes` plans one such query for every
collection on the paths, parents before their children.
-/

namespace EntityMap

/-- The query of one included collection. -/
structure IncludePlan where
  /-- The included path, from the target of the whole query. -/
  path : String
  /-- The path of the collection that holds the parent rows, empty for the target. -/
  parent : String
  /-- The name under which the parent rows answer their key. -/
  parentKeyLabel : String
  /-- The name under which this query answers the foreign key. -/
  foreignKeyLabel : String
  /-- The query, restricted to foreign keys among the parent keys. -/
  plan : Plan
  deriving DecidableEq, Repr

/-- A collection on the way along included paths. -/
structure IncludedCollection where
  node : Nat
  /-- The path from the parent's target. -/
  path : String
  parentKeyLabel : String
  /-- The included paths that go on behind the collection. -/
  nested : List String
  deriving DecidableEq, Repr

namespace IncludedCollection

/-- Adds a collection; if it is there, only what goes on behind it. -/
def merge (c : IncludedCollection) : List IncludedCollection → List IncludedCollection
  | [] => [c]
  | other :: rest =>
    if other.node = c.node then { other with nested := other.nested ++ c.nested } :: rest
    else other :: merge c rest

end IncludedCollection

namespace Context

/-- Looks at what a member of a node leads to as a collection, for which the
parent has to select the key of the node. -/
def collectionAt (parent : Plan) (includePath : String) (origin next : Nat)
    (done rest : List String) (segment : String) (ctx : Context) :
    Except PlanError IncludedCollection := do
  let key ← ((← (ctx.table origin).mapError .context).key).mapError .catalog
  let label := Path.below (Path.join done) key.member
  if (parent.columnPosition? label).isNone then throw (.missingParentKey includePath label)
  return {
    node := next
    path := Path.join (done ++ [segment])
    parentKeyLabel := label
    nested := if rest.isEmpty then [] else [Path.join rest] }

/-- The first collection along an included path. -/
def firstCollection (parent : Plan) (includePath : String) (i : Nat) (done : List String) :
    List String → Growing PlanError (Option IncludedCollection)
  | [] => return none
  | segment :: rest => do
    let next ← (addPath i segment).adapt .context
    if (← get).isInverse next then
      some <$> Growing.look (collectionAt parent includePath i next done rest segment)
    else firstCollection parent includePath next (done ++ [segment]) rest

/-- The collections that included paths come to first. -/
def firstCollections (parent : Plan) (includes : List String) :
    Growing PlanError (List IncludedCollection) :=
  includes.foldlM (fun found path => do
    let segments ← Growing.look fun _ => includeSegments path
    match ← firstCollection parent path parent.target [] segments with
    | some collection => return collection.merge found
    | none => return found) []

/-- The query of a collection: its columns with those along the paths that go on
behind it, and in any case the foreign key, to which it is restricted. -/
def collectionPlan (c : IncludedCollection) (parentPath : String) :
    Growing PlanError IncludePlan := do
  let link ← Growing.look (·.link c.node)
  let column ← Growing.look (·.columnName c.node link.nodeMember)
  let foreignKey : NodeColumn := { node := c.node, member := link.nodeMember, column }
  let select ← selectAll c.node c.nested
  let select := if selects select link.nodeMember then select
    else select ++ [foreignKey.withLabel link.nodeMember]
  let plan ← Growing.look (·.plan
    { target := c.node, select, keyRestriction := some { column := foreignKey } })
  return {
    path := Path.below parentPath c.path
    parent := parentPath
    parentKeyLabel := c.parentKeyLabel
    foreignKeyLabel := link.nodeMember
    plan }

/-- The queries of the collections on included paths, `depth` collections deep. -/
def includesBelow : Nat → Plan → String → List String → Growing PlanError (List IncludePlan)
  | 0, _, _, _ => return []
  | depth + 1, parent, parentPath, includes => do
    let collections ← firstCollections parent includes
    let plans ← collections.mapM fun c => do
      let own ← collectionPlan c parentPath
      return own :: (← includesBelow depth own.plan own.path c.nested)
    return plans.flatten

end Context

namespace Plan

/-- The queries of all collections on included paths below a plan. Behind a
collection a path has fewer parts, so the longest path bounds the depth. -/
def includes (p : Plan) (paths : List String) : Growing PlanError (List IncludePlan) :=
  let depth := (paths.map fun path => (Path.segments path).length).foldl max 0
  Context.includesBelow depth p "" paths

end Plan

end EntityMap
