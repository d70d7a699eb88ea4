import EntityMap.Query.Binding

/-!
# Planning errors

Why a request has no plan. `PlanError.message` is the wording.
-/

namespace EntityMap

/-- What a plan cannot express. -/
inductive Unsupported where
  | topWithPage
  | pageWithoutOrder
  | unreachable (node target : Nat)
  | disconnected
  deriving DecidableEq, Repr

namespace Unsupported

def message : Unsupported → String
  | topWithPage => "TOP cannot be combined with SKIP/TAKE"
  | pageWithoutOrder => "SKIP/TAKE require an ordering clause"
  | unreachable node target =>
    nodeAlias node ++ " is not reachable from the query target " ++ nodeAlias target
  | disconnected => "plan nodes do not form a connected join tree"

end Unsupported

inductive PlanError where
  | context (error : ContextError)
  | filter (error : FilterError)
  | catalog (error : CatalogError)
  | unsupported (reason : Unsupported)
  /-- The parent of an included collection does not select its key. -/
  | missingParentKey (path label : String)
  deriving DecidableEq, Repr

namespace PlanError

def message : PlanError → String
  | context error => error.message
  | filter error => error.message
  | catalog error => error.message
  | unsupported reason => "Unsupported query: " ++ reason.message
  | missingParentKey path label =>
    "Include `" ++ path ++ "` needs `" ++ label ++ "` in the parent selection"

end PlanError

end EntityMap
