import EntityMap.Query.Include
import EntityMap.Query.Strategy

/-!
# Planned queries

Everything that is planned for one request: the strategy that answers its
rows, and the queries of its included collections.
-/

namespace EntityMap

/-- What is planned for a request. -/
structure PlannedQuery where
  strategy : Strategy
  includes : List IncludePlan
  deriving DecidableEq, Repr

/-- Plans a request on the rows of a target, with its includes. -/
def Request.planned (request : Request) (target : Nat) : Growing PlanError PlannedQuery := do
  let strategy ← request.strategy target
  return { strategy, includes := ← strategy.resultPlan.includes request.includes }

end EntityMap
