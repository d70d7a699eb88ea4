import EntityMap.Query.Draft
import EntityMap.Query.JoinTree

/-!
# Execution strategies

A statement that joins a node of which the target may have many rows
multiplies the rows of the target, which would spoil every limit. Such a
query runs in two phases: the first statement answers the keys of the
page, the second one the rows of these keys (`Context.strategy`).
-/

namespace EntityMap

/-- The name under which the first phase answers keys. -/
def keyLabel : String := "__key"

/-- The name under which the first phase answers the column of an order term. -/
def orderLabel (i : Nat) : String :=
  "__order" ++ toString i

/-- The statements that answer a query. -/
inductive Strategy where
  | direct (plan : Plan)
  /-- The keys of the page, and then the rows of these keys. -/
  | twoPhase (keys rows : Plan)
  deriving DecidableEq, Repr

namespace Strategy

def isTwoPhase : Strategy → Bool
  | direct _ => false
  | twoPhase _ _ => true

/-- The plan whose rows are the answer. -/
def resultPlan : Strategy → Plan
  | direct plan => plan
  | twoPhase _ rows => rows

def display : Strategy → String
  | direct plan => "direct\n" ++ plan.display
  | twoPhase keys rows => "two-phase\n-- keys\n" ++ keys.display ++ "-- rows\n" ++ rows.display

end Strategy

namespace Plan

/-- Whether the joins of a plan multiply rows that it limits. -/
def requiresTwoPhase (p : Plan) : Bool :=
  !p.invertedNodes.isEmpty && p.modifiers.isLimiting

end Plan

namespace Draft

/-- The first phase: the distinct keys of the target, beside the columns that
they are ordered by. -/
def keysPhase (d : Draft) (targetKey : NodeColumn) : Draft :=
  { d with
    select := targetKey.withLabel keyLabel ::
      d.orderBy.zipIdx.map fun (term, i) => term.column.withLabel (orderLabel i)
    modifiers := { d.modifiers with distinct := true } }

/-- The second phase: what is asked for, of the keys of the page. -/
def rowsPhase (d : Draft) (targetKey : NodeColumn) : Draft :=
  { d with
    filter := none
    keyRestriction := some { column := targetKey }
    modifiers := { distinct := d.modifiers.distinct } }

end Draft

namespace Context

/-- The strategy for a draft. -/
def strategy (ctx : Context) (d : Draft) : Except PlanError Strategy := do
  let direct ← ctx.plan d
  if direct.requiresTwoPhase then
    return .twoPhase (← ctx.plan (d.keysPhase direct.targetKey))
      (← ctx.plan (d.rowsPhase direct.targetKey))
  else return .direct direct

end Context

namespace Request

/-- The single statement that answers a request. -/
def plan (r : Request) (target : Nat) (scope : Scope) : Growing PlanError Plan := do
  let draft ← r.checkedDraft target scope
  Growing.look (·.plan draft)

/-- The strategy that answers a request. -/
def strategy (r : Request) (target : Nat) : Growing PlanError Strategy := do
  let draft ← r.checkedDraft target .outer
  Growing.look (·.strategy draft)

end Request

end EntityMap
