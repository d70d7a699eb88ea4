import EntityMap.Execution.UnitOfWork
import EntityMap.Query.Include
import EntityMap.Query.Strategy
import EntityMap.Sql.Query

/-!
# Running queries

Runs planned queries in a unit of work: the phases of a strategy, and
behind it the queries of the included collections, each for the keys
that its parent rows have. A query for no keys is not sent.
-/

namespace EntityMap

namespace Plan

variable {σ : Type} [Executor σ]

/-- The rows of a plan. -/
def fetch (style : LimitStyle) (p : Plan) : Working σ QueryError RecordSet := do
  let statement ← Working.ofExcept ((p.statement style).mapError .statement)
  (UnitOfWork.query statement).adapt .unitOfWork

/-- A record set with the columns of a plan, but without rows. -/
def noRows (p : Plan) : RecordSet :=
  .empty (p.select.map fun c => c.label.getD c.column)

/-- The rows of a restricted plan for the given keys. -/
def fetchFor (style : LimitStyle) (p : Plan) (keys : List Value) :
    Working σ QueryError RecordSet :=
  if keys.isEmpty then return p.noRows else (p.withKeys keys).fetch style

end Plan

namespace RecordSet

/-- The distinct values of a column that a record set has to have. -/
def keys (s : RecordSet) (name column : String) : Except QueryError (List Value) :=
  match s.distinctValues? column with
  | some keys => .ok keys
  | none => .error (.missingColumn name column)

end RecordSet

namespace Strategy

variable {σ : Type} [Executor σ]

/-- The rows that a strategy answers. -/
def run (style : LimitStyle) : Strategy → Working σ QueryError RecordSet
  | direct plan => plan.fetch style
  | twoPhase keysPlan rows => do
    let page ← keysPlan.fetch style
    let keys ← Working.ofExcept (page.keys "keys" keyLabel)
    rows.fetchFor style keys

/-- The keys of the parent rows of an include, from the sets read before. -/
def parentKeys (i : IncludePlan) (sets : List NamedRecordSet) : Except QueryError (List Value) :=
  match sets.find? (·.name = i.parent) with
  | some parent => parent.records.keys i.parent i.parentKeyLabel
  | none => .error (.missingColumn i.parent i.parentKeyLabel)

/-- Reads included collections behind the sets read before. -/
def runIncludes (style : LimitStyle) (sets : List NamedRecordSet) :
    List IncludePlan → Working σ QueryError (List NamedRecordSet)
  | [] => return sets
  | i :: rest => do
    let keys ← Working.ofExcept (parentKeys i sets)
    let records ← i.plan.fetchFor style keys
    runIncludes style (sets ++ [{ name := i.path, records }]) rest

/-- The rows that a strategy answers, and those of the included collections. -/
def runWithIncludes (style : LimitStyle) (s : Strategy) (includes : List IncludePlan) :
    Working σ QueryError (List NamedRecordSet) := do
  let records ← s.run style
  runIncludes style [{ name := "", records }] includes

end Strategy

end EntityMap
