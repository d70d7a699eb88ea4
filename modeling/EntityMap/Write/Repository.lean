import EntityMap.Settings
import EntityMap.Write.Save

/-!
# Repositories

Each save, deletion and patch of a repository is a unit of work of its
own: committed when the whole cascade succeeds, rolled back when not. The
error of the cascade is the answer also when the rollback fails.
-/

namespace EntityMap

namespace CascadeRules

/-- The rules that settings make for a catalog. -/
def ofSettings (catalog : Catalog) (settings : Settings) (depth : Nat) : CascadeRules :=
  { catalog, identityInsert := settings.identityInsert
    maxParallelCollections := settings.maxParallelCollections, depth }

end CascadeRules

/-- A catalog and the settings by which its rows are written. -/
structure Repository where
  catalog : Catalog
  settings : Settings
  /-- How many deletions may be nested in each other. -/
  depth : Nat
  /-- The choices by which collections go on that are saved beside each other. -/
  schedules : List (List Nat) := []

namespace Repository

variable {σ : Type} [Executor σ]

def rules (repository : Repository) : CascadeRules :=
  .ofSettings repository.catalog repository.settings repository.depth

/-- Ends a unit of work: commits after a success, rolls back after a failure,
and releases the connection. -/
def finish {α : Type} (result : Except WriteError α) (work : UnitOfWork σ) :
    Except WriteError α × UnitOfWork σ :=
  match result with
  | .ok a =>
    let (committed, work) := UnitOfWork.commit.run work
    ((committed.mapError .unitOfWork).map fun () => a, work.close)
  | .error e =>
    let (_, work) := UnitOfWork.rollback.run work
    (.error e, work.close)

/-- Runs a cascade in a unit of work of its own. -/
def transact {α : Type} (repository : Repository) (connection : σ)
    (cascade : Saving σ (Except WriteError α)) : Except WriteError α × UnitOfWork σ :=
  match UnitOfWork.begin repository.settings.commandTimeoutMs connection with
  | (.error e, work) => (.error (.unitOfWork e), work)
  | (.ok (), work) =>
    let (result, ended) := cascade.run { work, schedules := repository.schedules }
    finish result ended.work

/-- Saves a record. Only a save that succeeds changes the record. -/
def save (repository : Repository) (connection : σ) (r : Record) :
    (Except WriteError Value × Record) × UnitOfWork σ :=
  let cascade : Saving σ (Except WriteError (Value × Record)) := do
    let (saved, written) ← Cascade.save repository.rules r
    return saved.map fun key => (key, written)
  match repository.transact connection cascade with
  | (.ok (key, written), work) => ((.ok key, written), work)
  | (.error e, work) => ((.error e, r), work)

/-- Deletes the row of a record. -/
def delete (repository : Repository) (connection : σ) (r : Record) :
    Except WriteError Unit × UnitOfWork σ :=
  repository.transact connection (Cascade.delete repository.rules r).run

/-- Changes the given members of a row. -/
def patch (repository : Repository) (connection : σ) (entity : String) (key : Value)
    (changes : Named Value) : Except WriteError Unit × UnitOfWork σ :=
  repository.transact connection (Cascade.patch repository.rules entity key changes).run

end Repository

end EntityMap
