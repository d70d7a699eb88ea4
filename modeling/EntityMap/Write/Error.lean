import EntityMap.Execution.Error
import EntityMap.Query.Error
import EntityMap.Write.Operation

/-!
# Write errors

Why a record is not saved, deleted or patched, and which kind of cause
that is.
-/

namespace EntityMap

/-- What a navigation member of a record has to be. -/
inductive NavigationRole where
  | reference
  | collection
  /-- A record that belongs to the entity at the end of its reference. -/
  | referenceTarget
  /-- A record that belongs to the entity of its collection. -/
  | collectionItem
  deriving DecidableEq, Repr

namespace NavigationRole

def label : NavigationRole → String
  | reference => "reference"
  | collection => "collection"
  | referenceTarget => "reference target"
  | collectionItem => "collection item"

end NavigationRole

/-- What kind of cause an error has. -/
inductive ErrorCategory where
  /-- The mapping does not describe what is to be written. -/
  | configuration
  /-- A record lacks values or has invalid ones. -/
  | data
  /-- The mapping forbids what is to be written, or cannot express it. -/
  | unsupported
  /-- The connection failed. -/
  | execution
  deriving DecidableEq, Repr

namespace ErrorCategory

def label : ErrorCategory → String
  | configuration => "Configuration"
  | data => "Data"
  | unsupported => "Unsupported"
  | execution => "Execution"

end ErrorCategory

inductive WriteError where
  | catalog (error : CatalogError)
  | context (error : ContextError)
  | plan (error : PlanError)
  | statement (error : StatementError)
  | unitOfWork (error : UnitOfWorkError)
  | notPermitted (entity : String) (operation : OperationKind)
  | missingKeyValue (entity : String) (operation : OperationKind)
  | missingRequiredValue (entity member : String)
  | invalidValue (entity member : String) (source : ConversionError)
  | valueType (entity member : String) (value : Value) (type : DataType)
  | unknownLookupValue (entity member lookup : String) (value : Value)
  | unknownMember (entity member : String)
  | foreignKeyNotSettable (entity member : String)
  | invalidNavigation (entity name : String) (expected : NavigationRole)
  | rowNotFound (entity : String) (key : Value)
  | missingGeneratedKey (entity : String)
  /-- Deletions are nested deeper than the caller allows. -/
  | nestedTooDeep (entity : String) (key : Value)
  deriving DecidableEq, Repr

namespace WriteError

def message : WriteError → String
  | catalog error => error.message
  | context error => error.message
  | plan error => error.message
  | statement error => error.message
  | unitOfWork error => error.message
  | notPermitted entity operation => operation.label ++ " is not permitted on `" ++ entity ++ "`"
  | missingKeyValue entity operation =>
    operation.label ++ " of `" ++ entity ++ "` requires a key value"
  | missingRequiredValue entity member =>
    "`" ++ entity ++ "." ++ member ++ "` is required but has no value and no default"
  | invalidValue entity member source =>
    "Invalid value for `" ++ entity ++ "." ++ member ++ "`: " ++ source.message
  | valueType entity member value type =>
    "Value " ++ value.display ++ " for `" ++ entity ++ "." ++ member ++ "` is not a valid " ++
      type.label
  | unknownLookupValue entity member lookup value =>
    "`" ++ value.display ++ "` is not a known `" ++ lookup ++ "` value for `" ++ entity ++ "." ++
      member ++ "`"
  | unknownMember entity member =>
    "Entity `" ++ entity ++ "` has no writable member `" ++ member ++ "`"
  | foreignKeyNotSettable entity member =>
    "Foreign key `" ++ entity ++ "." ++ member ++ "` cannot carry a referenced key"
  | invalidNavigation entity name expected =>
    "`" ++ entity ++ "." ++ name ++ "` is not a " ++ expected.label ++ " navigation"
  | rowNotFound entity key => "No `" ++ entity ++ "` row with key " ++ key.display
  | missingGeneratedKey entity => "Insert into `" ++ entity ++ "` returned no generated key"
  | nestedTooDeep entity key =>
    "Deletion of `" ++ entity ++ "` row with key " ++ key.display ++ " is nested too deep"

/-- Whether an error says that one key column is needed where there are several. -/
def isCompositeKey : CatalogError → Bool
  | .key _ .composite => true
  | _ => false

def category : WriteError → ErrorCategory
  | catalog error | context (.catalog error) =>
    if isCompositeKey error then .unsupported else .configuration
  | notPermitted _ _ | plan (.unsupported _) => .unsupported
  | context _ | plan _ | foreignKeyNotSettable _ _ | invalidNavigation _ _ _ => .configuration
  | statement _ | missingKeyValue _ _ | missingRequiredValue _ _ | invalidValue _ _ _
  | valueType _ _ _ _ | unknownLookupValue _ _ _ _ | unknownMember _ _ | rowNotFound _ _ => .data
  | unitOfWork _ | missingGeneratedKey _ | nestedTooDeep _ _ => .execution

end WriteError

end EntityMap
