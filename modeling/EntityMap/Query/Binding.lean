import EntityMap.Context.Growth
import EntityMap.Query.Condition

/-!
# Binding filters

`Filter.bind` resolves the paths of a filter from the target, growing the
context where they lead, and brings every literal that is compared with
a column into the storage form of that column (`Context.storedLiteral`).
-/

namespace EntityMap

/-- Why a filter cannot be bound. -/
inductive FilterError where
  | context (error : ContextError)
  | conversion (member : String) (source : ConversionError)
  /-- The type of the member has no such value. -/
  | literalType (member : String) (value : Value) (type : DataType)
  | unknownEnumeration (name : String)
  deriving DecidableEq, Repr

namespace FilterError

def message : FilterError → String
  | context error => error.message
  | conversion member source => "Cannot convert literal for `" ++ member ++ "`: " ++ source.message
  | literalType member value type =>
    "Literal " ++ value.display ++ " is not compatible with `" ++ member ++ "` of type " ++
      type.label
  | unknownEnumeration name =>
    "Enumeration `" ++ name ++ "` is not declared in the mapping catalog"

end FilterError

namespace Context

/-- The integer that an enumeration stores for a literal; literals of other
types stay as they are. -/
def enumerationLiteral (ctx : Context) (member : String) (type : DataType) (v : Value) :
    Except FilterError Value :=
  match type with
  | .enumeration name =>
    match ctx.catalog.enumeration? name with
    | some enumeration => (enumeration.toStorage v).mapError (.conversion member)
    | none => .error (.unknownEnumeration name)
  | _ => .ok v

/-- The storage form of a literal that is compared with a column: by the
enumeration of its type, then by its adapter or else its type. Null stays
null. -/
def storedLiteral (ctx : Context) (column : NodeColumn) (v : Value) : Except FilterError Value :=
  if v.isNull then .ok v
  else do
    let mapped ← (ctx.column column.node column.member).mapError .context
    let v ← ctx.enumerationLiteral column.member mapped.type v
    match mapped.adapter with
    | some adapter => (adapter.toStorage v).mapError (.conversion column.member)
    | none =>
      match v.coerce? mapped.type with
      | some stored => return stored
      | none => throw (.literalType column.member v mapped.type)

/-- The two sides of a comparison, a literal beside a column in storage form. -/
def comparison (ctx : Context) : BoundFilter → BoundFilter →
    Except FilterError (BoundFilter × BoundFilter)
  | .member column, .literal v => do
    return (.member column, .literal (← ctx.storedLiteral column v))
  | .literal v, .member column => do
    return (.literal (← ctx.storedLiteral column v), .member column)
  | left, right => .ok (left, right)

end Context

/-- Binds a filter whose paths start at `target`. -/
def Filter.bind (target : Nat) : Filter → Growing FilterError BoundFilter
  | .member path => do
    let column ← (Context.resolvePath target path).adapt .context
    return .member column
  | .literal v => return .literal v
  | .binary op left right => do
    let left ← Filter.bind target left
    let right ← Filter.bind target right
    if op.isLogical then return .binary op left right
    else
      let (left, right) ← Growing.look (·.comparison left right)
      return .binary op left right

end EntityMap
