import EntityMap.Catalog.Adapter
import EntityMap.Named

/-!
# Enumerations

An enumeration names integers. Its values are stored as the integers and
may be given by either.
-/

namespace EntityMap

/-- A named list of variants with their stored integers. -/
structure Enumeration where
  name : String
  variants : Named Int64
  deriving DecidableEq, Repr

namespace Enumeration

/-- The stored integer of a variant, given by its name or its integer. -/
def toStorage (e : Enumeration) (v : Value) : Except ConversionError Value :=
  let unknown : Except ConversionError Value := .error (.unknownVariant e.name v)
  match v with
  | .null => .ok .null
  | .text name =>
    match e.variants.get? name with
    | some i => .ok (.int i)
    | none => unknown
  | .int i => if e.variants.any (·.2 = i) then .ok (.int i) else unknown
  | _ => unknown

/-- The name of a stored integer, the first of several. -/
def variantName? (e : Enumeration) (stored : Int64) : Option String :=
  (e.variants.find? fun (_, i) => i = stored).map (·.1)

end Enumeration

end EntityMap
