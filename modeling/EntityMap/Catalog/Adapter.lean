import EntityMap.Text.Uppercase
import EntityMap.Value

/-!
# Value adapters

An adapter changes a value on its way between memory and storage: a
truth value may be stored as one of two texts, an amount as an integer
of smaller units, a text in uppercase. A value that an adapter cannot
take is an error; null is never changed.
-/

namespace EntityMap

/-- A transformation between the values of a member and of its column. -/
inductive Adapter where
  /-- Truth values stored as two marks. -/
  | boolFlag (whenTrue whenFalse : String)
  /-- Amounts stored as integer multiples of `1 / factor`. -/
  | scale (factor : Int64)
  /-- Texts stored in uppercase. -/
  | upperCase
  deriving DecidableEq, Repr

/-- Why a value has no storage form, or no form in memory. -/
inductive ConversionError where
  | adapter (name : String) (value : Value)
  | unknownVariant (enumeration : String) (value : Value)
  deriving DecidableEq, Repr

namespace ConversionError

def message : ConversionError → String
  | adapter name value => "Adapter `" ++ name ++ "` cannot convert " ++ value.display
  | unknownVariant enumeration value =>
    "`" ++ value.display ++ "` is not a variant of enumeration `" ++ enumeration ++ "`"

end ConversionError

namespace Adapter

/-- The name of an adapter in mappings and messages. -/
def name : Adapter → String
  | boolFlag _ _ => "bool_flag"
  | scale _ => "scale"
  | upperCase => "upper_case"

/-- The refusal of a value. -/
def refuse {α : Type} (a : Adapter) (v : Value) : Except ConversionError α :=
  .error (.adapter a.name v)

/-- The product of two 64-bit integers, if it is one. -/
def product? (i j : Int64) : Option Int64 :=
  Word.signed? (i.toInt * j.toInt)

/-- The storage form of a value. A mark of `boolFlag` is one already. -/
def toStorage (a : Adapter) (v : Value) : Except ConversionError Value :=
  match a, v with
  | _, .null => .ok .null
  | boolFlag whenTrue _, .bool true => .ok (.text whenTrue)
  | boolFlag _ whenFalse, .bool false => .ok (.text whenFalse)
  | boolFlag whenTrue whenFalse, .text s =>
    if s = whenTrue ∨ s = whenFalse then .ok v else a.refuse v
  | scale factor, .int i =>
    match product? i factor with
    | some product => .ok (.int product)
    | none => a.refuse v
  | scale factor, .float x => .ok (.int (x.mul (Binary64.ofInt factor.toInt)).roundToInt64)
  | upperCase, .text s => .ok (.text (Text.uppercase s))
  | _, _ => a.refuse v

/-- The form in memory of a stored value. -/
def fromStorage (a : Adapter) (v : Value) : Except ConversionError Value :=
  match a, v with
  | upperCase, _ => .ok v
  | _, .null => .ok .null
  | boolFlag whenTrue whenFalse, .text s =>
    if s = whenTrue then .ok (.bool true)
    else if s = whenFalse then .ok (.bool false)
    else a.refuse v
  | scale factor, .int i =>
    .ok (.float ((Binary64.ofInt i.toInt).div (Binary64.ofInt factor.toInt)))
  | _, _ => a.refuse v

end Adapter

end EntityMap
