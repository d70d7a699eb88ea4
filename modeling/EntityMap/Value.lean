import EntityMap.Binary64.Decimal
import EntityMap.Timestamp
import EntityMap.Uuid

/-!
# Values and storage types

A `Value` is what a literal, a parameter, a record member or a stored
column holds; a `DataType` is what a mapped column stores. A value of a
document arrives in the closest scalar form and is brought to the form
of a column by `Value.coerce?`, which never invents data: it answers
`none` where the type has no such value.

Equality is by form and content, so `1`, `1.0` and `'1'` are three
values, and two floats are equal when their bits are.
-/

namespace EntityMap

/-- The storage type of a mapped column. -/
inductive DataType where
  | bool
  | int32
  | int64
  | float64
  | text
  | timestamp
  | uuid
  /-- A named enumeration of the catalog, stored as its integer. -/
  | enumeration (name : String)
  deriving DecidableEq, Repr, Inhabited

/-- A scalar in memory or in storage. -/
inductive Value where
  | null
  | bool (b : Bool)
  | int (i : Int64)
  | float (x : Binary64)
  | text (s : String)
  | timestamp (t : Timestamp)
  | uuid (u : Uuid)
  deriving DecidableEq, Repr, Inhabited

namespace DataType

/-- The name of a type in messages. -/
def label : DataType → String
  | .bool => "bool"
  | .int32 => "int32"
  | .int64 => "int64"
  | .float64 => "float64"
  | .text => "text"
  | .timestamp => "timestamp"
  | .uuid => "uuid"
  | .enumeration name => "enum(" ++ name ++ ")"

def isEnumeration : DataType → Bool
  | .enumeration _ => true
  | _ => false

/-- The value that marks a key of this type as unset. -/
def unset : DataType → Value
  | .bool => .bool false
  | .int32 | .int64 | .enumeration _ => .int 0
  | .float64 => .float (Binary64.zero false)
  | .text => .text ""
  | .timestamp => .null
  | .uuid => .uuid Uuid.nil

end DataType

namespace Value

def isNull : Value → Bool
  | .null => true
  | _ => false

/-- Whether a key value says that there is no key yet: null, or the unset
mark of the key's type. -/
def isUnset (v : Value) (type : DataType) : Bool :=
  v.isNull || v = type.unset

/-- The integer of an integer or a truth value. -/
def integer? : Value → Option Int64
  | .int i => some i
  | .bool b => some (if b then 1 else 0)
  | _ => none

def text? : Value → Option String
  | .text s => some s
  | _ => none

/-- The text of a value in messages and beside statements. -/
def display : Value → String
  | .null => "NULL"
  | .bool b => if b then "true" else "false"
  | .int i => toString i.toInt
  | .float x => x.plain
  | .text s => "'" ++ s ++ "'"
  | .timestamp t => "'" ++ t.text ++ "'"
  | .uuid u => "'" ++ u.text ++ "'"

/-- The form of a value in a column of the given type. A float becomes an
integer when it has no fraction, the nearest one of the 64-bit range; a
text is read as a timestamp or an identifier; an enumeration leaves its
values alone, since only the catalog knows them. -/
def coerce? : Value → DataType → Option Value
  | .null, _ => some .null
  | v, .enumeration _ => some v
  | .bool b, .bool => some (.bool b)
  | .int i, .bool => some (.bool (i ≠ 0))
  | .int i, .int32 | .int i, .int64 => some (.int i)
  | .float x, .int32 | .float x, .int64 => x.integer?.map fun i => .int (Word.nearest i)
  | .int i, .float64 => some (.float (Binary64.ofInt i.toInt))
  | .float x, .float64 => some (.float x)
  | .text s, .text => some (.text s)
  | .text s, .timestamp => (Timestamp.read? s).map .timestamp
  | .timestamp t, .timestamp => some (.timestamp t)
  | .text s, .uuid => (Uuid.read? s).map .uuid
  | .uuid u, .uuid => some (.uuid u)
  | _, _ => none

end Value

end EntityMap
