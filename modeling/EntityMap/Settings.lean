import EntityMap.Document
import EntityMap.Yaml.Reader

/-!
# Settings

The limits of planning and writing. They come from environment variables
or from a YAML text, each with a default, and are valid when every number
lies in its range; `check` tells every field that does not.
-/

namespace EntityMap

/-- Limits of a unit of work. -/
structure Settings where
  /-- How many collections of a record may be saved at once. -/
  maxParallelCollections : Nat := 4
  /-- How long one statement may run, in milliseconds. -/
  commandTimeoutMs : Nat := 30000
  /-- Whether a record with an explicit key is inserted, unless this unit of work
  has inserted that key already. -/
  identityInsert : Bool := false
  /-- How many statements may wait for the connection. -/
  channelCapacity : Nat := 64
  deriving DecidableEq, Repr

/-- Why a text is no number or truth value. -/
inductive ParseFault where
  | emptyNumber
  | invalidDigit
  | numberTooLarge
  | notBool
  deriving DecidableEq, Repr

/-- A field outside its range. -/
structure RangeFault where
  field : String
  message : String
  deriving DecidableEq, Repr

inductive SettingsError where
  | unreadable (name text : String) (fault : ParseFault)
  | malformed
  | outOfRange (faults : List RangeFault)
  deriving DecidableEq, Repr

namespace ParseFault

def message : ParseFault → String
  | emptyNumber => "cannot parse integer from empty string"
  | invalidDigit => "invalid digit found in string"
  | numberTooLarge => "number too large to fit in target type"
  | notBool => "provided string was not `true` or `false`"

end ParseFault

namespace SettingsError

def message : SettingsError → String
  | unreadable name text fault =>
    "Parse error for " ++ name ++ ": " ++ text ++ " - " ++ fault.message
  | malformed => "Parse error for yaml_content"
  | outOfRange faults => "Validation error: " ++ "; ".intercalate (faults.map (·.message))

end SettingsError

namespace Settings

/-! ## Ranges -/

/-- The fault of a field that lies outside `1 … last`. -/
def rangeFault (field message : String) (last n : Nat) : List RangeFault :=
  if 1 ≤ n ∧ n ≤ last then [] else [⟨field, message⟩]

/-- Every field outside its range. -/
def faults (s : Settings) : List RangeFault :=
  rangeFault "max_parallel_collections"
      "Max parallel collections must be between 1 and 64" 64 s.maxParallelCollections ++
    rangeFault "command_timeout_ms"
      "Command timeout must be between 1 ms and one hour" 3600000 s.commandTimeoutMs ++
    rangeFault "channel_capacity"
      "Channel capacity must be between 1 and 4096" 4096 s.channelCapacity

/-- Accepts settings whose fields all lie in their ranges. -/
def check (s : Settings) : Except SettingsError Settings :=
  match s.faults with
  | [] => .ok s
  | faults => .error (.outOfRange faults)

/-! ## Environment variables -/

/-- Continues a number by decimal digits, up to 64 bits. -/
def parseDigits (n : Nat) : List Char → Except ParseFault Nat
  | [] => .ok n
  | c :: rest =>
    if !c.isDigit then .error .invalidDigit
    else
      let next := 10 * n + (c.toNat - '0'.toNat)
      if UInt64.size ≤ next then .error .numberTooLarge else parseDigits next rest

/-- Reads a number of 64 bits, which a plus sign may precede. -/
def parseNumber (text : String) : Except ParseFault Nat :=
  match text.toList with
  | [] => .error .emptyNumber
  | ['+'] => .error .invalidDigit
  | '+' :: digits => parseDigits 0 digits
  | digits => parseDigits 0 digits

def parseBool (text : String) : Except ParseFault Bool :=
  if text = "true" then .ok true
  else if text = "false" then .ok false
  else .error .notBool

/-- The setting in a variable, or its default. -/
def setting {α : Type} (environment : String → Option String) (name : String) (absent : α)
    (parse : String → Except ParseFault α) : Except SettingsError α :=
  match environment name with
  | some text => (parse text).mapError (.unreadable name text)
  | none => .ok absent

/-- The settings that environment variables give. -/
def ofEnvironment (environment : String → Option String) : Except SettingsError Settings := do
  let standard : Settings := {}
  let settings : Settings :=
    { maxParallelCollections := ← setting environment "RELPLAN_MAX_PARALLEL_COLLECTIONS"
        standard.maxParallelCollections parseNumber
      commandTimeoutMs := ← setting environment "RELPLAN_COMMAND_TIMEOUT_MS"
        standard.commandTimeoutMs parseNumber
      identityInsert := ← setting environment "RELPLAN_IDENTITY_INSERT"
        standard.identityInsert parseBool
      channelCapacity := ← setting environment "RELPLAN_CHANNEL_CAPACITY"
        standard.channelCapacity parseNumber }
  settings.check

/-! ## Documents -/

open Document in
/-- Reads the settings of a document; absent fields keep their defaults. -/
def read? {δ : Type} [Document δ] (d : δ) : Option Settings := do
  let standard : Settings := {}
  let fields ← record? ["max_parallel_collections", "command_timeout_ms", "identity_insert",
    "channel_capacity"] d
  some
    { maxParallelCollections :=
        ← fields.default? "max_parallel_collections" standard.maxParallelCollections natural?
      commandTimeoutMs := ← fields.default? "command_timeout_ms" standard.commandTimeoutMs natural?
      identityInsert := ← fields.default? "identity_insert" standard.identityInsert bool?
      channelCapacity := ← fields.default? "channel_capacity" standard.channelCapacity natural? }

/-- The settings that a YAML text gives. -/
def ofYaml (text : String) : Except SettingsError Settings :=
  match (Yaml.read? text).bind read? with
  | some settings => settings.check
  | none => .error .malformed

end Settings

end EntityMap
