import EntityMap.Catalog.Definition
import EntityMap.Json.Printer
import EntityMap.Query.Planned
import EntityMap.Query.Printer
import EntityMap.Query.Reader
import EntityMap.Settings
import EntityMap.Sql.Query

/-!
# The command line

Plans one request and shows its statements. `Arguments.read?` reads the
arguments, `Arguments.run` answers the texts that they name with what is
printed and the exit code. What was printed before a failure stays.
-/

namespace EntityMap.CommandLine

/-- What is printed, and the exit code. -/
structure Outcome where
  exitCode : Nat
  output : String
  deriving DecidableEq, Repr

/-- The outcome of arguments that are no command. -/
def usageError : Outcome := ⟨2, ""⟩

/-- The arguments of a command. -/
structure Arguments where
  mapping : String
  request : String
  entity : String
  config : Option String := none
  style : LimitStyle := .limitOffset
  asJson : Bool := false
  deriving DecidableEq, Repr

/-! ## Reading arguments -/

/-- An option with its value, or one without. -/
inductive Setting where
  | value (name text : String)
  | flag (name : String)
  deriving DecidableEq, Repr

/-- Whether an argument cannot be the value of the option before it. -/
def isOption (argument : String) : Bool :=
  match argument.toList with
  | '-' :: _ :: _ => true
  | _ => false

/-- The names of the options with values. -/
def valueNames : List String :=
  ["--mapping", "--request", "--entity", "--config", "--limit-style"]

/-- Splits an argument at its first equality sign. -/
def splitEquality? (argument : String) : Option (String × String) :=
  let cs := argument.toList
  match cs.dropWhile (· ≠ '=') with
  | _ :: text => some (String.ofList (cs.takeWhile (· ≠ '=')), String.ofList text)
  | [] => none

/-- The settings that arguments make. -/
def settings? : List String → Option (List Setting)
  | [] => some []
  | "--json" :: rest => (settings? rest).map (.flag "--json" :: ·)
  | argument :: rest =>
    if valueNames.contains argument then
      match rest with
      | text :: rest =>
        if isOption text then none else (settings? rest).map (.value argument text :: ·)
      | [] => none
    else
      match splitEquality? argument with
      | some (name, text) =>
        if valueNames.contains name then (settings? rest).map (.value name text :: ·) else none
      | none => none

/-- The value of an option, which occurs at most once. -/
def valueOf? (settings : List Setting) (name : String) : Option (Option String) :=
  let texts := settings.filterMap fun
    | .value other text => if other = name then some text else none
    | .flag _ => none
  match texts with
  | [] => some none
  | [text] => some (some text)
  | _ => none

/-- Reads the name of a limit style. -/
def limitStyle? (text : String) : Option LimitStyle :=
  if text = "limit-offset" then some .limitOffset
  else if text = "offset-fetch" then some .offsetFetch
  else none

/-- Reads arguments. The mapping, the request and the entity must be given. -/
def Arguments.read? (arguments : List String) : Option Arguments := do
  let settings ← settings? arguments
  let flags := settings.countP (· = .flag "--json")
  if 1 < flags then none
  else
    let style ← valueOf? settings "--limit-style"
    some
      { mapping := ← (← valueOf? settings "--mapping")
        request := ← (← valueOf? settings "--request")
        entity := ← (← valueOf? settings "--entity")
        config := ← valueOf? settings "--config"
        style := ← limitStyle? (style.getD "limit-offset")
        asJson := flags = 1 }

/-! ## Answers -/

/-- The plans as JSON. -/
def json (p : PlannedQuery) : String :=
  let includes := p.includes.map fun i => Json.arr [.str i.path, i.plan.toJson]
  (Json.obj [("strategy", p.strategy.toJson), ("includes", .arr includes)]).pretty ++ "\n"

/-- The plans with the headings above their statements. -/
def headed (p : PlannedQuery) : List (String × Plan) :=
  let own := match p.strategy with
    | .direct plan => [("\n", plan)]
    | .twoPhase keys rows =>
      [("\n-- phase 1\n", keys), ("-- phase 2 (keys bound from phase 1)\n", rows)]
  let parent := fun (i : IncludePlan) => if i.parent.isEmpty then "<root>" else i.parent
  own ++ p.includes.map fun i =>
    ("\n-- include `" ++ i.path ++ "` (by " ++ i.parentKeyLabel ++ " of `" ++ parent i ++ "`)\n",
      i.plan)

/-- Prints statements below their headings, as far as plans have statements. -/
def printStatements (style : LimitStyle) (printed : String) : List (String × Plan) → Outcome
  | [] => ⟨0, printed⟩
  | (heading, plan) :: rest =>
    match plan.statement style with
    | .ok statement =>
      printStatements style (printed ++ heading ++ statement.display ++ "\n") rest
    | .error _ => ⟨1, printed⟩

/-- Prints what is planned. -/
def print (p : PlannedQuery) (style : LimitStyle) (asJson : Bool) : Outcome :=
  if asJson then ⟨0, json p⟩ else printStatements style p.strategy.display (headed p)

/-- What the texts of a mapping and a request plan for an entity. -/
def planTexts? (mapping request entity : String) : Option PlannedQuery := do
  let definition ← (Definition.read mapping).toOption
  let catalog ← definition.toCatalog.toOption
  let request ← Request.ofText? request
  let ctx ← (Context.ofEntity catalog entity).toOption
  ((request.planned Context.root).run ctx).1.toOption

/-- Answers arguments, with the texts of the files that they name. The settings
are not used, but have to be valid. -/
def Arguments.run (arguments : Arguments) (settings : Except SettingsError Settings)
    (mapping request : String) : Outcome :=
  match settings, planTexts? mapping request arguments.entity with
  | .ok _, some planned => print planned arguments.style arguments.asJson
  | _, _ => ⟨1, ""⟩

end EntityMap.CommandLine
