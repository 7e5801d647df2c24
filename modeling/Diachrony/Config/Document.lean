import Diachrony.Config
import Diachrony.Value.Json

/-
  Configurations as records of values.

  A configuration is written with all its sections and keys.
  When it is read, missing sections and keys keep their
  defaults, and unknown ones are refused. It is saved as a
  text, unless one of its numbers has more digits than may
  be written.

  Key definitions include:
    * `ConfigError`
    * `Config.toValue`
    * `Config.ofValue`
    * `Config.save?`
    * `Config.load?`
    * `Config.ofPreset`
-/

namespace Diachrony

/- Why a record of values is no configuration. -/
inductive ConfigError where
  | unknownKey (key : String)
  | wrongType (key : String)
  | unknownLevel
  | wrongArguments
  deriving Repr, DecidableEq

------------------------------------------------------------
-- Writing
------------------------------------------------------------

/- A list of texts as a value. -/
def Value.ofTexts
    (texts : List String) : Value :=
  .list (texts.map Value.text)

/- A text that may be absent as a value. -/
def Value.ofText? : Option String → Value
  | none => .absent
  | some s => .text s

namespace Config

/- The fields of the compiler section. -/
def compilerFields
    (options : CompilerOptions) : List (String × Value) :=
  [ ("graphs", Value.ofTexts options.graphs),
    ("separator", Value.ofText? options.separator) ]

/- The fields of the engine section. -/
def engineFields
    (options : EngineOptions) : List (String × Value) :=
  [ ("max_passes", .number options.maxPasses),
    ("max_match_steps", .number options.maxMatchSteps),
    ("detect_cycles", .truth options.detectCycles),
    ("strict", .truth options.strict) ]

/- The fields of the section on optional rules. -/
def optionalFields
    (choice : OptionalChoice) : List (String × Value) :=
  [ ("enabled", .truth choice.enabled),
    ("disabled_classes", Value.ofTexts choice.disabledClasses) ]

/- The fields of the batch section. -/
def batchFields
    (options : BatchOptions) : List (String × Value) :=
  [("workers", .number options.workers)]

/- The fields of the logging section. -/
def loggingFields
    (options : LogOptions) : List (String × Value) :=
  [ ("level", .text options.level.name),
    ("format", .text options.format) ]

/- A configuration as a record of its sections. -/
def toValue
    (config : Config) : Value :=
  .record
    [ ("compiler", .record (compilerFields config.compiler)),
      ("engine", .record (engineFields config.engine)),
      ("optional", .record (optionalFields config.optional)),
      ("batch", .record (batchFields config.batch)),
      ("logging", .record (loggingFields config.logging)) ]

end Config

------------------------------------------------------------
-- Reading values
------------------------------------------------------------

namespace Value

/- A whole number. -/
def toNumber
    (key : String) : Value → Except ConfigError Int
  | .number n => .ok n
  | _ => .error (.wrongType key)

/- A truth value. -/
def toTruth
    (key : String) : Value → Except ConfigError Bool
  | .truth b => .ok b
  | _ => .error (.wrongType key)

/- A text. -/
def toText
    (key : String) : Value → Except ConfigError String
  | .text s => .ok s
  | _ => .error (.wrongType key)

/- A text that may be absent. -/
def toText?
    (key : String) : Value → Except ConfigError (Option String)
  | .absent => .ok none
  | .text s => .ok (some s)
  | _ => .error (.wrongType key)

/- A list of texts from its entries. -/
def textsOf
    (key : String) : List Value → Except ConfigError (List String)
  | [] => .ok []
  | .text s :: rest =>
      match textsOf key rest with
      | .error e => .error e
      | .ok others => .ok (s :: others)
  | _ :: _ => .error (.wrongType key)

/- A list of texts. A single text stands for its characters. -/
def toTexts
    (key : String) : Value → Except ConfigError (List String)
  | .list items => textsOf key items
  | .text s => .ok (s.toList.map fun c => String.ofList [c])
  | _ => .error (.wrongType key)

/- The level of logging with a given name. -/
def toLevel : Value → Except ConfigError LogLevel
  | .text s =>
      match LogLevel.ofName? s with
      | some level => .ok level
      | none => .error .unknownLevel
  | _ => .error .unknownLevel

/- The fields of a section. -/
def toFields
    (key : String) :
    Value → Except ConfigError (List (String × Value))
  | .record fields => .ok fields
  | _ => .error (.wrongType key)

end Value

------------------------------------------------------------
-- Reading sections
------------------------------------------------------------

/- Read a field if it is there, and keep the default if not. -/
def readField
    {α : Type}
    (fields : List (String × Value))
    (key : String)
    (read : Value → Except ConfigError α)
    (default : α) : Except ConfigError α :=
  match fields.lookup key with
  | none => .ok default
  | some value => read value

/- Refuse fields that have no meaning. -/
def refuseUnknown
    (fields : List (String × Value))
    (known : List String) : Except ConfigError Unit :=
  match fields.find? fun field => !known.contains field.1 with
  | some field => .error (.unknownKey field.1)
  | none => .ok ()

namespace Config

/- Read the compiler section. -/
def readCompiler
    (value : Value) : Except ConfigError CompilerOptions := do
  let fields ← value.toFields "compiler"
  let graphs ← readField fields "graphs"
    (Value.toTexts "graphs") []
  refuseUnknown fields ["graphs", "separator"]
  let separator ← readField fields "separator"
    (Value.toText? "separator") none
  return { graphs := graphs, separator := separator }

/- Read the engine section. -/
def readEngine
    (value : Value) : Except ConfigError EngineOptions := do
  let fields ← value.toFields "engine"
  refuseUnknown fields
    ["max_passes", "max_match_steps", "detect_cycles", "strict"]
  let maxPasses ← readField fields "max_passes"
    (Value.toNumber "max_passes") 1000
  let maxMatchSteps ← readField fields "max_match_steps"
    (Value.toNumber "max_match_steps") defaultBudget
  let detectCycles ← readField fields "detect_cycles"
    (Value.toTruth "detect_cycles") true
  let strict ← readField fields "strict"
    (Value.toTruth "strict") true
  pure
    { maxPasses := maxPasses
      maxMatchSteps := maxMatchSteps
      detectCycles := detectCycles
      strict := strict }

/- Read the section on optional rules. -/
def readOptional
    (value : Value) : Except ConfigError OptionalChoice := do
  let fields ← value.toFields "optional"
  let disabled ← readField fields "disabled_classes"
    (Value.toTexts "disabled_classes") []
  refuseUnknown fields ["enabled", "disabled_classes"]
  let enabled ← readField fields "enabled"
    (Value.toTruth "enabled") true
  return { enabled := enabled, disabledClasses := disabled }

/- Read the batch section. -/
def readBatch
    (value : Value) : Except ConfigError BatchOptions := do
  let fields ← value.toFields "batch"
  refuseUnknown fields ["workers"]
  let workers ← readField fields "workers"
    (Value.toNumber "workers") 1
  return { workers := workers }

/- Read the logging section. -/
def readLogging
    (value : Value) : Except ConfigError LogOptions := do
  let fields ← value.toFields "logging"
  let level ← readField fields "level" Value.toLevel .warning
  refuseUnknown fields ["level", "format"]
  let format ← readField fields "format"
    (Value.toText "format") defaultLogFormat
  return { level := level, format := format }

/- The names of the sections. -/
def sections : List String :=
  ["compiler", "engine", "optional", "batch", "logging"]

/-
  Read a configuration. The sections are read in their
  order, and unknown ones are refused at the end.
-/
def ofFields
    (fields : List (String × Value)) :
    Except ConfigError Config := do
  let compiler ← readField fields "compiler" readCompiler {}
  let engine ← readField fields "engine" readEngine {}
  let optional ← readField fields "optional" readOptional {}
  let batch ← readField fields "batch" readBatch {}
  let logging ← readField fields "logging" readLogging {}
  refuseUnknown fields sections
  pure
    { compiler := compiler
      engine := engine
      optional := optional
      batch := batch
      logging := logging }

/- Read a configuration from a value. -/
def ofValue
    (value : Value) : Except ConfigError Config := do
  let fields ← value.toFields ""
  ofFields fields

------------------------------------------------------------
-- Saving and loading
------------------------------------------------------------

/-
  The text under which a configuration is saved, if its
  numbers can be written.
-/
def save?
    (limit : DigitLimit)
    (config : Config) : Option String :=
  config.toValue.json? limit

/- The configuration that a saved text stands for. -/
def load?
    (limit : DigitLimit)
    (text : String) : Option Config :=
  match Json.read? limit text with
  | none => none
  | some value =>
      match ofValue value with
      | .error _ => none
      | .ok config => some config

------------------------------------------------------------
-- Presets by name
------------------------------------------------------------

/- The configurations that have a name of their own. -/
inductive Preset where
  | default
  | reproducible
  | batch
  deriving Repr, DecidableEq

/- The preset with its arguments, if it can take them. -/
def ofPreset
    (preset : Preset)
    (arguments : List Int) : Except ConfigError Config :=
  match preset, arguments with
  | .default, [] => .ok {}
  | .reproducible, [] => .ok reproducible
  | .batch, [] => .ok (batchOf defaultWorkers)
  | .batch, [workers] => .ok (batchOf workers)
  | _, _ => .error .wrongArguments

end Config

end Diachrony
