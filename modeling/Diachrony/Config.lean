import Diachrony.Derivation

/-
  The configuration of compiling and applying rules.

  Key definitions include:
    * `CompilerOptions`
    * `LogLevel`
    * `Config`
    * `Config.issues`
    * `Config.reproducible`
    * `Config.batchOf`
-/

namespace Diachrony

------------------------------------------------------------
-- Sections
------------------------------------------------------------

/-
  How texts are split into symbols: the graphs of several
  characters, and the separator that breaks up accidental
  ones in words.
-/
structure CompilerOptions where
  graphs : List String := []
  separator : Option String := none
  deriving Repr, DecidableEq

/- How lexicons are processed. -/
structure BatchOptions where
  workers : Int := 1
  deriving Repr, DecidableEq

/- How much is logged. -/
inductive LogLevel where
  | debug
  | info
  | warning
  | error
  deriving Repr, DecidableEq

namespace LogLevel

/- The name of a level. -/
def name : LogLevel → String
  | debug => "DEBUG"
  | info => "INFO"
  | warning => "WARNING"
  | error => "ERROR"

/- All levels, the most talkative first. -/
def all : List LogLevel :=
  [debug, info, warning, error]

/- The level with a given name. -/
def ofName?
    (name : String) : Option LogLevel :=
  all.find? fun level => level.name = name

end LogLevel

/- The form of a log line unless it is said. -/
def defaultLogFormat : String :=
  "%(asctime)s - %(name)s - %(levelname)s - %(message)s"

/- What is logged and in what form. -/
structure LogOptions where
  level : LogLevel := .warning
  format : String := defaultLogFormat
  deriving Repr, DecidableEq

/- All options. -/
structure Config where
  compiler : CompilerOptions := {}
  engine : EngineOptions := {}
  optional : OptionalChoice := {}
  batch : BatchOptions := {}
  logging : LogOptions := {}
  deriving Repr, DecidableEq

namespace Config

------------------------------------------------------------
-- Presets
------------------------------------------------------------

/- Optional rules are off, so only the rules themselves count. -/
def reproducible : Config :=
  { optional := { enabled := false } }

/- Lexicons are processed by several workers. -/
def batchOf
    (workers : Int) : Config :=
  { batch := { workers := workers } }

/- The number of workers of a batch unless it is said. -/
def defaultWorkers : Int :=
  4

------------------------------------------------------------
-- Validation
------------------------------------------------------------

/- A remark that is made if a condition holds. -/
def issueIf
    (condition : Bool)
    (issue : String) : List String :=
  if condition then [issue] else []

/- What is wrong or doubtful about a configuration. -/
def issues
    (config : Config) : List String :=
  issueIf (config.engine.maxPasses < 1)
    "max_passes must be at least 1" ++
  issueIf (1000 < config.engine.maxPasses)
    "max_passes > 1000 is outside the supported range" ++
  issueIf (config.engine.maxMatchSteps < 1)
    "max_match_steps must be positive" ++
  issueIf (config.batch.workers < 1)
    "workers must be at least 1" ++
  issueIf (config.compiler.graphs.contains "")
    "graphs must not contain empty strings" ++
  issueIf (config.compiler.separator = some "")
    "separator must be None or a non-empty string"

end Config

end Diachrony
