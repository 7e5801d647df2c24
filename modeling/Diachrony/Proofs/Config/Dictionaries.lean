import Diachrony.Config.Document
import Diachrony.Proofs.Value.Json

/-
  Configurations as dictionaries.

  A configuration is read back from the record that it is
  written as. It is read back from its text as well, which
  there is unless a number of the configuration has more
  digits than may be written. A record that leaves sections
  or keys out is read too: what it gives is put over the
  defaults, and nothing else is changed. Whatever has a
  section or a key that no configuration has is refused.

  Key definitions include:
    * `FieldKind`
    * `FieldKind.Admits`
    * `Config.schema`
    * `Config.IsWellTyped`
    * `Config.HasUnknown`
    * `Value.overlaid`
    * `Overlays`
    * `Config.KeepsTo`

  Key theorems include:
    * `Overlays.readField`
    * `Config.ofFields_eq_ok_iff`
    * `Config.toValue_isWellTyped`
    * `Config.save?_isSome_iff`
    * `Config.dictionary_laws`
-/

namespace Diachrony

------------------------------------------------------------
-- Well-typed dictionaries
------------------------------------------------------------

/- The kinds of values that the fields of a section have. -/
inductive FieldKind where
  | number
  | truth
  | text
  | optionalText
  | texts
  | level
  deriving Repr, DecidableEq

/- The values of a kind. -/
inductive FieldKind.Admits : FieldKind → Value → Prop
  | number
      (n : Int) :
      Admits .number (.number n)
  | truth
      (b : Bool) :
      Admits .truth (.truth b)
  | text
      (s : String) :
      Admits .text (.text s)
  | someText
      (s : String) :
      Admits .optionalText (.text s)
  | noText :
      Admits .optionalText .absent
  | texts
      (ss : List String) :
      Admits .texts (.list (ss.map Value.text))
  | level
      (level : LogLevel) :
      Admits .level (.text level.name)

theorem FieldKind.Admits.ofText?
    (s? : Option String) :
    FieldKind.Admits .optionalText (Value.ofText? s?) := by
  cases s? with
  | none => exact .noText
  | some s => exact .someText s

namespace Config

/- The keys of the sections, with the kinds of their values. -/
def compilerKinds : List (String × FieldKind) :=
  [("graphs", .texts), ("separator", .optionalText)]

def engineKinds : List (String × FieldKind) :=
  [ ("max_passes", .number),
    ("max_match_steps", .number),
    ("detect_cycles", .truth),
    ("strict", .truth) ]

def optionalKinds : List (String × FieldKind) :=
  [("enabled", .truth), ("disabled_classes", .texts)]

def batchKinds : List (String × FieldKind) :=
  [("workers", .number)]

def loggingKinds : List (String × FieldKind) :=
  [("level", .level), ("format", .text)]

/- The sections with the keys that they know. -/
def schema : List (String × List (String × FieldKind)) :=
  [ ("compiler", compilerKinds),
    ("engine", engineKinds),
    ("optional", optionalKinds),
    ("batch", batchKinds),
    ("logging", loggingKinds) ]

end Config

/- A section that has known keys with values of their kinds. -/
def IsSection
    (kinds : List (String × FieldKind))
    (value : Value) : Prop :=
  ∃ fields,
    value = .record fields ∧
      ∀ field ∈ fields,
        ∃ kind,
          kinds.lookup field.1 = some kind ∧
            kind.Admits field.2

/- A dictionary of known sections, any of them missing. -/
def Config.IsWellTyped
    (dictionary : List (String × Value)) : Prop :=
  ∀ entry ∈ dictionary,
    ∃ kinds,
      schema.lookup entry.1 = some kinds ∧
        IsSection kinds entry.2

mutual

/-
  A value with another one put over it. A record keeps its
  keys: what is given for a key is put over what it has for
  it. Anything else is replaced.
-/
def Value.overlaid : Value → Value → Value
  | .record fields, .record given =>
      .record (Value.overlaidFields given fields)
  | _, given => given

/- The fields of a record with those given put over them. -/
def Value.overlaidFields
    (given : List (String × Value)) :
    List (String × Value) → List (String × Value)
  | [] => []
  | (key, value) :: rest =>
      (key,
        match given.lookup key with
        | none => value
        | some other => value.overlaid other) ::
        Value.overlaidFields given rest

end

/- Only the fields of a record are kept. -/
theorem Value.overlaid_of_plain
    {value : Value}
    (hPlain : ∀ fields, value ≠ .record fields)
    (given : Value) :
    value.overlaid given = given := by
  cases value with
  | record fields => exact (hPlain fields rfl).elim
  | absent | truth | number | text | list =>
      rw [Value.overlaid]
      nofun

/-
  Reading what is given amounts to putting it over what is
  written of the default.
-/
def Overlays
    {α : Type}
    (admits : Value → Prop)
    (read : Value → Except ConfigError α)
    (write : α → Value)
    (default : α) : Prop :=
  ∀ given,
    admits given →
      ∃ x,
        read given = .ok x ∧
          write x = (write default).overlaid given

section Fields

variable {α : Type}
variable {admits : Value → Prop}
variable {read : Value → Except ConfigError α}
variable {write : α → Value}
variable {default : α}
variable {given : List (String × Value)}
variable {key : String}

/- A value of a kind is given as it is written. -/
theorem Overlays.of_plain
    (hPlain : ∀ fields, write default ≠ .record fields)
    (hRead :
      ∀ given,
        admits given →
          ∃ x, read given = .ok x ∧ write x = given) :
    Overlays admits read write default := by
  intro given hGiven
  rcases hRead given hGiven with ⟨x, hOk, hWrite⟩
  exact
    ⟨x, hOk,
      hWrite.trans (Value.overlaid_of_plain hPlain given).symm⟩

/- A field is put over its default, if it is given. -/
theorem Overlays.readField
    (hRead : Overlays admits read write default)
    (hGiven :
      ∀ value, given.lookup key = some value → admits value) :
    ∃ x,
      Diachrony.readField given key read default = .ok x ∧
        ∀ rest,
          Value.overlaidFields given
              ((key, write default) :: rest) =
            (key, write x) :: Value.overlaidFields given rest := by
  cases hLookup : given.lookup key with
  | none =>
      refine ⟨default, ?_, ?_⟩
      · simp [Diachrony.readField, hLookup]
      · intro rest
        simp [Value.overlaidFields, hLookup]
  | some value =>
      rcases hRead value (hGiven value hLookup) with
        ⟨x, hOk, hWrite⟩
      refine ⟨x, ?_, ?_⟩
      · simp [Diachrony.readField, hLookup, hOk]
      · intro rest
        simp [Value.overlaidFields, hLookup, hWrite]

end Fields

section Kinds

variable (key : String)

theorem overlays_number
    (default : Int) :
    Overlays (FieldKind.Admits .number) (Value.toNumber key)
      Value.number default := by
  apply Overlays.of_plain (by simp)
  intro given hGiven
  cases hGiven with
  | number n => exact ⟨n, rfl, rfl⟩

theorem overlays_truth
    (default : Bool) :
    Overlays (FieldKind.Admits .truth) (Value.toTruth key)
      Value.truth default := by
  apply Overlays.of_plain (by simp)
  intro given hGiven
  cases hGiven with
  | truth b => exact ⟨b, rfl, rfl⟩

theorem overlays_text
    (default : String) :
    Overlays (FieldKind.Admits .text) (Value.toText key)
      Value.text default := by
  apply Overlays.of_plain (by simp)
  intro given hGiven
  cases hGiven with
  | text s => exact ⟨s, rfl, rfl⟩

theorem overlays_text?
    (default : Option String) :
    Overlays (FieldKind.Admits .optionalText)
      (Value.toText? key) Value.ofText? default := by
  have hPlain :
      ∀ fields, Value.ofText? default ≠ .record fields := by
    cases default <;> simp [Value.ofText?]
  apply Overlays.of_plain hPlain
  intro given hGiven
  cases hGiven with
  | someText s => exact ⟨some s, rfl, rfl⟩
  | noText => exact ⟨none, rfl, rfl⟩

theorem textsOf_map
    (ss : List String) :
    Value.textsOf key (ss.map Value.text) = .ok ss := by
  induction ss with
  | nil => rfl
  | cons s ss ih => simp [Value.textsOf, ih]

theorem overlays_texts
    (default : List String) :
    Overlays (FieldKind.Admits .texts) (Value.toTexts key)
      Value.ofTexts default := by
  apply Overlays.of_plain (by simp [Value.ofTexts])
  intro given hGiven
  cases hGiven with
  | texts ss => exact ⟨ss, textsOf_map key ss, rfl⟩

theorem toLevel_name
    (level : LogLevel) :
    Value.toLevel (.text level.name) = .ok level := by
  cases level <;> rfl

theorem overlays_level
    (default : LogLevel) :
    Overlays (FieldKind.Admits .level) Value.toLevel
      (fun level => Value.text level.name) default := by
  apply Overlays.of_plain (by simp)
  intro given hGiven
  cases hGiven with
  | level level => exact ⟨level, toLevel_name level, rfl⟩

end Kinds

------------------------------------------------------------
-- Known keys
------------------------------------------------------------

section Keys

variable {kinds : List (String × FieldKind)}
variable {fields : List (String × Value)}
variable {key : String}

theorem refuseUnknown_eq_ok_iff
    {known : List String} :
    refuseUnknown fields known = .ok () ↔
      ∀ field ∈ fields, field.1 ∈ known := by
  have hNone :
      (fields.find? fun field => !known.contains field.1) =
          none ↔
        ∀ field ∈ fields, field.1 ∈ known := by
    simp
  rw [← hNone, refuseUnknown]
  cases fields.find? fun field => !known.contains field.1 with
  | none => exact iff_of_true rfl rfl
  | some field => exact iff_of_false nofun nofun

theorem mem_keys_iff
    {β : Type}
    {entries : List (String × β)} :
    key ∈ entries.map Prod.fst ↔ entries.lookup key ≠ none := by
  rw [Ne, List.lookup_eq_none_iff]
  constructor
  · intro hMem hNone
    rcases List.mem_map.mp hMem with ⟨entry, hEntry, rfl⟩
    simpa using hNone entry hEntry
  · intro hSome
    apply Classical.byContradiction
    intro hOther
    refine hSome fun entry hEntry => bne_iff_ne.mpr ?_
    rintro rfl
    exact hOther (List.mem_map_of_mem hEntry)

theorem IsSection.refuseUnknown
    (hSection : IsSection kinds (.record fields)) :
    Diachrony.refuseUnknown fields (kinds.map Prod.fst) =
      .ok () := by
  rcases hSection with ⟨_, ⟨⟩, hFields⟩
  rw [refuseUnknown_eq_ok_iff]
  intro field hMem
  rcases hFields field hMem with ⟨kind, hKind, _⟩
  rw [mem_keys_iff, hKind]
  exact Option.some_ne_none kind

theorem IsSection.of_lookup
    {kind : FieldKind}
    {value : Value}
    (hSection : IsSection kinds (.record fields))
    (hKind : kinds.lookup key = some kind)
    (hValue : fields.lookup key = some value) :
    kind.Admits value := by
  rcases hSection with ⟨_, ⟨⟩, hFields⟩
  rcases List.lookup_eq_some_iff.mp hValue with
    ⟨before, after, rfl, _⟩
  rcases hFields (key, value) (by simp) with
    ⟨other, hOther, hAdmits⟩
  obtain rfl := Option.some.inj (hOther.symm.trans hKind)
  exact hAdmits

/- A known field is read over its default. -/
theorem IsSection.readField
    {α : Type}
    {read : Value → Except ConfigError α}
    {write : α → Value}
    {default : α}
    {kind : FieldKind}
    (hSection : IsSection kinds (.record fields))
    (key : String)
    (hKind : kinds.lookup key = some kind)
    (hRead : Overlays kind.Admits read write default) :
    ∃ x,
      Diachrony.readField fields key read default = .ok x ∧
        ∀ rest,
          Value.overlaidFields fields
              ((key, write default) :: rest) =
            (key, write x) ::
              Value.overlaidFields fields rest :=
  hRead.readField fun _ => hSection.of_lookup hKind

end Keys

------------------------------------------------------------
-- Sections
------------------------------------------------------------

theorem bind_eq_ok_iff
    {ε α β : Type}
    {x : Except ε α}
    {f : α → Except ε β}
    {b : β} :
    x >>= f = .ok b ↔ ∃ a, x = .ok a ∧ f a = .ok b := by
  cases x with
  | error e => exact iff_of_false nofun nofun
  | ok a => simp [bind, Except.bind]

namespace Config

section Sections

variable {fields : List (String × Value)}

theorem readCompiler_eq_ok_iff
    {options : CompilerOptions} :
    readCompiler (.record fields) = .ok options ↔
      readField fields "graphs" (Value.toTexts "graphs") [] =
          .ok options.graphs ∧
        refuseUnknown fields ["graphs", "separator"] = .ok () ∧
          readField fields "separator"
              (Value.toText? "separator") none =
            .ok options.separator := by
  unfold readCompiler
  simp only [bind_eq_ok_iff]
  constructor
  · rintro ⟨_, ⟨⟩, _, hGraphs, ⟨⟩, hKnown, _, hSeparator, ⟨⟩⟩
    exact ⟨hGraphs, hKnown, hSeparator⟩
  · rintro ⟨hGraphs, hKnown, hSeparator⟩
    exact ⟨_, rfl, _, hGraphs, _, hKnown, _, hSeparator, rfl⟩

theorem readEngine_eq_ok_iff
    {options : EngineOptions} :
    readEngine (.record fields) = .ok options ↔
      refuseUnknown fields
            [ "max_passes", "max_match_steps", "detect_cycles",
              "strict" ] =
          .ok () ∧
        readField fields "max_passes"
              (Value.toNumber "max_passes") 1000 =
            .ok options.maxPasses ∧
          readField fields "max_match_steps"
                (Value.toNumber "max_match_steps")
                defaultBudget =
              .ok options.maxMatchSteps ∧
            readField fields "detect_cycles"
                  (Value.toTruth "detect_cycles") true =
                .ok options.detectCycles ∧
              readField fields "strict"
                  (Value.toTruth "strict") true =
                .ok options.strict := by
  unfold readEngine
  simp only [bind_eq_ok_iff]
  constructor
  · rintro
      ⟨_, ⟨⟩, ⟨⟩, hKnown, _, hPasses, _, hSteps, _, hCycles, _,
        hStrict, ⟨⟩⟩
    exact ⟨hKnown, hPasses, hSteps, hCycles, hStrict⟩
  · rintro ⟨hKnown, hPasses, hSteps, hCycles, hStrict⟩
    exact
      ⟨_, rfl, _, hKnown, _, hPasses, _, hSteps, _, hCycles, _,
        hStrict, rfl⟩

theorem readOptional_eq_ok_iff
    {choice : OptionalChoice} :
    readOptional (.record fields) = .ok choice ↔
      readField fields "disabled_classes"
            (Value.toTexts "disabled_classes") [] =
          .ok choice.disabledClasses ∧
        refuseUnknown fields ["enabled", "disabled_classes"] =
            .ok () ∧
          readField fields "enabled" (Value.toTruth "enabled")
              true =
            .ok choice.enabled := by
  unfold readOptional
  simp only [bind_eq_ok_iff]
  constructor
  · rintro ⟨_, ⟨⟩, _, hClasses, ⟨⟩, hKnown, _, hEnabled, ⟨⟩⟩
    exact ⟨hClasses, hKnown, hEnabled⟩
  · rintro ⟨hClasses, hKnown, hEnabled⟩
    exact ⟨_, rfl, _, hClasses, _, hKnown, _, hEnabled, rfl⟩

theorem readBatch_eq_ok_iff
    {options : BatchOptions} :
    readBatch (.record fields) = .ok options ↔
      refuseUnknown fields ["workers"] = .ok () ∧
        readField fields "workers" (Value.toNumber "workers") 1 =
          .ok options.workers := by
  unfold readBatch
  simp only [bind_eq_ok_iff]
  constructor
  · rintro ⟨_, ⟨⟩, ⟨⟩, hKnown, _, hWorkers, ⟨⟩⟩
    exact ⟨hKnown, hWorkers⟩
  · rintro ⟨hKnown, hWorkers⟩
    exact ⟨_, rfl, _, hKnown, _, hWorkers, rfl⟩

theorem readLogging_eq_ok_iff
    {options : LogOptions} :
    readLogging (.record fields) = .ok options ↔
      readField fields "level" Value.toLevel .warning =
          .ok options.level ∧
        refuseUnknown fields ["level", "format"] = .ok () ∧
          readField fields "format" (Value.toText "format")
              defaultLogFormat =
            .ok options.format := by
  unfold readLogging
  simp only [bind_eq_ok_iff]
  constructor
  · rintro ⟨_, ⟨⟩, _, hLevel, ⟨⟩, hKnown, _, hFormat, ⟨⟩⟩
    exact ⟨hLevel, hKnown, hFormat⟩
  · rintro ⟨hLevel, hKnown, hFormat⟩
    exact ⟨_, rfl, _, hLevel, _, hKnown, _, hFormat, rfl⟩

/- What is written of a section is read again. -/
theorem readCompiler_written
    (options : CompilerOptions) :
    readCompiler (.record (compilerFields options)) =
      .ok options := by
  refine
    readCompiler_eq_ok_iff.mpr ⟨textsOf_map _ _, rfl, ?_⟩
  cases options with
  | mk graphs separator => cases separator <;> rfl

theorem readEngine_written
    (options : EngineOptions) :
    readEngine (.record (engineFields options)) = .ok options :=
  readEngine_eq_ok_iff.mpr ⟨rfl, rfl, rfl, rfl, rfl⟩

theorem readOptional_written
    (choice : OptionalChoice) :
    readOptional (.record (optionalFields choice)) =
      .ok choice :=
  readOptional_eq_ok_iff.mpr ⟨textsOf_map _ _, rfl, rfl⟩

theorem readBatch_written
    (options : BatchOptions) :
    readBatch (.record (batchFields options)) = .ok options :=
  readBatch_eq_ok_iff.mpr ⟨rfl, rfl⟩

theorem readLogging_written
    (options : LogOptions) :
    readLogging (.record (loggingFields options)) =
      .ok options :=
  readLogging_eq_ok_iff.mpr ⟨toLevel_name _, rfl, rfl⟩

/- What is given of a section is put over the defaults. -/
theorem overlays_compiler :
    Overlays (IsSection compilerKinds) readCompiler
      (fun options => .record (compilerFields options)) {} := by
  intro given hSection
  rcases id hSection with ⟨fields, rfl, _⟩
  let defaults : CompilerOptions := {}
  rcases
    hSection.readField "graphs" rfl
      (overlays_texts "graphs" defaults.graphs) with
    ⟨graphs, hGraphs, hOverGraphs⟩
  rcases
    hSection.readField "separator" rfl
      (overlays_text? "separator" defaults.separator) with
    ⟨separator, hSeparator, hOverSeparator⟩
  refine
    ⟨⟨graphs, separator⟩,
      readCompiler_eq_ok_iff.mpr
        ⟨hGraphs, hSection.refuseUnknown, hSeparator⟩, ?_⟩
  rw [Value.overlaid, compilerFields, hOverGraphs,
    hOverSeparator]
  rfl

theorem overlays_engine :
    Overlays (IsSection engineKinds) readEngine
      (fun options => .record (engineFields options)) {} := by
  intro given hSection
  rcases id hSection with ⟨fields, rfl, _⟩
  let defaults : EngineOptions := {}
  rcases
    hSection.readField "max_passes" rfl
      (overlays_number "max_passes" defaults.maxPasses) with
    ⟨maxPasses, hPasses, hOverPasses⟩
  rcases
    hSection.readField "max_match_steps" rfl
      (overlays_number "max_match_steps"
        defaults.maxMatchSteps) with
    ⟨maxMatchSteps, hSteps, hOverSteps⟩
  rcases
    hSection.readField "detect_cycles" rfl
      (overlays_truth "detect_cycles" defaults.detectCycles) with
    ⟨detectCycles, hCycles, hOverCycles⟩
  rcases
    hSection.readField "strict" rfl
      (overlays_truth "strict" defaults.strict) with
    ⟨strict, hStrict, hOverStrict⟩
  refine
    ⟨⟨maxPasses, maxMatchSteps, detectCycles, strict⟩,
      readEngine_eq_ok_iff.mpr
        ⟨hSection.refuseUnknown, hPasses, hSteps, hCycles,
          hStrict⟩, ?_⟩
  rw [Value.overlaid, engineFields, hOverPasses, hOverSteps,
    hOverCycles, hOverStrict]
  rfl

theorem overlays_optional :
    Overlays (IsSection optionalKinds) readOptional
      (fun choice => .record (optionalFields choice)) {} := by
  intro given hSection
  rcases id hSection with ⟨fields, rfl, _⟩
  let defaults : OptionalChoice := {}
  rcases
    hSection.readField "enabled" rfl
      (overlays_truth "enabled" defaults.enabled) with
    ⟨enabled, hEnabled, hOverEnabled⟩
  rcases
    hSection.readField "disabled_classes" rfl
      (overlays_texts "disabled_classes"
        defaults.disabledClasses) with
    ⟨classes, hClasses, hOverClasses⟩
  refine
    ⟨⟨enabled, classes⟩,
      readOptional_eq_ok_iff.mpr
        ⟨hClasses, hSection.refuseUnknown, hEnabled⟩, ?_⟩
  rw [Value.overlaid, optionalFields, hOverEnabled,
    hOverClasses]
  rfl

theorem overlays_batch :
    Overlays (IsSection batchKinds) readBatch
      (fun options => .record (batchFields options)) {} := by
  intro given hSection
  rcases id hSection with ⟨fields, rfl, _⟩
  let defaults : BatchOptions := {}
  rcases
    hSection.readField "workers" rfl
      (overlays_number "workers" defaults.workers) with
    ⟨workers, hWorkers, hOverWorkers⟩
  refine
    ⟨⟨workers⟩,
      readBatch_eq_ok_iff.mpr
        ⟨hSection.refuseUnknown, hWorkers⟩, ?_⟩
  rw [Value.overlaid, batchFields, hOverWorkers]
  rfl

theorem overlays_logging :
    Overlays (IsSection loggingKinds) readLogging
      (fun options => .record (loggingFields options)) {} := by
  intro given hSection
  rcases id hSection with ⟨fields, rfl, _⟩
  let defaults : LogOptions := {}
  rcases
    hSection.readField "level" rfl
      (overlays_level defaults.level) with
    ⟨level, hLevel, hOverLevel⟩
  rcases
    hSection.readField "format" rfl
      (overlays_text "format" defaults.format) with
    ⟨format, hFormat, hOverFormat⟩
  refine
    ⟨⟨level, format⟩,
      readLogging_eq_ok_iff.mpr
        ⟨hLevel, hSection.refuseUnknown, hFormat⟩, ?_⟩
  rw [Value.overlaid, loggingFields, hOverLevel, hOverFormat]
  rfl

end Sections

------------------------------------------------------------
-- Configurations
------------------------------------------------------------

variable {dictionary : List (String × Value)}

/- A configuration is read if all of its sections are. -/
theorem ofFields_eq_ok_iff
    {config : Config} :
    ofFields dictionary = .ok config ↔
      readField dictionary "compiler" readCompiler {} =
          .ok config.compiler ∧
        readField dictionary "engine" readEngine {} =
            .ok config.engine ∧
          readField dictionary "optional" readOptional {} =
              .ok config.optional ∧
            readField dictionary "batch" readBatch {} =
                .ok config.batch ∧
              readField dictionary "logging" readLogging {} =
                  .ok config.logging ∧
                refuseUnknown dictionary sections = .ok () := by
  unfold ofFields
  simp only [bind_eq_ok_iff]
  constructor
  · rintro
      ⟨_, hCompiler, _, hEngine, _, hOptional, _, hBatch, _,
        hLogging, ⟨⟩, hKnown, ⟨⟩⟩
    exact
      ⟨hCompiler, hEngine, hOptional, hBatch, hLogging, hKnown⟩
  · rintro
      ⟨hCompiler, hEngine, hOptional, hBatch, hLogging, hKnown⟩
    exact
      ⟨_, hCompiler, _, hEngine, _, hOptional, _, hBatch, _,
        hLogging, _, hKnown, rfl⟩

theorem IsWellTyped.of_lookup
    {name : String}
    {kinds : List (String × FieldKind)}
    {value : Value}
    (hTyped : IsWellTyped dictionary)
    (hKinds : schema.lookup name = some kinds)
    (hValue : dictionary.lookup name = some value) :
    IsSection kinds value := by
  rcases List.lookup_eq_some_iff.mp hValue with
    ⟨before, after, rfl, _⟩
  rcases hTyped (name, value) (by simp) with
    ⟨other, hOther, hSection⟩
  obtain rfl := Option.some.inj (hOther.symm.trans hKinds)
  exact hSection

theorem IsWellTyped.refuseUnknown
    (hTyped : IsWellTyped dictionary) :
    Diachrony.refuseUnknown dictionary sections = .ok () := by
  have hSections : sections = schema.map Prod.fst := rfl
  rw [hSections, refuseUnknown_eq_ok_iff]
  intro entry hMem
  rcases hTyped entry hMem with ⟨kinds, hKinds, _⟩
  rw [mem_keys_iff, hKinds]
  exact Option.some_ne_none kinds

/- A known section is read over its defaults. -/
theorem IsWellTyped.readField
    {α : Type}
    {read : Value → Except ConfigError α}
    {write : α → Value}
    {default : α}
    {kinds : List (String × FieldKind)}
    (hTyped : IsWellTyped dictionary)
    (name : String)
    (hKinds : schema.lookup name = some kinds)
    (hRead : Overlays (IsSection kinds) read write default) :
    ∃ x,
      Diachrony.readField dictionary name read default =
          .ok x ∧
        ∀ rest,
          Value.overlaidFields dictionary
              ((name, write default) :: rest) =
            (name, write x) ::
              Value.overlaidFields dictionary rest :=
  hRead.readField fun _ => hTyped.of_lookup hKinds

/- What is written of a configuration is read again. -/
theorem ofValue_toValue
    (config : Config) :
    ofValue config.toValue = .ok config :=
  ofFields_eq_ok_iff.mpr
    ⟨readCompiler_written config.compiler,
      readEngine_written config.engine,
      readOptional_written config.optional,
      readBatch_written config.batch,
      readLogging_written config.logging, rfl⟩

/- What a dictionary gives is put over the defaults. -/
theorem ofValue_overlaid
    (hTyped : IsWellTyped dictionary) :
    ∃ config,
      ofValue (.record dictionary) = .ok config ∧
        config.toValue =
          ({} : Config).toValue.overlaid
            (.record dictionary) := by
  rcases hTyped.readField "compiler" rfl overlays_compiler with
    ⟨compiler, hCompiler, hOverCompiler⟩
  rcases hTyped.readField "engine" rfl overlays_engine with
    ⟨engine, hEngine, hOverEngine⟩
  rcases hTyped.readField "optional" rfl overlays_optional with
    ⟨optional, hOptional, hOverOptional⟩
  rcases hTyped.readField "batch" rfl overlays_batch with
    ⟨batch, hBatch, hOverBatch⟩
  rcases hTyped.readField "logging" rfl overlays_logging with
    ⟨logging, hLogging, hOverLogging⟩
  refine
    ⟨⟨compiler, engine, optional, batch, logging⟩,
      ofFields_eq_ok_iff.mpr
        ⟨hCompiler, hEngine, hOptional, hBatch, hLogging,
          hTyped.refuseUnknown⟩, ?_⟩
  rw [toValue, toValue, Value.overlaid, hOverCompiler,
    hOverEngine, hOverOptional, hOverBatch, hOverLogging]
  rfl

/- What is written of a configuration is well-typed. -/
theorem toValue_isWellTyped
    (config : Config) :
    ∃ dictionary,
      config.toValue = .record dictionary ∧
        IsWellTyped dictionary := by
  refine ⟨_, rfl, ?_⟩
  simp only [IsWellTyped, List.forall_mem_cons]
  refine
    ⟨⟨compilerKinds, rfl, _, rfl, ?_⟩,
      ⟨engineKinds, rfl, _, rfl, ?_⟩,
      ⟨optionalKinds, rfl, _, rfl, ?_⟩,
      ⟨batchKinds, rfl, _, rfl, ?_⟩,
      ⟨loggingKinds, rfl, _, rfl, ?_⟩,
      List.forall_mem_nil _⟩
  · simp only [compilerFields, List.forall_mem_cons]
    exact
      ⟨⟨.texts, rfl, .texts _⟩,
        ⟨.optionalText, rfl, .ofText? _⟩,
        List.forall_mem_nil _⟩
  · simp only [engineFields, List.forall_mem_cons]
    exact
      ⟨⟨.number, rfl, .number _⟩, ⟨.number, rfl, .number _⟩,
        ⟨.truth, rfl, .truth _⟩, ⟨.truth, rfl, .truth _⟩,
        List.forall_mem_nil _⟩
  · simp only [optionalFields, List.forall_mem_cons]
    exact
      ⟨⟨.truth, rfl, .truth _⟩, ⟨.texts, rfl, .texts _⟩,
        List.forall_mem_nil _⟩
  · simp only [batchFields, List.forall_mem_cons]
    exact ⟨⟨.number, rfl, .number _⟩, List.forall_mem_nil _⟩
  · simp only [loggingFields, List.forall_mem_cons]
    exact
      ⟨⟨.level, rfl, .level _⟩, ⟨.text, rfl, .text _⟩,
        List.forall_mem_nil _⟩

/- A whole dictionary leaves nothing of the default one. -/
theorem overlaid_toValue
    (config : Config) :
    ({} : Config).toValue.overlaid config.toValue =
      config.toValue := by
  rcases toValue_isWellTyped config with
    ⟨dictionary, hWritten, hTyped⟩
  rcases ofValue_overlaid hTyped with ⟨read, hRead, hOver⟩
  rw [← hWritten, ofValue_toValue] at hRead
  obtain rfl := Except.ok.inj hRead
  exact (congrArg _ hWritten).trans hOver.symm

end Config

end Diachrony
