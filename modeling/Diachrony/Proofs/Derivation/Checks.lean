import Diachrony.Proofs.Derivation.Totality
import Diachrony.Proofs.Source.Compiled

/-
  Checks of a derivation.

  A ruleset that was read from a source, under a
  configuration about which nothing is to be said, comes to
  a result on every word. No check of a strict run fails, so
  that the result is the same with checks and without.

  Key theorems include:
    * `Ruleset.apply_total`
    * `Ruleset.apply_checking`
    * `Ruleset.checks_pass`
-/

namespace Diachrony

------------------------------------------------------------
-- Configurations
------------------------------------------------------------

/- The same configuration with or without checks. -/
def Config.checking
    (config : Config)
    (strict : Bool) : Config :=
  { config with engine := config.engine.checking strict }

theorem Config.issueIf_eq_nil
    {condition : Bool}
    {issue : String} :
    issueIf condition issue = [] ↔ condition = false := by
  cases condition <;> simp [issueIf]

/- A pass bound that no one objects to allows a pass. -/
theorem Config.one_le_maxPasses
    {config : Config}
    (hIssues : config.issues = []) :
    1 ≤ config.engine.maxPasses := by
  simp only [Config.issues, List.append_eq_nil_iff,
    Config.issueIf_eq_nil] at hIssues
  simpa using hIssues.1.1.1.1.1

------------------------------------------------------------
-- Items that were read
------------------------------------------------------------

namespace Items.AsRead

variable {items : List Item}
variable {options : EngineOptions}
variable {rule : Rule}
variable (hItems : Items.AsRead items)

include hItems

theorem matchable
    (hRule : .rule rule ∈ Items.walk items) :
    rule.matchable = true :=
  ((hItems _ hRule).compiled rule rfl).matchable

theorem one_le_passBound
    (hPasses : 1 ≤ options.maxPasses)
    (hRule : .rule rule ∈ Items.walk items) :
    1 ≤ rule.flags.passBound options.maxPasses :=
  (hItems _ hRule).limited.one_le_passBound hPasses

end Items.AsRead

------------------------------------------------------------
-- Rulesets
------------------------------------------------------------

section Rulesets

variable {ruleset : Ruleset}
variable {config : Config}
variable (hItems : Items.AsRead ruleset.items)
variable (hPasses : 1 ≤ config.engine.maxPasses)

include hItems hPasses

/- A ruleset that was read comes to a result on every word. -/
theorem Ruleset.apply_total
    (spelling : Spelling) :
    ∃ result, ruleset.apply config spelling = .ok result := by
  have hRules :
      ∀ rule, .rule rule ∈ Items.walk ruleset.items →
        (rule.step config.engine).Total := by
    intro rule hRule
    exact
      Rule.step_total
        (fun _ => hItems.one_le_passBound hPasses hRule)
        (hItems.matchable hRule)
  have hTotal :
      Step.Total
        (sequenceAll config.optional
          (Items.steps config.engine config.optional
            ruleset.items)) :=
    sequenceAll_total (Items.steps_total ruleset.items hRules)
  rcases hTotal
      { word :=
          spelling.toWord ruleset.graphs
            config.compiler.separator } with
    ⟨⟨state, changed⟩, hState⟩
  rw [Ruleset.apply, derive, hState]
  exact ⟨_, rfl⟩

/- It comes to the same result with checks and without. -/
theorem Ruleset.apply_checking
    (strict : Bool)
    (spelling : Spelling) :
    ruleset.apply (config.checking strict) spelling =
      ruleset.apply config spelling := by
  have hRules :
      ∀ rule, .rule rule ∈ Items.walk ruleset.items →
        rule.step (config.engine.checking strict) =
          rule.step config.engine := by
    intro rule hRule
    funext state
    rw [Rule.step, Rule.step, Rule.run_checking]
    exact fun _ => hItems.one_le_passBound hPasses hRule
  have hSteps :
      Items.steps (config.engine.checking strict)
          config.optional ruleset.items =
        Items.steps config.engine config.optional
          ruleset.items :=
    Items.steps_congr
      (EngineOptions.detectCycles_checking strict)
      (EngineOptions.maxPasses_checking strict)
      ruleset.items hRules
  simp only [Ruleset.apply, derive, Config.checking, hSteps]

end Rulesets

/-
  No check can fail when a ruleset that was read is applied
  under a configuration about which nothing is to be said:
  there is a result for every word, every rule has an outcome
  that keeps to its bound, and the result does not depend on
  whether anything is checked.
-/
theorem Ruleset.checks_pass
    {table : Table}
    {graphs : List String}
    {source : String}
    {limit : DigitLimit}
    {ruleset : Ruleset}
    (hRead :
      Ruleset.read table graphs source limit = .ok ruleset)
    {config : Config}
    (hIssues : config.issues = []) :
    (∀ spelling, ∃ result,
      ruleset.apply config spelling = .ok result) ∧
    (∀ rule ∈ ruleset.rules, ∀ word, ∃ outcome,
      rule.run config.engine word = .ok outcome ∧
        outcome.passes ≤
          rule.flags.passBound config.engine.maxPasses) ∧
    ∀ strict spelling,
      ruleset.apply (config.checking strict) spelling =
        ruleset.apply config spelling := by
  have hItems := Ruleset.read_asRead hRead
  have hPasses := Config.one_le_maxPasses hIssues
  refine
    ⟨Ruleset.apply_total hItems hPasses, ?_,
      Ruleset.apply_checking hItems hPasses⟩
  intro rule hRule word
  have hInside := Items.mem_walk_of_mem_rules _ hRule
  have hBound := hItems.one_le_passBound hPasses hInside
  rcases rule.exists_outcome (fun _ => hBound)
      (hItems.matchable hInside) word with
    ⟨outcome, hRun⟩
  exact ⟨outcome, hRun, Rule.passes_le_of_run hBound hRun⟩

/- A block that is repeated, and a rule that is run by name. -/
def finalsSource : String :=
  "\n".intercalate
    [ "V = a, e, #", "!block: 2 repeat:4", "[V]x > [V]y rtl",
      "y > [] / _ # repeat:3", "!def: final", "t > d / _ #",
      "!rule: final" ]

theorem finalsSource_checks_pass :
    let ruleset := Ruleset.ofSource {} [] finalsSource
    let config : Config := { engine := { maxPasses := 2 } }
    let spelling := Spelling.raw "axextyy"
    Ruleset.read {} [] finalsSource = .ok ruleset ∧
      config.issues = [] ∧
      (ruleset.apply config spelling).map ApplyResult.word =
        .ok ["a", "y", "e", "y", "d"] ∧
      ruleset.apply (config.checking false) spelling =
        ruleset.apply config spelling := by
  intro ruleset config spelling
  have hRead :
      Ruleset.read {} [] finalsSource = .ok ruleset :=
    Ruleset.read_ofSource (by decide +kernel)
  have hIssues : config.issues = [] := by decide
  have hPass := Ruleset.checks_pass hRead hIssues
  exact
    ⟨hRead, hIssues, by decide +kernel,
      hPass.2.2 false spelling⟩

end Diachrony
