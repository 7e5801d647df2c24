import Diachrony.Proofs.Scan.Simultaneous
import Diachrony.Run

/-
  Changes that lead from one word to another.

  A change replaces a span of a word by other symbols. The
  changes of a scan, and those of a whole run of a rule, are
  a chain: each of them starts from the word that the one
  before has left.

  Key definitions include:
    * `Edit.IsChange`
    * `Edit.Leads`
    * `RuleOutcome.AddsOnly`

  Key theorems include:
    * `Rule.sweep_leads`
    * `Rule.endAtBound_addsOnly`
    * `Rule.run_leads`
-/

namespace Diachrony

------------------------------------------------------------
-- Chains of changes
------------------------------------------------------------

namespace Edit

/-
  A span inside a word is replaced by symbols that did not
  stand there.
-/
structure IsChange
    (edit : Edit) : Prop where
  start_le : edit.start ≤ edit.stop
  stop_le : edit.stop ≤ edit.before.length
  replaces : ∃ symbols,
    symbols ≠ edit.before.span edit.start edit.stop ∧
      edit.after =
        edit.before.splice edit.start edit.stop symbols

/-
  Changes that lead from one word to another. The first one
  starts from the one word, each one starts from the word
  that the one before has left, and the last one leaves the
  other word.
-/
inductive Leads : Word → List Edit → Word → Prop where
  | done
      (word : Word) :
      Leads word [] word
  | change
      {edit : Edit}
      {rest : List Edit}
      {output : Word}
      (hChange : edit.IsChange)
      (hRest : Leads edit.after rest output) :
      Leads edit.before (edit :: rest) output

/- No changes lead nowhere. -/
theorem Leads.eq_of_nil
    {input output : Word}
    (hLeads : Leads input [] output) :
    output = input := by
  cases hLeads
  rfl

theorem Leads.append
    {input middle output : Word}
    {edits others : List Edit}
    (hFirst : Leads input edits middle)
    (hSecond : Leads middle others output) :
    Leads input (edits ++ others) output := by
  induction hFirst with
  | done _ => exact hSecond
  | change hChange _ ih =>
      exact Leads.change hChange (ih hSecond)

end Edit

------------------------------------------------------------
-- Scans
------------------------------------------------------------

/- A visit makes one change or none. -/
theorem Visit.leads
    {rule : Rule}
    {word : Word}
    {earlier : List Rewrite}
    {visit : Visit}
    (hWord :
      visit.cursor.word.toList =
        word.rewrite (rule.arrange earlier))
    (hSite : ∀ site, visit.rewrite? = some site →
      ∃ found, visit.verdict = .replaced found site.symbols ∧
        rule.Reaches word earlier site found.found) :
    Edit.Leads visit.cursor.word.toList
      (visit.verdict.edit? visit.cursor.word).toList
      visit.result.toList := by
  cases hRewrite : visit.rewrite? with
  | none =>
      rcases idle_of_rewrite?_eq_none hRewrite with
        ⟨hResult, _, hEdit⟩
      rw [hResult, hEdit]
      exact Edit.Leads.done _
  | some site =>
      rcases hSite site hRewrite with
        ⟨found, hVerdict, hReaches⟩
      have hBounds := hReaches.bounds
      rw [← hWord] at hBounds
      have hResult :
          visit.result.toList =
            Word.splice visit.cursor.word.toList
              found.found.start found.found.stop
              site.symbols := by
        rw [result, hVerdict]
        rfl
      rw [hVerdict, Verdict.edit?, Site.edit?, Site.span,
        WordArray.span_eq]
      by_cases hSame :
          site.symbols =
            Word.span visit.cursor.word.toList
              found.found.start found.found.stop
      · rw [if_pos hSame, hResult, hSame,
          Word.splice_span hBounds.1]
        exact Edit.Leads.done _
      · have hChange :
            Edit.IsChange
              { start := found.found.start
                stop := found.found.stop
                before := visit.cursor.word.toList
                after :=
                  visit.cursor.word.splice found.found.start
                    found.found.stop site.symbols } :=
          { start_le := hBounds.1
            stop_le := hBounds.2
            replaces := ⟨site.symbols, hSame, rfl⟩ }
        rw [if_neg hSame, hResult]
        exact Edit.Leads.change hChange (Edit.Leads.done _)

theorem Rule.Follows.leads
    {rule : Rule}
    {word : Word}
    {earlier : List Rewrite}
    {current : WordArray}
    {visits : List Visit}
    (hFollows : rule.Follows word earlier current visits) :
    Edit.Leads current.toList
      (Sweep.ofVisits visits current.toList).edits
      (Sweep.ofVisits visits current.toList).word := by
  induction hFollows with
  | done _ => exact Edit.Leads.done _
  | step hWord hSite _ ih =>
      exact (Visit.leads hWord hSite).append ih

/- The changes of a scan lead to the word that it leaves. -/
theorem Rule.sweep_leads
    {rule : Rule}
    {options : EngineOptions}
    {word : Word}
    {sweep : Sweep}
    (hSweep : rule.sweep options word = .ok sweep) :
    Edit.Leads word sweep.edits sweep.word := by
  rw [Rule.sweep_eq] at hSweep
  cases hVisits : rule.visits options word with
  | error fault =>
      rw [hVisits] at hSweep
      cases hSweep
  | ok visits =>
      rw [hVisits] at hSweep
      obtain rfl := Except.ok.inj hSweep
      exact (Rule.visits_follow hVisits).leads

------------------------------------------------------------
-- Runs of a rule
------------------------------------------------------------

/- The change that a record tells of. -/
def Record.edit
    (record : Record) : Edit where
  start := record.start
  stop := record.stop
  before := record.before
  after := record.after

/- Diagnostics do not touch the change of a record. -/
@[simp] theorem Record.edit_attach
    (diagnostic : Diagnostic)
    (record : Record) :
    (record.attach diagnostic).edit = record.edit :=
  rfl

@[simp] theorem Record.edit_ofEdit
    (rule : Rule)
    (pass : Nat)
    (edit : Edit) :
    (Record.ofEdit rule pass edit).edit = edit :=
  rfl

namespace RuleOutcome

/- The changes of an outcome, in order. -/
def edits
    (outcome : RuleOutcome) : List Edit :=
  outcome.changes.map Record.edit

@[simp] theorem edits_finish
    (outcome : RuleOutcome)
    (reason : StopReason) :
    (outcome.finish reason).edits = outcome.edits :=
  rfl

@[simp] theorem edits_mark
    (outcome : RuleOutcome)
    (diagnostic : Diagnostic) :
    (outcome.mark diagnostic).edits = outcome.edits := by
  simp [edits, mark]

@[simp] theorem edits_addSweep
    (outcome : RuleOutcome)
    (rule : Rule)
    (sweep : Sweep) :
    (outcome.addSweep rule sweep).edits =
      outcome.edits ++ sweep.edits := by
  simp [edits, addSweep, Function.comp_def]

/-
  A later outcome has the word, the changes and the counts
  of an earlier one. All that may have been added is one
  diagnostic, to the outcome and to each of its records.
-/
structure AddsOnly
    (earlier : RuleOutcome)
    (diagnostic : Diagnostic)
    (later : RuleOutcome) : Prop where
  word_eq : later.word = earlier.word
  passes_eq : later.passes = earlier.passes
  examined_eq : later.examined = earlier.examined
  vetoed_eq : later.vetoed = earlier.vetoed
  skipped_eq : later.skipped = earlier.skipped
  marks :
    (later.changes = earlier.changes ∧
      later.diagnostics = earlier.diagnostics) ∨
    (later.changes =
        earlier.changes.map (Record.attach diagnostic) ∧
      later.diagnostics =
        earlier.diagnostics ++ [diagnostic])

theorem AddsOnly.edits_eq
    {earlier later : RuleOutcome}
    {diagnostic : Diagnostic}
    (hAdds : earlier.AddsOnly diagnostic later) :
    later.edits = earlier.edits := by
  rcases hAdds.marks with ⟨hChanges, _⟩ | ⟨hChanges, _⟩
  · rw [edits, hChanges, edits]
  · simp [edits, hChanges]

end RuleOutcome

namespace Rule

variable {rule : Rule}
variable {options : EngineOptions}
variable {input : Word}

/-
  The probe at the pass bound leaves nothing behind, but it
  decides whether the bound is reported.
-/
theorem endAtBound_addsOnly
    {bound : Int}
    {outcome next : RuleOutcome}
    (hEnd :
      rule.endAtBound options bound outcome = .ok next) :
    outcome.AddsOnly
      (rule.diagnostic (.rulePassBound bound)) next := by
  unfold endAtBound at hEnd
  split at hEnd
  · cases hEnd
  split at hEnd
  · cases hEnd
    exact
      { word_eq := rfl
        passes_eq := rfl
        examined_eq := rfl
        vetoed_eq := rfl
        skipped_eq := rfl
        marks := Or.inr ⟨rfl, rfl⟩ }
  · cases hEnd
    exact
      { word_eq := rfl
        passes_eq := rfl
        examined_eq := rfl
        vetoed_eq := rfl
        skipped_eq := rfl
        marks := Or.inl ⟨rfl, rfl⟩ }

/- One more pass goes on from the word as it is. -/
theorem pass_leads
    {outcome next : RuleOutcome}
    {changed : Bool}
    (hLeads :
      Edit.Leads input outcome.edits outcome.word)
    (hPass : rule.pass options outcome = .ok (next, changed)) :
    Edit.Leads input next.edits next.word := by
  unfold pass at hPass
  split at hPass
  · cases hPass
  · rename_i sweep hSweep
    cases hPass
    rw [RuleOutcome.edits_addSweep]
    exact hLeads.append (sweep_leads hSweep)

/-
  What becomes of a run after its next pass: it has settled,
  it ends in a cycle, it ends at the bound, or it goes on.
-/
theorem runPasses_cases
    {bound : Int}
    {left : Nat}
    {seen : List Form}
    {outcome last : RuleOutcome}
    (hRun :
      rule.runPasses options bound left seen outcome =
        .ok last) :
    ∃ next changed,
      rule.pass options outcome = .ok (next, changed) ∧
        ((changed = false ∧ last = next.finish .stable) ∨
          (changed = true ∧ options.detectCycles = true ∧
            Form.ofWord next.word ∈ seen ∧
            last = rule.endInCycle next) ∨
          (changed = true ∧
            ¬(options.detectCycles = true ∧
              Form.ofWord next.word ∈ seen) ∧
            left = 0 ∧
            rule.endAtBound options bound next = .ok last) ∨
          (changed = true ∧
            ¬(options.detectCycles = true ∧
              Form.ofWord next.word ∈ seen) ∧
            ∃ fewer, left = fewer + 1 ∧
              rule.runPasses options bound fewer
                (Form.ofWord next.word :: seen) next =
                  .ok last)) := by
  unfold runPasses at hRun
  split at hRun
  · cases hRun
  split at hRun
  · cases hRun
  · rename_i next hPass
    cases hRun
    exact ⟨next, false, hPass, Or.inl ⟨rfl, rfl⟩⟩
  · rename_i next hPass
    refine ⟨next, true, hPass, Or.inr ?_⟩
    split at hRun
    · rename_i hCycle
      cases hRun
      exact Or.inl ⟨rfl, hCycle.1, hCycle.2, rfl⟩
    rename_i hNew
    split at hRun
    · exact Or.inr (Or.inl ⟨rfl, hNew, rfl, hRun⟩)
    · exact Or.inr (Or.inr ⟨rfl, hNew, _, rfl, hRun⟩)

theorem runPasses_leads
    {bound : Int}
    {left : Nat}
    {seen : List Form}
    {outcome last : RuleOutcome}
    (hLeads :
      Edit.Leads input outcome.edits outcome.word)
    (hRun :
      rule.runPasses options bound left seen outcome =
        .ok last) :
    Edit.Leads input last.edits last.word := by
  induction left using Nat.strongRecOn
    generalizing seen outcome with
  | _ left ih =>
  rcases runPasses_cases hRun with
    ⟨next, changed, hPass, hEnd⟩
  have hNext := pass_leads hLeads hPass
  rcases hEnd with hStable | hCycle | hBound | hMore
  · rw [hStable.2]
    exact hNext
  · rw [hCycle.2.2.2, endInCycle, RuleOutcome.edits_mark]
    exact hNext
  · have hAdds := endAtBound_addsOnly hBound.2.2.2
    rw [hAdds.word_eq, hAdds.edits_eq]
    exact hNext
  · rcases hMore with ⟨_, _, fewer, hLeft, hMore⟩
    exact ih fewer (by omega) hNext hMore

/- The changes of a rule lead to the word that it leaves. -/
theorem run_leads
    {word : Word}
    {outcome : RuleOutcome}
    (hRun : rule.run options word = .ok outcome) :
    Edit.Leads word outcome.edits outcome.word := by
  have hNothing :
      Edit.Leads word
        (RuleOutcome.edits { word := word }) word :=
    Edit.Leads.done word
  unfold run at hRun
  split at hRun
  · exact runPasses_leads hNothing hRun
  split at hRun
  · cases hRun
  · rename_i hPass
    cases hRun
    exact pass_leads hNothing hPass

end Rule

end Diachrony
