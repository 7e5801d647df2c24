import Diachrony.Proofs.Source.Operators
import Diachrony.Proofs.Source.Signs
import Diachrony.Proofs.Source.Spellings

/-
  Flags behind targets.

  Whether targets are followed by a gap, as in a deletion,
  or by empty brackets and a gap, the search for flags goes
  on in the same way behind it.

  Key definitions include:
    * `IsTargetText`
    * `IsClauseText`
    * `EndsInGap`

  Key theorems include:
    * `divides_searched_iff`
    * `divides_behind_iff`
    * `EndsInGap.of_deletion`
    * `EndsInGap.of_nothing`
-/

namespace Diachrony

open Unicode

variable {limit : DigitLimit}
variable {front rest targets pause gap bodyText : List Char}
variable {flagText : Option (List Char)}
variable {shift : Nat}

------------------------------------------------------------
-- Targets
------------------------------------------------------------

/-
  A text of targets: no clause and no flags start in it, and
  no sign of a rule stands in front of it.
-/
structure IsTargetText
    (limit : DigitLimit)
    (targets : List Char) : Prop where
  starts : ∃ c ∈ targets.head?, c ≠ '+' ∧ c ≠ '-'
  closed : depthAfter 0 targets = some 0
  unsigned : ∀ c ∈ signCharacters, ¬StandsOutside c targets
  flagless : flagsStart? (isFlagList limit) targets = .ok none

theorem IsTargetText.of_signless
    (hStarts : ∃ c ∈ targets.head?, c ≠ '+' ∧ c ≠ '-')
    (hClosed : depthAfter 0 targets = some 0)
    (hNone : ∀ c ∈ signCharacters, c ∉ targets)
    (hFlags :
      flagsStart? (isFlagList limit) targets = .ok none) :
    IsTargetText limit targets where
  starts := hStarts
  closed := hClosed
  unsigned c hMem hStands := hNone c hMem hStands.mem
  flagless := hFlags

/- Blanks behind targets are none of them. -/
theorem IsTargetText.of_blanks
    {tail : List Char}
    (hTail : ∀ c ∈ tail, isBlank c = true)
    (hSome : targets ≠ [])
    (hClosed : (depthAfter 0 targets).isSome = true)
    (hTargets : IsTargetText limit (targets ++ tail)) :
    IsTargetText limit targets := by
  have hLevel : depthAfter 0 targets = some 0 := by
    rcases Option.isSome_iff_exists.mp hClosed with
      ⟨level, hLevel⟩
    have hWhole := hTargets.closed
    rw [depthAfter_append hLevel, ← List.append_nil tail,
      depthAfter_blanks hTail] at hWhole
    cases hWhole
    exact hLevel
  have hUnsigned : ∀ c ∈ signCharacters,
      ¬StandsOutside c targets :=
    fun c hMem hStands =>
      hTargets.unsigned c hMem (hStands.append tail)
  refine ⟨?_, hLevel, hUnsigned, ?_⟩
  · rcases hTargets.starts with ⟨c, hHead, hSigns⟩
    rw [List.head?_append_of_ne_nil _ hSome] at hHead
    exact ⟨c, hHead, hSigns⟩
  · have hSearch := hTargets.flagless
    rw [flagsStart?, flagsStartFrom_append hLevel] at hSearch
    split at hSearch
    · rename_i hFront
      rw [← hFront, flagsStart?]
      exact
        flagsStartFrom_of_noBang fun front more hText hStands =>
          hUnsigned '!' (by decide) ⟨front, more, hText, hStands⟩
    · rename_i hFound
      exact absurd hSearch hFound

/- No flags start in targets, whatever stands behind them. -/
theorem flagsStartFrom_targets
    {targets : List Char}
    (hBang : ¬StandsOutside '!' targets)
    (hFlags :
      flagsStart? (isFlagList limit) targets = .ok none)
    (rest : List Char) :
    flagsStartFrom
        (fun part => isFlagList limit (part ++ rest)) 0 none []
        targets =
      .ok none := by
  rw [← hFlags, flagsStart?]
  exact
    flagsStartFrom_of_noBang fun front more hText hFront =>
      hBang ⟨front, more, hText, hFront⟩

------------------------------------------------------------
-- Gaps
------------------------------------------------------------

/-
  The search for flags where they may follow a gap.
-/
def flagsBehindGap
    (limit : DigitLimit)
    (rest : List Char) : Except ReadError (Option Nat) :=
  flagsStartFrom (isFlagList limit) 0 (some [']']) [' '] rest

/- Flags that are searched behind a part as behind a gap. -/
def EndsInGap
    (limit : DigitLimit)
    (front rest : List Char) : Prop :=
  ∃ shift,
    front.length = 1 + shift ∧
      flagsStart? (isFlagList limit) (front ++ rest) =
        (flagsBehindGap limit rest).map (Option.map (· + shift))

/-
  How a text is divided if flags are searched behind a part
  of it only, and not in front of its last character.
-/
theorem divides_searched_iff
    {search : Except ReadError (Option Nat)}
    (hLength : front.length = 1 + shift)
    (hInside : ∀ n, search = .ok (some n) → 1 ≤ n)
    (hSearch :
      flagsStart? (isFlagList limit) (front ++ rest) =
        search.map (Option.map (· + shift))) :
    Divides limit (front ++ rest) bodyText flagText ↔
      ∃ middle,
        bodyText = front ++ middle ∧
          rest = middle ++ flagText.getD [] ∧
          search =
            .ok (flagText.map fun _ => 1 + middle.length) := by
  constructor
  · rintro ⟨hText, hStart⟩
    rw [hSearch] at hStart
    cases search with
    | error e => cases hStart
    | ok start =>
        replace hStart :
            start.map (· + shift) =
              flagText.map fun _ => bodyText.length :=
          Except.ok.inj hStart
        cases flagText with
        | none =>
            rw [Option.map_none,
              Option.map_eq_none_iff] at hStart
            rw [Option.getD_none, List.append_nil] at hText
            refine
              ⟨rest, hText.symm, (List.append_nil _).symm, ?_⟩
            rw [hStart]
            rfl
        | some part =>
            rcases Option.map_eq_some_iff.mp hStart with
              ⟨n, rfl, hEnd⟩
            have hFirst := hInside n rfl
            have hBehind : n + shift = bodyText.length := hEnd
            rcases exists_middle hText (by omega) with
              ⟨middle, rfl, hRest⟩
            refine ⟨middle, rfl, hRest, ?_⟩
            rw [List.length_append] at hBehind
            have hStart : n = 1 + middle.length := by omega
            rw [hStart]
            rfl
  · rintro ⟨middle, rfl, rfl, rfl⟩
    refine ⟨(List.append_assoc _ _ _).symm, ?_⟩
    rw [hSearch]
    cases flagText with
    | none => rfl
    | some part =>
        simp [Except.map, hLength]
        omega

/- How a text with such a gap is divided. -/
theorem divides_behind_iff
    (hEnds : EndsInGap limit front rest) :
    Divides limit (front ++ rest) bodyText flagText ↔
      ∃ middle,
        bodyText = front ++ middle ∧
          rest = middle ++ flagText.getD [] ∧
          flagsBehindGap limit rest =
            .ok (flagText.map fun _ => 1 + middle.length) := by
  rcases hEnds with ⟨shift, hLength, hSearch⟩
  exact
    divides_searched_iff hLength
      (fun _ hStart => flagsStartFrom_ge hStart) hSearch

/- Such a gap is any that does not follow an operator. -/
theorem flagsStartFrom_behindGap
    {seen : Option (List Char)}
    {gap passed : List Char}
    (hGap : ∀ c ∈ gap, isBlank c = true)
    (hSome : gap ≠ [])
    (hPrecedes : mayPrecedeFlags (seen.getD passed) = true)
    (hLength : gap.length + passed.length = 1 + shift) :
    flagsStartFrom (isFlagList limit) 0 seen passed
        (gap ++ rest) =
      (flagsBehindGap limit rest).map
        (Option.map (· + shift)) := by
  rcases List.exists_cons_of_ne_nil
      (mt List.reverse_eq_nil_iff.mp hSome) with
    ⟨c, more, hReverse⟩
  have hBlank : isBlank c = true := by
    refine hGap c (List.mem_reverse.mp ?_)
    rw [hReverse]
    exact List.mem_cons_self
  rw [flagsStartFrom_gap hGap hSome]
  refine flagsStartFrom_alike ?_ ?_ ?_
  · rw [Option.map_some, Option.map_some, hPrecedes]
    rfl
  · rw [hReverse]
    exact .of_blank (by decide) hBlank
  · simpa using hLength

/- It does not matter what the gap follows if none start. -/
theorem flagsStartFrom_notStarting
    {seen other : Option (List Char)}
    {passed : List Char}
    {c : Char}
    (hPlain : c ≠ '\\')
    (hBlank : isBlank c = false)
    (hStart :
      mayStartFlags (isFlagList limit) (c :: rest) =
        .ok false) :
    flagsStartFrom (isFlagList limit) 0 seen passed
        (c :: rest) =
      flagsStartFrom (isFlagList limit) 0 other passed
        (c :: rest) := by
  rw [flagsStartFrom_plain hPlain, flagsStartFrom_plain hPlain]
  simp only [hBlank, hStart, Bool.false_eq_true, if_false,
    ite_self]

------------------------------------------------------------
-- Fronts
------------------------------------------------------------

/- The text of a deletion, up to what follows its targets. -/
theorem EndsInGap.of_deletion
    {lead targets gap : List Char}
    (hLead : ∀ c ∈ lead, isBlank c = true)
    (hSome : lead ≠ [])
    (hTargets : depthAfter 0 targets = some 0)
    (hBang : ¬StandsOutside '!' targets)
    (hFlags :
      flagsStart? (isFlagList limit) targets = .ok none)
    (hGap : ∀ c ∈ gap, isBlank c = true)
    (hRest : ∀ c ∈ rest.head?,
      gap ≠ [] ∧ c ≠ '\\' ∧ isBlank c = false)
    (hSeen :
      mayPrecedeFlags
            ((gapAfter 0 none [] (lead ++ targets)).getD
              (lead ++ targets).reverse) = true ∨
        mayStartFlags (isFlagList limit) rest = .ok false) :
    EndsInGap limit (lead ++ targets ++ gap) rest := by
  have hClosed : depthAfter 0 (lead ++ targets) = some 0 := by
    rw [depthAfter_blanks hLead, hTargets]
  have hEscape :
      ([] : List Char).head? = some '\\' ↔
        (lead.reverse ++ []).head? = some '\\' := by
    constructor
    · exact nofun
    · intro hLast
      rw [List.append_nil] at hLast
      have hMem := List.mem_reverse.mp (List.mem_of_head? hLast)
      exact absurd (hLead _ hMem) (by decide)
  have hNone :
      flagsStartFrom
          (fun part => isFlagList limit (part ++ (gap ++ rest)))
          0 none [] (lead ++ targets) =
        .ok none := by
    rw [flagsStartFrom_gap hLead hSome]
    have hLength :
        (lead.reverse ++ []).length =
          ([] : List Char).length + lead.length := by
      simp
    exact
      flagsStartFrom_blocked rfl hEscape hLength
        (flagsStartFrom_targets hBang hFlags _) nofun
  have hLength : 1 ≤ lead.length := List.length_pos_iff.mpr hSome
  refine
    ⟨(lead ++ targets ++ gap).length - 1, by simp; omega, ?_⟩
  rw [flagsStart?, List.append_assoc (lead ++ targets),
    flagsStartFrom_append hClosed, hNone]
  dsimp only
  rw [List.append_nil]
  cases rest with
  | nil =>
      rw [List.append_nil]
      exact flagsStartFrom_blanks hGap
  | cons c more =>
      rcases hRest c rfl with ⟨hSomeGap, hPlain, hBlank⟩
      have hShift :
          gap.length + (lead ++ targets).reverse.length =
            1 + ((lead ++ targets ++ gap).length - 1) := by
        simp
        omega
      rcases hSeen with hPrecedes | hStart
      · exact
          flagsStartFrom_behindGap hGap hSomeGap hPrecedes hShift
      · rw [flagsStartFrom_gap hGap hSomeGap,
          @flagsStartFrom_notStarting _ _ _ (some [']']) _ _
            hPlain hBlank hStart]
        have hAgain :=
          @flagsStartFrom_behindGap limit (c :: more) _
            (some [']']) gap _ hGap hSomeGap rfl hShift
        rwa [flagsStartFrom_gap hGap hSomeGap] at hAgain

/- Brackets with nothing in between end a gap. -/
theorem flagsStartFrom_nothing
    {seen : Option (List Char)}
    {passed : List Char} :
    flagsStartFrom (isFlagList limit) 0 seen passed
        ('[' :: ']' :: rest) =
      flagsStartFrom (isFlagList limit) 0 none
        (']' :: '[' :: passed) rest := by
  have hOpening : isBlank '[' = false := by decide
  have hClosing : isBlank ']' = false := by decide
  have hInside : bracketDepth 0 '[' = 1 := rfl
  have hOutside : bracketDepth 1 ']' = 0 := rfl
  rw [flagsStartFrom_plain (by decide)]
  simp only [hOpening, hInside, Bool.false_eq_true, if_false,
    Int.one_ne_zero, decide_false, Bool.and_false]
  rw [flagsStartFrom_plain (by decide)]
  simp only [hClosing, hOutside, Bool.false_eq_true, if_false,
    Option.any_none, Bool.false_and]

/- The text of a substitution by nothing, up to its conditions. -/
theorem EndsInGap.of_nothing
    {targets pause gap : List Char}
    (hTargets : depthAfter 0 targets = some 0)
    (hBang : ¬StandsOutside '!' targets)
    (hFlags :
      flagsStart? (isFlagList limit) targets = .ok none)
    (hPause : ∀ c ∈ pause, isBlank c = true)
    (hGap : ∀ c ∈ gap, isBlank c = true)
    (hRest : ∀ c ∈ rest.head?, gap ≠ []) :
    EndsInGap limit
      (targets ++ (pause ++ '>' :: ' ' :: '[' :: ']' :: gap))
      rest := by
  refine
    ⟨gap.length + targets.length + pause.length + 3,
      by simp; omega, ?_⟩
  rw [flagsStart?, List.append_assoc, flagsStartFrom_append hTargets,
    flagsStartFrom_targets hBang hFlags]
  dsimp only
  rw [List.append_assoc]
  simp only [List.cons_append]
  rw [flagsStartFrom_gap_operator hPause (by decide),
    flagsStartFrom_blank (by decide), flagsStartFrom_nothing]
  cases rest with
  | nil =>
      simp only [List.append_nil]
      exact flagsStartFrom_blanks hGap
  | cons c more =>
      refine
        flagsStartFrom_behindGap hGap (hRest c rfl) rfl ?_
      simp
      omega

------------------------------------------------------------
-- Clauses
------------------------------------------------------------

section Clauses

variable {middle : List Char}
variable {c : Char}

/- A character that flags behind a gap may start with. -/
structure BeginsFlags
    (c : Char) : Prop where
  unsigned : isOperator c = false
  nonblank : isBlank c = false
  unescaped : c ≠ '\\'
  level : bracketDepth 0 c = 0

/- A text of clauses and flags, without another predicate. -/
structure IsClauseText
    (rest : List Char) : Prop where
  arrowless : ¬StandsOutside '>' rest
  starts : ∀ c ∈ rest.head?, c = '/' ∨ c = '!' ∨ BeginsFlags c

theorem IsClauseText.nil :
    IsClauseText [] where
  arrowless := fun hStands => List.not_mem_nil hStands.mem
  starts := nofun

theorem IsClauseText.head
    {c : Char}
    (hRest : IsClauseText rest)
    (hHead : c ∈ rest.head?) :
    c ≠ '\\' ∧ isBlank c = false := by
  rcases hRest.starts c hHead with rfl | rfl | hFlags
  · decide
  · decide
  · exact ⟨hFlags.unescaped, hFlags.nonblank⟩

/- Flags that stand directly behind a gap start there. -/
theorem flagsBehindGap_cons
    {c : Char}
    (hFlags : BeginsFlags c) :
    flagsBehindGap limit (c :: rest) = .ok (some 1) := by
  have hSign : c ≠ '!' := by
    rintro rfl
    exact absurd hFlags.unsigned (by decide)
  have hPrecedes : mayPrecedeFlags [']'] = true := rfl
  rw [flagsBehindGap, flagsStartFrom_plain hFlags.unescaped]
  simp only [hFlags.level, hFlags.nonblank, hFlags.unsigned,
    mayStartFlags, if_neg hSign, Option.any_some, hPrecedes]
  rfl

/- So what is in front of the flags starts with a clause. -/
theorem IsClauseText.middle_head
    (hRest : IsClauseText rest)
    (hText : rest = middle ++ flagText.getD [])
    (hStart :
      flagsBehindGap limit rest =
        .ok (flagText.map fun _ => 1 + middle.length)) :
    ∀ c ∈ middle.head?, c = '/' ∨ c = '!' := by
  intro c hHead
  rcases List.head?_eq_some_iff.mp hHead with ⟨more, rfl⟩
  have hFirst : c ∈ rest.head? := by
    rw [hText]
    rfl
  rcases hRest.starts c hFirst with hSlash | hBang | hFlags
  · exact .inl hSlash
  · exact .inr hBang
  · rw [hText, List.cons_append, flagsBehindGap_cons hFlags] at hStart
    cases flagText with
    | none => cases hStart
    | some part => simp at hStart

end Clauses

end Diachrony
