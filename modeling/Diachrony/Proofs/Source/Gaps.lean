import Diachrony.Proofs.Source.Parts

/-
  Where flags start.

  The search for flags keeps the last gap it has seen and
  the text before it. Texts can be searched part by part. Of
  what has been passed, only the end counts. A gap that
  follows an operator lasts over the escapes behind it, and
  no flags start behind them.

  Key definitions include:
    * `isEscapes`
    * `gapAfter`
    * `EndsAlike`

  Key theorems include:
    * `flagsStartFrom_append`
    * `flagsStartFrom_alike`
    * `flagsStartFrom_blocked`
-/

namespace Diachrony

open Unicode

------------------------------------------------------------
-- Ends
------------------------------------------------------------

section Ends

variable {passed before : List Char}

theorem mayPrecedeFlags_cons
    (c : Char)
    (passed : List Char) :
    mayPrecedeFlags (c :: passed) =
      (decide (passed.head? = some '\\') || !isOperator c) := by
  cases passed with
  | nil => simp [mayPrecedeFlags]
  | cons previous more => simp [mayPrecedeFlags]

/-
  Texts, given last character first, that count as the same
  for gaps behind them.
-/
structure EndsAlike
    (passed before : List Char) : Prop where
  precede_eq : mayPrecedeFlags passed = mayPrecedeFlags before
  escape_iff :
    passed.head? = some '\\' ↔ before.head? = some '\\'

/- They do if no backslash is in the way. -/
theorem EndsAlike.of_escape_iff
    {c : Char}
    (hEscape :
      passed.head? = some '\\' ↔ before.head? = some '\\') :
    EndsAlike (c :: passed) (c :: before) where
  precede_eq := by
    simp only [mayPrecedeFlags_cons, hEscape]
  escape_iff := Iff.rfl

theorem EndsAlike.cons
    (hAlike : EndsAlike passed before)
    (c : Char) :
    EndsAlike (c :: passed) (c :: before) :=
  .of_escape_iff hAlike.escape_iff

end Ends

------------------------------------------------------------
-- Steps
------------------------------------------------------------

/- A text of blanks and escapes. -/
def isEscapes : List Char → Bool
  | [] => true
  | '\\' :: _ :: rest => isEscapes rest
  | c :: rest => isBlank c && isEscapes rest

/- The text before the gap that has been seen last. -/
def gapAfter
    (depth : Int)
    (gap : Option (List Char))
    (passed : List Char) :
    List Char → Option (List Char)
  | [] => gap
  | '\\' :: c :: rest =>
      gapAfter depth gap (c :: '\\' :: passed) rest
  | c :: rest =>
      let here := bracketDepth depth c
      let next :=
        if isBlank c then
          if gap.isNone && here = 0 then some passed else gap
        else
          none
      gapAfter here next (c :: passed) rest

variable {ε : Type}
variable {isFlagList other : List Char → Except ε Bool}
variable {depth : Int}
variable {gap : Option (List Char)}
variable {passed text front rest : List Char}
variable {c : Char}

theorem flagsStartFrom_plain
    (hPlain : c ≠ '\\') :
    flagsStartFrom isFlagList depth gap passed (c :: rest) =
      (let here := bracketDepth depth c
      if isBlank c then
        let gap :=
          if gap.isNone && here = 0 then some passed else gap
        flagsStartFrom isFlagList here gap (c :: passed) rest
      else if gap.any mayPrecedeFlags && here = 0 then
        match mayStartFlags isFlagList (c :: rest) with
        | .error e => .error e
        | .ok true => .ok (some passed.length)
        | .ok false =>
            flagsStartFrom isFlagList here none (c :: passed)
              rest
      else
        flagsStartFrom isFlagList here none (c :: passed)
          rest) := by
  rw [flagsStartFrom.eq_def]
  split
  · rename_i hNil
    cases hNil
  · rename_i hCons
    cases hCons
    exact absurd rfl hPlain
  · rename_i hCons
    cases hCons
    exact absurd rfl hPlain
  · rename_i hCons
    cases hCons
    rfl

theorem gapAfter_plain
    (hPlain : c ≠ '\\') :
    gapAfter depth gap passed (c :: rest) =
      gapAfter (bracketDepth depth c)
        (if isBlank c then
          if gap.isNone && bracketDepth depth c = 0 then
            some passed
          else
            gap
        else
          none)
        (c :: passed) rest := by
  rw [gapAfter.eq_def]
  split
  · rename_i hNil
    cases hNil
  · rename_i hCons
    cases hCons
    exact absurd rfl hPlain
  · rename_i hCons
    cases hCons
    rfl

theorem isEscapes_plain
    (hPlain : c ≠ '\\') :
    isEscapes (c :: rest) = (isBlank c && isEscapes rest) := by
  rw [isEscapes.eq_def]
  split
  · rename_i hNil
    cases hNil
  · rename_i hCons
    cases hCons
    exact absurd rfl hPlain
  · rename_i hCons
    cases hCons
    rfl

/- What follows a gap in a part is part of a longer text. -/
theorem mayStartFlags_append :
    mayStartFlags isFlagList (c :: (text ++ rest)) =
      mayStartFlags (fun part => isFlagList (part ++ rest))
        (c :: text) :=
  rfl

/- Flags start behind what has been passed. -/
theorem flagsStartFrom_ge
    {i : Nat}
    (hStart :
      flagsStartFrom isFlagList depth gap passed text =
        .ok (some i)) :
    passed.length ≤ i := by
  fun_induction flagsStartFrom isFlagList depth gap passed text
  case case6 =>
    cases hStart
    exact Nat.le_refl _
  case case1 | case3 | case5 => cases hStart
  all_goals
    rename_i ih
    have hLater := ih hStart
    simp only [List.length_cons] at hLater
    omega

/- A text can be searched in parts. -/
theorem flagsStartFrom_append
    {last : Int}
    (hFront : depthAfter depth front = some last) :
    flagsStartFrom isFlagList depth gap passed (front ++ rest) =
      match
        flagsStartFrom (fun part => isFlagList (part ++ rest))
          depth gap passed front
      with
      | .ok none =>
          flagsStartFrom isFlagList last
            (gapAfter depth gap passed front)
            (front.reverse ++ passed) rest
      | found => found := by
  fun_induction depthAfter depth front
      generalizing gap passed
  case case1 =>
    cases hFront
    rfl
  case case2 => cases hFront
  case case3 ih =>
    rw [List.reverse_cons, List.reverse_cons, List.append_assoc,
      List.append_assoc]
    exact ih hFront
  case case4 c _ hPlain ih =>
    rw [List.cons_append, flagsStartFrom_plain hPlain,
      flagsStartFrom_plain hPlain, gapAfter_plain hPlain,
      List.reverse_cons, List.append_assoc, mayStartFlags_append]
    dsimp only
    by_cases hBlank : isBlank c = true
    · simp only [if_pos hBlank]
      exact ih hFront
    · simp only [if_neg hBlank]
      split
      · rcases mayStartFlags _ _ with _ | _ | _
        · rfl
        · exact ih hFront
        · rfl
      · exact ih hFront

/- No flags start, if no other texts are flag lists. -/
theorem flagsStartFrom_none_mono
    (hLists : ∀ part,
      isFlagList part = .ok false → other part = .ok false)
    (hNone :
      flagsStartFrom isFlagList depth gap passed text =
        .ok none) :
    flagsStartFrom other depth gap passed text = .ok none := by
  fun_induction depthAfter depth text generalizing gap passed
  case case1 => rfl
  case case2 => rfl
  case case3 ih => exact ih hNone
  case case4 c more hPlain ih =>
    rw [flagsStartFrom_plain hPlain] at hNone ⊢
    dsimp only at hNone ⊢
    have hStart :
        mayStartFlags isFlagList (c :: more) = .ok false →
          mayStartFlags other (c :: more) = .ok false := by
      unfold mayStartFlags
      split
      · exact id
      · split
        · exact hLists _
        · exact id
    split at hNone
    · rename_i hBlank
      rw [if_pos hBlank]
      exact ih hNone
    rename_i hBlank
    rw [if_neg hBlank]
    split at hNone
    · rename_i hGap
      rw [if_pos hGap]
      split at hNone
      · cases hNone
      · cases hNone
      · rename_i hFalse
        rw [hStart hFalse]
        exact ih hNone
    · rename_i hGap
      rw [if_neg hGap]
      exact ih hNone

/-
  Without exclamation marks outside brackets it does not
  matter which texts are flag lists.
-/
theorem flagsStartFrom_of_noBang
    (hBang : ∀ front more,
      text = front ++ '!' :: more →
        depthAfter depth front ≠ some 0) :
    flagsStartFrom isFlagList depth gap passed text =
      flagsStartFrom other depth gap passed text := by
  fun_induction depthAfter depth text generalizing gap passed
  case case1 => rfl
  case case2 => rfl
  case case3 c more ih =>
    refine ih fun front behind hMore => ?_
    have hHere := hBang ('\\' :: c :: front) behind
    rw [depthAfter_escape] at hHere
    exact hHere (by rw [hMore]; rfl)
  case case4 depth c more hPlain ih =>
    have hMore : ∀ front behind,
        more = front ++ '!' :: behind →
          depthAfter (bracketDepth depth c) front ≠ some 0 := by
      intro front behind hMore
      rw [← depthAfter_plain hPlain]
      exact hBang (c :: front) behind (by rw [hMore]; rfl)
    rw [flagsStartFrom_plain hPlain,
      flagsStartFrom_plain hPlain]
    dsimp only
    by_cases hBlank : isBlank c = true
    · simp only [if_pos hBlank]
      exact ih hMore
    simp only [if_neg hBlank]
    split
    · rename_i hGap
      have hStart :
          mayStartFlags isFlagList (c :: more) =
            mayStartFlags other (c :: more) := by
        by_cases hSign : c = '!'
        · have hHere : depth ≠ 0 := fun hDepth =>
            hBang [] more (by rw [hSign]; rfl) (by rw [hDepth]; rfl)
          rw [hSign] at hGap
          simp only [Bool.and_eq_true, decide_eq_true_eq] at hGap
          exact absurd hGap.2 hHere
        · simp only [mayStartFlags, if_neg hSign]
      rw [hStart]
      rcases mayStartFlags _ _ with _ | _ | _
      · rfl
      · exact ih hMore
      · rfl
    · exact ih hMore

------------------------------------------------------------
-- Gaps
------------------------------------------------------------

theorem isEscapes_append
    (hFront : isEscapes front = true)
    (hRest : isEscapes rest = true) :
    isEscapes (front ++ rest) = true := by
  fun_induction isEscapes front
  case case1 => exact hRest
  case case2 ih => exact ih hFront
  case case3 c more hOther ih =>
    rw [Bool.and_eq_true] at hFront
    rw [List.cons_append,
      isEscapes_plain (ne_of_blank hFront.1 (by decide)),
      hFront.1, ih hFront.2]
    rfl

theorem gapAfter_append
    {last : Int}
    (hFront : depthAfter depth front = some last) :
    gapAfter depth gap passed (front ++ rest) =
      gapAfter last (gapAfter depth gap passed front)
        (front.reverse ++ passed) rest := by
  fun_induction depthAfter depth front
      generalizing gap passed
  case case1 =>
    cases hFront
    rfl
  case case2 => cases hFront
  case case3 ih =>
    rw [List.reverse_cons, List.reverse_cons, List.append_assoc,
      List.append_assoc]
    exact ih hFront
  case case4 c _ hPlain ih =>
    rw [List.cons_append, gapAfter_plain hPlain,
      gapAfter_plain hPlain, List.reverse_cons,
      List.append_assoc]
    exact ih hFront

/-
  A gap that is left is an old one with only escapes behind
  it, or one outside brackets in the text, before which
  there was none, with only escapes behind it.
-/
theorem gapAfter_cases
    {seen : List Char}
    (hGap : gapAfter depth gap passed text = some seen)
    (hClosed : (depthAfter depth text).isSome = true) :
    (gap = some seen ∧ isEscapes text = true) ∨
      ∃ front c escapes,
        text = front ++ c :: escapes ∧
          isBlank c = true ∧ isEscapes escapes = true ∧
          depthAfter depth front = some 0 ∧
          gapAfter depth gap passed front = none ∧
          seen = front.reverse ++ passed := by
  fun_induction depthAfter depth text generalizing gap passed
  case case1 => exact .inl ⟨hGap, rfl⟩
  case case2 => cases hClosed
  case case3 c more ih =>
    rcases ih hGap hClosed with
      ⟨hOld, hEscapes⟩ |
        ⟨front, d, escapes, rfl, hBlank, hEscapes, hDepth, hNone,
          rfl⟩
    · exact .inl ⟨hOld, hEscapes⟩
    · refine
        .inr
          ⟨'\\' :: c :: front, d, escapes, rfl, hBlank, hEscapes,
            ?_, hNone, ?_⟩
      · rw [depthAfter_escape]
        exact hDepth
      · simp
  case case4 depth c more hPlain ih =>
    rw [gapAfter_plain hPlain] at hGap
    rcases ih hGap hClosed with
      ⟨hOld, hEscapes⟩ |
        ⟨front, d, escapes, rfl, hBlank, hEscapes, hDepth, hNone,
          rfl⟩
    · split at hOld
      · rename_i hBlank
        split at hOld
        · rename_i hFirst
          cases hOld
          rw [bracketDepth_of_blank hBlank, Bool.and_eq_true,
            Option.isNone_iff_eq_none, decide_eq_true_eq] at hFirst
          exact
            .inr
              ⟨[], c, more, rfl, hBlank, hEscapes,
                congrArg some hFirst.2, hFirst.1, rfl⟩
        · refine .inl ⟨hOld, ?_⟩
          rw [isEscapes_plain hPlain, hBlank, hEscapes]
          rfl
      · cases hOld
    · refine
        .inr
          ⟨c :: front, d, escapes, rfl, hBlank, hEscapes, ?_, ?_,
            ?_⟩
      · rw [depthAfter_plain hPlain]
        exact hDepth
      · rw [gapAfter_plain hPlain]
        exact hNone
      · simp

------------------------------------------------------------
-- Two searches
------------------------------------------------------------

variable {last before : List Char}
variable {lastGap : Option (List Char)}
variable {start : Option Nat}
variable {shift : Nat}

/- Of what has been passed, only the end counts. -/
theorem flagsStartFrom_alike
    (hGap :
      gap.map mayPrecedeFlags = lastGap.map mayPrecedeFlags)
    (hPassed : EndsAlike passed before)
    (hLength : before.length = passed.length + shift) :
    flagsStartFrom isFlagList depth lastGap before text =
      (flagsStartFrom isFlagList depth gap passed text).map
        (Option.map (· + shift)) := by
  fun_induction depthAfter depth text
      generalizing gap lastGap passed before
  case case1 => rfl
  case case2 => rfl
  case case3 c more ih =>
    exact ih hGap ((hPassed.cons _).cons _) (by simp [hLength]; omega)
  case case4 c more hPlain ih =>
    rw [flagsStartFrom_plain hPlain,
      flagsStartFrom_plain hPlain]
    dsimp only
    have hAny :
        lastGap.any mayPrecedeFlags = gap.any mayPrecedeFlags := by
      cases gap <;> cases lastGap <;> simp_all
    have hNone : lastGap.isNone = gap.isNone := by
      cases gap <;> cases lastGap <;> simp_all
    have hLater :
        (c :: before).length = (c :: passed).length + shift := by
      simp [hLength]; omega
    rw [hAny, hNone]
    split
    · refine ih ?_ (hPassed.cons _) hLater
      split
      · simp [hPassed.precede_eq]
      · exact hGap
    · split
      · rcases mayStartFlags _ _ with _ | _ | _
        · rfl
        · exact ih rfl (hPassed.cons _) hLater
        · simp [Except.map, hLength]
      · exact ih rfl (hPassed.cons _) hLater

/-
  A gap behind an operator lasts over escapes, and hides the
  gaps among them. It makes no difference if no flags start
  behind them.
-/
theorem flagsStartFrom_blocked
    (hBlocked : mayPrecedeFlags last = false)
    (hEscape :
      passed.head? = some '\\' ↔ before.head? = some '\\')
    (hLength : before.length = passed.length + shift)
    (hRead :
      flagsStartFrom isFlagList depth gap passed text =
        .ok start)
    (hFlags : ∀ escapes rest,
      text = escapes ++ rest →
        isEscapes escapes = true →
          start ≠ some (passed.length + escapes.length)) :
    flagsStartFrom isFlagList depth (some last) before text =
      .ok (start.map (· + shift)) := by
  fun_induction depthAfter depth text
      generalizing gap passed before
  case case1 =>
    cases hRead
    rfl
  case case2 =>
    cases hRead
    rfl
  case case3 c more ih =>
    have hLater :
        (c :: '\\' :: before).length =
          (c :: '\\' :: passed).length + shift := by
      simp [hLength]
      omega
    have hAlike :
        EndsAlike (c :: '\\' :: passed) (c :: '\\' :: before) :=
      (EndsAlike.of_escape_iff hEscape).cons c
    refine ih hAlike.escape_iff hLater hRead
      fun escapes rest hMore hEscapes => ?_
    have hStart :=
      hFlags ('\\' :: c :: escapes) rest (by rw [hMore]; rfl)
        hEscapes
    simp only [List.length_cons] at hStart ⊢
    convert hStart using 2
    omega
  case case4 depth c more hPlain ih =>
    have hLater :
        (c :: before).length =
          (c :: passed).length + shift := by
      simp [hLength]
      omega
    have hAlike : EndsAlike (c :: passed) (c :: before) :=
      .of_escape_iff hEscape
    rw [flagsStartFrom_plain hPlain] at hRead ⊢
    dsimp only at hRead ⊢
    by_cases hBlank : isBlank c = true
    · rw [if_pos hBlank] at hRead ⊢
      refine ih hAlike.escape_iff hLater hRead
        fun escapes rest hMore hEscapes => ?_
      have hStart :=
        hFlags (c :: escapes) rest (by rw [hMore]; rfl)
          (by rw [isEscapes_plain hPlain, hBlank, hEscapes]; rfl)
      simp only [List.length_cons] at hStart ⊢
      convert hStart using 2
      omega
    -- Here both gaps end, unless flags start for the first.
    have hHere := hFlags [] (c :: more) rfl rfl
    rw [if_neg hBlank] at hRead ⊢
    simp only [Option.any_some, hBlocked, Bool.false_and,
      Bool.false_eq_true, if_false]
    have hNext :
        flagsStartFrom isFlagList (bracketDepth depth c) none
            (c :: passed) more = .ok start := by
      split at hRead
      · split at hRead
        · cases hRead
        · cases hRead
          exact absurd rfl hHere
        · exact hRead
      · exact hRead
    rw [flagsStartFrom_alike rfl hAlike hLater, hNext]
    rfl

end Diachrony
