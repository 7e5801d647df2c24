import Diachrony.Proofs.Source.Operators

/-
  What stands before flags.

  Flags are meant to start behind a gap: behind blanks
  outside brackets that no operator stands before. Where the
  search finds them to start, they do stand outside brackets
  and between two escapes, at a character that is neither a
  blank nor an operator, unless it opens a flag list. Behind
  an escape there need not be a gap, however, as the search
  does not end a gap at an escape. And an operator before
  the gap is taken for an escaped one if an escaped backslash
  stands before it.

  Key definitions include:
    * `EndsIn`
    * `EndsInEscape`
    * `HidesOperator`
    * `FollowsGap`
    * `StartsFlags`

  Key theorems include:
    * `exists_of_flagsStartFrom`
    * `followsGap_of_gapAfter`
    * `flagsStart?_followsGap`
-/

namespace Diachrony

open Unicode

variable {depth : Int}
variable {gap : Option (List Char)}
variable {passed text front rest : List Char}
variable {kind : Char → Bool}
variable {c : Char}

------------------------------------------------------------
-- Ends of texts
------------------------------------------------------------

/-
  A text ends in a character of a kind that no backslash
  escapes.
-/
def EndsIn
    (kind : Char → Bool)
    (text : List Char) : Prop :=
  ∃ front c,
    text = front ++ [c] ∧
      kind c = true ∧ (depthAfter 0 front).isSome = true

/- A text ends in a backslash and the character it escapes. -/
def EndsInEscape
    (text : List Char) : Prop :=
  ∃ front c,
    text = front ++ ['\\', c] ∧
      (depthAfter 0 front).isSome = true

/-
  An operator stands at the end of a text, up to blanks, and
  directly behind an escaped backslash.
-/
def HidesOperator
    (text : List Char) : Prop :=
  ∃ front op gap,
    text = front ++ '\\' :: '\\' :: op :: gap ∧
      (depthAfter 0 front).isSome = true ∧
      isOperator op = true ∧
      ∀ c ∈ gap, isBlank c = true

/-
  A text ends in a run of blanks outside brackets. Something
  stands before the run, and it is neither one more blank
  nor an operator, unless it is escaped.
-/
def FollowsGap
    (text : List Char) : Prop :=
  ∃ front gap,
    text = front ++ gap ∧
      gap ≠ [] ∧ (∀ c ∈ gap, isBlank c = true) ∧
      depthAfter 0 front = some 0 ∧
      front ≠ [] ∧
      ¬EndsIn isBlank front ∧
      ¬EndsIn isOperator front

/-
  A text begins with a character that is neither a blank nor
  an operator, or it is a flag list that begins with an
  exclamation mark.
-/
def StartsFlags
    {ε : Type}
    (isFlagList : List Char → Except ε Bool)
    (text : List Char) : Prop :=
  ∃ c rest,
    text = c :: rest ∧
      isBlank c = false ∧
      (isOperator c = false ∨
        c = '!' ∧ isFlagList text = .ok true)

/- A backslash behind a closed text escapes what follows. -/
theorem depthAfter_concat_escape
    (hClosed : (depthAfter depth front).isSome = true) :
    depthAfter depth (front ++ ['\\']) = none := by
  rcases Option.isSome_iff_exists.mp hClosed with ⟨last, hLast⟩
  rw [depthAfter_append hLast]
  rfl

theorem closed_plain
    (hClosed : (depthAfter depth front).isSome = true)
    (hPlain : c ≠ '\\') :
    (depthAfter depth (front ++ [c])).isSome = true := by
  rcases Option.isSome_iff_exists.mp hClosed with ⟨last, hLast⟩
  rw [depthAfter_append hLast, depthAfter_plain hPlain]
  rfl

theorem closed_blanks
    {blanks : List Char}
    (hClosed : (depthAfter depth front).isSome = true)
    (hBlanks : ∀ c ∈ blanks, isBlank c = true) :
    (depthAfter depth (front ++ blanks)).isSome = true := by
  rcases Option.isSome_iff_exists.mp hClosed with ⟨last, hLast⟩
  rw [depthAfter_append hLast, ← List.append_nil blanks,
    depthAfter_blanks hBlanks]
  rfl

/- If it does not, it is escaped itself. -/
theorem exists_of_closed_escape
    (hClosed :
      (depthAfter depth (front ++ ['\\'])).isSome = true) :
    ∃ before,
      front = before ++ ['\\'] ∧
        (depthAfter depth before).isSome = true := by
  fun_induction depthAfter depth front
  case case1 => cases hClosed
  case case2 => exact ⟨[], rfl, rfl⟩
  case case3 d c more ih =>
    rcases ih hClosed with ⟨before, rfl, hBefore⟩
    refine ⟨'\\' :: c :: before, rfl, ?_⟩
    rw [depthAfter_escape]
    exact hBefore
  case case4 d c more hPlain ih =>
    rw [List.cons_append, depthAfter_plain hPlain] at hClosed
    rcases ih hClosed with ⟨before, rfl, hBefore⟩
    refine ⟨c :: before, rfl, ?_⟩
    rw [depthAfter_plain hPlain]
    exact hBefore

/- The last character of an escape is escaped. -/
theorem not_endsIn_of_escape
    (hClosed : (depthAfter 0 front).isSome = true) :
    ¬EndsIn kind (front ++ ['\\', c]) := by
  rintro ⟨before, d, hText, _, hBefore⟩
  have hParts : front ++ ['\\', c] = (front ++ ['\\']) ++ [c] := by
    rw [List.append_assoc]
    rfl
  rw [hParts] at hText
  rw [← (List.append_inj' hText rfl).1,
    depthAfter_concat_escape hClosed] at hBefore
  cases hBefore

------------------------------------------------------------
-- Escapes and blanks
------------------------------------------------------------

/- Escapes and blanks leave the depth as it is. -/
theorem depthAfter_of_isEscapes
    (hEscapes : isEscapes text = true) :
    depthAfter depth text = some depth := by
  fun_induction isEscapes text
  case case1 => rfl
  case case2 ih =>
    rw [depthAfter_escape]
    exact ih hEscapes
  case case3 ih =>
    rw [Bool.and_eq_true] at hEscapes
    rw [depthAfter_plain (ne_of_blank hEscapes.1 (by decide)),
      bracketDepth_of_blank hEscapes.1]
    exact ih hEscapes.2

/- Blanks stand at the end of them, behind the last escape. -/
theorem exists_gap_of_isEscapes
    (hEscapes : isEscapes text = true) :
    ∃ front gap,
      text = front ++ gap ∧
        (∀ c ∈ gap, isBlank c = true) ∧
        (front = [] ∨
          ∃ before c,
            front = before ++ ['\\', c] ∧
              isEscapes before = true) := by
  fun_induction isEscapes text
  case case1 => exact ⟨[], [], rfl, by simp, .inl rfl⟩
  case case2 c more ih =>
    rcases ih hEscapes with ⟨front, gap, rfl, hGap, hFront⟩
    refine ⟨'\\' :: c :: front, gap, rfl, hGap, .inr ?_⟩
    rcases hFront with rfl | ⟨before, d, rfl, hBefore⟩
    · exact ⟨[], c, rfl, rfl⟩
    · exact ⟨'\\' :: c :: before, d, rfl, hBefore⟩
  case case3 c more hOther ih =>
    rw [Bool.and_eq_true] at hEscapes
    rcases ih hEscapes.2 with ⟨front, gap, rfl, hGap, hFront⟩
    rcases hFront with rfl | ⟨before, d, rfl, hBefore⟩
    · refine ⟨[], c :: gap, rfl, ?_, .inl rfl⟩
      exact List.forall_mem_cons.mpr ⟨hEscapes.1, hGap⟩
    · refine
        ⟨c :: (before ++ ['\\', d]), gap, rfl, hGap,
          .inr ⟨c :: before, d, rfl, ?_⟩⟩
      rw [isEscapes_plain (ne_of_blank hEscapes.1 (by decide)),
        hEscapes.1, hBefore]
      rfl

------------------------------------------------------------
-- The gap before flags
------------------------------------------------------------

/- There is a gap behind a blank outside brackets. -/
theorem gapAfter_concat_blank
    (hFront : depthAfter depth front = some 0)
    (hBlank : isBlank c = true) :
    gapAfter depth gap passed (front ++ [c]) ≠ none := by
  rw [gapAfter_append hFront,
    gapAfter_plain (ne_of_blank hBlank (by decide)),
    if_pos hBlank, bracketDepth_of_blank hBlank]
  cases gapAfter depth gap passed front <;>
    exact Option.some_ne_none _

/- Without a gap behind it, a text does not end in a blank. -/
theorem not_endsIn_blank
    (hFront : depthAfter 0 front = some 0)
    (hNone : gapAfter 0 none [] front = none) :
    ¬EndsIn isBlank front := by
  rintro ⟨before, c, rfl, hBlank, hClosed⟩
  rcases Option.isSome_iff_exists.mp hClosed with ⟨last, hLast⟩
  have hDepth : last = 0 := by
    rw [depthAfter_append hLast,
      depthAfter_plain (ne_of_blank hBlank (by decide)),
      bracketDepth_of_blank hBlank] at hFront
    exact Option.some.inj hFront
  rw [hDepth] at hLast
  exact gapAfter_concat_blank hLast hBlank hNone

theorem ne_nil_of_mayPrecedeFlags
    (hPrecedes : mayPrecedeFlags front.reverse = true) :
    front ≠ [] := by
  rintro rfl
  cases hPrecedes

/-
  An operator before a gap that flags may follow stands
  behind an escaped backslash.
-/
theorem exists_of_endsIn_operator
    (hPrecedes : mayPrecedeFlags front.reverse = true)
    (hEnds : EndsIn isOperator front) :
    ∃ before op,
      front = before ++ ['\\', '\\', op] ∧
        (depthAfter 0 before).isSome = true ∧
        isOperator op = true := by
  rcases hEnds with ⟨near, op, rfl, hOp, hClosed⟩
  rw [List.reverse_append, List.reverse_singleton,
    List.singleton_append, mayPrecedeFlags_cons, hOp,
    Bool.not_true, Bool.or_false, decide_eq_true_eq,
    List.head?_reverse] at hPrecedes
  rcases List.getLast?_eq_some_iff.mp hPrecedes with
    ⟨more, rfl⟩
  rcases exists_of_closed_escape hClosed with
    ⟨before, rfl, hBefore⟩
  refine ⟨before, op, ?_, hBefore, hOp⟩
  simp

/-
  Behind a gap that flags may follow, and the escapes after
  it, a text ends in an escape, hides an operator, or
  follows a gap.
-/
theorem followsGap_of_gapAfter
    (hClosed : (depthAfter 0 text).isSome = true)
    (hGap :
      (gapAfter 0 none [] text).any mayPrecedeFlags = true) :
    depthAfter 0 text = some 0 ∧
      (¬EndsInEscape text → ¬HidesOperator text →
        FollowsGap text) := by
  rcases (Option.any_eq_true _ _).mp hGap with
    ⟨seen, hSome, hSeen⟩
  rcases gapAfter_cases hSome hClosed with
    ⟨hOld, _⟩ |
      ⟨front, c, escapes, rfl, hBlank, hEscapes, hFront, hNone,
        rfl⟩
  · cases hOld
  rw [List.append_nil] at hSeen
  have hBehind : isEscapes (c :: escapes) = true := by
    rw [isEscapes_plain (ne_of_blank hBlank (by decide)),
      hBlank, hEscapes]
    rfl
  have hDepth : depthAfter 0 (front ++ c :: escapes) = some 0 := by
    rw [depthAfter_append hFront, depthAfter_of_isEscapes hBehind]
  refine ⟨hDepth, fun hNoEscape hNoOperator => ?_⟩
  rcases exists_gap_of_isEscapes hBehind with
    ⟨near, gap, hNear, hBlanks, rfl | ⟨before, d, rfl, hBefore⟩⟩
  · -- No escape stands behind the gap that has been seen.
    rw [List.nil_append] at hNear
    rw [hNear] at hNoOperator ⊢
    refine
      ⟨front, gap, rfl, ?_, hBlanks, hFront,
        ne_nil_of_mayPrecedeFlags hSeen,
        not_endsIn_blank hFront hNone, ?_⟩
    · rw [← hNear]
      exact List.cons_ne_nil c escapes
    · intro hEnds
      rcases exists_of_endsIn_operator hSeen hEnds with
        ⟨before, op, rfl, hBefore, hOp⟩
      refine
        hNoOperator ⟨before, op, gap, ?_, hBefore, hOp, hBlanks⟩
      simp
  · -- The last escape stands before the gap that is followed.
    have hHalfway : depthAfter 0 (front ++ before) = some 0 := by
      rw [depthAfter_append hFront, depthAfter_of_isEscapes hBefore]
    have hHere : (depthAfter 0 (front ++ before)).isSome = true := by
      rw [hHalfway]
      rfl
    have hText :
        front ++ c :: escapes =
          (front ++ before) ++ ['\\', d] ++ gap := by
      rw [hNear]
      simp
    rw [hText] at hNoEscape ⊢
    refine
      ⟨(front ++ before) ++ ['\\', d], gap, rfl, ?_, hBlanks, ?_,
        by simp, not_endsIn_of_escape hHere,
        not_endsIn_of_escape hHere⟩
    · rintro rfl
      rw [List.append_nil] at hNoEscape
      exact hNoEscape ⟨front ++ before, d, rfl, hHere⟩
    · rw [depthAfter_append hHalfway]
      rfl

/- Directly behind an escape there is no gap. -/
theorem EndsInEscape.not_followsGap
    (hEscape : EndsInEscape text) :
    ¬FollowsGap text := by
  rintro ⟨front, gap, hText, hSome, hBlanks, hFront, -⟩
  rcases hEscape with ⟨before, c, rfl, hClosed⟩
  have hNear : (depthAfter 0 (front ++ gap.dropLast)).isSome = true :=
    closed_blanks (by rw [hFront]; rfl)
      fun c hMem => hBlanks c (List.dropLast_subset gap hMem)
  have hParts : before ++ ['\\', c] = (before ++ ['\\']) ++ [c] := by
    rw [List.append_assoc]
    rfl
  -- The blanks before the last one would end in a backslash.
  rw [← List.dropLast_append_getLast hSome, ← List.append_assoc,
    hParts] at hText
  rw [← (List.append_inj' hText rfl).1,
    depthAfter_concat_escape hClosed] at hNear
  cases hNear

/- An operator that is not escaped stands before the gap. -/
theorem HidesOperator.not_followsGap
    (hOperator : HidesOperator text) :
    ¬FollowsGap text := by
  rintro ⟨front, gap, hText, -, hBlanks, -, -, hNoBlank,
    hNoOperator⟩
  rcases hOperator with
    ⟨before, op, blanks, rfl, hClosed, hOp, hRest⟩
  have hOther : isBlank op = false := by
    rw [← Bool.not_eq_true]
    intro hBlank
    rw [isOperator_of_blank hBlank] at hOp
    cases hOp
  have hEscape :
      (depthAfter 0 (before ++ ['\\', '\\'])).isSome = true := by
    rcases Option.isSome_iff_exists.mp hClosed with ⟨last, hLast⟩
    rw [depthAfter_append hLast]
    rfl
  have hPlain : op ≠ '\\' := by
    rintro rfl
    cases hOp
  have hParts :
      before ++ '\\' :: '\\' :: op :: blanks =
        ((before ++ ['\\', '\\']) ++ [op]) ++ blanks := by
    simp
  rw [hParts] at hText
  -- The gap begins behind the operator, or further behind.
  rcases List.append_eq_append_iff.mp hText with
    ⟨more, rfl, rfl⟩ | ⟨more, hMore, rfl⟩
  · rcases List.eq_nil_or_concat more with
      rfl | ⟨near, last, rfl⟩
    · rw [List.append_nil] at hNoOperator
      exact hNoOperator ⟨_, op, rfl, hOp, hEscape⟩
    · have hBlank : ∀ c ∈ near ++ [last], isBlank c = true := by
        intro c hMem
        rw [← List.concat_eq_append] at hMem
        exact hRest c (List.mem_append_left gap hMem)
      rcases List.forall_mem_append.mp hBlank with ⟨hNear, hLast⟩
      rw [List.concat_eq_append, ← List.append_assoc] at hNoBlank
      exact hNoBlank
        ⟨_, last, rfl, hLast last (List.mem_singleton_self _),
          closed_blanks (closed_plain hEscape hPlain) hNear⟩
  · rcases List.eq_nil_or_concat more with
      rfl | ⟨near, last, rfl⟩
    · rw [List.append_nil] at hMore
      rw [← hMore] at hNoOperator
      exact hNoOperator ⟨_, op, rfl, hOp, hEscape⟩
    · rw [List.concat_eq_append, ← List.append_assoc] at hMore
      have hLast : op = last :=
        List.cons.inj (List.append_inj' hMore rfl).2 |>.1
      have hBlank : isBlank last = true :=
        hBlanks last (by simp)
      rw [← hLast, hOther] at hBlank
      cases hBlank

------------------------------------------------------------
-- Where flags start
------------------------------------------------------------

section Search

variable {ε : Type}
variable {isFlagList : List Char → Except ε Bool}
variable {i : Nat}

/- Flags start with a character that may start them. -/
theorem startsFlags_of_mayStartFlags
    (hOther : isBlank c = false)
    (hStart : mayStartFlags isFlagList (c :: rest) = .ok true) :
    StartsFlags isFlagList (c :: rest) := by
  refine ⟨c, rest, rfl, hOther, ?_⟩
  by_cases hSign : c = '!'
  · simp only [mayStartFlags, if_pos hSign] at hStart
    exact .inr ⟨hSign, hStart⟩
  · simp only [mayStartFlags, if_neg hSign] at hStart
    have hPlain := Except.ok.inj hStart
    rw [Bool.not_eq_true'] at hPlain
    exact .inl hPlain

/-
  Where flags are found to start, the text before is closed,
  and the gap that has been seen last may precede flags.
-/
theorem exists_of_flagsStartFrom
    (hStart :
      flagsStartFrom isFlagList depth gap passed text =
        .ok (some i)) :
    ∃ front rest,
      text = front ++ rest ∧
        passed.length + front.length = i ∧
        (depthAfter depth front).isSome = true ∧
        (gapAfter depth gap passed front).any mayPrecedeFlags =
          true ∧
        StartsFlags isFlagList rest := by
  fun_induction depthAfter depth text generalizing gap passed
  case case1 => cases hStart
  case case2 => cases hStart
  case case3 depth c more ih =>
    rcases ih hStart with
      ⟨front, rest, rfl, hLength, hClosed, hGap, hFlags⟩
    refine
      ⟨'\\' :: c :: front, rest, rfl, ?_, ?_, hGap, hFlags⟩
    · simp only [List.length_cons] at hLength ⊢
      omega
    · rw [depthAfter_escape]
      exact hClosed
  case case4 depth c more hPlain ih =>
    -- The search goes on unless flags start right here.
    have hLater : ∀ {next : Option (List Char)},
        flagsStartFrom isFlagList (bracketDepth depth c) next
            (c :: passed) more =
          .ok (some i) →
        gapAfter depth gap passed [c] = next →
        ∃ front rest,
          c :: more = front ++ rest ∧
            passed.length + front.length = i ∧
            (depthAfter depth front).isSome = true ∧
            (gapAfter depth gap passed front).any
                mayPrecedeFlags =
              true ∧
            StartsFlags isFlagList rest := by
      intro next hNext hHere
      rcases ih hNext with
        ⟨front, rest, rfl, hLength, hClosed, hGap, hFlags⟩
      rw [gapAfter_plain hPlain] at hHere
      refine ⟨c :: front, rest, rfl, ?_, ?_, ?_, hFlags⟩
      · simp only [List.length_cons] at hLength ⊢
        omega
      · rw [depthAfter_plain hPlain]
        exact hClosed
      · rw [gapAfter_plain hPlain]
        rw [gapAfter] at hHere
        rw [hHere]
        exact hGap
    rw [flagsStartFrom_plain hPlain] at hStart
    dsimp only at hStart
    have hSeen :
        gapAfter depth gap passed [c] =
          if isBlank c then
            if gap.isNone && bracketDepth depth c = 0 then
              some passed
            else
              gap
          else
            none := by
      rw [gapAfter_plain hPlain, gapAfter]
    split at hStart
    · rename_i hBlank
      rw [if_pos hBlank] at hSeen
      exact hLater hStart hSeen
    rename_i hOther
    rw [if_neg hOther] at hSeen
    split at hStart
    · rename_i hHere
      rw [Bool.and_eq_true] at hHere
      split at hStart
      · cases hStart
      · rename_i hMay
        cases hStart
        exact
          ⟨[], c :: more, rfl, rfl, rfl, hHere.1,
            startsFlags_of_mayStartFlags
              (Bool.eq_false_iff.mpr hOther) hMay⟩
      · exact hLater hStart hSeen
    · exact hLater hStart hSeen

/-
  Where flags are found to start, whatever counts as a flag
  list, they stand outside brackets and behind no half of an
  escape, and they begin as flags do. They follow a gap,
  unless an escape stands directly before them, or an
  escaped backslash before the operator in front of them.
-/
theorem flagsStart?_followsGap
    (hStart : flagsStart? isFlagList text = .ok (some i)) :
    ∃ front rest,
      text = front ++ rest ∧
        front.length = i ∧
        depthAfter 0 front = some 0 ∧
        StartsFlags isFlagList rest ∧
        (FollowsGap front ↔
          ¬EndsInEscape front ∧ ¬HidesOperator front) := by
  rcases exists_of_flagsStartFrom hStart with
    ⟨front, rest, rfl, hLength, hClosed, hGap, hFlags⟩
  rcases followsGap_of_gapAfter hClosed hGap with
    ⟨hDepth, hFollows⟩
  rw [List.length_nil, Nat.zero_add] at hLength
  refine ⟨front, rest, rfl, hLength, hDepth, hFlags, ?_⟩
  constructor
  · intro hGapped
    exact
      ⟨fun hEscape => hEscape.not_followsGap hGapped,
        fun hOperator => hOperator.not_followsGap hGapped⟩
  · rintro ⟨hNoEscape, hNoOperator⟩
    exact hFollows hNoEscape hNoOperator

end Search

/- A sign that begins a flag list follows a gap. -/
theorem ditto_followsGap :
    flagsStart? (isFlagList .standard)
        "a, c > b !ditto".toList =
      .ok (some 9) ∧
      depthAfter 0 "a, c > b ".toList = some 0 ∧
      StartsFlags (isFlagList .standard) "!ditto".toList ∧
      FollowsGap "a, c > b ".toList := by
  have hStart :
      flagsStart? (isFlagList .standard)
          "a, c > b !ditto".toList =
        .ok (some 9) := by
    decide +kernel
  rcases flagsStart?_followsGap hStart with
    ⟨front, rest, hText, hLength, hDepth, hFlags, hFollows⟩
  have hParts :
      "a, c > b ".toList ++ "!ditto".toList = front ++ rest := by
    rw [← hText]
    rfl
  rcases List.append_inj hParts (by rw [hLength]; rfl) with
    ⟨rfl, rfl⟩
  have hPlain : '\\' ∉ "a, c > b ".toList := by decide
  refine ⟨hStart, hDepth, hFlags, hFollows.mpr ⟨?_, ?_⟩⟩
  · rintro ⟨before, c, hEnd, _⟩
    exact hPlain (by rw [hEnd]; simp)
  · rintro ⟨before, op, gap, hEnd, _⟩
    exact hPlain (by rw [hEnd]; simp)

/-
  An escaped backslash hides the arrow behind it, and the
  targets are taken to be the whole rule.
-/
theorem arrow_hidden :
    flagsStart? (isFlagList .standard) "a\\\\> b".toList =
      .ok (some 5) ∧
      ¬FollowsGap "a\\\\> ".toList := by
  refine ⟨by decide +kernel, HidesOperator.not_followsGap ?_⟩
  exact
    ⟨['a'], '>', [' '], by decide, by decide, by decide,
      List.forall_mem_singleton.mpr (by decide)⟩

end Diachrony
