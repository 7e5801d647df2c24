import Diachrony.Proofs.Source.Places

/-
  Texts in parts.

  A text is read from left to right, and a backslash takes
  the character after it along. A part that does not end
  between the two is read the same whatever follows it: it
  leaves a certain depth of brackets, and brackets that are
  balanced behind it are so with it.

  Key definitions include:
    * `depthAfter`
    * `balances`

  Key theorems include:
    * `depthAfter_append`
    * `checkBrackets_eq_ok_iff`
    * `balances_replace`
-/

namespace Diachrony

open Unicode

------------------------------------------------------------
-- Blanks
------------------------------------------------------------

section Blanks

variable {c d : Char}

theorem ne_of_blank
    (hBlank : isBlank c = true)
    (hOther : isBlank d = false) :
    c ≠ d := by
  rintro rfl
  rw [hBlank] at hOther
  cases hOther

/- What holds of a few characters can be tried on each. -/
theorem forall_mem_of_all
    {p : Char → Prop}
    [DecidablePred p]
    {chars : List Char}
    (hAll : chars.all (fun c => decide (p c)) = true) :
    ∀ c ∈ chars, p c :=
  fun c hMem => of_decide_eq_true (List.all_eq_true.mp hAll c hMem)

theorem isOpening_of_blank
    (hBlank : isBlank c = true) :
    isOpening c = false := by
  have hOther : ∀ d ∈ ['[', '(', '{'], isBlank d = false :=
    forall_mem_of_all (by decide)
  have hNe : ∀ d ∈ ['[', '(', '{'], c ≠ d :=
    fun d hMem => ne_of_blank hBlank (hOther d hMem)
  simp only [List.forall_mem_cons] at hNe
  simp [isOpening, hNe]

theorem openingOf?_of_blank
    (hBlank : isBlank c = true) :
    openingOf? c = none := by
  unfold openingOf?
  split
  all_goals first | rfl | (revert hBlank; decide)

theorem bracketDepth_of_blank
    (hBlank : isBlank c = true)
    (depth : Int) :
    bracketDepth depth c = depth := by
  simp [bracketDepth, isOpening_of_blank hBlank,
    openingOf?_of_blank hBlank]

end Blanks

section Trimming

variable {c : Char}
variable {front back text : List Char}

/- What is trimmed stands before and behind all else. -/
theorem trimLeft_around
    (hOther : isBlank c = false) :
    trimLeft (front ++ c :: back) =
      trimLeft front ++ c :: back := by
  rw [trimLeft, List.dropWhile_append]
  split
  · rename_i hFront
    rw [trimLeft, List.isEmpty_iff.mp hFront]
    simp [hOther]
  · rfl

theorem trimRight_around
    (hOther : isBlank c = false) :
    trimRight (front ++ c :: back) =
      front ++ c :: trimRight back := by
  rw [trimRight, List.reverse_append, List.reverse_cons,
    List.append_assoc, List.singleton_append]
  rw [← trimLeft, trimLeft_around hOther, trimRight, ← trimLeft]
  simp

theorem trim_around
    (hOther : isBlank c = false) :
    trim (front ++ c :: back) =
      trimLeft front ++ c :: trimRight back := by
  rw [trim, trimLeft_around hOther, trimRight_around hOther]

/- A blank is trimmed if all that stands beyond it is. -/
theorem trimLeft_concat_blank
    (hBlank : isBlank c = true) :
    trimLeft (text ++ [c]) =
      if trimLeft text = [] then [] else trimLeft text ++ [c] := by
  rw [trimLeft, List.dropWhile_append]
  simp [trimLeft, hBlank, List.isEmpty_iff]

theorem trimRight_cons_blank
    (hBlank : isBlank c = true) :
    trimRight (c :: text) =
      if trimRight text = [] then [] else c :: trimRight text := by
  have hReverse := @trimLeft_concat_blank c text.reverse hBlank
  rw [trimLeft, trimLeft] at hReverse
  rw [trimRight, List.reverse_cons, hReverse, trimRight]
  split
  · rename_i hNone
    rw [hNone]
    rfl
  · rename_i hSome
    rw [if_neg (by simpa using hSome), List.reverse_append]
    rfl

/- What is trimmed is blank. -/
theorem exists_trimLeft
    (text : List Char) :
    ∃ lead,
      (∀ c ∈ lead, isBlank c = true) ∧
        text = lead ++ trimLeft text :=
  ⟨text.takeWhile isBlank, fun _ hMem => List.mem_takeWhile_imp hMem,
    List.takeWhile_append_dropWhile.symm⟩

theorem exists_trimRight
    (text : List Char) :
    ∃ tail,
      (∀ c ∈ tail, isBlank c = true) ∧
        text = trimRight text ++ tail := by
  rcases exists_trimLeft text.reverse with ⟨lead, hLead, hText⟩
  refine ⟨lead.reverse, by simpa using hLead, ?_⟩
  rw [trimRight, ← trimLeft, ← List.reverse_append, ← hText,
    List.reverse_reverse]

/- A part of which something is left ends the trimming. -/
theorem trimLeft_append
    (hSome : trimLeft front ≠ []) :
    trimLeft (front ++ back) = trimLeft front ++ back := by
  rw [trimLeft, List.dropWhile_append, if_neg, ← trimLeft]
  rwa [List.isEmpty_iff]

theorem trimRight_append
    (hSome : trimRight back ≠ []) :
    trimRight (front ++ back) = front ++ trimRight back := by
  have hReverse : trimLeft back.reverse ≠ [] := by
    simpa [trimRight, trimLeft] using hSome
  rw [trimRight, List.reverse_append, ← trimLeft,
    trimLeft_append hReverse, trimRight, ← trimLeft]
  simp

theorem trimRight_append_blanks
    (hBack : ∀ c ∈ back, isBlank c = true) :
    trimRight (front ++ back) = trimRight front := by
  rw [trimRight, List.reverse_append,
    List.dropWhile_append_of_pos (by simpa using hBack),
    trimRight]

/- What is left of a text that ends in another one. -/
theorem trim_concat
    {rest gap : List Char}
    (hFront : trimLeft front ≠ [])
    (hRest : trim rest ≠ [])
    (hGap : rest = gap ++ trimLeft rest) :
    trim (front ++ rest) = trimLeft front ++ (gap ++ trim rest) := by
  have hParts :
      trimLeft front ++ rest =
        (trimLeft front ++ gap) ++ trimLeft rest := by
    rw [List.append_assoc, ← hGap]
  rw [trim, trimLeft_append hFront, hParts,
    trimRight_append hRest, List.append_assoc]
  rfl

theorem trim_concat_blanks
    {rest : List Char}
    (hFront : trimLeft front ≠ [])
    (hRest : ∀ c ∈ rest, isBlank c = true) :
    trim (front ++ rest) = trim front := by
  rw [trim, trimLeft_append hFront, trimRight_append_blanks hRest,
    trim]

/- A text with no blanks is left whole between blanks. -/
theorem trim_solid
    {lead tail : List Char}
    (hText : ∀ c ∈ text, isBlank c = false)
    (hLead : ∀ c ∈ lead, isBlank c = true)
    (hTail : ∀ c ∈ tail, isBlank c = true) :
    trim (lead ++ (text ++ tail)) = text := by
  rw [trim, trimLeft, List.dropWhile_append_of_pos hLead,
    ← trimLeft]
  cases text with
  | nil =>
      rw [List.nil_append, trimLeft,
        List.dropWhile_eq_nil_iff.mpr hTail]
      rfl
  | cons c rest =>
      have hFirst := hText c List.mem_cons_self
      have hLeft :
          trimLeft (c :: rest ++ tail) = c :: rest ++ tail := by
        simp [trimLeft, hFirst]
      have hRight : trimRight (c :: rest) = c :: rest := by
        rw [trimRight, List.dropWhile_eq_self_iff.mpr,
          List.reverse_reverse]
        intro hLength
        rw [Bool.not_eq_true]
        exact hText _ (List.mem_reverse.mp (List.getElem_mem _))
      rw [hLeft, trimRight_append_blanks hTail, hRight]

theorem mem_trim
    (hMem : c ∈ text)
    (hOther : isBlank c = false) :
    c ∈ trim text := by
  rcases List.append_of_mem hMem with ⟨front, back, rfl⟩
  rw [trim_around hOther]
  exact List.mem_append_cons_self

end Trimming

------------------------------------------------------------
-- Depths
------------------------------------------------------------

/-
  The depth of brackets that a text leaves, if there is a
  depth before. A text that ends in a backslash that escapes
  nothing is not closed and leaves none.
-/
def depthAfter
    (depth : Int) : List Char → Option Int
  | [] => some depth
  | c :: rest =>
      if c = '\\' then
        match rest with
        | [] => none
        | _ :: more => depthAfter depth more
      else
        depthAfter (bracketDepth depth c) rest

section Depths

variable {depth middle last : Int}
variable {front rest gap : List Char}
variable {c : Char}

theorem depthAfter_escape :
    depthAfter depth ('\\' :: c :: rest) =
      depthAfter depth rest := by
  rw [depthAfter.eq_def]
  rfl

theorem depthAfter_plain
    (hPlain : c ≠ '\\') :
    depthAfter depth (c :: rest) =
      depthAfter (bracketDepth depth c) rest := by
  rw [depthAfter.eq_def]
  exact if_neg hPlain

/- What follows is read from the depth that is left. -/
theorem depthAfter_append
    (hFront : depthAfter depth front = some middle) :
    depthAfter depth (front ++ rest) =
      depthAfter middle rest := by
  fun_induction depthAfter depth front
  case case1 =>
    cases hFront
    rfl
  case case2 => cases hFront
  case case3 ih =>
    rw [List.cons_append, List.cons_append, depthAfter_escape]
    exact ih hFront
  case case4 hPlain ih =>
    rw [List.cons_append, depthAfter_plain hPlain]
    exact ih hFront

/- Characters that are no brackets leave the depth as it is. -/
theorem depthAfter_level
    (hPlain : ∀ c ∈ gap, c ≠ '\\')
    (hLevel : ∀ c ∈ gap, bracketDepth depth c = depth) :
    depthAfter depth (gap ++ rest) = depthAfter depth rest := by
  induction gap with
  | nil => rfl
  | cons c gap ih =>
      rcases List.forall_mem_cons.mp hPlain with
        ⟨hFirst, hLater⟩
      rcases List.forall_mem_cons.mp hLevel with
        ⟨hHere, hThere⟩
      rw [List.cons_append, depthAfter_plain hFirst, hHere]
      exact ih hLater hThere

theorem depthAfter_blanks
    (hGap : ∀ c ∈ gap, isBlank c = true) :
    depthAfter depth (gap ++ rest) = depthAfter depth rest :=
  depthAfter_level
    (fun c hMem => ne_of_blank (hGap c hMem) (by decide))
    (fun c hMem => bracketDepth_of_blank (hGap c hMem) depth)

theorem depthAfter_trimLeft
    (depth : Int)
    (text : List Char) :
    depthAfter depth (trimLeft text) = depthAfter depth text := by
  have hParts : text.takeWhile isBlank ++ trimLeft text = text :=
    List.takeWhile_append_dropWhile
  conv_rhs => rw [← hParts]
  exact
    (depthAfter_blanks fun _ hMem =>
      List.mem_takeWhile_imp hMem).symm

end Depths

------------------------------------------------------------
-- Balance
------------------------------------------------------------

/-
  Whether the brackets of a text are balanced, `opened`
  being open before it.
-/
def balances
    (opened : List Char) : List Char → Bool
  | [] => opened.isEmpty
  | '\\' :: _ :: rest => balances opened rest
  | c :: rest =>
      if isOpening c then
        balances (c :: opened) rest
      else
        match openingOf? c, opened with
        | none, _ => balances opened rest
        | some opening, bracket :: outer =>
            bracket = opening && balances outer rest
        | some _, [] => false

section Balance

variable {line column : Int}
variable {opened : List (Char × Int)}
variable {brackets : List Char}
variable {text front middle rest gap : List Char}
variable {depth last : Int}
variable {c : Char}

theorem balances_cons
    (hOther : ∀ d more, c = '\\' → rest = d :: more → False) :
    balances brackets (c :: rest) =
      if isOpening c then
        balances (c :: brackets) rest
      else
        match openingOf? c, brackets with
        | none, _ => balances brackets rest
        | some opening, bracket :: outer =>
            bracket = opening && balances outer rest
        | some _, [] => false := by
  rw [balances.eq_def]
  split
  · rename_i hNil
    cases hNil
  · rename_i hCons
    cases hCons
    exact (hOther _ _ rfl rfl).elim
  · rename_i hCons
    cases hCons
    rfl

/- The check looks at nothing but the brackets. -/
theorem checkBrackets_eq_ok_iff :
    checkBrackets line column opened text = .ok () ↔
      balances (opened.map Prod.fst) text = true := by
  fun_induction checkBrackets line column opened text
  case case1 => simp [balances]
  case case2 => simp [balances]
  case case3 ih => exact ih
  case case4 hOther hOpening ih =>
    rw [balances_cons hOther, if_pos hOpening]
    exact ih
  case case5 hOther hOpening hKind ih =>
    rw [balances_cons hOther, if_neg hOpening, hKind]
    exact ih
  case case6 hOther hOpening _ _ _ hKind ih =>
    rw [balances_cons hOther, if_neg hOpening, hKind,
      List.map_cons]
    simpa using ih
  case case7 hOther hOpening _ _ _ _ hKind hBracket =>
    rw [balances_cons hOther, if_neg hOpening, hKind,
      List.map_cons]
    simp [hBracket]
  case case8 hOther hOpening _ hKind =>
    rw [balances_cons hOther, if_neg hOpening, hKind,
      List.map_nil]
    simp

theorem balances_plain
    (hPlain : c ≠ '\\') :
    balances brackets (c :: rest) =
      if isOpening c then
        balances (c :: brackets) rest
      else
        match openingOf? c, brackets with
        | none, _ => balances brackets rest
        | some opening, bracket :: outer =>
            bracket = opening && balances outer rest
        | some _, [] => false :=
  balances_cons fun _ _ hEscape => absurd hEscape hPlain

/-
  Behind a part that is closed, a text can be replaced by
  another one with the same brackets.
-/
theorem balances_replace
    {other : List Char}
    (hFront : depthAfter depth front = some last)
    (hSame : ∀ brackets,
      balances brackets rest = balances brackets other) :
    balances brackets (front ++ rest) =
      balances brackets (front ++ other) := by
  fun_induction depthAfter depth front generalizing brackets
  case case1 => exact hSame brackets
  case case2 => cases hFront
  case case3 ih =>
    exact ih hFront
  case case4 hPlain ih =>
    simp only [List.cons_append, balances_plain hPlain,
      ih hFront]

theorem balances_blank
    (hBlank : isBlank c = true) :
    balances brackets (c :: rest) = balances brackets rest := by
  rw [balances_plain (ne_of_blank hBlank (by decide)),
    isOpening_of_blank hBlank, openingOf?_of_blank hBlank]
  rfl

theorem balances_blanks
    (hGap : ∀ c ∈ gap, isBlank c = true) :
    balances brackets (gap ++ rest) =
      balances brackets rest := by
  induction gap with
  | nil => rfl
  | cons c gap ih =>
      rcases List.forall_mem_cons.mp hGap with
        ⟨hBlank, hRest⟩
      rw [List.cons_append, balances_blank hBlank]
      exact ih hRest

end Balance

end Diachrony
