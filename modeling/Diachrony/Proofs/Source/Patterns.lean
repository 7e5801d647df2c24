import Diachrony.Proofs.Source.Brackets

/-
  Patterns are read exactly as the grammar says.

  While a pattern is read some groups may be open. What has
  been read so far is then units, an opening parenthesis,
  more units, and so on. Every element that is read adds a
  unit to the innermost group, and braces repeat the last
  unit of it.

  So a pattern is read if and only if the tokens before its
  stop are units, the elements are what these stand for, and
  nothing else is passed over. Otherwise the source is
  malformed, or a number in it has too many digits.

  Key definitions include:
    * `UnitsOpen`

  Key theorems include:
    * `readUnits_sound`
    * `Derives.reads`
    * `readUnits_faults`
    * `readPattern_exact`
-/

namespace Diachrony

open Unicode

variable {context : ReadContext}
variable {tokens rest : List Token}

------------------------------------------------------------
-- Repetitions
------------------------------------------------------------

section Repetitions

variable {min : Int}
variable {max : Option Int}
variable {last element : Element}
variable {opening : Token}

theorem readBounds_sound
    (hRead :
      readBounds context tokens = .ok ((min, max), rest)) :
    ∃ token,
      tokens = token :: rest ∧
        DerivesBounds context token min max := by
  unfold readBounds at hRead
  split at hRead
  · exact absurd hRead ReadContext.failAt_ne_ok
  rename_i token _
  split at hRead
  · rename_i hDigits
    split at hRead
    · cases hRead
    rename_i n hNumber
    have hSpells :=
      (ReadContext.number_eq_ok_iff hDigits.1).mp hNumber
    split at hRead
    · cases hRead
    · rename_i hPositive
      cases hRead
      exact
        ⟨token, rfl, .number hSpells (Nat.le_of_not_lt hPositive)⟩
  split at hRead
  · rename_i hKind
    cases hRead
    rcases hKind with hStar | hDouble
    · exact ⟨token, rfl, .star hStar⟩
    · exact ⟨token, rfl, .doubleStar hDouble⟩
  split at hRead
  · rename_i hPlus
    cases hRead
    exact ⟨token, rfl, .plus hPlus⟩
  · cases hRead

theorem DerivesBounds.reads
    {token : Token}
    (hBounds : DerivesBounds context token min max)
    (rest : List Token) :
    readBounds context (token :: rest) =
      .ok ((min, max), rest) := by
  cases hBounds with
  | number hNumber hPositive =>
      have hValue :=
        (context.number_eq_ok_iff hNumber.kind_eq).mpr hNumber
      simp only [readBounds, hNumber.kind_eq, hNumber.isDigits,
        and_self, if_true, hValue,
        if_neg (Nat.not_lt.mpr hPositive)]
  | star hKind => simp [readBounds, hKind]
  | doubleStar hKind => simp [readBounds, hKind]
  | plus hKind => simp [readBounds, hKind]

/- What is read after an opening brace quantifies with it. -/
theorem readRepeat_sound
    (hOpening : opening.kind = .leftBrace)
    (hRead :
      readRepeat context last tokens = .ok (element, rest)) :
    ∃ used wrap,
      tokens = used ++ rest ∧
        DerivesQuantifier context (opening :: used) wrap ∧
        element = wrap last := by
  unfold readRepeat at hRead
  split at hRead
  · cases hRead
  rename_i bounds afterBounds hBounds
  dsimp only at hRead
  split at hRead
  · cases hRead
  rename_i hEnd
  cases hRead
  rcases readBounds_sound hBounds with ⟨token, rfl, hToken⟩
  rcases readLazy_sound afterBounds with ⟨mark, hAfter, hMark⟩
  rcases expectToken_eq_ok_iff.mp hEnd with
    ⟨closing, hClosing, hRest⟩
  rw [hRest] at hAfter
  refine
    ⟨token :: (mark ++ [closing]), _, ?_,
      .braces hOpening hToken hMark hClosing, rfl⟩
  rw [hAfter, List.cons_append, List.append_assoc,
    List.singleton_append]

/- A quantifier is read as a repetition of the last element. -/
theorem DerivesQuantifier.reads
    {quantifier : List Token}
    {wrap : Element → Element}
    (hQuantifier : DerivesQuantifier context quantifier wrap) :
    ∃ opening inside,
      quantifier = opening :: inside ∧
        opening.kind = .leftBrace ∧
        ∀ last rest,
          readRepeat context last (inside ++ rest) =
            .ok (wrap last, rest) := by
  cases hQuantifier with
  | @braces opening bounds closing mark _ _ isLazy hOpening
      hBounds hMark hClosing =>
      refine
        ⟨opening, bounds :: (mark ++ [closing]), rfl, hOpening,
          fun last rest => ?_⟩
      have hLazy :
          readLazy (mark ++ closing :: rest) =
            (isLazy, closing :: rest) := by
        apply hMark.reads
        rintro token ⟨⟩
        rw [hClosing]
        nofun
      rw [List.cons_append, List.append_assoc,
        List.singleton_append, readRepeat, hBounds.reads]
      dsimp only
      rw [hLazy]
      dsimp only
      rw [expectToken, skipToken?_cons hClosing]

theorem readBounds_faults
    {all : List Token}
    {e : ReadError}
    (hOpening : opening.kind = .leftBrace)
    (hTokens : opening :: tokens <:+: all)
    (hRead : readBounds context tokens = .error e) :
    context.Faults all e := by
  unfold readBounds at hRead
  split at hRead
  · exact .of_failAt (List.nil_subset all) ⟨rfl, rfl⟩ hRead
  rename_i token _
  have hMem : token ∈ all := hTokens.subset (by simp)
  split at hRead
  · rename_i hDigits
    split at hRead
    · rename_i hNumber
      cases hRead
      exact
        .of_number hTokens (Or.inl hOpening) hDigits hNumber
    split at hRead
    · exact .of_failOn hMem ⟨rfl, rfl⟩ hRead
    · cases hRead
  split at hRead
  · cases hRead
  split at hRead
  · cases hRead
  · exact .of_failOn hMem ⟨rfl, rfl⟩ hRead

/- Braces are refused for want of a count, or for their end. -/
theorem readRepeat_faults
    {all : List Token}
    {e : ReadError}
    (hOpening : opening.kind = .leftBrace)
    (hTokens : opening :: tokens <:+: all)
    (hRead : readRepeat context last tokens = .error e) :
    context.Faults all e := by
  unfold readRepeat at hRead
  split at hRead
  · rename_i hBounds
    cases hRead
    exact readBounds_faults hOpening hTokens hBounds
  rename_i afterBounds hBounds
  dsimp only at hRead
  split at hRead
  · rename_i hEnd
    cases hRead
    rcases readBounds_sound hBounds with ⟨token, rfl, _⟩
    rcases readLazy_sound afterBounds with ⟨mark, hAfter, _⟩
    have hRest : (readLazy afterBounds).2 <:+ afterBounds :=
      ⟨mark, hAfter.symm⟩
    have hTail :
        (readLazy afterBounds).2 <:+
          opening :: token :: afterBounds :=
      hRest.trans (List.suffix_append [opening, token] _)
    exact
      .of_expectToken (hTail.isInfix.trans hTokens).subset
        ⟨rfl, rfl⟩ hEnd
  · cases hRead

end Repetitions

------------------------------------------------------------
-- Open groups
------------------------------------------------------------

/-
  Tokens of a pattern in which some groups are open: units,
  and after each opening parenthesis more units.
-/
inductive UnitsOpen
    (context : ReadContext) :
    List OpenGroup → List Token → Pattern → Prop
  | outside
      {tokens : List Token}
      {pattern : Pattern}
      (hUnits : Derives context .units tokens pattern) :
      UnitsOpen context [] tokens pattern
  | inside
      {group : OpenGroup}
      {groups : List OpenGroup}
      {before tokens : List Token}
      {pattern : Pattern}
      (hBefore : UnitsOpen context groups before group.before)
      (hOpening : group.opening.kind = .leftParen)
      (hUnits : Derives context .units tokens pattern) :
      UnitsOpen context (group :: groups)
        (before ++ group.opening :: tokens) pattern

namespace UnitsOpen

variable {group : OpenGroup}
variable {groups : List OpenGroup}
variable {read : List Token}
variable {pattern : Pattern}

/- Whatever can be done after units can be done in a group. -/
theorem extend
    {more : List Token}
    {longer : Pattern}
    (hOpen : UnitsOpen context groups read pattern)
    (hStep : ∀ units,
      Derives context .units units pattern →
        Derives context .units (units ++ more) longer) :
    UnitsOpen context groups (read ++ more) longer := by
  cases hOpen with
  | outside hUnits => exact .outside (hStep _ hUnits)
  | inside hBefore hOpening hUnits =>
      rw [List.append_assoc]
      exact .inside hBefore hOpening (hStep _ hUnits)

/- An atom becomes the last unit. -/
theorem add
    {more : List Token}
    {elements : Pattern}
    (hOpen : UnitsOpen context groups read pattern)
    (hAtom : Derives context .atom more elements) :
    UnitsOpen context groups (read ++ more)
      (pattern ++ elements) :=
  hOpen.extend fun _ hUnits => hUnits.concat (.plain hAtom)

/- A parenthesis opens a group. -/
theorem push
    {opening : Token}
    (hOpen : UnitsOpen context groups read pattern)
    (hOpening : opening.kind = .leftParen) :
    UnitsOpen context
      ({ opening := opening, before := pattern } :: groups)
      (read ++ [opening]) [] :=
  .inside hOpen hOpening .none

/- The innermost group becomes the last unit of the next one. -/
theorem pop
    {closing : Token}
    {mark : List Token}
    {isLazy : Bool}
    (hOpen : UnitsOpen context (group :: groups) read pattern)
    (hSome : pattern ≠ [])
    (hClosing : closing.kind = .rightParen)
    (hMark : DerivesMark mark isLazy) :
    UnitsOpen context groups (read ++ closing :: mark)
      (group.before ++ [.optional pattern isLazy]) := by
  cases hOpen with
  | inside hBefore hOpening hUnits =>
      have hGroup :=
        Derives.group hOpening hUnits
          (mt hUnits.eq_nil_iff.mpr hSome) hClosing hMark
      rw [List.append_assoc, List.cons_append]
      exact hBefore.add hGroup

/- With no groups open there are only units. -/
theorem units
    (hOpen : UnitsOpen context [] read pattern) :
    Derives context .units read pattern := by
  cases hOpen with
  | outside hUnits => exact hUnits

end UnitsOpen

------------------------------------------------------------
-- What is read is derived
------------------------------------------------------------

section Units

variable {stops : List TokenKind}
variable {groups : List OpenGroup}
variable {pattern : Pattern}
variable {diagnostics : List Diagnostic}

theorem TokenKind.derivesSign_of_element?
    {kind : TokenKind}
    {element : Element}
    (hElement : kind.element? = some element) :
    DerivesSign kind element := by
  unfold TokenKind.element? at hElement
  split at hElement
  · cases hElement
    exact .edge
  · cases hElement
    exact .target
  · cases hElement
    exact .reversed
  · cases hElement
    exact .ditto
  · cases hElement

theorem DerivesSign.element?_eq
    {kind : TokenKind}
    {element : Element}
    (hSign : DerivesSign kind element) :
    kind.element? = some element := by
  cases hSign <;> rfl

theorem readLazy_sound_cons
    (token : Token)
    (rest : List Token) :
    ∃ mark,
      token :: rest = token :: mark ++ (readLazy rest).2 ∧
        DerivesMark mark (readLazy rest).1 := by
  rcases readLazy_sound rest with ⟨mark, hRest, hMark⟩
  refine ⟨mark, ?_, hMark⟩
  rw [List.cons_append, ← hRest]

theorem readLazy_suffix
    (token : Token)
    (rest : List Token) :
    (readLazy rest).2 <:+ token :: rest := by
  rcases readLazy_sound_cons token rest with ⟨mark, hTokens, _⟩
  exact ⟨token :: mark, hTokens.symm⟩

/-
  Elements that are read are derived from the tokens that
  they are read from, those of open groups included.
-/
theorem readUnits_sound
    {read : List Token}
    {result : Parsed Pattern}
    (hOpen : UnitsOpen context groups read pattern)
    (hTexts : TextsNonempty tokens)
    (hRead :
      readUnits context stops groups pattern diagnostics
        tokens = .ok result) :
    ∃ used,
      tokens = used ++ result.rest ∧
        Derives context .units (read ++ used) result.value := by
  fun_induction readUnits context stops groups pattern
      diagnostics tokens generalizing read
  case case1 =>
    -- the tokens end
    cases hRead
    refine ⟨[], rfl, ?_⟩
    rw [List.append_nil]
    exact hOpen.units
  case case3 =>
    -- a stop
    rename_i groups _ _ _ _ hStop
    cases hRead
    refine ⟨[], rfl, ?_⟩
    obtain rfl := List.isEmpty_iff.mp hStop.1
    rw [List.append_nil]
    exact hOpen.units
  case case5 =>
    -- a parenthesis closes the innermost group
    rename_i token rest _ _ hClosing hSome _ _ ih
    rcases readLazy_sound_cons token rest with
      ⟨mark, hTokens, hMark⟩
    have hNext :=
      hOpen.pop (by simpa using hSome) hClosing hMark
    exact exists_used_append (token :: mark) hTokens
      (ih hNext (hTexts.of_suffix ⟨_, hTokens.symm⟩) hRead)
  case case6 =>
    -- a parenthesis opens a group
    rename_i token _ _ hOpening ih
    exact exists_used_append [token] rfl
      (ih (hOpen.push hOpening)
        (hTexts.of_suffix (List.suffix_cons _ _)) hRead)
  case case9 =>
    -- braces extend the unit before them
    rename_i token rest _ hOpening last hLast _ _ hRepeat _ ih
    rcases readRepeat_sound hOpening hRepeat with
      ⟨used, wrap, rfl, hQuantifier, rfl⟩
    have hNext := hOpen.extend fun _ hUnits =>
      hUnits.quantifyLast hLast hQuantifier
    exact exists_used_append (token :: used) rfl
      (ih hNext (hTexts.of_suffix ⟨token :: used, rfl⟩) hRead)
  case case11 =>
    -- a category
    rename_i token rest _ hOpening _ hCategory _ ih
    have hLater := hTexts.of_suffix (List.suffix_cons _ _)
    rcases readCategory_sound hOpening hLater hCategory with
      ⟨used, rfl, hAtom⟩
    exact exists_used_append (token :: used) rfl
      (ih (hOpen.add hAtom)
        (hTexts.of_suffix ⟨token :: used, rfl⟩) hRead)
  case case12 =>
    -- a text
    rename_i token _ _ hKind ih
    have hText := hTexts token List.mem_cons_self
    exact exists_used_append [token] rfl
      (ih (hOpen.add (.text hKind hText))
        (hTexts.of_suffix (List.suffix_cons _ _)) hRead)
  case case13 =>
    -- an escape
    rename_i token _ _ hKind ih
    exact exists_used_append [token] rfl
      (ih (hOpen.add (.escape hKind))
        (hTexts.of_suffix (List.suffix_cons _ _)) hRead)
  case case14 =>
    -- a wildcard
    rename_i token rest _ hStar _ ih
    rcases readLazy_sound_cons token rest with
      ⟨mark, hTokens, hMark⟩
    exact exists_used_append (token :: mark) hTokens
      (ih (hOpen.add (.wildcard hStar hMark))
        (hTexts.of_suffix ⟨_, hTokens.symm⟩) hRead)
  case case15 =>
    -- a gap
    rename_i token rest _ hStar _ ih
    rcases readLazy_sound_cons token rest with
      ⟨mark, hTokens, hMark⟩
    exact exists_used_append (token :: mark) hTokens
      (ih (hOpen.add (.gap hStar hMark))
        (hTexts.of_suffix ⟨_, hTokens.symm⟩) hRead)
  case case16 =>
    -- a token that is an element by itself
    rename_i hElement _ ih
    have hSign := TokenKind.derivesSign_of_element? hElement
    exact exists_used_append [_] rfl
      (ih (hOpen.add (.sign hSign))
        (hTexts.of_suffix (List.suffix_cons _ _)) hRead)
  case case2 => exact absurd hRead ReadContext.failAt_ne_ok
  all_goals cases hRead

/- Reading goes on up to a stop, or to the end. -/
theorem readUnits_stops
    {result : Parsed Pattern}
    (hRead :
      readUnits context stops groups pattern diagnostics
        tokens = .ok result) :
    ∀ token ∈ result.rest.head?, token.kind ∈ stops := by
  fun_induction readUnits context stops groups pattern
      diagnostics tokens
  case case1 =>
    cases hRead
    intro token hMem
    cases hMem
  case case3 =>
    rename_i hStop
    cases hRead
    rintro other ⟨⟩
    exact hStop.2
  case case2 => exact absurd hRead ReadContext.failAt_ne_ok
  case case4 | case7 | case8 | case10 | case17 => cases hRead
  all_goals
    rename_i ih
    exact ih hRead

/-
  If no pattern is read then some token is to blame, one
  that opened a group included.
-/
theorem readUnits_faults
    {all : List Token}
    {e : ReadError}
    (hGroups : ∀ group ∈ groups, group.opening ∈ all)
    (hTokens : tokens <:+ all)
    (hTexts : TextsNonempty all)
    (hRead :
      readUnits context stops groups pattern diagnostics
        tokens = .error e) :
    context.Faults all e := by
  fun_induction readUnits context stops groups pattern
      diagnostics tokens
  case case1 | case3 => cases hRead
  case case2 =>
    exact .of_failAt (List.nil_subset all) ⟨rfl, rfl⟩ hRead
  case case4 =>
    -- the group is empty
    have hOpening := hGroups _ List.mem_cons_self
    exact .of_failOn hOpening ⟨rfl, rfl⟩ hRead
  case case7 =>
    have hMem := hTokens.subset List.mem_cons_self
    exact .of_failOn hMem ⟨rfl, rfl⟩ hRead
  case case17 =>
    have hMem := hTokens.subset List.mem_cons_self
    refine .of_unexpected hMem ⟨?_, rfl⟩ hRead
    rintro named ⟨⟩
    rfl
  case case8 =>
    rename_i hOpening _ _ _ hRepeat
    cases hRead
    exact readRepeat_faults hOpening hTokens.isInfix hRepeat
  case case10 =>
    rename_i hOpening _ hCategory
    cases hRead
    have hLater := (List.suffix_cons _ _).trans hTokens
    exact
      readCategory_faults hOpening hLater.isInfix
        (hTexts.of_suffix hLater) hCategory
  case case5 =>
    rename_i ih
    exact
      ih (List.forall_mem_cons.mp hGroups).2
        ((readLazy_suffix _ _).trans hTokens) hRead
  case case6 =>
    rename_i ih
    have hOpening := hTokens.subset List.mem_cons_self
    exact
      ih (List.forall_mem_cons.mpr ⟨hOpening, hGroups⟩)
        ((List.suffix_cons _ _).trans hTokens) hRead
  case case14 | case15 =>
    rename_i ih
    exact ih hGroups ((readLazy_suffix _ _).trans hTokens) hRead
  case case9 =>
    rename_i token _ _ hOpening _ _ _ after hRepeat _ ih
    rcases readRepeat_sound hOpening hRepeat with
      ⟨used, _, rfl, _⟩
    have hLater := List.suffix_append (token :: used) after
    exact ih hGroups (hLater.trans hTokens) hRead
  case case11 =>
    rename_i hOpening _ hCategory _ ih
    have hTail := (List.suffix_cons _ _).trans hTokens
    rcases readCategory_sound hOpening (hTexts.of_suffix hTail)
        hCategory with
      ⟨used, rfl, _⟩
    exact
      ih hGroups ((List.suffix_append used _).trans hTail) hRead
  all_goals
    rename_i ih
    exact
      ih hGroups ((List.suffix_cons _ _).trans hTokens) hRead

/- The tokens of a pattern are refused for one of them. -/
theorem readPattern_faults
    {all : List Token}
    {e : ReadError}
    (hTokens : tokens <:+ all)
    (hTexts : TextsNonempty all)
    (hRead : readPattern context stops tokens = .error e) :
    context.Faults all e := by
  refine readUnits_faults ?_ hTokens hTexts hRead
  intro group hMem
  cases hMem

------------------------------------------------------------
-- What is derived is read
------------------------------------------------------------

theorem readUnits_brace
    {opening : Token}
    {last element : Element}
    (hOpening : opening.kind = .leftBrace)
    (hStop : TokenKind.leftBrace ∉ stops)
    (hLast : pattern.getLast? = some last)
    (hRepeat :
      readRepeat context last tokens = .ok (element, rest)) :
    readUnits context stops groups pattern diagnostics
        (opening :: tokens) =
      readUnits context stops groups
        (pattern.replaceLast element) diagnostics rest := by
  rw [readUnits.eq_def]
  simp only [hOpening, hStop, and_false, if_false, hLast]
  split
  · rename_i hFail
    rw [hRepeat] at hFail
    cases hFail
  · rename_i hRead
    rw [hRepeat] at hRead
    cases hRead
    rfl

theorem readUnits_bracket
    {opening : Token}
    {read : Parsed Element}
    (hOpening : opening.kind = .leftBracket)
    (hStop : TokenKind.leftBracket ∉ stops)
    (hCategory : readCategory context tokens = .ok read) :
    readUnits context stops groups pattern diagnostics
        (opening :: tokens) =
      readUnits context stops groups (pattern ++ [read.value])
        (diagnostics ++ read.diagnostics) read.rest := by
  rw [readUnits.eq_def]
  simp only [hOpening, hStop, and_false, if_false]
  split
  · rename_i hFail
    rw [hCategory] at hFail
    cases hFail
  · rename_i hRead
    rw [hCategory] at hRead
    cases hRead
    rfl

/- A phrase is read wherever nothing can be added to it. -/
theorem Derives.reads
    {phrase : Phrase}
    {elements : Pattern}
    (hSeparate : ∀ kind ∈ stops, kind.separates = true)
    (hDerives : Derives context phrase tokens elements)
    (hRest : NothingToAdd rest)
    (groups : List OpenGroup)
    (pattern : Pattern)
    (diagnostics : List Diagnostic) :
    ∃ reported,
      readUnits context stops groups pattern diagnostics
          (tokens ++ rest) =
        readUnits context stops groups (pattern ++ elements)
          (diagnostics ++ reported) rest := by
  have hPlain :
      ∀ kind : TokenKind,
        kind.separates = false → kind ∉ stops :=
    fun _ => not_mem_stops hSeparate
  induction hDerives generalizing rest groups pattern
      diagnostics with
  | none => exact ⟨[], by simp⟩
  | @more first later _ _ hUnit hLater ihUnit ihLater =>
      rcases ihUnit (hLater.nothingToAdd hRest) groups pattern
          diagnostics with
        ⟨reported, hFirst⟩
      rcases ihLater hRest groups _ _ with ⟨more, hOthers⟩
      refine ⟨reported ++ more, ?_⟩
      rw [List.append_assoc, hFirst, hOthers, List.append_assoc,
        List.append_assoc]
  | plain _ ih => exact ih hRest groups pattern diagnostics
  | @quantified tokens quantifier elements last wrap hUnit
      hLast hQuantifier ih =>
      rcases hQuantifier.reads with
        ⟨opening, inside, rfl, hOpening, hRepeat⟩
      have hNext : NothingToAdd (opening :: (inside ++ rest)) :=
        .of_kind hOpening nofun nofun
      rcases ih hNext groups pattern diagnostics with
        ⟨reported, hRead⟩
      have hEnd :
          (pattern ++ elements).getLast? = some last := by
        rw [List.getLast?_append, hLast, Option.some_or]
      refine ⟨reported, ?_⟩
      rw [List.append_assoc, List.cons_append, hRead,
        readUnits_brace hOpening (hPlain _ rfl) hEnd
          (hRepeat last rest),
        Pattern.replaceLast_append
          (hUnit.elements_ne_nil Phrase.noConfusion)]
  | text hKind _ =>
      have hStop := hPlain .text rfl
      refine ⟨[], ?_⟩
      rw [List.singleton_append, readUnits.eq_def]
      simp only [hKind, hStop, and_false, if_false,
        List.append_nil]
  | escape hKind =>
      have hStop := hPlain .escape rfl
      refine ⟨[], ?_⟩
      rw [List.singleton_append, readUnits.eq_def]
      simp only [hKind, hStop, and_false, if_false,
        List.append_nil]
  | @sign token element hSign =>
      generalize hKind : token.kind = kind at hSign
      have hStop := hPlain kind (by cases hSign <;> rfl)
      have hElement := hSign.element?_eq
      refine ⟨[], ?_⟩
      rw [List.singleton_append, readUnits.eq_def]
      cases hSign <;>
        simp only [hKind, hStop, and_false, if_false, hElement,
          List.append_nil]
  | wildcard hStar hMark =>
      have hStop := hPlain .star rfl
      have hLazy := hMark.reads fun token hMem =>
        (hRest token hMem).1
      refine ⟨[], ?_⟩
      rw [List.cons_append, readUnits.eq_def]
      simp only [hStar, hStop, and_false, if_false, hLazy,
        List.append_nil]
  | gap hStar hMark =>
      have hStop := hPlain .doubleStar rfl
      have hLazy := hMark.reads fun token hMem =>
        (hRest token hMem).1
      refine ⟨[], ?_⟩
      rw [List.cons_append, readUnits.eq_def]
      simp only [hStar, hStop, and_false, if_false, hLazy,
        List.append_nil]
  | @group opening closing tokens mark elements isLazy hOpening
      hUnits hSome hClosing hMark ih =>
      have hStop := hPlain .leftParen rfl
      have hLazy := hMark.reads fun token hMem =>
        (hRest token hMem).1
      have hFull : elements.isEmpty = false := by
        rw [List.isEmpty_eq_false_iff]
        exact mt hUnits.eq_nil_iff.mp hSome
      have hNext : NothingToAdd (closing :: (mark ++ rest)) :=
        .of_kind hClosing nofun nofun
      -- what is inside is read with the group open
      rcases ih hNext
          ({ opening := opening, before := pattern } :: groups)
          [] diagnostics with
        ⟨reported, hInside⟩
      refine ⟨reported, ?_⟩
      rw [List.cons_append, List.append_assoc, List.cons_append,
        readUnits.eq_def]
      simp only [hOpening, hStop, and_false, if_false]
      rw [hInside, List.nil_append, readUnits.eq_def]
      simp only [hClosing, List.isEmpty_cons,
        Bool.false_eq_true, false_and, if_false, hFull, hLazy]
  | @nothing opening closing hOpening hClosing =>
      have hCategory :
          readCategory context (closing :: rest) =
            .ok ⟨.null, [], rest⟩ := by
        rw [readCategory, skipToken?_cons hClosing]
      refine ⟨[], ?_⟩
      rw [List.cons_append, List.singleton_append,
        readUnits_bracket hOpening (hPlain _ rfl) hCategory]
  | category hBracket hTag =>
      rcases hBracket.reads_category hTag fun token hMem =>
          (hRest token hMem).2 with
        ⟨opening, inside, rfl, hOpening, reported, hCategory⟩
      refine ⟨reported, ?_⟩
      rw [List.cons_append, List.cons_append, List.append_assoc,
        readUnits_bracket hOpening (hPlain _ rfl) hCategory]

/- Outside all groups nothing more is read at a stop. -/
theorem readUnits_of_stop
    (hStop : ∀ token ∈ rest.head?, token.kind ∈ stops) :
    readUnits context stops [] pattern diagnostics rest =
      .ok ⟨pattern, diagnostics, rest⟩ := by
  rw [readUnits.eq_def]
  cases rest with
  | nil => rfl
  | cons token more =>
      exact if_pos ⟨rfl, hStop token rfl⟩

end Units

------------------------------------------------------------
-- Patterns are read exactly
------------------------------------------------------------

/-
  A pattern is read from the tokens of a text if and only if
  the grammar derives it from those before the stop, and no
  others are passed over. If there is no derivation the text
  is malformed, or there is a number of too many digits
  among the tokens.
-/
theorem readPattern_exact
    {text : List Char}
    {line column : Int}
    {all : TokenText}
    {stops : List TokenKind}
    (hText : TokenText.read text line column = .ok all)
    (hTokens : tokens <:+ all.tokens)
    (hDecimal : NumbersDecimal tokens)
    (hStops : stops ∈ patternStops) :
    (∀ pattern rest,
        (∃ reported,
          readPattern context stops tokens =
            .ok ⟨pattern, reported, rest⟩) ↔
          Derives context .units (beforeStop stops 0 tokens)
              pattern ∧
            rest = fromStop stops 0 tokens) ∧
      ∀ e,
        readPattern context stops tokens = .error e →
          context.Refuses tokens e := by
  have hSeparate := separates_of_mem_patternStops hStops
  have hTexts : TextsNonempty tokens :=
    (TokenText.read_textsNonempty hText).of_suffix hTokens
  refine ⟨fun pattern rest => ⟨?_, ?_⟩, fun e hRead => ?_⟩
  · rintro ⟨reported, hRead⟩
    rcases readUnits_sound (.outside .none) hTexts hRead with
      ⟨used, rfl, hUnits⟩
    have hEnd :=
      hUnits.beforeStop_eq hSeparate (readUnits_stops hRead)
    exact ⟨hEnd.1.symm ▸ hUnits, hEnd.2.symm⟩
  · rintro ⟨hUnits, rfl⟩
    have hStop :
        ∀ token ∈ (fromStop stops 0 tokens).head?,
          token.kind ∈ stops :=
      fromStop_stops 0 tokens
    rcases hUnits.reads hSeparate (.of_stops hSeparate hStop)
        [] [] [] with
      ⟨reported, hRead⟩
    refine ⟨reported, ?_⟩
    rw [beforeStop_append_fromStop] at hRead
    rw [readPattern, hRead, readUnits_of_stop hStop]
    rfl
  · exact
      (readPattern_faults List.suffix_rfl hTexts hRead).refuses
        hDecimal

------------------------------------------------------------
-- A group
------------------------------------------------------------

def plainContext : ReadContext where
  table := {}
  graphs := []
  line := 1
  finish := 20
  rule := none

/- The tokens of `(V{2}[a, bc]^1)? > x`. -/
def groupTokens : List Token :=
  [ ⟨.leftParen, "(", 0⟩, ⟨.text, "V", 1⟩,
    ⟨.leftBrace, "\x7b", 2⟩, ⟨.text, "2", 3⟩,
    ⟨.rightBrace, "\x7d", 4⟩, ⟨.leftBracket, "[", 5⟩,
    ⟨.text, "a", 6⟩, ⟨.comma, ",", 7⟩, ⟨.text, "bc", 9⟩,
    ⟨.rightBracket, "]", 11⟩, ⟨.caret, "^", 12⟩,
    ⟨.text, "1", 13⟩, ⟨.rightParen, ")", 14⟩,
    ⟨.question, "?", 15⟩, ⟨.greater, ">", 17⟩,
    ⟨.text, "x", 19⟩ ]

def groupPattern : Pattern :=
  [ .optional
      [ .repeated (.literal "V") 2 (some 2) false,
        .category
          { category :=
              some
                { name := ""
                  members :=
                    [ [.symbol "a"],
                      [.symbol "b", .symbol "c"] ] }
            slot := some (tagSlot 1)
            explicit := true } ]
      true ]

theorem groupTokens_derives :
    Derives plainContext .units
      (beforeStop clauseStops 0 groupTokens) groupPattern := by
  have hSymbols :
      plainContext.symbols "V" = ["V"] ∧
        plainContext.symbols "a" = ["a"] ∧
        plainContext.symbols "bc" = ["b", "c"] := by
    decide +kernel
  have hLetter :
      Derives plainContext .atom [⟨.text, "V", 1⟩]
        ((plainContext.symbols "V").map Element.literal) :=
    .text rfl (by decide)
  rw [hSymbols.1] at hLetter
  have hTwice :
      DerivesQuantifier plainContext
        [ ⟨.leftBrace, "\x7b", 2⟩, ⟨.text, "2", 3⟩,
          ⟨.rightBrace, "\x7d", 4⟩ ]
        (fun element => .repeated element 2 (some 2) false) :=
    .braces rfl
      (.number ⟨rfl, by decide, by decide⟩ (by decide))
      .missing rfl
  have hFirst :
      DerivesRun plainContext ([] ++ [⟨.text, "a", 6⟩])
        ([] ++ Member.ofSymbols (plainContext.symbols "a")) :=
    .text .nil rfl (by decide)
  have hSecond :
      DerivesRun plainContext ([] ++ [⟨.text, "bc", 9⟩])
        ([] ++ Member.ofSymbols (plainContext.symbols "bc")) :=
    .text .nil rfl (by decide)
  rw [hSymbols.2.1] at hFirst
  rw [hSymbols.2.2] at hSecond
  have hMembers :
      DerivesMembers plainContext
        [ ⟨.text, "a", 6⟩, ⟨.comma, ",", 7⟩,
          ⟨.text, "bc", 9⟩ ] _ :=
    .more (.run hFirst nofun) rfl (.one (.run hSecond nofun))
  have hBracket :
      DerivesBracket plainContext
        [ ⟨.leftBracket, "[", 5⟩, ⟨.text, "a", 6⟩,
          ⟨.comma, ",", 7⟩, ⟨.text, "bc", 9⟩,
          ⟨.rightBracket, "]", 11⟩ ] _ :=
    .listed rfl hMembers (by simp [IsLoneName]) rfl
  have hNumber : plainContext.Spells ⟨.text, "1", 13⟩ 1 :=
    ⟨rfl, by decide, by decide⟩
  have hTag (ref : CategoryRef) :
      DerivesTag plainContext ref
        [⟨.caret, "^", 12⟩, ⟨.text, "1", 13⟩] _ :=
    .tagged rfl hNumber
  have hMark : DerivesMark [⟨.question, "?", 15⟩] true :=
    .lazy rfl
  have hInside :=
    Derives.more (.quantified (.plain hLetter) rfl hTwice)
      (.of_unit (.plain (.category hBracket (hTag _))))
  have hGroup :=
    @Derives.group plainContext ⟨.leftParen, "(", 0⟩
      ⟨.rightParen, ")", 14⟩ _ _ _ _ rfl hInside nofun rfl hMark
  exact .of_unit (.plain hGroup)

theorem groupTokens_read :
    TokenText.read "(V{2}[a, bc]^1)? > x".toList 1 0 =
        .ok ⟨groupTokens, 20⟩ ∧
      NumbersDecimal groupTokens ∧
      clauseStops ∈ patternStops ∧
      ∃ reported,
        readPattern plainContext clauseStops groupTokens =
          .ok
            ⟨groupPattern, reported,
              [⟨.greater, ">", 17⟩, ⟨.text, "x", 19⟩]⟩ := by
  have hText :
      TokenText.read "(V{2}[a, bc]^1)? > x".toList 1 0 =
        .ok ⟨groupTokens, 20⟩ := by
    decide +kernel
  have hDecimal : NumbersDecimal groupTokens :=
    .of_digits (by decide +kernel)
  have hStops : clauseStops ∈ patternStops := by decide
  have hExact :=
    @readPattern_exact plainContext groupTokens _ 1 0 _
      clauseStops hText List.suffix_rfl hDecimal hStops
  exact
    ⟨hText, hDecimal, hStops,
      (hExact.1 _ _).mpr ⟨groupTokens_derives, rfl⟩⟩

------------------------------------------------------------
-- Numbers of too many digits
------------------------------------------------------------

/- The tokens of an `a` that a count in braces follows. -/
def countTokens
    (count : List Char) : List Token :=
  [ ⟨.text, "a", 0⟩, ⟨.leftBrace, "\x7b", 1⟩,
    ⟨.text, String.ofList count, 2⟩,
    ⟨.rightBrace, "\x7d", 2 + count.length⟩ ]

theorem countTokens_read
    {count : List Char}
    (hOrdinary : ∀ c ∈ count, isOrdinary 1 c = true)
    (hSome : count ≠ []) :
    TokenText.read ('a' :: '{' :: (count ++ ['}'])) 1 0 =
      .ok ⟨countTokens count, 3 + count.length⟩ := by
  rcases List.exists_cons_of_ne_nil hSome with ⟨c, digits, rfl⟩
  have hA : ∀ d ∈ ['a'], isOrdinary 0 d = true := by
    rw [List.forall_mem_singleton]
    decide +kernel
  have hBrace :
      ∀ d ∈ ('{' :: c :: (digits ++ ['}'])).head?,
        isOrdinary 0 d = false := by
    rintro d ⟨⟩
    decide +kernel
  have hEndBrace :
      ∀ d ∈ ['}'].head?, isOrdinary 1 d = false := by
    rintro d ⟨⟩
    decide +kernel
  have hLetter :
      readTokens 1 0 0
          ('a' :: ([] ++ '{' :: c :: (digits ++ ['}']))) =
        _ :=
    readTokens_run hA hBrace
  have hOpening :
      readTokens 1 1 0 ('{' :: c :: (digits ++ ['}'])) = _ :=
    readTokens_sign rfl (by decide +kernel)
  have hCount :
      readTokens 1 2 1 (c :: (digits ++ ['}'])) = _ :=
    readTokens_run hOrdinary hEndBrace
  have hClosing :
      readTokens 1 (2 + 1 + digits.length) 1 ['}'] = _ :=
    readTokens_sign rfl (by decide +kernel)
  have hNext : (0 : Int) + 1 + ([] : List Char).length = 1 := rfl
  have hInside : braceDepth 0 '{' = 1 := rfl
  have hAfter : (1 : Int) + 1 = 2 := rfl
  rw [List.nil_append, hNext, hOpening, hInside, hAfter, hCount,
    hClosing, readTokens] at hLetter
  have hEnd :
      (2 : Int) + 1 + digits.length =
        2 + (c :: digits).length := by
    rw [List.length_cons]
    omega
  have hFinish :
      (0 : Int) +
          ('a' :: '{' :: c :: (digits ++ ['}'])).length =
        3 + (c :: digits).length := by
    simp only [List.length_cons, List.length_append,
      List.length_nil]
    omega
  rw [TokenText.read, List.cons_append, hLetter]
  simp only [Token.before]
  rw [hFinish, hEnd]
  rfl

theorem countTokens_decimal
    {count : List Char}
    (hNumeral : isNumeral count = true) :
    NumbersDecimal (countTokens count) := by
  apply NumbersDecimal.of_digits
  simp only [countTokens, List.forall_mem_cons,
    String.toList_ofList, hNumeral]
  exact
    ⟨by decide, by decide, fun _ => trivial, by decide, nofun⟩

/- A count is refused if it has too many digits. -/
theorem countTokens_refused
    {count : List Char}
    (hNumeral : isNumeral count = true)
    (hLong :
      plainContext.digitLimit.admits count.length = false) :
    readPattern plainContext clauseStops (countTokens count) =
      .error (.tooManyDigits (String.ofList count)) := by
  have hDigits : isDigits (String.ofList count) = true := by
    apply isDigits_of_isNumeral
    rwa [String.toList_ofList]
  have hNumber :
      plainContext.number ⟨.text, String.ofList count, 2⟩ =
        .error (.tooManyDigits (String.ofList count)) := by
    simp [ReadContext.number, readNumber, hLong]
  have hRepeat :
      readRepeat plainContext (.literal "a")
          ((countTokens count).drop 2) =
        .error (.tooManyDigits (String.ofList count)) := by
    simp [countTokens, readRepeat, readBounds, hDigits, hNumber]
  have hSymbols : plainContext.symbols "a" = ["a"] := by
    decide +kernel
  have hLiterals :
      plainContext.literals "a" = [.literal "a"] := by
    rw [ReadContext.literals, hSymbols]
    rfl
  rw [readPattern, countTokens, readUnits.eq_def]
  simp only [clauseStops, List.mem_cons, reduceCtorEq,
    List.not_mem_nil, or_self, and_false, if_false, hLiterals]
  rw [readUnits.eq_def]
  simp only [List.mem_cons, reduceCtorEq, List.not_mem_nil,
    or_self, and_false, if_false, List.nil_append,
    List.getLast?_singleton]
  split
  · rename_i hFail
    cases hFail.symm.trans hRepeat
    rfl
  · rename_i hRead
    cases hRead.symm.trans hRepeat

/- A one after some zeros. -/
def paddedOne
    (zeros : Nat) : List Char :=
  '0' :: (List.replicate zeros '0' ++ ['1'])

theorem length_paddedOne
    (zeros : Nat) :
    (paddedOne zeros).length = zeros + 2 := by
  rw [paddedOne, List.length_cons, List.length_append,
    List.length_replicate, List.length_singleton]

theorem number?_paddedOne
    (zeros : Nat) :
    number? (paddedOne zeros) = some 1 := by
  rw [number?, paddedOne]
  induction zeros with
  | zero => rfl
  | succ n ih => exact ih

theorem isNumeral_paddedOne
    (zeros : Nat) :
    isNumeral (paddedOne zeros) = true := by
  rw [← number?_isSome, number?_paddedOne]
  rfl

theorem isOrdinary_paddedOne
    {zeros : Nat}
    {c : Char}
    (hMem : c ∈ paddedOne zeros) :
    isOrdinary 1 c = true := by
  rcases List.mem_cons.mp hMem with rfl | hLater
  · decide +kernel
  rcases List.mem_append.mp hLater with hZero | hOne
  · rw [List.eq_of_mem_replicate hZero]
    decide +kernel
  · rw [List.mem_singleton.mp hOne]
    decide +kernel

theorem paddedOne_derives
    {context : ReadContext}
    {zeros : Nat}
    (hLimit : context.digitLimit.admits (zeros + 2) = true)
    (hSymbols : context.symbols "a" = ["a"]) :
    Derives context .units
      (beforeStop clauseStops 0 (countTokens (paddedOne zeros)))
      [.repeated (.literal "a") 1 (some 1) false] := by
  have hSpells :
      context.Spells
        ⟨.text, String.ofList (paddedOne zeros), 2⟩ 1 := by
    refine ⟨rfl, ?_, ?_⟩
    · rwa [String.toList_ofList, length_paddedOne]
    · rw [String.toList_ofList]
      exact number?_paddedOne zeros
  have hLetter :
      Derives context .atom [⟨.text, "a", 0⟩]
        ((context.symbols "a").map Element.literal) :=
    .text rfl (by decide)
  rw [hSymbols] at hLetter
  have hBraces :
      DerivesQuantifier context
        ((countTokens (paddedOne zeros)).drop 1)
        (fun element => .repeated element 1 (some 1) false) :=
    .braces rfl (.number hSpells (Nat.le_refl 1)) .missing rfl
  exact .of_unit (.quantified (.plain hLetter) rfl hBraces)

/-
  A number is refused if it has too many digits, although
  the grammar allows for it.
-/
theorem paddedOne_refused :
    TokenText.read ('a' :: '{' :: (paddedOne 4299 ++ ['}'])) 1
          0 =
        .ok ⟨countTokens (paddedOne 4299), 4304⟩ ∧
      NumbersDecimal (countTokens (paddedOne 4299)) ∧
      clauseStops ∈ patternStops ∧
      Derives { plainContext with digitLimit := none } .units
        (beforeStop clauseStops 0
          (countTokens (paddedOne 4299)))
        [.repeated (.literal "a") 1 (some 1) false] ∧
      readPattern plainContext clauseStops
          (countTokens (paddedOne 4299)) =
        .error
          (.tooManyDigits (String.ofList (paddedOne 4299))) := by
  have hLength := length_paddedOne 4299
  have hText :
      TokenText.read
          ('a' :: '{' :: (paddedOne 4299 ++ ['}'])) 1 0 =
        .ok
          ⟨countTokens (paddedOne 4299),
            3 + (paddedOne 4299).length⟩ :=
    countTokens_read (fun _ => isOrdinary_paddedOne) nofun
  rw [hLength] at hText
  refine
    ⟨hText, countTokens_decimal (isNumeral_paddedOne 4299),
      by decide, paddedOne_derives rfl (by decide +kernel), ?_⟩
  apply countTokens_refused (isNumeral_paddedOne 4299)
  rw [hLength]
  rfl

end Diachrony
