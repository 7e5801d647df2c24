import Diachrony.Proofs.Matching.Segments
import Diachrony.Proofs.Scan.Unconditional

/-
  Rules that change single symbols.

  If each target of a rule is one segment and the rule has
  no conditions, then what becomes of a symbol is decided by
  the symbol itself and by where it stood when the scan
  began. The scan takes one symbol with each visit. So a
  scan to the left makes the same changes as one to the
  right, in the opposite order.

  Key definitions include:
    * `Rule.isSymbolwise`
    * `Rule.TakesAt`
    * `Rule.Writes`
    * `Verdict.Puts`
    * `Word.Pieced`

  Key theorems include:
    * `Rule.findSite_related`
    * `Rule.Writes.unique`
    * `Rule.judge_puts`
    * `Rule.sweepRight_writes`
    * `Rule.sweepLeft_writes`
    * `Rule.sweep_writes`
-/

namespace Diachrony

------------------------------------------------------------
-- Kinds of rules
------------------------------------------------------------

/- Whether the target of a branch is one segment. -/
def Branch.takesSymbol
    (branch : Branch) : Bool :=
  match branch.target with
  | [element] => element.isSegment
  | _ => false

/-
  Whether a rule changes single symbols without regard to
  others. Its branches may have indices.
-/
def Rule.isSymbolwise
    (rule : Rule) : Bool :=
  rule.branches.all Branch.takesSymbol &&
    rule.predicates.all fun predicate =>
      predicate.isUnconditional &&
        predicate.replacements.all Pattern.copiesNothing

section Kinds

variable {rule : Rule}
variable {branch : Branch}
variable {predicate : Predicate}

theorem Branch.exists_segment
    (hSymbol : branch.takesSymbol = true) :
    ∃ element,
      branch.target = [element] ∧ element.isSegment = true := by
  unfold takesSymbol at hSymbol
  split at hSymbol
  · rename_i element hTarget
    exact ⟨element, hTarget, hSymbol⟩
  · cases hSymbol

theorem Branch.isSegments_of_takesSymbol
    (hSymbol : branch.takesSymbol = true) :
    Pattern.isSegments branch.target = true := by
  rcases exists_segment hSymbol with ⟨element, hTarget, hSegment⟩
  rw [hTarget, Pattern.isSegments, List.all_cons, hSegment]
  rfl

theorem Rule.takesSymbol_of_isSymbolwise
    (hRule : rule.isSymbolwise = true)
    (hBranch : branch ∈ rule.branches) :
    branch.takesSymbol = true := by
  rw [isSymbolwise, Bool.and_eq_true] at hRule
  exact List.all_eq_true.mp hRule.1 branch hBranch

theorem Rule.predicate_of_isSymbolwise
    (hRule : rule.isSymbolwise = true)
    (hPredicate : predicate ∈ rule.predicates) :
    predicate.isUnconditional = true ∧
      predicate.replacements.all Pattern.copiesNothing =
        true := by
  rw [isSymbolwise, Bool.and_eq_true] at hRule
  have hKind := List.all_eq_true.mp hRule.2 predicate hPredicate
  rwa [Bool.and_eq_true] at hKind

theorem Rule.matchable_of_isSymbolwise
    (hRule : rule.isSymbolwise = true) :
    rule.matchable = true :=
  Rule.matchable_of_targets
    (fun _ hPredicate =>
      (predicate_of_isSymbolwise hRule hPredicate).1)
    fun _ hBranch =>
      Pattern.matchable_of_isSegments
        (Branch.isSegments_of_takesSymbol
          (takesSymbol_of_isSymbolwise hRule hBranch))

end Kinds

------------------------------------------------------------
-- Matches of single symbols
------------------------------------------------------------

namespace Branch

variable {budget : Int}
variable {entry : Branch × Nat}
variable {result reply : Option (Nat × Match)}

/- What is found at the front of a word is the first symbol. -/
theorem matchAhead_cases
    (hSymbol : entry.1.takesSymbol = true)
    {word : Word}
    (hResult : matchAhead budget word entry = .ok result) :
    ∃ first,
      result = first.map (Prod.mk entry.2) ∧
        first =
          (Pattern.paths
            (MatchRequest.window { budget := budget }
              word.toArray)
            entry.1.target ⟨0, []⟩).head?.map
              (Point.toMatch 0) := by
  rw [matchAhead] at hResult
  cases hMatch :
      Pattern.matchAt entry.1.target word.toArray 0
        { budget := budget } with
  | error fault =>
      rw [hMatch] at hResult
      cases hResult
  | ok first =>
      rw [hMatch] at hResult
      exact ⟨first, (Except.ok.inj hResult).symm,
        Pattern.eq_head_of_matchAt
          (isSegments_of_takesSymbol hSymbol) hMatch⟩

/- A match at the front of a word takes one symbol. -/
theorem bounds_of_matchAhead
    (hSymbol : entry.1.takesSymbol = true)
    {word : Word}
    {choice : Nat × Match}
    (hResult :
      matchAhead budget word entry = .ok (some choice)) :
    choice.1 = entry.2 ∧ choice.2.start = 0 ∧
      choice.2.stop = 1 := by
  rcases matchAhead_cases hSymbol hResult with
    ⟨first, hChoice, hFirst⟩
  rcases Option.map_eq_some_iff.mp hChoice.symm with
    ⟨found, rfl, rfl⟩
  rcases Option.map_eq_some_iff.mp hFirst.symm with
    ⟨reached, hHead, rfl⟩
  rcases exists_segment hSymbol with ⟨element, hTarget, -⟩
  have hPos := Pattern.pos_of_segments
    (isSegments_of_takesSymbol hSymbol)
    (List.mem_of_head? hHead)
  rw [hTarget] at hPos
  exact ⟨rfl, rfl, hPos⟩

/- The first symbol alone decides on a match. -/
theorem matchAhead_unique
    (hSymbol : entry.1.takesSymbol = true)
    {one other : Word}
    (hHead : one.head? = other.head?)
    (hOne : matchAhead budget one entry = .ok result)
    (hOther : matchAhead budget other entry = .ok reply) :
    result = reply := by
  rcases matchAhead_cases hSymbol hOne with ⟨first, rfl, rfl⟩
  rcases matchAhead_cases hSymbol hOther with ⟨second, rfl, rfl⟩
  rcases exists_segment hSymbol with ⟨element, hTarget, hSegment⟩
  have hPaths :
      Element.paths
          (MatchRequest.window { budget := budget } one.toArray)
          element ⟨0, []⟩ =
        Element.paths
          (MatchRequest.window { budget := budget }
            other.toArray)
          element ⟨0, []⟩ := by
    apply Element.paths_of_head hSegment
    rw [Window.ahead_front, Window.ahead_front, hHead]
  rw [hTarget, Pattern.paths, Pattern.paths, hPaths]
  rfl

end Branch

------------------------------------------------------------
-- Sites of single symbols
------------------------------------------------------------

section Sites

variable {rule : Rule}
variable {options : EngineOptions}
variable {budget : Int}
variable {allowed : List (Option (List Nat))}

/-
  The site that a rule without conditions makes of a match
  with some symbols in front of it.
-/
def Rule.siteOf?
    (rule : Rule)
    (before : Word)
    (choice : Nat × Match) : Option Site :=
  rule.predicates.head?.map fun predicate =>
    predicate.siteOf (choice.1, choice.2.shift before.length)

/- The site of a branch is made of its match, if it may start. -/
theorem Branch.site?_symbolwise
    (hRule : rule.isSymbolwise = true)
    {before part after : Word}
    {origin number : Nat}
    {branch : Branch}
    {starts : Option (List Nat)}
    (hBranch : branch ∈ rule.branches)
    {result : Option Site}
    (hResult :
      Branch.site? rule (Cursor.between before part after origin)
          budget ((branch, starts), number) =
        .ok result) :
    if (starts.all fun starts => starts.contains origin) then
      ∃ choice,
        Branch.matchAhead budget part (branch, number) =
            .ok choice ∧
          result = choice.bind (rule.siteOf? before)
    else
      result = none := by
  split
  · rename_i hAllowed
    have hLocal : Pattern.isLocal branch.target = true :=
      Pattern.isLocal_of_isSegments
        (Branch.isSegments_of_takesSymbol
          (Rule.takesSymbol_of_isSymbolwise hRule hBranch))
    rw [Branch.site?_between before part after origin
      (branch, number) hAllowed hLocal] at hResult
    cases hMatch :
        Branch.matchAhead budget part (branch, number) with
    | error fault =>
        rw [hMatch] at hResult
        cases hResult
    | ok choice =>
        rw [hMatch] at hResult
        refine ⟨choice, rfl, ?_⟩
        cases choice with
        | none =>
            cases hResult
            rfl
        | some choice =>
            dsimp only at hResult
            rw [Option.bind_some, Rule.siteOf?]
            cases hPredicates : rule.predicates with
            | nil =>
                rw [hPredicates] at hResult
                cases hResult
                rfl
            | cons predicate others =>
                have hKind :=
                  (Rule.predicate_of_isSymbolwise hRule
                    (hPredicates ▸ List.mem_cons_self)).1
                rw [firstSome_site?_of_isUnconditional hPredicates
                  hKind _ (choice.1, choice.2.shift _)] at hResult
                cases hResult
                rfl
  · rename_i hElsewhere
    have hNot :
        (!(Cursor.between before part after origin).isAllowed
          starts) = true := by
      simpa [Cursor.isAllowed, Cursor.between] using hElsewhere
    rw [Branch.site?, if_pos hNot] at hResult
    exact (Except.ok.inj hResult).symm

/-
  A site in front of which some symbols stand: that of a
  predicate of the rule and a match of one symbol.
-/
structure Rule.TakesAt
    (rule : Rule)
    (before : Word)
    (predicate : Predicate)
    (choice : Nat × Match)
    (site : Site) : Prop where
  mem : predicate ∈ rule.predicates
  start_eq : choice.2.start = 0
  stop_eq : choice.2.stop = 1
  site_eq :
    site =
      predicate.siteOf (choice.1, choice.2.shift before.length)

/-
  Sites that are found at the same symbol with the same
  origin are made of the same match by the same predicate.
-/
theorem Rule.findSite_related
    (hRule : rule.isSymbolwise = true)
    {before part after front rest back : Word}
    {origin : Nat}
    (hHead : part.head? = rest.head?)
    {one other : Option Site}
    (hOne :
      rule.findSite budget allowed
          (Cursor.between before part after origin) =
        .ok one)
    (hOther :
      rule.findSite budget allowed
          (Cursor.between front rest back origin) =
        .ok other) :
    Option.Rel
      (fun site twin => ∃ predicate choice,
        rule.TakesAt before predicate choice site ∧
          rule.TakesAt front predicate choice twin)
      one other := by
  refine firstSome_related ?_ hOne hOther
  rintro ⟨⟨branch, starts⟩, number⟩ hEntry result reply
    hResult hReply
  have hBranch : branch ∈ rule.branches :=
    (List.of_mem_zip (List.fst_mem_of_mem_zipIdx hEntry)).1
  have hSymbol := takesSymbol_of_isSymbolwise hRule hBranch
  replace hResult :=
    Branch.site?_symbolwise hRule hBranch hResult
  replace hReply :=
    Branch.site?_symbolwise hRule hBranch hReply
  split at hResult
  · rename_i hAllowed
    rw [if_pos hAllowed] at hReply
    rcases hResult with ⟨choice, hChoice, rfl⟩
    rcases hReply with ⟨same, hSame, rfl⟩
    obtain rfl :=
      Branch.matchAhead_unique hSymbol hHead hChoice hSame
    cases choice with
    | none => exact Option.Rel.none
    | some choice =>
        rcases Branch.bounds_of_matchAhead hSymbol hChoice with
          ⟨-, hStart, hStop⟩
        rw [Option.bind_some, Option.bind_some, siteOf?, siteOf?]
        cases hPredicate : rule.predicates.head? with
        | none => exact Option.Rel.none
        | some predicate =>
            have hMem := List.mem_of_head? hPredicate
            exact Option.Rel.some ⟨predicate, choice,
              ⟨hMem, hStart, hStop, rfl⟩,
              ⟨hMem, hStart, hStop, rfl⟩⟩
  · rename_i hElsewhere
    rw [if_neg hElsewhere] at hReply
    cases hResult
    cases hReply
    exact Option.Rel.none

/- What is found is one symbol, at the position looked at. -/
theorem Rule.takesAt_of_findSite
    (hRule : rule.isSymbolwise = true)
    {before part after : Word}
    {origin : Nat}
    {site : Site}
    (hSite :
      rule.findSite budget allowed
          (Cursor.between before part after origin) =
        .ok (some site)) :
    part ≠ [] ∧
      ∃ predicate choice,
        rule.TakesAt before predicate choice site := by
  have hRelated := Rule.findSite_related hRule rfl hSite hSite
  cases hRelated with
  | some hSame =>
      rcases hSame with ⟨predicate, choice, hTakes, -⟩
      refine ⟨?_, predicate, choice, hTakes⟩
      rintro rfl
      have hStop := (Rule.findSite_within hSite).stop_le
      rw [hTakes.site_eq] at hStop
      simp only [Predicate.siteOf, Match.shift,
        Cursor.between, hTakes.stop_eq, List.length_nil]
        at hStop
      omega

end Sites

namespace Rule.TakesAt

variable {rule : Rule}
variable {before later after front rest back : Word}
variable {symbol : Symbol}
variable {predicate : Predicate}
variable {choice : Nat × Match}
variable {site twin : Site}

theorem length_eq
    (hTakes : rule.TakesAt before predicate choice site) :
    choice.2.length = 1 := by
  rw [Match.length, hTakes.start_eq, hTakes.stop_eq]

theorem within
    (hTakes : rule.TakesAt before predicate choice site) :
    choice.2.Within 0 (symbol :: later).length where
  start_eq := hTakes.start_eq
  start_le := Nat.zero_le _
  stop_le := by
    rw [hTakes.stop_eq, List.length_cons]
    exact Nat.le_add_left 1 _

theorem span_eq
    (hTakes : rule.TakesAt before predicate choice site) :
    site.span (before ++ symbol :: later ++ after).toArray =
      [symbol] := by
  rw [hTakes.site_eq, Site.span_shift hTakes.within]
  simp [Site.span, Predicate.siteOf, WordArray.span_eq,
    Word.span, hTakes.start_eq, hTakes.stop_eq]

/- The same is written for a symbol wherever it stands. -/
theorem build_eq
    (hRule : rule.isSymbolwise = true)
    (hTakes : rule.TakesAt before predicate choice site)
    (hTwin : rule.TakesAt front predicate choice twin) :
    site.build rule
        (before ++ symbol :: later ++ after).toArray =
      twin.build rule
        (front ++ symbol :: rest ++ back).toArray := by
  have hSpan :
      site.span (before ++ symbol :: later ++ after).toArray =
        twin.span (front ++ symbol :: rest ++ back).toArray :=
    hTakes.span_eq.trans hTwin.span_eq.symm
  have hCopies :=
    (predicate_of_isSymbolwise hRule hTakes.mem).2
  rw [hTakes.site_eq, hTwin.site_eq] at hSpan ⊢
  unfold Site.build
  refine
    Site.buildFrom_congr ?_ ?_ ?_ hSpan
      (Predicate.copiesNothing_replacementFor hCopies choice.1)
      []
  all_goals rfl

end Rule.TakesAt

------------------------------------------------------------
-- Verdicts on single symbols
------------------------------------------------------------

/- What a verdict on a symbol writes in its place. -/
def Verdict.written
    (verdict : Verdict)
    (symbol : Symbol) : Word :=
  match verdict with
  | replaced _ symbols => symbols
  | _ => [symbol]

/-
  A rule writes a piece for a symbol with an origin: in some
  word it comes to a verdict on the symbol that does.
-/
def Rule.Writes
    (rule : Rule)
    (options : EngineOptions)
    (allowed : List (Option (List Nat)))
    (symbol : Symbol)
    (origin : Nat)
    (piece : Word) : Prop :=
  ∃ before later after verdict,
    rule.judge options allowed
        (Cursor.between before (symbol :: later) after origin) =
      .ok verdict ∧
      (∀ problem,
        verdict.problem? = some problem → problem.Decided) ∧
      verdict.written symbol = piece

/-
  A verdict on a symbol between others puts a piece in its
  place, and a scan goes on as that takes. The symbol stays
  within the limit of a scan to the left only if it stays.
-/
structure Verdict.Puts
    (verdict : Verdict)
    (before : Word)
    (symbol : Symbol)
    (later after piece : Word) : Prop where
  consumed_eq : verdict.consumed = 1
  advance_eq : verdict.advance = piece.length
  result_eq :
    verdict.applyTo
        (before ++ symbol :: later ++ after).toArray =
      (before ++ piece ++ later ++ after).toArray
  limit :
    (piece = [symbol] ∧
      ∀ limit, verdict.nextLimit limit = limit) ∨
    ∀ limit, verdict.nextLimit limit = before.length
  edits_length :
    (verdict.edit?
        (before ++ symbol :: later ++ after).toArray
      ).toList.length =
      if piece = [symbol] then 0 else 1

section Verdicts

variable {rule : Rule}
variable {options : EngineOptions}
variable {allowed : List (Option (List Nat))}
variable {before part later after : Word}
variable {symbol : Symbol}
variable {origin : Nat}
variable {verdict : Verdict}

theorem Rule.no_exceptions_of_isSymbolwise
    (hRule : rule.isSymbolwise = true) :
    ∀ predicate ∈ rule.predicates,
      predicate.exceptions = [] := by
  intro predicate hMem
  exact (Predicate.conditions_of_isUnconditional
    (predicate_of_isSymbolwise hRule hMem).1).2

/- At the end of a word there is nothing to change. -/
theorem Rule.judge_end
    (hRule : rule.isSymbolwise = true)
    (hVerdict :
      rule.judge options allowed
          (Cursor.between before [] after origin) =
        .ok verdict)
    (hDecided : ∀ problem,
      verdict.problem? = some problem → problem.Decided) :
    verdict = .miss := by
  rcases Rule.judge_of_no_exceptions
      (no_exceptions_of_isSymbolwise hRule) hVerdict hDecided
    with ⟨-, hMiss⟩ | ⟨site, hSite, -⟩
  · exact hMiss
  · exact absurd rfl (takesAt_of_findSite hRule hSite).1

/- Sites with the same replacement write the same. -/
theorem Site.written_of_replacing
    {site twin : Site}
    {word text : WordArray}
    {reply : Verdict}
    (hBuild : site.build rule word = twin.build rule text)
    (hVerdict :
      site.replacing options rule word = .ok verdict)
    (hReply : twin.replacing options rule text = .ok reply) :
    verdict.written symbol = reply.written symbol := by
  rcases replacing_cases hVerdict with
    ⟨problem, hFails, rfl⟩ | ⟨symbols, hBuilt, rfl⟩
  · rcases replacing_cases hReply with
      ⟨_, _, rfl⟩ | ⟨_, hOther, _⟩
    · rfl
    · cases hFails.symm.trans (hBuild.trans hOther)
  · rcases replacing_cases hReply with
      ⟨_, hOther, _⟩ | ⟨_, hOther, rfl⟩
    · cases hBuilt.symm.trans (hBuild.trans hOther)
    · exact Except.ok.inj
        (hBuilt.symm.trans (hBuild.trans hOther))

/- A piece is determined by its symbol and the origin. -/
theorem Rule.Writes.unique
    (hRule : rule.isSymbolwise = true)
    {piece other : Word}
    (hPiece : rule.Writes options allowed symbol origin piece)
    (hOther : rule.Writes options allowed symbol origin other) :
    piece = other := by
  rcases hPiece with
    ⟨before, later, after, verdict, hVerdict, hDecided, rfl⟩
  rcases hOther with
    ⟨front, rest, back, reply, hReply, hSettled, rfl⟩
  have hNone := no_exceptions_of_isSymbolwise hRule
  have hHead :
      (symbol :: later).head? = (symbol :: rest).head? :=
    rfl
  rcases Rule.judge_of_no_exceptions hNone hVerdict hDecided
    with ⟨hMiss, rfl⟩ | ⟨site, hSite, hReplacing⟩
  · rcases Rule.judge_of_no_exceptions hNone hReply hSettled
      with ⟨-, rfl⟩ | ⟨twin, hTwin, -⟩
    · rfl
    · cases Rule.findSite_related hRule hHead hMiss hTwin
  · rcases Rule.judge_of_no_exceptions hNone hReply hSettled
      with ⟨hMiss, -⟩ | ⟨twin, hTwin, hReplies⟩
    · cases Rule.findSite_related hRule hHead hSite hMiss
    · cases Rule.findSite_related hRule hHead hSite hTwin with
      | some hSame =>
          rcases hSame with ⟨predicate, choice, hTakes, hTakes'⟩
          exact Site.written_of_replacing
            (hTakes.build_eq hRule hTakes') hReplacing hReplies

/- A verdict puts what it writes in the place of a symbol. -/
theorem Rule.judge_puts
    (hRule : rule.isSymbolwise = true)
    (hVerdict :
      rule.judge options allowed
          (Cursor.between before (symbol :: later) after
            origin) =
        .ok verdict)
    (hDecided : ∀ problem,
      verdict.problem? = some problem → problem.Decided) :
    verdict.Puts before symbol later after
      (verdict.written symbol) := by
  rcases Rule.judge_of_no_exceptions
      (no_exceptions_of_isSymbolwise hRule) hVerdict hDecided
    with ⟨-, rfl⟩ | ⟨site, hSite, hReplacing⟩
  · exact
      { consumed_eq := rfl
        advance_eq := rfl
        result_eq := by
          simp [Verdict.applyTo, Verdict.written]
        limit := Or.inl ⟨rfl, fun _ => rfl⟩
        edits_length := (if_pos rfl).symm }
  · rcases takesAt_of_findSite hRule hSite with
      ⟨-, predicate, choice, hTakes⟩
    have hSpan :
        site.span
            (before ++ symbol :: later ++ after).toArray =
          [symbol] :=
      hTakes.span_eq
    have hWrites :
        verdict.Writes before (symbol :: later) after 1
          (verdict.written symbol) := by
      have hWithin :
          choice.2.Within 0 (symbol :: later).length :=
        hTakes.within
      have hTaken :
          [symbol] =
            (symbol :: later).take choice.2.length := by
        rw [hTakes.length_eq]
        rfl
      rw [hTakes.site_eq] at hReplacing
      rw [← hTakes.length_eq]
      rcases Site.replacing_cases hReplacing with
        ⟨problem, -, rfl⟩ | ⟨symbols, -, rfl⟩
      · change Verdict.Writes _ _ _ _ _ [symbol]
        rw [hTaken]
        exact Verdict.writes_skipped hWithin problem
      · exact Verdict.writes_replaced hWithin symbols
    exact
      { consumed_eq := hWrites.consumed_eq
        advance_eq := hWrites.advance_eq
        result_eq := hWrites.result_eq
        limit := Or.inr hWrites.nextLimit_eq
        edits_length := by
          rcases Site.replacing_cases hReplacing with
            ⟨problem, -, rfl⟩ | ⟨symbols, -, rfl⟩
          · exact (if_pos rfl).symm
          · rw [Verdict.edit?, Site.edit?, hSpan,
              Verdict.written]
            split <;> rfl }

end Verdicts

------------------------------------------------------------
-- Pieces of a word
------------------------------------------------------------

/-
  Each symbol of a word becomes a piece, which depends on
  its origin too. The number is that of the pieces that
  are not their symbols.
-/
inductive Word.Pieced
    (writes : Symbol → Nat → Word → Prop) :
    Word → Nat → Word → Nat → Prop where
  | nil
      {origin : Nat} :
      Pieced writes [] origin [] 0
  | cons
      {symbol : Symbol}
      {rest piece written : Word}
      {origin count : Nat}
      (hPiece : writes symbol origin piece)
      (hRest : Pieced writes rest (origin + 1) written count) :
      Pieced writes (symbol :: rest) origin (piece ++ written)
        ((if piece = [symbol] then 0 else 1) + count)

namespace Word.Pieced

variable {writes : Symbol → Nat → Word → Prop}
variable {word written other : Word}
variable {origin count number : Nat}

/- One more symbol becomes a piece, behind the others. -/
theorem concat
    (hPieced : Pieced writes word origin written count)
    {symbol : Symbol}
    {piece : Word}
    (hPiece : writes symbol (origin + word.length) piece) :
    Pieced writes (word ++ [symbol]) origin (written ++ piece)
      ((if piece = [symbol] then 0 else 1) + count) := by
  induction hPieced with
  | nil =>
      have hOnly := cons hPiece nil
      rwa [List.append_nil] at hOnly
  | @cons first rest head written origin count hHead _ ih =>
      rw [List.length_cons, Nat.add_comm rest.length,
        ← Nat.add_assoc] at hPiece
      have hMore := cons hHead (ih hPiece)
      rw [Nat.add_left_comm] at hMore
      rw [List.append_assoc]
      exact hMore

/- If all pieces are determined, so is what they make up. -/
theorem unique
    (hUnique :
      ∀ symbol origin piece other,
        writes symbol origin piece →
        writes symbol origin other →
          piece = other)
    (hPieced : Pieced writes word origin written count)
    (hOther : Pieced writes word origin other number) :
    written = other ∧ count = number := by
  induction hPieced generalizing other number with
  | nil =>
      cases hOther
      exact ⟨rfl, rfl⟩
  | cons hPiece _ ih =>
      cases hOther with
      | cons hTwin hRest =>
          obtain rfl := hUnique _ _ _ _ hPiece hTwin
          rcases ih hRest with ⟨rfl, rfl⟩
          exact ⟨rfl, rfl⟩

end Word.Pieced

------------------------------------------------------------
-- Scans
------------------------------------------------------------

section Scans

variable {rule : Rule}
variable {options : EngineOptions}
variable {allowed : List (Option (List Nat))}
variable {before later after : Word}
variable {symbol : Symbol}
variable {word : WordArray}
variable {pos : Nat}
variable {sweep : Sweep}

/-
  A scan to the right writes a piece for each of the symbols
  it has not passed, behind those it has.
-/
theorem Rule.sweepRight_writes
    (hRule : rule.isSymbolwise = true)
    {origin left : Nat}
    (hWord : word = (before ++ later).toArray)
    (hPos : pos = before.length)
    (hLeft : left = later.length)
    (hSweep :
      rule.sweepRight options allowed word pos origin left =
        .ok sweep)
    (hDecided :
      ∀ problem ∈ sweep.problems, problem.Decided) :
    ∃ written,
      sweep.word = before ++ written ∧
        Word.Pieced (rule.Writes options allowed) later origin
          written sweep.edits.length := by
  induction later
    generalizing before word pos origin left sweep with
  | nil =>
      subst hWord hPos hLeft
      rw [List.length_nil, Rule.sweepRight, Rule.judgeRight_eq]
        at hSweep
      split at hSweep
      · cases hSweep
      rename_i verdict hVerdict
      cases hSweep
      obtain rfl := Rule.judge_end hRule hVerdict
        (Verdict.decided_of_followedBy hDecided).1
      exact ⟨[], rfl, Word.Pieced.nil⟩
  | cons symbol later ih =>
      subst hWord hPos hLeft
      rw [List.length_cons, Rule.sweepRight, Rule.judgeRight_eq]
        at hSweep
      split at hSweep
      · cases hSweep
      rename_i verdict hVerdict
      dsimp only at hSweep
      split at hSweep
      · cases hSweep
      rename_i following hFollowing
      cases hSweep
      rcases Verdict.decided_of_followedBy hDecided with
        ⟨hHere, hThere⟩
      have hPuts := Rule.judge_puts hRule hVerdict hHere
      have hResult := hPuts.result_eq
      rw [List.append_nil, List.append_nil] at hResult
      rw [hPuts.consumed_eq, hPuts.advance_eq,
        ← List.length_append] at hFollowing
      rcases ih hResult rfl rfl hFollowing hThere with
        ⟨written, hWritten, hPieced⟩
      refine ⟨verdict.written symbol ++ written, ?_, ?_⟩
      · rw [← List.append_assoc]
        exact hWritten
      · have hEdits := hPuts.edits_length
        rw [List.append_nil] at hEdits
        rw [Verdict.followedBy, List.length_append, hEdits]
        exact Word.Pieced.cons
          ⟨before, later, [], verdict, hVerdict, hHere, rfl⟩
          hPieced

/-
  A scan to the left writes a piece for the symbol that it
  looks at and for each before it. Those between the symbol
  and the limit stay.
-/
theorem Rule.sweepLeft_writes
    (hRule : rule.isSymbolwise = true)
    {limit : Nat}
    (hWord :
      word = (before ++ symbol :: later ++ after).toArray)
    (hLimit : limit = before.length + (symbol :: later).length)
    (hPos : pos = before.length)
    (hSweep :
      rule.sweepLeft options allowed word limit pos = .ok sweep)
    (hDecided :
      ∀ problem ∈ sweep.problems, problem.Decided) :
    ∃ written,
      sweep.word = written ++ later ++ after ∧
        Word.Pieced (rule.Writes options allowed)
          (before ++ [symbol]) 0 written sweep.edits.length := by
  induction before using List.reverseRecOn
    generalizing symbol later after word limit pos sweep with
  | nil =>
      subst hWord hLimit hPos
      rw [List.length_nil, Rule.sweepLeft] at hSweep
      split at hSweep
      · cases hSweep
      rename_i verdict hJudged
      cases hSweep
      have hVerdict :
          rule.judge options allowed
              (Cursor.between [] (symbol :: later) after 0) =
            .ok verdict :=
        hJudged
      have hHere := (Verdict.decided_of_followedBy hDecided).1
      have hPuts := Rule.judge_puts hRule hVerdict hHere
      refine ⟨verdict.written symbol, ?_, ?_⟩
      · rw [Verdict.followedBy, hPuts.result_eq]
        rfl
      · rw [Verdict.followedBy, List.length_append,
          hPuts.edits_length]
        exact Word.Pieced.concat Word.Pieced.nil
          ⟨[], later, after, verdict, hVerdict, hHere, rfl⟩
  | append_singleton before last ih =>
      subst hWord hLimit hPos
      rw [List.length_append, List.length_singleton,
        Rule.sweepLeft] at hSweep
      split at hSweep
      · cases hSweep
      rename_i verdict hJudged
      split at hSweep
      · cases hSweep
      rename_i following hFollowing
      cases hSweep
      have hVerdict :
          rule.judge options allowed
              (Cursor.between (before ++ [last])
                (symbol :: later) after (before.length + 1)) =
            .ok verdict := by
        rw [Rule.judgeLeft] at hJudged
        rw [Cursor.between, List.length_append,
          List.length_singleton]
        exact hJudged
      rcases Verdict.decided_of_followedBy hDecided with
        ⟨hHere, hThere⟩
      have hPuts := Rule.judge_puts hRule hVerdict hHere
      have hResult := hPuts.result_eq
      obtain ⟨written, hWritten, hPieced⟩ :
          ∃ written,
            following.word =
                written ++
                  (verdict.written symbol ++ later ++ after) ∧
              Word.Pieced (rule.Writes options allowed)
                (before ++ [last]) 0 written
                following.edits.length := by
        rcases hPuts.limit with ⟨hKept, hNext⟩ | hNext
        · -- the symbol stays and is kept within the limit
          rw [hNext] at hFollowing
          rw [hKept] at hResult ⊢
          have hWord :
              before ++ [last] ++ [symbol] ++ later ++ after =
                before ++ last :: (symbol :: later) ++ after := by
            simp
          have hLimit :
              before.length + 1 + (symbol :: later).length =
                before.length +
                  (last :: symbol :: later).length := by
            simp only [List.length_cons]
            omega
          obtain ⟨written, hWritten, hPieced⟩ :=
            ih (hResult.trans (congrArg List.toArray hWord))
              hLimit rfl hFollowing hThere
          refine ⟨written, ?_, hPieced⟩
          rw [hWritten, List.append_assoc]
          rfl
        · -- the scan goes on before what has been written
          rw [hNext] at hFollowing
          have hWord :
              before ++ [last] ++ verdict.written symbol ++
                  later ++ after =
                before ++ last :: [] ++
                  (verdict.written symbol ++ later ++ after) := by
            simp
          obtain ⟨written, hWritten, hPieced⟩ :=
            ih (hResult.trans (congrArg List.toArray hWord))
              List.length_append rfl hFollowing hThere
          refine ⟨written, ?_, hPieced⟩
          rw [hWritten, List.append_nil]
      refine ⟨written ++ verdict.written symbol, ?_, ?_⟩
      · rw [Verdict.followedBy, hWritten]
        simp only [List.append_assoc]
      · rw [Verdict.followedBy, List.length_append,
          hPuts.edits_length]
        apply hPieced.concat
        rw [List.length_append, List.length_singleton,
          Nat.zero_add]
        exact ⟨_, later, after, verdict, hVerdict, hHere, rfl⟩

/-
  A scan to the left begins behind the last symbol, where
  there is nothing to change.
-/
theorem Rule.sweepLeft_writes_all
    (hRule : rule.isSymbolwise = true)
    {input : Word}
    (hSweep :
      rule.sweepLeft options allowed input.toArray input.length
          input.length =
        .ok sweep)
    (hDecided :
      ∀ problem ∈ sweep.problems, problem.Decided) :
    Word.Pieced (rule.Writes options allowed) input 0
      sweep.word sweep.edits.length := by
  have hEnd :
      Cursor.between input [] [] input.length =
        { word := input.toArray
          pos := input.length
          limit := input.length
          origin := input.length } := by
    simp [Cursor.between]
  cases input using List.reverseRecOn with
  | nil =>
      rw [List.length_nil, Rule.sweepLeft] at hSweep
      split at hSweep
      · cases hSweep
      rename_i verdict hVerdict
      cases hSweep
      rw [Rule.judgeLeft] at hVerdict
      rw [List.length_nil] at hEnd
      rw [← hEnd] at hVerdict
      obtain rfl := Rule.judge_end hRule hVerdict
        (Verdict.decided_of_followedBy hDecided).1
      exact Word.Pieced.nil
  | append_singleton before symbol =>
      rw [List.length_append, List.length_singleton] at hSweep hEnd
      rw [Rule.sweepLeft] at hSweep
      split at hSweep
      · cases hSweep
      rename_i verdict hVerdict
      split at hSweep
      · cases hSweep
      rename_i following hFollowing
      cases hSweep
      rcases Verdict.decided_of_followedBy hDecided with
        ⟨hHere, hThere⟩
      rw [Rule.judgeLeft, ← hEnd] at hVerdict
      obtain rfl := Rule.judge_end hRule hVerdict hHere
      have hWord :
          before ++ [symbol] = before ++ symbol :: [] ++ [] :=
        (List.append_nil _).symm
      rcases Rule.sweepLeft_writes hRule
          (congrArg List.toArray hWord) rfl rfl hFollowing
          hThere with
        ⟨written, hWritten, hPieced⟩
      rw [List.append_nil, List.append_nil] at hWritten
      rw [← hWritten] at hPieced
      exact hPieced

/-
  A scan in either direction writes a piece for each symbol
  of its word.
-/
theorem Rule.sweep_writes
    (hRule : rule.isSymbolwise = true)
    {input : Word}
    (hAllowed :
      rule.allowedStarts options.maxMatchSteps input.toArray =
        .ok allowed)
    (hSweep : rule.sweep options input = .ok sweep)
    (hDecided :
      ∀ problem ∈ sweep.problems, problem.Decided) :
    Word.Pieced (rule.Writes options allowed) input 0
      sweep.word sweep.edits.length := by
  rw [Rule.sweep, hAllowed] at hSweep
  dsimp only at hSweep
  split at hSweep
  · exact Rule.sweepLeft_writes_all hRule hSweep hDecided
  · rcases Rule.sweepRight_writes hRule
        (congrArg List.toArray (List.nil_append input).symm)
        rfl rfl hSweep hDecided with
      ⟨written, hWritten, hPieced⟩
    rw [hWritten]
    exact hPieced

end Scans

end Diachrony
