import Diachrony.Proofs.Matching.Segments
import Diachrony.Proofs.Scan.Substitution
import Diachrony.Proofs.Source.AsRead

/-
  Mirrored rules.

  The mirror image of a rule has its targets and its
  replacements reversed, keeps the slots of its references
  and scans in the other direction. For targets of segments
  of one length, the mirrored rule does to a reversed word
  what the rule does to the word: the branch that matches
  and the bindings are the same, and what is written is
  reversed.

  Key definitions include:
    * `Rule.mirror`
    * `Rule.isReversible`
    * `Rule.Segmental`
    * `Match.Mirrors`
    * `Site.Mirrors`

  Key theorems include:
    * `Pattern.matchAt_reverse`
    * `Rule.firstMatch_mirror`
    * `Site.Mirrors.buildFrom`
    * `Rule.rewriting_mirror`
-/

namespace Diachrony

------------------------------------------------------------
-- Mirrored rules
------------------------------------------------------------

/- A branch with its target reversed. -/
def Branch.mirror
    (branch : Branch) : Branch :=
  { branch with target := branch.target.reverse }

/- A predicate with its replacements reversed. -/
def Predicate.mirror
    (predicate : Predicate) : Predicate :=
  { predicate with
    replacements := predicate.replacements.map List.reverse }

/-
  A rule with its targets and replacements reversed, which
  scans in the other direction.
-/
def Rule.mirror
    (rule : Rule) : Rule :=
  { rule with
    branches := rule.branches.map Branch.mirror
    predicates := rule.predicates.map Predicate.mirror
    flags :=
      { rule.flags with
        rightToLeft := !rule.flags.rightToLeft } }

/-
  Elements of a replacement that write the same backwards,
  but for the order of the symbols.
-/
def Element.isReversible : Element → Bool
  | .literal _ => true
  | .null => true
  | .target _ => true
  | .category ref => ref.isSegment
  | _ => false

/-
  Whether the targets of a rule without conditions consist
  of segments, and its replacements of reversible elements.
-/
def Rule.isReversible
    (rule : Rule) : Bool :=
  rule.isUnconditional &&
    (rule.branches.all fun branch =>
      Pattern.isSegments branch.target) &&
    rule.predicates.all fun predicate =>
      predicate.replacements.all fun pattern =>
        pattern.all Element.isReversible

section Kinds

variable {rule : Rule}

theorem Rule.isContextFree_of_isReversible
    (hReversible : rule.isReversible = true) :
    rule.isContextFree = true := by
  simp only [Rule.isReversible, Bool.and_eq_true,
    List.all_eq_true] at hReversible
  simp only [Rule.isContextFree, Bool.and_eq_true,
    List.all_eq_true]
  rcases hReversible with ⟨⟨hFree, hTargets⟩, hReplacements⟩
  refine ⟨⟨hFree, ?_⟩, ?_⟩
  · intro branch hBranch
    exact
      Pattern.isLocal_of_isSegments (hTargets branch hBranch)
  · intro predicate hPredicate pattern hPattern
    rw [Pattern.copiesNothing, List.all_eq_true]
    intro element hElement
    have hHere :=
      hReplacements predicate hPredicate pattern hPattern
        element hElement
    cases element <;> first | rfl | cases hHere

theorem Rule.isReversible_replacementFor
    (hReversible : rule.isReversible = true)
    {predicate : Predicate}
    (hMem : predicate ∈ rule.predicates)
    (branch : Nat) :
    ∀ element ∈ predicate.replacementFor branch,
      element.isReversible = true := by
  simp only [Rule.isReversible, Bool.and_eq_true,
    List.all_eq_true] at hReversible
  unfold Predicate.replacementFor
  dsimp only
  cases hTurn :
      predicate.replacements[
        branch % predicate.replacements.length]? with
  | none =>
      intro element hElement
      cases hElement
  | some pattern =>
      exact hReversible.2 predicate hMem pattern
        (List.mem_of_getElem? hTurn)

/- The mirror image of a reversible rule is reversible. -/
theorem Rule.isReversible_mirror
    (hReversible : rule.isReversible = true) :
    rule.mirror.isReversible = true := by
  simp only [Rule.isReversible, Rule.isUnconditional,
    Bool.and_eq_true, List.all_eq_true] at hReversible ⊢
  rcases hReversible with
    ⟨⟨⟨hIndices, hConditions⟩, hTargets⟩, hReplacements⟩
  refine ⟨⟨⟨?_, ?_⟩, ?_⟩, ?_⟩
  · intro branch hBranch
    rcases List.mem_map.mp hBranch with ⟨own, hOwn, rfl⟩
    exact hIndices own hOwn
  · intro predicate hPredicate
    rcases List.mem_map.mp hPredicate with ⟨own, hOwn, rfl⟩
    exact hConditions own hOwn
  · intro branch hBranch
    rcases List.mem_map.mp hBranch with ⟨own, hOwn, rfl⟩
    have hHere := hTargets own hOwn
    rw [Pattern.isSegments] at hHere ⊢
    rw [Branch.mirror, List.all_reverse]
    exact hHere
  · intro predicate hPredicate pattern hPattern element hElement
    rcases List.mem_map.mp hPredicate with ⟨own, hOwn, rfl⟩
    rcases List.mem_map.mp hPattern with ⟨read, hRead, rfl⟩
    exact hReplacements own hOwn read hRead element
      (List.mem_reverse.mp hElement)

theorem Rule.matchable_of_isReversible
    (hReversible : rule.isReversible = true) :
    rule.matchable = true := by
  simp only [Rule.isReversible, Rule.isUnconditional,
    Bool.and_eq_true, List.all_eq_true] at hReversible
  rcases hReversible with
    ⟨⟨⟨_, hConditions⟩, hTargets⟩, _⟩
  exact Rule.matchable_of_targets hConditions
    fun branch hBranch =>
      Pattern.matchable_of_isSegments (hTargets branch hBranch)

end Kinds

------------------------------------------------------------
-- Targets of segments
------------------------------------------------------------

/-
  The targets of a rule are sequences of a number of
  segments, and each reference in them has a slot that only
  tags share.
-/
structure Rule.Segmental
    (rule : Rule)
    (length : Nat) : Prop where
  segments :
    ∀ branch ∈ rule.branches,
      Pattern.isSegments branch.target = true
  slots :
    ∀ branch ∈ rule.branches,
      Pattern.WellSlotted branch.target
  length_eq :
    ∀ branch ∈ rule.branches, branch.target.length = length

theorem Rule.Segmental.mirror
    {rule : Rule}
    {length : Nat}
    (hRule : rule.Segmental length) :
    rule.mirror.Segmental length where
  segments := by
    intro branch hBranch
    rcases List.mem_map.mp hBranch with ⟨own, hOwn, rfl⟩
    exact
      Pattern.isSegments_reverse (hRule.segments own hOwn)
  slots := by
    intro branch hBranch
    rcases List.mem_map.mp hBranch with ⟨own, hOwn, rfl⟩
    exact
      (hRule.slots own hOwn).reverse (hRule.segments own hOwn)
  length_eq := by
    intro branch hBranch
    rcases List.mem_map.mp hBranch with ⟨own, hOwn, rfl⟩
    exact List.length_reverse.trans (hRule.length_eq own hOwn)

/- A compiled rule numbers the references of its targets. -/
theorem Rule.IsCompiled.segmental
    {rule : Rule}
    (hCompiled : rule.IsCompiled)
    (hReversible : rule.isReversible = true)
    {length : Nat}
    (hLength : ∀ branch ∈ rule.branches,
      branch.target.length = length) :
    rule.Segmental length where
  segments := by
    simp only [Rule.isReversible, Bool.and_eq_true,
      List.all_eq_true] at hReversible
    exact hReversible.1.2
  slots := by
    intro branch hBranch
    rcases hCompiled.exists_body with ⟨body, hBody⟩
    rcases hBody.exists_target hBranch with
      ⟨pattern, hPattern, hTarget⟩
    rw [hTarget]
    exact Pattern.wellSlotted_assignSlots hPattern.refs
  length_eq := hLength

------------------------------------------------------------
-- Mirrored matches
------------------------------------------------------------

/-
  Two matches at the front of a word that take a number of
  symbols and bind the same slots to the same positions.
-/
structure Match.Mirrors
    (found mirrored : Match)
    (length : Nat) : Prop where
  length_eq : found.length = length
  mirrored_eq : mirrored.length = length
  get?_eq :
    ∀ slot,
      mirrored.bindings.get? slot = found.bindings.get? slot

/- Words that begin with the same symbols, one backwards. -/
structure Word.Mirrors
    (word mirrored : Word)
    (length : Nat) : Prop where
  length_le : length ≤ word.length
  take_eq :
    mirrored.take length = (word.take length).reverse

section Matches

variable {rule : Rule}
variable {pattern : Pattern}
variable {word mirrored : Word}
variable {length : Nat}
variable {budget : Int}

theorem List.zip_take_length
    {α β : Type}
    (one : List α)
    (other : List β) :
    one.zip other = one.zip (other.take one.length) := by
  induction one generalizing other with
  | nil => rfl
  | cons first rest ih =>
      cases other with
      | nil => rfl
      | cons entry later =>
          rw [List.length_cons, List.take_succ_cons,
            List.zip_cons_cons, List.zip_cons_cons, ih]

/- Reversed elements are aligned with the same symbols. -/
theorem Alignment.mem_zip_reverse
    (hWords : word.Mirrors mirrored pattern.length)
    (pair : Element × Symbol) :
    pair ∈ pattern.zip word ↔
      pair ∈ pattern.reverse.zip mirrored := by
  have hTaken :
      pattern.length = (word.take pattern.length).length :=
    (List.length_take_of_le hWords.length_le).symm
  have hReverse :
      pattern.reverse.zip mirrored =
        (pattern.zip word).reverse := by
    rw [List.zip_take_length pattern.reverse,
      List.length_reverse, hWords.take_eq,
      List.zip_take_length pattern word]
    exact (List.reverse_zipWith hTaken).symm
  rw [hReverse, List.mem_reverse]

/- A reversed pattern has the mirror image of the match. -/
theorem Pattern.matchAt_reverse
    (hSegments : pattern.isSegments = true)
    (hSlots : pattern.WellSlotted)
    (hWords : word.Mirrors mirrored pattern.length)
    {result reversed : Option Match}
    (hMatch :
      Pattern.matchAt pattern word.toArray 0
        { budget := budget } = .ok result)
    (hReversed :
      Pattern.matchAt pattern.reverse mirrored.toArray 0
        { budget := budget } = .ok reversed) :
    Option.Rel
      (fun found mirror => found.Mirrors mirror pattern.length)
      result reversed := by
  have hSegments' := Pattern.isSegments_reverse hSegments
  have hSlots' := hSlots.reverse hSegments
  have hEnough : pattern.reverse.length ≤ mirrored.length := by
    have hTaken := congrArg List.length hWords.take_eq
    have hLength := hWords.length_le
    simp only [List.length_take, List.length_reverse]
      at hTaken ⊢
    omega
  have hSame := Alignment.mem_zip_reverse hWords
  cases result with
  | none =>
      have hAbsent :=
        Pattern.not_binds_of_none hSegments hSlots hMatch
          hWords.length_le
      cases reversed with
      | none => exact Option.Rel.none
      | some found =>
          have hBinds :=
            (Pattern.binds_of_found hSegments' hSlots'
              hReversed).2.2
          exact absurd
            (hBinds.of_mem_iff fun pair => (hSame pair).symm)
            (hAbsent found.bindings)
  | some found =>
      rcases Pattern.binds_of_found hSegments hSlots hMatch with
        ⟨_, hLength, hBinds⟩
      have hMirrored := hBinds.of_mem_iff hSame
      cases reversed with
      | none =>
          exact absurd hMirrored
            (Pattern.not_binds_of_none hSegments' hSlots'
              hReversed hEnough found.bindings)
      | some mirror =>
          rcases Pattern.binds_of_found hSegments' hSlots'
              hReversed with
            ⟨_, hLength', hBinds'⟩
          rw [List.length_reverse] at hLength'
          exact Option.Rel.some
            ⟨hLength, hLength', hBinds'.get?_eq hMirrored⟩

/- The branches of a mirrored rule are tried in the order. -/
theorem Rule.firstMatch_mirror_eq
    (rule : Rule)
    (word : Word) :
    rule.mirror.firstMatch budget word =
      firstSome
        (fun entry : Branch × Nat =>
          Branch.matchAhead budget word
            (entry.1.mirror, entry.2))
        rule.branches.zipIdx := by
  rw [Rule.firstMatch, Rule.mirror, List.zipIdx_map,
    firstSome_map]
  rfl

/-
  At a mirrored word the same branch of the mirrored rule is
  the first to match, and its match is the mirror image.
-/
theorem Rule.firstMatch_mirror
    (hRule : rule.Segmental length)
    (hWords : word.Mirrors mirrored length)
    {result reversed : Option (Nat × Match)}
    (hMatch : rule.firstMatch budget word = .ok result)
    (hReversed :
      rule.mirror.firstMatch budget mirrored =
        .ok reversed) :
    Option.Rel
      (fun choice mirror =>
        choice.1 = mirror.1 ∧
          choice.2.Mirrors mirror.2 length)
      result reversed := by
  rw [Rule.firstMatch_mirror_eq] at hReversed
  apply firstSome_related _ hMatch hReversed
  intro entry hEntry one other hOne hOther
  have hBranch := List.fst_mem_of_mem_zipIdx hEntry
  have hLength := hRule.length_eq _ hBranch
  cases hFirst :
      Pattern.matchAt entry.1.target word.toArray 0
        { budget := budget } with
  | error fault =>
      rw [Branch.matchAhead, hFirst] at hOne
      cases hOne
  | ok found =>
  cases hSecond :
      Pattern.matchAt entry.1.target.reverse
        mirrored.toArray 0 { budget := budget } with
  | error fault =>
      rw [Branch.matchAhead, Branch.mirror, hSecond] at hOther
      cases hOther
  | ok mirror =>
  have hRelated :=
    Pattern.matchAt_reverse (hRule.segments _ hBranch)
      (hRule.slots _ hBranch) (hLength.symm ▸ hWords)
      hFirst hSecond
  rw [Branch.matchAhead, hFirst] at hOne
  rw [Branch.matchAhead, Branch.mirror, hSecond] at hOther
  cases hOne
  cases hOther
  rw [hLength] at hRelated
  cases hRelated with
  | none => exact Option.Rel.none
  | some hMirrors => exact Option.Rel.some ⟨rfl, hMirrors⟩

end Matches

------------------------------------------------------------
-- Mirrored replacements
------------------------------------------------------------

section Replacements

variable {rule : Rule}
variable {predicate : Predicate}
variable {word mirrored : Word}
variable {length : Nat}
variable {choice mirror : Nat × Match}

theorem Member.length_symbols_le
    {member : Member}
    (hSymbol : Member.isSymbol member = true) :
    (Member.symbols member).length ≤ 1 := by
  rcases Member.exists_symbol hSymbol with ⟨symbol, rfl⟩
  exact Nat.le_refl 1

/- A segment in a replacement writes one symbol at most. -/
theorem Site.length_correlate_le
    {site : Site}
    {ref : CategoryRef}
    (hSegment : ref.isSegment = true)
    {symbols : List Symbol}
    (hSymbols : site.correlate rule ref = .ok symbols) :
    symbols.length ≤ 1 := by
  unfold correlate at hSymbols
  cases hCategory : ref.category with
  | none =>
      rw [hCategory] at hSymbols
      cases hSymbols
  | some category =>
  rw [hCategory] at hSymbols
  have hMembers : ∀ member ∈ category.members,
      Member.isSymbol member = true := by
    simpa [CategoryRef.isSegment, hCategory] using hSegment
  dsimp only at hSymbols
  split at hSymbols
  · split at hSymbols
    · rename_i hSingle
      rcases List.length_eq_one_iff.mp hSingle with
        ⟨member, hOnly⟩
      cases hSymbols
      rw [hOnly, List.flatMap_singleton]
      apply Member.length_symbols_le
      exact hMembers member (by rw [hOnly]; simp)
    · cases hSymbols
  · split at hSymbols
    · cases hSymbols
    · cases hSymbols
      rename_i position _ _
      cases hMember : nth? category.members position with
      | none => simp [Member.symbols]
      | some member =>
          exact
            Member.length_symbols_le
              (hMembers member (mem_of_nth? hMember))

/-
  Sites of two rules, at words of which one is the other one
  backwards, that write the same symbols but for their order.
-/
structure Site.Mirrors
    (one other : Site)
    (rule image : Rule)
    (text reversed : WordArray) : Prop where
  mismatched_eq : image.mismatched = rule.mismatched
  predicateIndex_eq : other.predicateIndex = one.predicateIndex
  branch_eq : other.branch = one.branch
  get?_eq :
    ∀ slot,
      other.bindings.get? slot = one.bindings.get? slot
  span_eq : other.span reversed = (one.span text).reverse

section Sites

variable {image : Rule}
variable {one other : Site}
variable {text reversed : WordArray}

theorem Site.Mirrors.symm
    (hSites : one.Mirrors other rule image text reversed) :
    other.Mirrors one image rule reversed text where
  mismatched_eq := hSites.mismatched_eq.symm
  predicateIndex_eq := hSites.predicateIndex_eq.symm
  branch_eq := hSites.branch_eq.symm
  get?_eq := fun slot => (hSites.get?_eq slot).symm
  span_eq := by rw [hSites.span_eq, List.reverse_reverse]

/- A reversible element writes the same symbols backwards. -/
theorem Site.Mirrors.emit
    (hSites : one.Mirrors other rule image text reversed)
    {element : Element}
    (hElement : element.isReversible = true)
    {symbols : List Symbol}
    (hSymbols : one.emit rule text [] element = .ok symbols) :
    other.emit image reversed [] element =
      .ok symbols.reverse := by
  cases element with
  | literal symbol => cases hSymbols; rfl
  | null => cases hSymbols; rfl
  | target backwards =>
      cases hSymbols
      rw [Site.emit, hSites.span_eq]
      cases backwards <;> rfl
  | category ref =>
      have hBound :
          other.boundPosition? ref =
            one.boundPosition? ref := by
        unfold boundPosition?
        simp only [hSites.get?_eq]
      have hSame :
          other.correlate image ref =
            one.correlate rule ref :=
        (correlate_eq_of_mismatched hSites.mismatched_eq other
          ref).trans
          (correlate_congr hSites.predicateIndex_eq
            hSites.branch_eq hBound)
      rw [Site.emit, hSame]
      refine hSymbols.trans (congrArg Except.ok ?_)
      have hLength := length_correlate_le hElement hSymbols
      cases symbols with
      | nil => rfl
      | cons symbol rest =>
          have hNone : rest = [] :=
            List.eq_nil_of_length_eq_zero
              (Nat.le_zero.mp (Nat.le_of_succ_le_succ hLength))
          rw [hNone]
          rfl
  | _ => cases hElement

theorem Pattern.copiesNothing_of_isReversible
    {pattern : Pattern}
    (hPattern :
      ∀ element ∈ pattern, element.isReversible = true) :
    Pattern.copiesNothing pattern = true := by
  rw [Pattern.copiesNothing, List.all_eq_true]
  intro element hElement
  have hHere := hPattern element hElement
  cases element <;> first | rfl | cases hHere

/- A reversed replacement writes the symbols in reverse. -/
theorem Site.Mirrors.buildFrom
    (hSites : one.Mirrors other rule image text reversed)
    {pattern : Pattern}
    (hPattern :
      ∀ element ∈ pattern, element.isReversible = true)
    {symbols : List Symbol}
    (hSymbols :
      one.buildFrom rule text [] pattern = .ok symbols) :
    other.buildFrom image reversed [] pattern.reverse =
      .ok symbols.reverse := by
  have hCopies :=
    Pattern.copiesNothing_of_isReversible hPattern
  have hReversed :
      Pattern.copiesNothing pattern.reverse = true := by
    apply Pattern.copiesNothing_of_isReversible
    intro element hElement
    exact hPattern element (List.mem_reverse.mp hElement)
  rcases (Site.buildFrom_eq_ok_iff hCopies [] symbols).mp
      hSymbols with
    ⟨parts, hParts, rfl⟩
  apply (Site.buildFrom_eq_ok_iff hReversed [] _).mpr
  refine ⟨(parts.map List.reverse).reverse, ?_, ?_⟩
  · rw [List.forall₂_reverse_iff, List.forall₂_map_right_iff]
    have hBoth :=
      (List.forall₂_and_left pattern parts).mpr
        ⟨hPattern, hParts⟩
    exact hBoth.imp fun element part hHere =>
      hSites.emit hHere.1 hHere.2
  · rw [List.nil_append, List.nil_append,
      List.reverse_flatten]

end Sites

/- The replacement of a branch is reversed with its rule. -/
theorem Predicate.replacementFor_mirror
    (predicate : Predicate)
    (branch : Nat) :
    predicate.mirror.replacementFor branch =
      (predicate.replacementFor branch).reverse := by
  simp only [replacementFor, mirror, List.length_map,
    List.getElem?_map]
  cases predicate.replacements[
      branch % predicate.replacements.length]? <;> rfl

/- The symbols of a site at the front of a word. -/
theorem Site.span_front
    (hWithin : choice.2.Within 0 word.length) :
    (predicate.siteOf choice).span word.toArray =
      word.take choice.2.length := by
  simp [span, Predicate.siteOf, WordArray.span_eq, Word.span,
    hWithin.start_eq, Match.length]

theorem Predicate.siteOf_mirrors
    (hWords : word.Mirrors mirrored length)
    (hWithin : choice.2.Within 0 word.length)
    (hWithin' : mirror.2.Within 0 mirrored.length)
    (hBranch : choice.1 = mirror.1)
    (hMirrors : choice.2.Mirrors mirror.2 length) :
    (predicate.siteOf choice).Mirrors
      (predicate.mirror.siteOf mirror) rule rule.mirror
      word.toArray mirrored.toArray where
  mismatched_eq := rfl
  predicateIndex_eq := rfl
  branch_eq := hBranch.symm
  get?_eq := hMirrors.get?_eq
  span_eq := by
    rw [Site.span_front hWithin, Site.span_front hWithin',
      hMirrors.length_eq, hMirrors.mirrored_eq,
      hWords.take_eq]

/-
  What the mirrored rule makes of the mirror image of a
  match is what the rule makes of the match, backwards.
-/
theorem Rule.rewriting_mirror
    (hReversible : rule.isReversible = true)
    (hWords : word.Mirrors mirrored length)
    (hWithin : choice.2.Within 0 word.length)
    (hWithin' : mirror.2.Within 0 mirrored.length)
    (hBranch : choice.1 = mirror.1)
    (hMirrors : choice.2.Mirrors mirror.2 length) :
    rule.mirror.rewriting mirrored mirror =
      (rule.rewriting word choice).reverse := by
  have hTaken :
      mirrored.take mirror.2.length =
        (word.take choice.2.length).reverse := by
    rw [hMirrors.length_eq, hMirrors.mirrored_eq,
      hWords.take_eq]
  cases hPredicates : rule.predicates with
  | nil => simpa [rewriting, Rule.mirror, hPredicates]
  | cons predicate others =>
  have hSites :
      (predicate.siteOf choice).Mirrors
        (predicate.mirror.siteOf mirror) rule rule.mirror
        word.toArray mirrored.toArray :=
    Predicate.siteOf_mirrors hWords hWithin hWithin' hBranch
      hMirrors
  have hPattern : ∀ element ∈ predicate.replacementFor choice.1,
      element.isReversible = true :=
    Rule.isReversible_replacementFor hReversible
      (by rw [hPredicates]; exact List.mem_cons_self) choice.1
  have hBuild :
      (predicate.mirror.siteOf mirror).build rule.mirror
          mirrored.toArray =
        (predicate.mirror.siteOf mirror).buildFrom rule.mirror
          mirrored.toArray []
          (predicate.replacementFor choice.1).reverse := by
    rw [hBranch, ← Predicate.replacementFor_mirror]
    rfl
  have hMirror :
      rule.mirror.predicates =
        predicate.mirror :: others.map Predicate.mirror := by
    rw [Rule.mirror, hPredicates, List.map_cons]
  rw [rewriting, rewriting, hPredicates, hMirror]
  dsimp only
  rw [hBuild]
  cases hSymbols :
      (predicate.siteOf choice).build rule word.toArray with
  | ok symbols =>
      rw [hSites.buildFrom hPattern hSymbols]
  | error problem =>
      -- the mirrored site cannot be built either, or else the
      -- mirror image of its symbols would be written here
      cases hImage :
          (predicate.mirror.siteOf mirror).buildFrom
            rule.mirror mirrored.toArray []
            (predicate.replacementFor choice.1).reverse with
      | error _ => exact hTaken
      | ok symbols =>
          have hBack :=
            hSites.symm.buildFrom
              (fun element hElement =>
                hPattern element (List.mem_reverse.mp hElement))
              hImage
          rw [List.reverse_reverse] at hBack
          cases hSymbols.symm.trans hBack

end Replacements

end Diachrony
