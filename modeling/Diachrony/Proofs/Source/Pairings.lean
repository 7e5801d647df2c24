import Diachrony.Proofs.Source.AsRead

/-
  Disabled pairings.

  When a rule is compiled, the reference that binds a slot
  is compared with each reference of a replacement that has
  the slot. The pairings of a rule that are disabled are
  those for which a difference in length was found, and no
  others.

  Key definitions include:
    * `CategoryRef.Unequal`
    * `Rule.FindsUnequal`

  Key theorems include:
    * `Pairing.mem_sorted`
    * `Rule.Assembled.mem_mismatched`
    * `Rule.Assembled.findsUnequal_of_untagged`
-/

namespace Diachrony

------------------------------------------------------------
-- Sorted pairings
------------------------------------------------------------

namespace Pairing

variable {pairing other : Pairing}
variable {pairings : List Pairing}

theorem mem_insert :
    pairing ∈ Pairing.insert other pairings ↔
      pairing = other ∨ pairing ∈ pairings := by
  induction pairings with
  | nil => exact List.mem_cons
  | cons first rest ih =>
      rw [Pairing.insert]
      split
      · rename_i hSame
        subst hSame
        rw [List.mem_cons, ← or_assoc, or_self]
      split
      · exact List.mem_cons
      · rw [List.mem_cons, List.mem_cons, ih, or_left_comm]

/- Sorting neither loses nor adds pairings. -/
theorem mem_sorted :
    pairing ∈ Pairing.sorted pairings ↔ pairing ∈ pairings := by
  induction pairings with
  | nil => exact Iff.rfl
  | cons first rest ih =>
      rw [Pairing.sorted, List.foldr_cons, mem_insert,
        List.mem_cons]
      exact or_congr_right ih

end Pairing

------------------------------------------------------------
-- Findings
------------------------------------------------------------

/-
  References are paired at a slot and their categories have
  different lengths.
-/
def CategoryRef.Unequal
    (sources : List CategoryRef)
    (own : CategoryRef)
    (slot : String) : Prop :=
  own.slot = some slot ∧
    ∃ source category other,
      slotSource? sources own = some source ∧
        own.category = some category ∧
        source.category = some other ∧
        other.size ≠ category.size

/-
  For a predicate and a branch of a rule, a reference in the
  replacement and the one that binds its slot have different
  lengths.
-/
def Rule.FindsUnequal
    (rule : Rule)
    (predicateIndex branchIndex : Nat)
    (slot : String) : Prop :=
  ∃ predicate branch,
    rule.predicates[predicateIndex]? = some predicate ∧
      rule.branches[branchIndex]? = some branch ∧
      ∃ own ∈
          Pattern.categoryRefs
            (predicate.replacementFor branchIndex),
        own.Unequal (slotSources branch predicate) slot

/- A reference that is paired with another one has a slot. -/
theorem slot_of_slotSource?
    {sources : List CategoryRef}
    {own source : CategoryRef}
    (hSource : slotSource? sources own = some source) :
    ∃ slot, own.slot = some slot := by
  cases hSlot : own.slot with
  | some slot => exact ⟨slot, rfl⟩
  | none =>
      rw [slotSource?, hSlot] at hSource
      cases hSource

/- A finding disables a pairing for a difference in length. -/
theorem correlationFinding?_pairing
    {predicateIndex branchIndex : Nat}
    {sources : List CategoryRef}
    {own : CategoryRef}
    {pairing : Pairing} :
    (correlationFinding? predicateIndex branchIndex sources
        own).bind Finding.pairing = some pairing ↔
      pairing.1 = predicateIndex ∧
        pairing.2.1 = branchIndex ∧
        own.Unequal sources pairing.2.2 := by
  constructor
  · intro hPairing
    unfold correlationFinding? at hPairing
    split at hPairing
    · cases hPairing
    rename_i category hCategory
    split at hPairing
    · split at hPairing <;> cases hPairing
    rename_i source hSource
    split at hPairing
    · cases hPairing
    rename_i other hOther
    split at hPairing
    · cases hPairing
    rename_i hSizes
    rcases slot_of_slotSource? hSource with ⟨slot, hSlot⟩
    rw [hSlot] at hPairing
    cases hPairing
    exact ⟨rfl, rfl, hSlot, source, category, other, hSource,
      hCategory, hOther, hSizes⟩
  · rcases pairing with ⟨p, b, slot⟩
    rintro ⟨rfl, rfl, hSlot, source, category, other, hSource,
      hCategory, hOther, hSizes⟩
    rw [correlationFinding?, hCategory]
    dsimp only
    rw [hSource]
    dsimp only
    rw [hOther]
    dsimp only
    rw [if_neg hSizes, hSlot]
    rfl

/- The pairings that a rule disables are those it finds unequal. -/
theorem Rule.Assembled.mem_mismatched
    {rule : Rule}
    {body : RuleBody}
    (hRule : rule.Assembled body)
    {predicateIndex branchIndex : Nat}
    {slot : String} :
    (predicateIndex, branchIndex, slot) ∈ rule.mismatched ↔
      rule.FindsUnequal predicateIndex branchIndex slot := by
  rw [hRule.mismatched_eq, Pairing.mem_sorted,
    List.mem_filterMap]
  constructor
  · rintro ⟨finding, hFinding, hPairing⟩
    rcases List.mem_flatMap.mp hFinding with
      ⟨⟨predicate, p⟩, hPredicate, hFinding⟩
    rcases List.mem_flatMap.mp hFinding with
      ⟨⟨branch, b⟩, hBranch, hFinding⟩
    rcases List.mem_filterMap.mp hFinding with
      ⟨own, hOwn, hFound⟩
    have hBoth :=
      correlationFinding?_pairing.mp
        ((congrArg (Option.bind · Finding.pairing) hFound).trans
          hPairing)
    rcases hBoth with ⟨rfl, rfl, hUnequal⟩
    exact ⟨predicate, branch,
      List.mem_zipIdx_iff_getElem?.mp hPredicate,
      List.mem_zipIdx_iff_getElem?.mp hBranch, own, hOwn,
      hUnequal⟩
  · rintro ⟨predicate, branch, hPredicate, hBranch, own, hOwn,
      hUnequal⟩
    have hBoth :
        (correlationFinding? predicateIndex branchIndex
            (slotSources branch predicate) own).bind
              Finding.pairing =
          some (predicateIndex, branchIndex, slot) :=
      correlationFinding?_pairing.mpr ⟨rfl, rfl, hUnequal⟩
    rcases Option.bind_eq_some_iff.mp hBoth with
      ⟨finding, hFound, hPairing⟩
    refine ⟨finding, ?_, hPairing⟩
    apply List.mem_flatMap.mpr
    refine ⟨(predicate, predicateIndex),
      List.mem_zipIdx_iff_getElem?.mpr hPredicate, ?_⟩
    apply List.mem_flatMap.mpr
    refine ⟨(branch, branchIndex),
      List.mem_zipIdx_iff_getElem?.mpr hBranch, ?_⟩
    exact List.mem_filterMap.mpr ⟨own, hOwn, hFound⟩

------------------------------------------------------------
-- Untagged pairs
------------------------------------------------------------

/- An untagged reference is the source of its own slot. -/
theorem slotSource?_of_untagged
    {branch : Branch}
    {predicate : Predicate}
    {ref own : CategoryRef}
    (hSlots : Pattern.WellSlotted branch.target)
    (hMem : ref ∈ Pattern.categoryRefs branch.target)
    (hUntagged : ref.explicit = false)
    (hSame : own.slot = ref.slot) :
    slotSource? (slotSources branch predicate) own =
      some ref := by
  rcases hSlots.slotted ref hMem with ⟨slot, hSlot, hSome⟩
  rcases List.append_of_mem hMem with ⟨before, after, hRefs⟩
  have hShared := hSlots.shared
  rw [hRefs] at hShared
  have hBefore : ∀ other ∈ before,
      other.slot ≠ some slot := by
    intro other hOther hTaken
    have hBoth :=
      (List.pairwise_append.mp hShared).2.2 other hOther ref
        List.mem_cons_self (hTaken.trans hSlot.symm)
    rw [hUntagged] at hBoth
    cases hBoth.2
  rw [slotSource?, hSame, hSlot]
  dsimp only
  rw [if_neg hSome, List.find?_eq_some_iff_append]
  refine ⟨decide_eq_true hSlot,
    before.filter (fun other => other.slot.isSome),
    after.filter (fun other => other.slot.isSome) ++
      taggedRefs predicate.environments, ?_, ?_⟩
  · rw [slotSources, hRefs, List.filter_append,
      List.filter_cons_of_pos (by rw [hSlot]; rfl),
      List.append_assoc]
    rfl
  · intro other hOther
    have hMem := (List.mem_filter.mp hOther).1
    simpa using hBefore other hMem

/-
  If untagged references with the same number differ in
  length, this is found when the rule is compiled.
-/
theorem Rule.Assembled.findsUnequal_of_untagged
    {rule : Rule}
    {body : RuleBody}
    (hRule : rule.Assembled body)
    {predicateIndex branchIndex : Nat}
    {predicate : Predicate}
    {branch : Branch}
    (hPredicate :
      rule.predicates[predicateIndex]? = some predicate)
    (hBranch : rule.branches[branchIndex]? = some branch)
    {before after front back : Pattern}
    {ref own : CategoryRef}
    (hTarget :
      branch.target = before ++ .category ref :: after)
    (hReplacement :
      predicate.replacementFor branchIndex =
        front ++ .category own :: back)
    (hRef : ref.explicit = false)
    (hOwn : own.explicit = false)
    (hCount :
      Pattern.untagged front = Pattern.untagged before)
    {category other : Category}
    (hCategory : own.category = some category)
    (hOther : ref.category = some other)
    (hSizes : other.size ≠ category.size) :
    rule.FindsUnequal predicateIndex branchIndex
      (implicitSlot (Pattern.untagged before)) := by
  rcases hRule.exists_target (List.mem_of_getElem? hBranch)
    with ⟨target, hTargetRead, hNumbered⟩
  rcases hRule.exists_replacement
      (List.mem_of_getElem? hPredicate) branchIndex with
    ⟨replacement, _, hWritten⟩
  have hRefSlot :=
    Pattern.slot_of_untagged (hNumbered.symm.trans hTarget) hRef
  have hOwnSlot :=
    Pattern.slot_of_untagged
      (hWritten.symm.trans hReplacement) hOwn
  rw [hCount] at hOwnSlot
  have hSlots : Pattern.WellSlotted branch.target := by
    rw [hNumbered]
    exact Pattern.wellSlotted_assignSlots hTargetRead.refs
  refine ⟨predicate, branch, hPredicate, hBranch, own, ?_,
    hOwnSlot, ref, category, other, ?_, hCategory, hOther,
    hSizes⟩
  · rw [hReplacement]
    exact Pattern.mem_categoryRefs_split front back own
  · have hMem := Pattern.mem_categoryRefs_split before after ref
    rw [← hTarget] at hMem
    exact
      slotSource?_of_untagged hSlots hMem hRef
        (hOwnSlot.trans hRefSlot.symm)

end Diachrony
