import Diachrony.Proofs.Matching.Bindings
import Mathlib.Order.Bounds.Basic

/-
  Alignments of elements with symbols.

  An alignment says which symbol each element is to match.
  How it binds slots does not depend on the order of its
  entries: each slot is bound to the least position at which
  all references with that slot have their symbols. Still it
  can be found entry by entry, if only tagged references
  share a slot.

  Key definitions include:
    * `Alignment.Candidate`
    * `Alignment.Binds`

  Key theorems include:
    * `Alignment.Binds.of_mem_iff`
    * `Alignment.Binds.get?_eq`
    * `Alignment.Binds.cons`
    * `Alignment.Binds.tail`
-/

namespace Diachrony

------------------------------------------------------------
-- Elements and symbols
------------------------------------------------------------

/- Whether a symbol is the one that an element asks for. -/
def Element.fits
    (symbol : Symbol) : Element → Bool
  | .literal own => own = symbol
  | _ => true

/- A reference has a symbol as its member at a position. -/
def CategoryRef.Offers
    (ref : CategoryRef)
    (symbol : Symbol)
    (position : Nat) : Prop :=
  ∃ category,
    ref.category = some category ∧
      category.members[position]? = some [.symbol symbol]

/-
  A reference is held to a position only if it is tagged and
  its slot is bound already.
-/
theorem CategoryRef.allows_iff
    {ref : CategoryRef}
    {slot : String}
    (hSlot : ref.slot = some slot)
    (bindings : Bindings)
    (position : Nat) :
    ref.allows bindings position = true ↔
      (ref.explicit = true → ∀ bound,
        bindings.get? slot = some bound →
          bound = position) := by
  unfold allows
  rw [hSlot, Option.bind_some]
  cases ref.explicit with
  | false => simp
  | true =>
      cases hBound : bindings.get? slot with
      | none => simp
      | some bound => simp

------------------------------------------------------------
-- Alignments
------------------------------------------------------------

/- Elements with the symbols that they are to match. -/
abbrev Alignment :=
  List (Element × Symbol)

namespace Alignment

/- A slot is that of a reference in an alignment. -/
def Occurs
    (pairs : Alignment)
    (slot : String) : Prop :=
  ∃ ref symbol,
    (Element.category ref, symbol) ∈ pairs ∧
      ref.slot = some slot

/-
  A position is a candidate for a slot if all its references
  may match their symbols there.
-/
def Candidate
    (pairs : Alignment)
    (bindings : Bindings)
    (slot : String)
    (position : Nat) : Prop :=
  ∀ ref symbol,
    (Element.category ref, symbol) ∈ pairs →
    ref.slot = some slot →
      ref.Offers symbol position ∧
        ref.allows bindings position = true

/-
  How an alignment binds slots: its literals are the symbols
  they are to match, each slot in it is bound to the least
  candidate, and all others stay as they were.
-/
structure Binds
    (pairs : Alignment)
    (before after : Bindings) : Prop where
  fits :
    ∀ element symbol, (element, symbol) ∈ pairs →
      element.fits symbol = true
  least :
    ∀ slot, Occurs pairs slot →
      ∃ position : Nat,
        after.get? slot = some (position : Int) ∧
          IsLeast { p | Candidate pairs before slot p } position
  kept :
    ∀ slot, ¬Occurs pairs slot →
      after.get? slot = before.get? slot

variable {pairs others : Alignment}
variable {before after : Bindings}

theorem Binds.nil :
    Binds [] before before where
  fits := by
    intro element symbol hMem
    cases hMem
  least := by
    rintro slot ⟨ref, symbol, hMem, _⟩
    cases hMem
  kept := fun _ _ => rfl

/- Only the entries of an alignment matter, not their order. -/
theorem Binds.of_mem_iff
    (hSame : ∀ pair, pair ∈ pairs ↔ pair ∈ others)
    (hBinds : Binds pairs before after) :
    Binds others before after where
  fits := by
    intro element symbol hMem
    exact hBinds.fits element symbol ((hSame _).mpr hMem)
  least := by
    intro slot hOccurs
    have hSlot : Occurs pairs slot := by
      rcases hOccurs with ⟨ref, symbol, hMem, hSlot⟩
      exact ⟨ref, symbol, (hSame _).mpr hMem, hSlot⟩
    have hCandidates : ∀ position,
        Candidate pairs before slot position ↔
          Candidate others before slot position := by
      intro position
      unfold Candidate
      simp only [hSame]
    rcases hBinds.least slot hSlot with
      ⟨position, hBound, hLeast⟩
    simp only [hCandidates] at hLeast
    exact ⟨position, hBound, hLeast⟩
  kept := by
    intro slot hAbsent
    apply hBinds.kept
    rintro ⟨ref, symbol, hMem, hSlot⟩
    exact hAbsent ⟨ref, symbol, (hSame _).mp hMem, hSlot⟩

/- There is one way to bind slots, up to the order of entries. -/
theorem Binds.get?_eq
    {one other : Bindings}
    (hOne : Binds pairs before one)
    (hOther : Binds pairs before other)
    (slot : String) :
    one.get? slot = other.get? slot := by
  by_cases hOccurs : Occurs pairs slot
  · rcases hOne.least slot hOccurs with
      ⟨position, hBound, hLeast⟩
    rcases hOther.least slot hOccurs with
      ⟨position', hBound', hLeast'⟩
    rw [hBound, hBound', hLeast.unique hLeast']
  · rw [hOne.kept slot hOccurs, hOther.kept slot hOccurs]

------------------------------------------------------------
-- One more element
------------------------------------------------------------

/- An element that refers to no category only has to fit. -/
theorem binds_cons_plain
    {element : Element}
    {symbol : Symbol}
    (hElement : ∀ ref, element ≠ .category ref) :
    Binds ((element, symbol) :: pairs) before after ↔
      element.fits symbol = true ∧
        Binds pairs before after := by
  have hCategory : ∀ ref other,
      (Element.category ref, other) ∈
          (element, symbol) :: pairs ↔
        (Element.category ref, other) ∈ pairs := by
    intro ref other
    rw [List.mem_cons, Prod.mk.injEq]
    constructor
    · rintro (⟨hSame, _⟩ | hMem)
      · exact absurd hSame.symm (hElement ref)
      · exact hMem
    · exact Or.inr
  have hOccurs : ∀ slot,
      Occurs ((element, symbol) :: pairs) slot ↔
        Occurs pairs slot := by
    simp only [Occurs, hCategory, implies_true]
  have hCandidate : ∀ slot position,
      Candidate ((element, symbol) :: pairs) before slot
          position ↔
        Candidate pairs before slot position := by
    simp only [Candidate, hCategory, implies_true]
  constructor
  · intro hBinds
    refine ⟨hBinds.fits _ _ List.mem_cons_self, ?_⟩
    · constructor
      · intro other seen hMem
        exact hBinds.fits other seen
          (List.mem_cons_of_mem _ hMem)
      · intro slot hSlot
        rcases hBinds.least slot ((hOccurs slot).mpr hSlot) with
          ⟨position, hBound, hLeast⟩
        simp only [hCandidate] at hLeast
        exact ⟨position, hBound, hLeast⟩
      · intro slot hAbsent
        exact hBinds.kept slot
          (mt (hOccurs slot).mp hAbsent)
  · rintro ⟨hFits, hBinds⟩
    constructor
    · intro other seen hMem
      rcases List.mem_cons.mp hMem with hSame | hLater
      · cases hSame
        exact hFits
      · exact hBinds.fits other seen hLater
    · intro slot hSlot
      simp only [hCandidate]
      exact hBinds.least slot ((hOccurs slot).mp hSlot)
    · intro slot hAbsent
      exact hBinds.kept slot (mt (hOccurs slot).mpr hAbsent)

/- All references with a slot have their symbols at a position. -/
def Offered
    (pairs : Alignment)
    (slot : String)
    (position : Nat) : Prop :=
  ∀ ref symbol,
    (Element.category ref, symbol) ∈ pairs →
    ref.slot = some slot →
      ref.Offers symbol position

/- All references with a slot are tagged. -/
def Tagged
    (pairs : Alignment)
    (slot : String) : Prop :=
  ∀ ref symbol,
    (Element.category ref, symbol) ∈ pairs →
    ref.slot = some slot →
      ref.explicit = true

section Category

variable {ref : CategoryRef}
variable {symbol : Symbol}
variable {slot other : String}
variable {position : Nat}

/- Other slots have the candidates that they had. -/
theorem candidate_set_ne
    (hNe : other ≠ slot)
    (bound : Int)
    (candidate : Nat) :
    Candidate pairs (before.set slot bound) other candidate ↔
      Candidate pairs before other candidate := by
  have hAllows : ∀ ref : CategoryRef, ref.slot = some other →
      (ref.allows (before.set slot bound) candidate = true ↔
        ref.allows before candidate = true) := by
    intro ref hSlot
    rw [CategoryRef.allows_iff hSlot,
      CategoryRef.allows_iff hSlot,
      Bindings.get?_set_ne before bound hNe]
  constructor
  · intro hCandidate ref symbol hMem hSlot
    have hHere := hCandidate ref symbol hMem hSlot
    exact ⟨hHere.1, (hAllows ref hSlot).mp hHere.2⟩
  · intro hCandidate ref symbol hMem hSlot
    have hHere := hCandidate ref symbol hMem hSlot
    exact ⟨hHere.1, (hAllows ref hSlot).mpr hHere.2⟩

/- A slot of tags that is bound has one candidate at most. -/
theorem candidate_set_self
    (hTagged : Tagged pairs slot)
    (hOccurs : Occurs pairs slot)
    (candidate : Nat) :
    Candidate pairs (before.set slot position) slot
        candidate ↔
      candidate = position ∧ Offered pairs slot candidate := by
  have hAllows : ∀ ref symbol,
      (Element.category ref, symbol) ∈ pairs →
      ref.slot = some slot →
        (ref.allows (before.set slot position) candidate =
            true ↔ candidate = position) := by
    intro ref symbol hMem hSlot
    rw [CategoryRef.allows_iff hSlot,
      Bindings.get?_set_self before]
    rw [hTagged ref symbol hMem hSlot]
    constructor
    · intro hHeld
      exact (Int.ofNat_inj.mp (hHeld rfl position rfl)).symm
    · rintro rfl _ bound hBound
      exact (Option.some.inj hBound).symm
  constructor
  · intro hCandidate
    constructor
    · rcases hOccurs with ⟨ref, symbol, hMem, hSlot⟩
      exact
        (hAllows ref symbol hMem hSlot).mp
          (hCandidate ref symbol hMem hSlot).2
    · intro ref symbol hMem hSlot
      exact (hCandidate ref symbol hMem hSlot).1
  · rintro ⟨hSame, hOffered⟩ ref symbol hMem hSlot
    exact ⟨hOffered ref symbol hMem hSlot,
      (hAllows ref symbol hMem hSlot).mpr hSame⟩

theorem occurs_cons
    (hSlot : ref.slot = some slot)
    (other : String) :
    Occurs ((.category ref, symbol) :: pairs) other ↔
      other = slot ∨ Occurs pairs other := by
  constructor
  · rintro ⟨found, seen, hMem, hFound⟩
    rcases List.mem_cons.mp hMem with hSame | hLater
    · cases hSame
      exact Or.inl (Option.some.inj (hFound.symm.trans hSlot))
    · exact Or.inr ⟨found, seen, hLater, hFound⟩
  · rintro (rfl | ⟨found, seen, hMem, hFound⟩)
    · exact ⟨ref, symbol, List.mem_cons_self, hSlot⟩
    · exact ⟨found, seen, List.mem_cons_of_mem _ hMem, hFound⟩

theorem candidate_cons_ne
    (hSlot : ref.slot = some slot)
    (hNe : other ≠ slot)
    (candidate : Nat) :
    Candidate ((.category ref, symbol) :: pairs) before other
        candidate ↔
      Candidate pairs before other candidate := by
  constructor
  · intro hCandidate found seen hMem
    exact hCandidate found seen (List.mem_cons_of_mem _ hMem)
  · intro hCandidate found seen hMem hFound
    rcases List.mem_cons.mp hMem with hSame | hLater
    · cases hSame
      exact absurd (Option.some.inj (hFound.symm.trans hSlot))
        hNe
    · exact hCandidate found seen hLater hFound

/-
  The candidates for the slot of a reference are those that
  it may match itself and that the others offer.
-/
theorem candidate_cons_self
    (hSlot : ref.slot = some slot)
    (hShared : ∀ found seen,
      (Element.category found, seen) ∈ pairs →
      found.slot = some slot →
        ref.explicit = true ∧ found.explicit = true)
    (candidate : Nat) :
    Candidate ((.category ref, symbol) :: pairs) before slot
        candidate ↔
      (ref.Offers symbol candidate ∧
        ref.allows before candidate = true) ∧
      Offered pairs slot candidate := by
  constructor
  · intro hCandidate
    refine ⟨hCandidate ref symbol List.mem_cons_self hSlot, ?_⟩
    intro found seen hMem hFound
    exact
      (hCandidate found seen (List.mem_cons_of_mem _ hMem)
        hFound).1
  · rintro ⟨⟨hOffers, hAllows⟩, hOffered⟩ found seen hMem hFound
    rcases List.mem_cons.mp hMem with hSame | hLater
    · cases hSame
      exact ⟨hOffers, hAllows⟩
    · refine ⟨hOffered found seen hLater hFound, ?_⟩
      rcases hShared found seen hLater hFound with
        ⟨hExplicit, _⟩
      rw [CategoryRef.allows_iff hSlot] at hAllows
      rw [CategoryRef.allows_iff hFound]
      intro _
      exact hAllows hExplicit

/-
  What an alignment binds if a slot is bound to one position
  it also binds if the slot is bound to another position, at
  which all its references have their symbols.
-/
theorem Binds.rebind
    (hTagged : Tagged pairs slot)
    (hBinds : Binds pairs (before.set slot position) after)
    {instead : Nat}
    (hOffered : Offered pairs slot instead) :
    Binds pairs (before.set slot instead)
      (after.set slot instead) where
  fits := hBinds.fits
  least := by
    intro other hOccurs
    by_cases hSame : other = slot
    · subst hSame
      refine ⟨instead, Bindings.get?_set_self _ _ _, ?_, ?_⟩
      · exact
          (candidate_set_self hTagged hOccurs instead).mpr
            ⟨rfl, hOffered⟩
      · intro candidate hCandidate
        have hOnly :=
          (candidate_set_self hTagged hOccurs candidate).mp
            hCandidate
        exact Nat.le_of_eq hOnly.1.symm
    · rcases hBinds.least other hOccurs with
        ⟨found, hBound, hLeast⟩
      refine ⟨found, ?_, ?_⟩
      · rw [Bindings.get?_set_ne _ _ hSame, hBound]
      · simp only [candidate_set_ne hSame] at hLeast ⊢
        exact hLeast
  kept := by
    intro other hAbsent
    have hKept := hBinds.kept other hAbsent
    rw [Bindings.get?_set] at hKept ⊢
    rw [Bindings.get?_set]
    split
    · rfl
    · rename_i hNe
      rw [if_neg hNe] at hKept
      exact hKept

/-
  If the rest of an alignment binds what is left once a slot
  is bound to a position, and it binds nothing if the slot
  is bound to an earlier one that may be matched, then the
  whole alignment binds the same.
-/
theorem Binds.cons
    (hSlot : ref.slot = some slot)
    (hShared : ∀ found seen,
      (Element.category found, seen) ∈ pairs →
      found.slot = some slot →
        ref.explicit = true ∧ found.explicit = true)
    (hOffers : ref.Offers symbol position)
    (hAllows : ref.allows before position = true)
    (hBinds : Binds pairs (before.set slot position) after)
    (hEarlier : ∀ earlier < position,
      ref.Offers symbol earlier →
      ref.allows before earlier = true →
        ∀ result,
          ¬Binds pairs (before.set slot earlier) result) :
    Binds ((.category ref, symbol) :: pairs) before after := by
  have hTagged : Tagged pairs slot :=
    fun found seen hMem hFound =>
      (hShared found seen hMem hFound).2
  constructor
  · intro element seen hMem
    rcases List.mem_cons.mp hMem with hSame | hLater
    · cases hSame
      rfl
    · exact hBinds.fits element seen hLater
  · intro other hOccurs
    by_cases hSame : other = slot
    · subst hSame
      have hBound :
          after.get? other = some (position : Int) ∧
            Offered pairs other position := by
        by_cases hLater : Occurs pairs other
        · rcases hBinds.least other hLater with
            ⟨found, hFound, hLeast⟩
          rcases (candidate_set_self hTagged hLater found).mp
              hLeast.1 with
            ⟨rfl, hOffered⟩
          exact ⟨hFound, hOffered⟩
        · refine ⟨?_, ?_⟩
          · rw [hBinds.kept other hLater,
              Bindings.get?_set_self]
          · intro found seen hMem hFound
            exact absurd ⟨found, seen, hMem, hFound⟩ hLater
      refine ⟨position, hBound.1, ?_, ?_⟩
      · exact
          (candidate_cons_self hSlot hShared position).mpr
            ⟨⟨hOffers, hAllows⟩, hBound.2⟩
      · intro earlier hCandidate
        rcases
            (candidate_cons_self hSlot hShared earlier).mp
              hCandidate with
          ⟨⟨hSymbol, hHeld⟩, hOffered⟩
        by_contra hLess
        exact hEarlier earlier (by omega) hSymbol hHeld _
          (hBinds.rebind hTagged hOffered)
    · have hLater : Occurs pairs other :=
        ((occurs_cons hSlot other).mp hOccurs).resolve_left
          hSame
      rcases hBinds.least other hLater with
        ⟨found, hBound, hLeast⟩
      refine ⟨found, hBound, ?_⟩
      simp only [candidate_set_ne hSame] at hLeast
      simp only [candidate_cons_ne hSlot hSame]
      exact hLeast
  · intro other hAbsent
    rw [occurs_cons hSlot] at hAbsent
    rw [hBinds.kept other fun hLater =>
      hAbsent (Or.inr hLater)]
    exact Bindings.get?_set_ne _ _
      fun hSame => hAbsent (Or.inl hSame)

/-
  The slot of the first reference is bound to a position that
  it may match, and the rest of an alignment binds the same
  once it is.
-/
theorem Binds.tail
    (hSlot : ref.slot = some slot)
    (hShared : ∀ found seen,
      (Element.category found, seen) ∈ pairs →
      found.slot = some slot →
        ref.explicit = true ∧ found.explicit = true)
    (hBinds :
      Binds ((.category ref, symbol) :: pairs) before after) :
    ∃ position,
      ref.Offers symbol position ∧
        ref.allows before position = true ∧
        Binds pairs (before.set slot position) after := by
  have hTagged : Tagged pairs slot :=
    fun found seen hMem hFound =>
      (hShared found seen hMem hFound).2
  rcases hBinds.least slot
      ((occurs_cons hSlot slot).mpr (Or.inl rfl)) with
    ⟨position, hBound, hLeast⟩
  rcases (candidate_cons_self hSlot hShared position).mp
      hLeast.1 with
    ⟨⟨hOffers, hAllows⟩, hOffered⟩
  refine ⟨position, hOffers, hAllows, ?_⟩
  constructor
  · intro element seen hMem
    exact hBinds.fits element seen
      (List.mem_cons_of_mem _ hMem)
  · intro other hOccurs
    by_cases hSame : other = slot
    · subst hSame
      refine ⟨position, hBound, ?_, ?_⟩
      · exact
          (candidate_set_self hTagged hOccurs position).mpr
            ⟨rfl, hOffered⟩
      · intro candidate hCandidate
        have hOnly :=
          (candidate_set_self hTagged hOccurs candidate).mp
            hCandidate
        exact Nat.le_of_eq hOnly.1.symm
    · rcases hBinds.least other
          ((occurs_cons hSlot other).mpr (Or.inr hOccurs)) with
        ⟨found, hFound, hLeast⟩
      refine ⟨found, hFound, ?_⟩
      simp only [candidate_cons_ne hSlot hSame] at hLeast
      simp only [candidate_set_ne hSame]
      exact hLeast
  · intro other hAbsent
    rw [Bindings.get?_set]
    split
    · rename_i hSame
      rw [hSame, hBound]
    · rename_i hNe
      apply hBinds.kept
      rw [occurs_cons hSlot]
      exact not_or.mpr ⟨hNe, hAbsent⟩

end Category

end Alignment

end Diachrony
