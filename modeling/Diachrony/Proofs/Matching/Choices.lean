import Diachrony.Proofs.Matching.Bindings
import Diachrony.Proofs.Matching.Instructions
import Diachrony.Proofs.Matching.Laziness

/-
  What a match does to bindings.

  On its way a match chooses one member for each category
  reference that it passes. The bindings at its end are
  those at its start with the positions of these choices. A
  tag that is bound leaves no choice but the member it is
  bound to, so that all references with one tag agree, if no
  slot is at once that of a tag and that of an untagged
  reference.

  Key definitions include:
    * `Choice`
    * `Machine.Passes`
    * `CategoryRef.Unmixed`
    * `Disciplined`
    * `Pattern.Accepts`

  Key theorems include:
    * `Disciplined.append`
    * `Machine.Passes.disciplined`
    * `Pattern.exists_accepts`
    * `Pattern.Accepts.disciplined`
-/

namespace Diachrony

/- A reference with the position of the member it matched. -/
structure Choice where
  ref : CategoryRef
  position : Nat
  deriving Repr, DecidableEq

------------------------------------------------------------
-- Disciplined bindings
------------------------------------------------------------

/- No slot is used with a tag and without one. -/
def CategoryRef.Unmixed
    (refs : List CategoryRef) : Prop :=
  ∀ one ∈ refs, ∀ other ∈ refs, ∀ slot,
    one.slot = some slot → other.slot = some slot →
      one.explicit = other.explicit

/- References that all have a tag do not mix. -/
theorem CategoryRef.unmixed_of_tags
    {refs : List CategoryRef}
    (hTags : ∀ ref ∈ refs, ref.explicit = true) :
    CategoryRef.Unmixed refs :=
  fun one hOne other hOther _ _ _ =>
    (hTags one hOne).trans (hTags other hOther).symm

/-
  The bindings before and after a match with some choices
  among some references. Tags that are bound and slots that
  occur nowhere are kept, a slot that is set holds the
  position of a member, and all choices of a tag are what it
  is bound to in the end.
-/
structure Disciplined
    (refs : List CategoryRef)
    (given : Bindings)
    (choices : List Choice)
    (later : Bindings) : Prop where
  chosen :
    ∀ choice ∈ choices,
      choice.ref ∈ refs ∧
        choice.ref.HasMember choice.position
  tags_kept :
    ∀ ref ∈ refs, ref.explicit = true →
      ∀ slot position, ref.slot = some slot →
        given.get? slot = some position →
          later.get? slot = some position
  others_kept :
    ∀ slot, (∀ ref ∈ refs, ref.slot ≠ some slot) →
      later.get? slot = given.get? slot
  unset_kept :
    ∀ slot,
      (∀ choice ∈ choices, choice.ref.slot ≠ some slot) →
        later.get? slot = given.get? slot
  set_inside :
    ∀ choice ∈ choices, ∀ slot,
      choice.ref.slot = some slot →
        ∃ ref ∈ refs, ∃ position : Nat,
          ref.slot = some slot ∧
            ref.HasMember position ∧
            later.get? slot = some (position : Int)
  tags_agree :
    ∀ choice ∈ choices, choice.ref.explicit = true →
      ∀ slot, choice.ref.slot = some slot →
        later.get? slot = some (choice.position : Int)

/- A slot that is not kept has been set. -/
theorem Disciplined.inside_of_ne
    {refs : List CategoryRef}
    {given later : Bindings}
    {choices : List Choice}
    (hDisciplined : Disciplined refs given choices later)
    {slot : String}
    (hSet : later.get? slot ≠ given.get? slot) :
    ∃ ref ∈ refs, ∃ position : Nat,
      ref.slot = some slot ∧
        ref.HasMember position ∧
        later.get? slot = some (position : Int) := by
  by_cases hChosen :
      ∃ choice ∈ choices, choice.ref.slot = some slot
  · rcases hChosen with ⟨choice, hChoice, hSlot⟩
    exact hDisciplined.set_inside choice hChoice slot hSlot
  · refine absurd (hDisciplined.unset_kept slot ?_) hSet
    intro choice hChoice hSlot
    exact hChosen ⟨choice, hChoice, hSlot⟩

/- What is bound after a reference has matched a member. -/
theorem CategoryRef.get?_record
    (ref : CategoryRef)
    (position : Nat)
    (bindings : Bindings)
    (slot : String) :
    (ref.record position bindings).get? slot =
      if ref.slot = some slot then
        some (position : Int)
      else
        bindings.get? slot := by
  rw [record]
  cases hSlot : ref.slot with
  | none => rfl
  | some own =>
      simp only [Bindings.get?_set, Option.some.injEq, eq_comm]

namespace Disciplined

variable {refs : List CategoryRef}
variable {given between later : Bindings}
variable {choices more : List Choice}

/- Where nothing is chosen everything is kept. -/
theorem nothing :
    Disciplined refs given [] given where
  chosen := by simp
  tags_kept := fun _ _ _ _ _ _ hBound => hBound
  others_kept := fun _ _ => rfl
  unset_kept := fun _ _ => rfl
  set_inside := by simp
  tags_agree := by simp

/-
  One choice binds the slot of its reference. If that is a
  tag that is bound already, it stays bound to the same.
-/
theorem single
    {ref : CategoryRef}
    {position : Nat}
    (hUnmixed : CategoryRef.Unmixed refs)
    (hRef : ref ∈ refs)
    (hMember : ref.HasMember position)
    (hAllowed :
      (given.required ref).all fun bound =>
        (position : Int) = bound) :
    Disciplined refs given [⟨ref, position⟩]
      (ref.record position given) where
  chosen := by
    intro choice hChoice
    obtain rfl := List.mem_singleton.mp hChoice
    exact ⟨hRef, hMember⟩
  tags_kept := by
    intro other hOther hTag slot bound hSlot hBound
    rw [CategoryRef.get?_record]
    split
    · rename_i hOwn
      have hExplicit : ref.explicit = true :=
        (hUnmixed ref hRef other hOther slot hOwn hSlot).trans
          hTag
      rw [Bindings.required, if_pos hExplicit, hOwn,
        Option.bind_some, hBound] at hAllowed
      exact congrArg some (of_decide_eq_true hAllowed)
    · exact hBound
  others_kept := by
    intro slot hOther
    rw [CategoryRef.get?_record, if_neg (hOther ref hRef)]
  unset_kept := by
    intro slot hUnset
    rw [CategoryRef.get?_record,
      if_neg (hUnset _ (List.mem_singleton_self _))]
  set_inside := by
    intro choice hChoice slot hSlot
    obtain rfl := List.mem_singleton.mp hChoice
    refine ⟨ref, hRef, position, hSlot, hMember, ?_⟩
    rw [CategoryRef.get?_record, if_pos hSlot]
  tags_agree := by
    intro choice hChoice _ slot hSlot
    obtain rfl := List.mem_singleton.mp hChoice
    rw [CategoryRef.get?_record, if_pos hSlot]

/- Choices that are made one after another. -/
theorem append
    (hFirst : Disciplined refs given choices between)
    (hSecond : Disciplined refs between more later) :
    Disciplined refs given (choices ++ more) later where
  chosen := by
    intro choice hChoice
    rcases List.mem_append.mp hChoice with hHere | hThere
    · exact hFirst.chosen choice hHere
    · exact hSecond.chosen choice hThere
  tags_kept := by
    intro ref hRef hTag slot position hSlot hBound
    exact hSecond.tags_kept ref hRef hTag slot position hSlot
      (hFirst.tags_kept ref hRef hTag slot position hSlot
        hBound)
  others_kept := by
    intro slot hOther
    rw [hSecond.others_kept slot hOther,
      hFirst.others_kept slot hOther]
  unset_kept := by
    intro slot hUnset
    rw [List.forall_mem_append] at hUnset
    rw [hSecond.unset_kept slot hUnset.2,
      hFirst.unset_kept slot hUnset.1]
  set_inside := by
    intro choice hChoice slot hSlot
    -- The last choice for the slot counts.
    by_cases hAgain : later.get? slot = between.get? slot
    · rcases List.mem_append.mp hChoice with hHere | hThere
      · rw [hAgain]
        exact hFirst.set_inside choice hHere slot hSlot
      · exact hSecond.set_inside choice hThere slot hSlot
    · exact hSecond.inside_of_ne hAgain
  tags_agree := by
    intro choice hChoice hTag slot hSlot
    rcases List.mem_append.mp hChoice with hHere | hThere
    · exact hSecond.tags_kept choice.ref
        (hFirst.chosen choice hHere).1 hTag slot _ hSlot
        (hFirst.tags_agree choice hHere hTag slot hSlot)
    · exact hSecond.tags_agree choice hThere hTag slot hSlot

end Disciplined

------------------------------------------------------------
-- Ways of a thread
------------------------------------------------------------

namespace Machine

/-
  A way of a thread to another one, step by step, with the
  members that it chooses for the references it passes.
-/
inductive Passes
    (machine : Machine) :
    Thread → List Choice → Thread → Prop where
  | here
      {thread : Thread} :
      Passes machine thread [] thread
  | plain
      {thread next last : Thread}
      {instruction : Instruction}
      {threads : List Thread}
      {choices : List Choice}
      (hInstruction :
        machine.code[thread.address]? = some instruction)
      (hPlain :
        ∀ ref trials, instruction ≠ .category ref trials)
      (hStep :
        machine.window.step thread instruction =
          .split threads)
      (hNext : next ∈ threads)
      (hRest : Passes machine next choices last) :
      Passes machine thread choices last
  | choosing
      {thread last : Thread}
      {ref : CategoryRef}
      {trials : List (Nat × Member)}
      {position stop : Nat}
      {member : Member}
      {choices : List Choice}
      (hInstruction :
        machine.code[thread.address]? =
          some (.category ref trials))
      (hTrial : (position, member) ∈ trials)
      (hAllowed :
        (thread.bindings.required ref).all fun bound =>
          (position : Int) = bound)
      (hMember :
        machine.window.memberEnd? thread.pos member =
          some stop)
      (hRest :
        Passes machine
          { address := thread.address + 1
            pos := stop
            bindings :=
              thread.bindings.bind ref.slot position }
          choices last) :
      Passes machine thread (⟨ref, position⟩ :: choices) last

variable {machine : Machine}
variable {thread next last : Thread}
variable {choices : List Choice}

/- Each step of a machine goes past a reference or not. -/
theorem Passes.exists_head
    (hNext : machine.Next thread next)
    (hRest : machine.Passes next choices last) :
    ∃ all, machine.Passes thread all last := by
  rcases hNext with
    ⟨instruction, threads, hInstruction, hStep, hMem⟩
  by_cases hCategory :
      ∃ ref trials, instruction = .category ref trials
  · rcases hCategory with ⟨ref, trials, rfl⟩
    cases hStep
    rcases List.mem_filterMap.mp hMem with
      ⟨⟨position, member⟩, hTrial, hTried⟩
    dsimp only at hTried
    split at hTried
    · rename_i hAllowed
      rcases Option.map_eq_some_iff.mp hTried with
        ⟨stop, hMember, rfl⟩
      exact ⟨_, Passes.choosing hInstruction hTrial hAllowed
        hMember hRest⟩
    · cases hTried
  · refine ⟨choices, Passes.plain hInstruction ?_ hStep hMem
      hRest⟩
    intro ref trials hSame
    exact hCategory ⟨ref, trials, hSame⟩

/- A thread that can be come to is come to in some way. -/
theorem exists_passes
    (hReaches :
      Relation.ReflTransGen machine.Next thread last) :
    ∃ choices, machine.Passes thread choices last := by
  induction hReaches using
      Relation.ReflTransGen.head_induction_on with
  | refl => exact ⟨[], Passes.here⟩
  | head hNext _ ih =>
      rcases ih with ⟨choices, hRest⟩
      exact hRest.exists_head hNext

/- Each way of a thread leaves disciplined bindings. -/
theorem Passes.disciplined
    {refs : List CategoryRef}
    (hUnmixed : CategoryRef.Unmixed refs)
    (hCode :
      ∀ ref trials position member,
        .category ref trials ∈ machine.code →
          (position, member) ∈ trials →
            ref ∈ refs ∧ ref.HasMember position)
    (hPasses : machine.Passes thread choices last) :
    Disciplined refs thread.bindings choices
      last.bindings := by
  induction hPasses with
  | here => exact Disciplined.nothing
  | plain _ hPlain hStep hNext _ ih =>
      rw [Window.bindings_of_step hPlain hStep hNext] at ih
      exact ih
  | choosing hInstruction hTrial hAllowed _ _ ih =>
      have hRef := hCode _ _ _ _
        (Array.mem_of_getElem? hInstruction) hTrial
      rw [Bindings.bind_eq_record] at ih
      exact (Disciplined.single hUnmixed hRef.1 hRef.2
        hAllowed).append ih

end Machine

------------------------------------------------------------
-- Accepted matches
------------------------------------------------------------

/-
  A match that a pattern accepts at a position, with the
  choices on its way.
-/
def Pattern.Accepts
    (pattern : Pattern)
    (word : WordArray)
    (start : Nat)
    (request : MatchRequest)
    (choices : List Choice)
    (found : Match) : Prop :=
  ∃ last,
    (request.machine pattern word start).Passes
        (request.thread start) choices last ∧
      (request.machine pattern word start).CanEnd last ∧
      (request.machine pattern word start).found last = found

/- What a reference tries are the members of its category. -/
theorem CategoryRef.hasMember_of_trial
    {ref : CategoryRef}
    {trials : List (Nat × Member)}
    {position : Nat}
    {member : Member}
    (hTrials : ref.instruction = .category ref trials)
    (hTrial : (position, member) ∈ trials) :
    ref.HasMember position := by
  unfold instruction at hTrials
  split at hTrials
  · cases hTrials
  · rename_i category hCategory
    cases hTrials
    rw [Category.trials_eq] at hTrial
    rcases List.mem_map.mp hTrial with ⟨entry, hEntry, hSwap⟩
    cases hSwap
    exact ⟨category, hCategory, List.snd_lt_of_mem_zipIdx
      ((List.mem_insertionSort _).mp hEntry)⟩

namespace Pattern

variable {pattern : Pattern}
variable {word : WordArray}
variable {request : MatchRequest}
variable {found : Match}

/- A match that is found begins in the word and is accepted. -/
theorem exists_accepts
    {start : Int}
    (hFound :
      Pattern.matchAt pattern word start request =
        .ok (some found)) :
    (start.toNat : Int) = start ∧
      ∃ choices,
        pattern.Accepts word start.toNat request choices
          found := by
  have hAttains := attains_of_matchAt hFound
  split at hAttains
  · cases hAttains
  rename_i hInside
  refine ⟨by omega, ?_⟩
  rcases hAttains.source with hNone | ⟨last, hLast, hSame⟩
  · cases hNone
  rcases hLast with ⟨hEnd, thread, hThread, hReaches⟩
  rw [List.mem_singleton.mp hThread] at hReaches
  rcases Machine.exists_passes hReaches with ⟨choices, hPasses⟩
  exact ⟨choices, last, hPasses, hEnd,
    (Option.some.inj hSame).symm⟩

/-
  What is accepted leaves disciplined bindings, among any
  references that contain those of the pattern.
-/
theorem Accepts.disciplined
    {start : Nat}
    {choices : List Choice}
    {refs : List CategoryRef}
    (hUnmixed : CategoryRef.Unmixed refs)
    (hRefs : pattern.categoryRefs ⊆ refs)
    (hAccepts :
      pattern.Accepts word start request choices found) :
    Disciplined refs request.bindings choices
      found.bindings := by
  rcases hAccepts with ⟨last, hPasses, -, rfl⟩
  refine hPasses.disciplined hUnmixed ?_
  intro ref trials position member hCode hTrial
  rcases List.mem_append.mp (List.mem_toArray.mp hCode) with
    hInside | hAccept
  · have hRef := ref_of_mem_code pattern hInside
    exact ⟨hRefs hRef.1,
      CategoryRef.hasMember_of_trial hRef.2 hTrial⟩
  · cases List.mem_singleton.mp hAccept

end Pattern

end Diachrony
