import Diachrony.Proofs.Matching.Laziness
import Diachrony.Proofs.Scan.Totality
import Diachrony.Source.Correlation

/-
  Searches with and without lazy marks.

  Two searches that differ in lazy marks may take different
  numbers of steps, so one of them may be abandoned. If none
  is, they come to the same: a target is matched as far as
  possible, of a context it only matters whether it is there
  at all, and without references nothing is bound.

  Key definitions include:
    * `Concur`
    * `Environment.eager`

  Key theorems include:
    * `firstSome_concur_map`
    * `Pattern.matchAt_concur`
    * `Environment.holds_concur`
    * `anyHolds_concur`
-/

namespace Diachrony

------------------------------------------------------------
-- Attempts that concur
------------------------------------------------------------

section Attempts

variable {α β γ δ : Type}

/- An attempt for which a match was abandoned. -/
def Abandoned
    (attempt : Except MatchFault γ) : Prop :=
  ∃ steps, attempt = .error (.outOfSteps steps)

instance Abandoned.decidable :
    (attempt : Except MatchFault γ) →
      Decidable (Abandoned attempt)
  | .error (.outOfSteps steps) => isTrue ⟨steps, rfl⟩
  | .error .foreignElement =>
      isFalse fun ⟨_, hFault⟩ => by cases hFault
  | .ok _ => isFalse fun ⟨_, hFault⟩ => by cases hFault

/- Attempts that come to the same, unless one is abandoned. -/
def Concur
    (one other : Except MatchFault γ) : Prop :=
  Abandoned one ∨ Abandoned other ∨ one = other

theorem Concur.same
    (attempt : Except MatchFault γ) :
    Concur attempt attempt :=
  .inr (.inr rfl)

/- Attempts that concur are the same if none is abandoned. -/
theorem Concur.eq
    {one other : Except MatchFault γ}
    (hSame : Concur one other)
    (hOne : ¬Abandoned one)
    (hOther : ¬Abandoned other) :
    one = other :=
  (hSame.resolve_left hOne).resolve_left hOther

theorem Concur.ok_inj
    {result reply : γ}
    (hSame :
      Concur (.ok result : Except MatchFault γ) (.ok reply)) :
    result = reply := by
  rcases hSame with ⟨_, hLost⟩ | ⟨_, hLost⟩ | hBoth
  · cases hLost
  · cases hLost
  · exact Except.ok.inj hBoth

/- What is made of an attempt is abandoned only with it. -/
theorem Abandoned.of_map
    {attempt : Except MatchFault γ}
    {f : γ → δ}
    (hAbandoned : Abandoned (attempt.map f)) :
    Abandoned attempt := by
  rcases hAbandoned with ⟨steps, hFault⟩
  cases attempt with
  | error fault =>
      cases hFault
      exact ⟨steps, rfl⟩
  | ok result => cases hFault

/- What is made of results that concur does so as well. -/
theorem Concur.map
    {one other : Except MatchFault γ}
    (hSame : Concur one other)
    (f : γ → δ) :
    Concur (one.map f) (other.map f) := by
  rcases hSame with ⟨steps, rfl⟩ | ⟨steps, rfl⟩ | rfl
  · exact .inl ⟨steps, rfl⟩
  · exact .inr (.inl ⟨steps, rfl⟩)
  · exact .same _

/- Attempts that go on from results that concur. -/
theorem Concur.bind
    {one other : Except MatchFault γ}
    {next follow : γ → Except MatchFault δ}
    (hFirst : Concur one other)
    (hNext :
      ∀ result, one = .ok result →
        Concur (next result) (follow result)) :
    Concur (one.bind next) (other.bind follow) := by
  rcases hFirst with ⟨steps, rfl⟩ | ⟨steps, rfl⟩ | rfl
  · exact .inl ⟨steps, rfl⟩
  · exact .inr (.inl ⟨steps, rfl⟩)
  · cases one with
    | error fault => exact .same _
    | ok result => exact hNext result rfl

/- A search tries its first candidate and then the others. -/
theorem firstSome_cons
    (attempt : α → Except MatchFault (Option γ))
    (first : α)
    (rest : List α) :
    firstSome attempt (first :: rest) =
      (attempt first).bind fun result =>
        match result with
        | some found => .ok (some found)
        | none => firstSome attempt rest := by
  rw [firstSome]
  cases attempt first with
  | error fault => rfl
  | ok result => cases result <;> rfl

theorem collect_cons
    (attempt : α → Except MatchFault (Option γ))
    (first : α)
    (rest : List α) :
    collect attempt (first :: rest) =
      (attempt first).bind fun result =>
        (collect attempt rest).map (result.toList ++ ·) := by
  rw [collect]
  cases attempt first with
  | error fault => rfl
  | ok result => cases collect attempt rest <;> rfl

/-
  Searches among candidates of the same appearance concur if
  each pair of them that appear the same does.
-/
theorem firstSome_concur_map
    {attempt : α → Except MatchFault (Option γ)}
    {shown : β → Except MatchFault (Option γ)}
    {appearance : α → δ}
    {look : β → δ}
    {candidates : List α}
    {others : List β}
    (hSame : candidates.map appearance = others.map look)
    (hEach :
      ∀ one ∈ candidates, ∀ other,
        appearance one = look other →
          Concur (attempt one) (shown other)) :
    Concur (firstSome attempt candidates)
      (firstSome shown others) := by
  induction candidates generalizing others with
  | nil =>
      obtain rfl := List.map_eq_nil_iff.mp hSame.symm
      exact .same _
  | cons one rest ih =>
      rcases List.map_eq_cons_iff.mp hSame.symm with
        ⟨other, later, rfl, hHere, hRest⟩
      rcases List.forall_mem_cons.mp hEach with
        ⟨hFirst, hLater⟩
      rw [firstSome_cons, firstSome_cons]
      refine (hFirst other hHere.symm).bind fun result _ => ?_
      cases result with
      | none => exact ih hRest.symm hLater
      | some found => exact .same _

/- In particular searches among the same candidates. -/
theorem firstSome_concur
    {attempt shown : α → Except MatchFault (Option γ)}
    {candidates : List α}
    (hEach :
      ∀ one ∈ candidates, Concur (attempt one) (shown one)) :
    Concur (firstSome attempt candidates)
      (firstSome shown candidates) := by
  have hSame : candidates.map id = candidates.map id := rfl
  apply firstSome_concur_map hSame
  rintro one hOne _ rfl
  exact hEach one hOne

theorem collect_concur
    {attempt shown : α → Except MatchFault (Option γ)}
    {candidates : List α}
    (hEach :
      ∀ one ∈ candidates, Concur (attempt one) (shown one)) :
    Concur (collect attempt candidates)
      (collect shown candidates) := by
  induction candidates with
  | nil => exact .same _
  | cons one rest ih =>
      rcases List.forall_mem_cons.mp hEach with
        ⟨hFirst, hLater⟩
      rw [collect_cons, collect_cons]
      exact hFirst.bind fun result _ => (ih hLater).map _

/- If all results are images, then so are those collected. -/
theorem collect_image
    (attempt : α → Except MatchFault (Option γ))
    (image : γ → δ)
    (candidates : List α) :
    collect
        (fun candidate =>
          (attempt candidate).map (Option.map image))
        candidates =
      (collect attempt candidates).map (List.map image) := by
  induction candidates with
  | nil => rfl
  | cons candidate rest ih =>
      rw [collect, collect, ih]
      cases attempt candidate with
      | error fault => rfl
      | ok result =>
          cases collect attempt rest with
          | error fault => rfl
          | ok results => cases result <;> rfl

end Attempts

------------------------------------------------------------
-- Matches
------------------------------------------------------------

section Matches

variable {one other : Pattern}
variable (hSame : Pattern.eager one = Pattern.eager other)
variable (hFree : Pattern.categoryRefs one = [])

include hSame

theorem Pattern.categoryRefs_of_eager
    (hFree : Pattern.categoryRefs one = []) :
    Pattern.categoryRefs other = [] := by
  rw [← categoryRefs_eager, ← hSame, categoryRefs_eager, hFree]

/-
  Two matches of which none is abandoned have both failed
  for want of a matcher, or both have come to a result.
-/
theorem Pattern.matchAt_outcomes
    (word : WordArray)
    (start : Int)
    (request : MatchRequest) :
    Concur (Pattern.matchAt one word start request)
        (Pattern.matchAt other word start request) ∨
      ∃ result reply,
        Pattern.matchAt one word start request = .ok result ∧
          Pattern.matchAt other word start request =
            .ok reply := by
  have hBoth : one.matchable = other.matchable := by
    rw [← Pattern.matchable_eager one, hSame,
      Pattern.matchable_eager]
  cases hMatchable : Pattern.matchable one with
  | false =>
      refine .inl (.inr (.inr ?_))
      rw [matchAt, matchAt, ← hBoth, hMatchable]
      rfl
  | true =>
      have hOne :=
        matchAt_notForeign hMatchable word start request
      have hOther :=
        matchAt_notForeign (hBoth.symm.trans hMatchable) word
          start request
      cases hResult : matchAt one word start request with
      | error fault =>
          cases fault with
          | outOfSteps steps => exact .inl (.inl ⟨steps, rfl⟩)
          | foreignElement => exact absurd hResult hOne
      | ok result =>
      cases hReply : matchAt other word start request with
      | error fault =>
          cases fault with
          | outOfSteps steps =>
              exact .inl (.inr (.inl ⟨steps, rfl⟩))
          | foreignElement => exact absurd hReply hOther
      | ok reply => exact .inr ⟨result, reply, rfl, rfl⟩

include hFree

/- Without references, longest matches are the same. -/
theorem Pattern.matchAt_concur
    (word : WordArray)
    (start : Int)
    {request : MatchRequest}
    (hLongest : request.longest = true) :
    Concur (Pattern.matchAt one word start request)
      (Pattern.matchAt other word start request) := by
  rcases matchAt_outcomes hSame word start request with
    hConcur | ⟨result, reply, hOne, hOther⟩
  · exact hConcur
  have hStops :=
    (matchAt_eager hSame hOne hOther).2 hLongest
  refine .inr (.inr ?_)
  rw [hOne, hOther]
  cases result with
  | none =>
      cases reply with
      | none => rfl
      | some found => cases hStops
  | some found =>
      cases reply with
      | none => cases hStops
      | some match' =>
          rw [matchAt_free hFree hOne,
            matchAt_free (categoryRefs_of_eager hSame hFree)
              hOther,
            Option.some.inj hStops]

/- And what any matches bind is the same: nothing. -/
theorem Pattern.bindings_concur
    (word : WordArray)
    (start : Int)
    (request : MatchRequest) :
    Concur
      ((Pattern.matchAt one word start request).map
        (Option.map Match.bindings))
      ((Pattern.matchAt other word start request).map
        (Option.map Match.bindings)) := by
  rcases matchAt_outcomes hSame word start request with
    hConcur | ⟨result, reply, hOne, hOther⟩
  · exact hConcur.map _
  have hSome := (matchAt_eager hSame hOne hOther).1
  refine .inr (.inr ?_)
  rw [hOne, hOther]
  cases result with
  | none =>
      cases reply with
      | none => rfl
      | some found => cases hSome
  | some found =>
      cases reply with
      | none => cases hSome
      | some match' =>
          rw [matchAt_free hFree hOne,
            matchAt_free (categoryRefs_of_eager hSame hFree)
              hOther]
          rfl

/- The longest matches everywhere are the same. -/
theorem Pattern.findAll_concur
    (word : WordArray)
    (budget : Int) :
    Concur (Pattern.findAll one word budget)
      (Pattern.findAll other word budget) :=
  collect_concur fun _ _ =>
    Pattern.matchAt_concur hSame hFree word _ rfl

end Matches

------------------------------------------------------------
-- Environments
------------------------------------------------------------

/- An environment without its lazy marks. -/
def Environment.eager : Environment → Environment
  | .around left right =>
      .around (Pattern.eager left) (Pattern.eager right)
  | .anywhere pattern indices =>
      .anywhere (Pattern.eager pattern) indices

/- The references of an environment. -/
def Environment.categoryRefs
    (environment : Environment) : List CategoryRef :=
  environment.patterns.flatMap Pattern.categoryRefs

@[simp]
theorem Pattern.isEmpty_eager
    (pattern : Pattern) :
    (Pattern.eager pattern).isEmpty = pattern.isEmpty := by
  cases pattern <;> rfl

theorem Pattern.isEmpty_of_eager
    {one other : Pattern}
    (hSame : Pattern.eager one = Pattern.eager other) :
    one.isEmpty = other.isEmpty := by
  rw [← isEmpty_eager, hSame, isEmpty_eager]

namespace Surroundings

variable {site : Surroundings}
variable {bindings : Bindings}
variable {one other : Pattern}

theorem leftBindings_eq
    {left : Pattern}
    (hSome : left.isEmpty = false) :
    site.leftBindings left bindings =
      collect
        (fun start : Nat =>
          (Pattern.matchAt left site.word start
            (site.leftRequest bindings)).map
              (Option.map Match.bindings))
        site.leftStarts := by
  rw [leftBindings, hSome, collect_image]
  cases collect
    (fun start : Nat =>
      Pattern.matchAt left site.word start
        (site.leftRequest bindings))
    site.leftStarts <;> rfl

theorem rightBindings_eq
    {right : Pattern}
    (hSome : right.isEmpty = false) :
    site.rightBindings right bindings =
      (Pattern.matchAt right site.word site.stop
        (site.rightRequest bindings)).map
          (Option.map Match.bindings) := by
  rw [rightBindings, hSome]
  cases Pattern.matchAt right site.word site.stop
    (site.rightRequest bindings) <;> rfl

theorem aroundBindings_eq
    (left right : Pattern) :
    site.aroundBindings left right bindings =
      (site.leftBindings left bindings).bind
        (firstSome (site.rightBindings right)) := by
  rw [aroundBindings]
  cases site.leftBindings left bindings <;> rfl

theorem anywhereBindings_eq_firstSome
    {pattern : Pattern}
    (hSome : pattern.isEmpty = false) :
    site.anywhereBindings pattern none bindings =
      firstSome
        (fun pos : Nat =>
          (Pattern.matchAt pattern site.word pos
            (site.anywhereRequest bindings false)).map
              (Option.map Match.bindings))
        site.word.positions := by
  rw [anywhereBindings, hSome, if_neg Bool.false_ne_true,
    firstSome_image fun _ _ => rfl]
  dsimp only
  cases firstSome
    (fun pos : Nat =>
      Pattern.matchAt pattern site.word pos
        (site.anywhereRequest bindings false))
    site.word.positions <;> rfl

theorem anywhereBindings_eq_collect
    {pattern : Pattern}
    (hSome : pattern.isEmpty = false)
    (indices : List Int) :
    site.anywhereBindings pattern (some indices) bindings =
      (collect
        (fun pos : Nat =>
          Pattern.matchAt pattern site.word pos
            (site.anywhereRequest bindings true))
        site.word.positions).map fun found =>
          (select found indices).head?.map Match.bindings := by
  rw [anywhereBindings, hSome, if_neg Bool.false_ne_true]
  dsimp only
  cases collect
    (fun pos : Nat =>
      Pattern.matchAt pattern site.word pos
        (site.anywhereRequest bindings true))
    site.word.positions <;> rfl

section Contexts

variable (hSame : Pattern.eager one = Pattern.eager other)
variable (hFree : Pattern.categoryRefs one = [])

include hSame hFree

theorem leftBindings_concur :
    Concur (site.leftBindings one bindings)
      (site.leftBindings other bindings) := by
  have hEmpty := Pattern.isEmpty_of_eager hSame
  cases hOne : one.isEmpty with
  | true =>
      rw [leftBindings, leftBindings, ← hEmpty, hOne]
      exact .same _
  | false =>
      rw [leftBindings_eq hOne,
        leftBindings_eq (hEmpty.symm.trans hOne)]
      exact collect_concur fun _ _ =>
        Pattern.bindings_concur hSame hFree _ _ _

theorem rightBindings_concur :
    Concur (site.rightBindings one bindings)
      (site.rightBindings other bindings) := by
  have hEmpty := Pattern.isEmpty_of_eager hSame
  cases hOne : one.isEmpty with
  | true =>
      rw [rightBindings, rightBindings, ← hEmpty, hOne]
      exact .same _
  | false =>
      rw [rightBindings_eq hOne,
        rightBindings_eq (hEmpty.symm.trans hOne)]
      exact Pattern.bindings_concur hSame hFree _ _ _

/-
  Which match is found somewhere in the word only matters if
  indices select it, and then the longest ones are searched.
-/
theorem anywhereBindings_concur
    (indices : Option (List Int)) :
    Concur (site.anywhereBindings one indices bindings)
      (site.anywhereBindings other indices bindings) := by
  have hEmpty := Pattern.isEmpty_of_eager hSame
  cases hOne : one.isEmpty with
  | true =>
      rw [anywhereBindings, anywhereBindings, ← hEmpty, hOne]
      exact .same _
  | false =>
  have hOther := hEmpty.symm.trans hOne
  cases indices with
  | none =>
      rw [anywhereBindings_eq_firstSome hOne,
        anywhereBindings_eq_firstSome hOther]
      exact firstSome_concur fun _ _ =>
        Pattern.bindings_concur hSame hFree _ _ _
  | some indices =>
      rw [anywhereBindings_eq_collect hOne,
        anywhereBindings_eq_collect hOther]
      apply Concur.map
      exact collect_concur fun _ _ =>
        Pattern.matchAt_concur hSame hFree _ _ rfl

end Contexts

end Surroundings

section Conditions

variable {site : Surroundings}
variable {bindings : Bindings}

/-
  Environments without references that differ in lazy marks
  hold in the same places.
-/
theorem Environment.holds_concur
    {one other : Environment}
    (hSame : one.eager = other.eager)
    (hFree : one.categoryRefs = []) :
    Concur (one.holds site bindings)
      (other.holds site bindings) := by
  cases one with
  | around left right =>
      cases other with
      | anywhere pattern indices => cases hSame
      | around otherLeft otherRight =>
          simp only [eager, around.injEq] at hSame
          simp only [categoryRefs, patterns, List.flatMap_cons,
            List.flatMap_nil, List.append_nil,
            List.append_eq_nil_iff] at hFree
          simp only [holds, Surroundings.aroundBindings_eq]
          refine
            (Surroundings.leftBindings_concur hSame.1
              hFree.1).bind fun _ _ => ?_
          exact firstSome_concur fun _ _ =>
            Surroundings.rightBindings_concur hSame.2 hFree.2
  | anywhere pattern indices =>
      cases other with
      | around left right => cases hSame
      | anywhere otherPattern otherIndices =>
          simp only [eager, anywhere.injEq] at hSame
          simp only [categoryRefs, patterns, List.flatMap_cons,
            List.flatMap_nil, List.append_nil] at hFree
          obtain ⟨hPattern, rfl⟩ := hSame
          exact Surroundings.anywhereBindings_concur hPattern
            hFree indices

/- Groups of environments without their lazy marks. -/
def eagerGroups
    (groups : List EnvironmentGroup) : List EnvironmentGroup :=
  groups.map (List.map Environment.eager)

/- The references in groups of environments. -/
def groupRefs
    (groups : List EnvironmentGroup) : List CategoryRef :=
  groups.flatten.flatMap Environment.categoryRefs

theorem EnvironmentGroup.holds_cons
    (environment : Environment)
    (rest : EnvironmentGroup) :
    EnvironmentGroup.holds site bindings (environment :: rest) =
      (environment.holds site bindings).bind fun result =>
        match result with
        | none => .ok none
        | some next => EnvironmentGroup.holds site next rest := by
  rw [holds]
  cases environment.holds site bindings with
  | error fault => rfl
  | ok result => cases result <;> rfl

theorem EnvironmentGroup.holds_concur
    {one other : EnvironmentGroup}
    (hSame :
      one.map Environment.eager = other.map Environment.eager)
    (hFree :
      ∀ environment ∈ one, environment.categoryRefs = []) :
    Concur (EnvironmentGroup.holds site bindings one)
      (EnvironmentGroup.holds site bindings other) := by
  induction one generalizing other bindings with
  | nil =>
      obtain rfl := List.map_eq_nil_iff.mp hSame.symm
      exact .same _
  | cons environment rest ih =>
      rcases List.map_eq_cons_iff.mp hSame.symm with
        ⟨otherFirst, otherRest, rfl, hFirst, hRest⟩
      rcases List.forall_mem_cons.mp hFree with
        ⟨hFreeFirst, hFreeRest⟩
      have hHere :
          Concur (environment.holds site bindings)
            (otherFirst.holds site bindings) :=
        Environment.holds_concur hFirst.symm hFreeFirst
      rw [holds_cons, holds_cons]
      refine hHere.bind fun result _ => ?_
      cases result with
      | none => exact .same _
      | some next => exact ih hRest.symm hFreeRest

theorem anyHolds_concur
    {one other : List EnvironmentGroup}
    (hSame : eagerGroups one = eagerGroups other)
    (hFree : groupRefs one = []) :
    Concur (anyHolds site bindings one)
      (anyHolds site bindings other) := by
  apply firstSome_concur_map hSame
  intro group hGroup otherGroup hGroups
  apply EnvironmentGroup.holds_concur hGroups
  intro environment hEnvironment
  exact List.flatMap_eq_nil_iff.mp hFree environment
    (List.mem_flatten_of_mem hGroup hEnvironment)

end Conditions

end Diachrony
