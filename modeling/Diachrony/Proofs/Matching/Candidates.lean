import Diachrony.Matching.Search

/-
  Trying a list of candidates.

  What is known about each candidate carries over to the
  whole list: which candidate has the first result, that
  none has one, which one failed, and that a search with
  other means finds the same.

  Key theorems include:
    * `firstSome_eq_none_iff`
    * `exists_of_firstSome`
    * `exists_of_firstSome_zipIdx`
    * `exists_of_mem_collect`
    * `exists_of_collect`
    * `collect_eq_filterMap`
    * `exists_of_firstSome_error`
    * `firstSome_agrees`
    * `firstSome_image`
    * `firstSome_related`
-/

namespace Diachrony

variable {α β ε : Type}
variable {attempt other : α → Except ε (Option β)}
variable {candidates : List α}

------------------------------------------------------------
-- Results
------------------------------------------------------------

/- There is no first result if no candidate has a result. -/
theorem firstSome_eq_none_iff :
    firstSome attempt candidates = .ok none ↔
      ∀ candidate ∈ candidates, attempt candidate = .ok none := by
  induction candidates with
  | nil => simp [firstSome]
  | cons candidate rest ih =>
      simp only [firstSome, List.forall_mem_cons, ← ih]
      cases attempt candidate with
      | error e => simp
      | ok result => cases result <;> simp

/- The first result comes from one of the candidates. -/
theorem exists_of_firstSome
    {result : β}
    (hFirst :
      firstSome attempt candidates = .ok (some result)) :
    ∃ candidate ∈ candidates,
      attempt candidate = .ok (some result) := by
  induction candidates with
  | nil => cases hFirst
  | cons candidate rest ih =>
      unfold firstSome at hFirst
      split at hFirst
      · cases hFirst
      · rename_i found hFound
        cases hFirst
        exact ⟨candidate, List.mem_cons_self, hFound⟩
      · rcases ih hFirst with ⟨other, hOther, hResult⟩
        exact
          ⟨other, List.mem_cons_of_mem _ hOther, hResult⟩

/-
  The first result among numbered entries comes from one of
  them, and no entry before that one has a result.
-/
theorem exists_of_firstSome_zipIdx
    {attempt : α × Nat → Except ε (Option β)}
    {entries : List α}
    {first : Nat}
    {result : β}
    (hFirst :
      firstSome attempt (entries.zipIdx first) =
        .ok (some result)) :
    ∃ i entry,
      entries[i]? = some entry ∧
        attempt (entry, first + i) = .ok (some result) ∧
        ∀ j < i, ∀ earlier, entries[j]? = some earlier →
          attempt (earlier, first + j) = .ok none := by
  induction entries generalizing first with
  | nil => cases hFirst
  | cons entry rest ih =>
      rw [List.zipIdx_cons, firstSome] at hFirst
      split at hFirst
      · cases hFirst
      · rename_i found hFound
        cases hFirst
        exact ⟨0, entry, rfl, hFound, by omega⟩
      · rename_i hNone
        rcases ih hFirst with
          ⟨i, later, hLater, hResult, hEarlier⟩
        refine ⟨i + 1, later, hLater, ?_, ?_⟩
        · rw [Nat.add_comm i, ← Nat.add_assoc]
          exact hResult
        · intro j hj earlier hEntry
          cases j with
          | zero =>
              obtain rfl := Option.some.inj hEntry
              exact hNone
          | succ j =>
              rw [Nat.add_comm j, ← Nat.add_assoc]
              exact hEarlier j (by omega) earlier hEntry

theorem exists_of_findSome?_zipIdx
    {attempt : α × Nat → Option β}
    {entries : List α}
    {result : β}
    (hFirst : entries.zipIdx.findSome? attempt = some result) :
    ∃ i entry,
      entries[i]? = some entry ∧
        attempt (entry, i) = some result ∧
        ∀ j < i, ∀ earlier, entries[j]? = some earlier →
          attempt (earlier, j) = none := by
  have hSame : ∀ numbered : List (α × Nat),
      firstSome
          (fun entry => (.ok (attempt entry) : Except Unit _))
          numbered =
        .ok (numbered.findSome? attempt) := by
    intro numbered
    induction numbered with
    | nil => rfl
    | cons entry rest ih =>
        rw [firstSome, List.findSome?_cons, ih]
        cases attempt entry <;> rfl
  rcases exists_of_firstSome_zipIdx
      ((hSame _).trans (congrArg Except.ok hFirst)) with
    ⟨i, entry, hEntry, hResult, hEarlier⟩
  rw [Nat.zero_add] at hResult
  refine ⟨i, entry, hEntry, Except.ok.inj hResult, ?_⟩
  intro j hj earlier hMem
  have hNone := hEarlier j hj earlier hMem
  rw [Nat.zero_add] at hNone
  exact Except.ok.inj hNone

/- What is collected is the result of a candidate. -/
theorem exists_of_mem_collect
    {results : List β}
    {result : β}
    (hCollect : collect attempt candidates = .ok results)
    (hMem : result ∈ results) :
    ∃ candidate ∈ candidates,
      attempt candidate = .ok (some result) := by
  induction candidates generalizing results with
  | nil =>
      cases hCollect
      cases hMem
  | cons candidate rest ih =>
      unfold collect at hCollect
      split at hCollect
      · cases hCollect
      rename_i found hFound
      split at hCollect
      · cases hCollect
      rename_i later hLater
      cases hCollect
      rcases List.mem_append.mp hMem with hHere | hRest
      · obtain rfl := Option.mem_toList.mp hHere
        exact ⟨candidate, List.mem_cons_self, hFound⟩
      · rcases ih hLater hRest with ⟨other, hOther, hResult⟩
        exact ⟨other, List.mem_cons_of_mem _ hOther, hResult⟩

/- A search that is carried through has tried each candidate. -/
theorem exists_of_collect
    {results : List β}
    (hCollect : collect attempt candidates = .ok results)
    {candidate : α}
    (hMem : candidate ∈ candidates) :
    ∃ result,
      attempt candidate = .ok result ∧
        ∀ found, result = some found → found ∈ results := by
  induction candidates generalizing results with
  | nil => cases hMem
  | cons first rest ih =>
      unfold collect at hCollect
      split at hCollect
      · cases hCollect
      rename_i result hResult
      split at hCollect
      · cases hCollect
      rename_i later hLater
      cases hCollect
      rcases List.mem_cons.mp hMem with rfl | hRest
      · refine ⟨result, hResult, ?_⟩
        rintro found rfl
        exact List.mem_cons_self
      · rcases ih hLater hRest with ⟨other, hOther, hFound⟩
        exact ⟨other, hOther, fun found hSome =>
          List.mem_append_right _ (hFound found hSome)⟩

/- A search of which no candidate fails. -/
theorem collect_eq_filterMap
    {result : α → Option β}
    (hEach : ∀ candidate ∈ candidates,
      attempt candidate = .ok (result candidate)) :
    collect attempt candidates =
      .ok (candidates.filterMap result) := by
  induction candidates with
  | nil => rfl
  | cons candidate rest ih =>
      rcases List.forall_mem_cons.mp hEach with
        ⟨hFirst, hRest⟩
      rw [collect, hFirst, ih hRest, List.filterMap_cons]
      cases result candidate <;> rfl

theorem mem_of_nth?
    {α : Type}
    {entries : List α}
    {i : Int}
    {entry : α}
    (hEntry : nth? entries i = some entry) :
    entry ∈ entries := by
  unfold nth? at hEntry
  split at hEntry
  · exact List.mem_of_getElem? hEntry
  split at hEntry
  · exact List.mem_of_getElem? hEntry
  · cases hEntry

/- What is selected is among what was found. -/
theorem mem_of_mem_select
    {found : List α}
    {indices : List Int}
    {entry : α}
    (hMem : entry ∈ select found indices) :
    entry ∈ found := by
  rcases List.mem_filterMap.mp hMem with ⟨i, _, hEntry⟩
  exact mem_of_nth? hEntry

------------------------------------------------------------
-- Failures
------------------------------------------------------------

/- A search fails as one of its candidates does. -/
theorem exists_of_firstSome_error
    {e : ε}
    (hError : firstSome attempt candidates = .error e) :
    ∃ candidate ∈ candidates, attempt candidate = .error e := by
  induction candidates with
  | nil => cases hError
  | cons candidate rest ih =>
      unfold firstSome at hError
      split at hError
      · rename_i hFailed
        cases hError
        exact ⟨candidate, List.mem_cons_self, hFailed⟩
      · cases hError
      · rcases ih hError with ⟨later, hLater, hFailed⟩
        exact
          ⟨later, List.mem_cons_of_mem _ hLater, hFailed⟩

theorem exists_of_collect_error
    {e : ε}
    (hError : collect attempt candidates = .error e) :
    ∃ candidate ∈ candidates, attempt candidate = .error e := by
  induction candidates with
  | nil => cases hError
  | cons candidate rest ih =>
      unfold collect at hError
      split at hError
      · rename_i hFailed
        cases hError
        exact ⟨candidate, List.mem_cons_self, hFailed⟩
      · split at hError
        · rename_i hFailed
          cases hError
          rcases ih hFailed with ⟨later, hLater, hFailed⟩
          exact
            ⟨later, List.mem_cons_of_mem _ hLater, hFailed⟩
        · cases hError

------------------------------------------------------------
-- Other means
------------------------------------------------------------

/-
  An attempt agrees with another one if it comes to the same
  result wherever the other one comes to a result.
-/
def Agrees
    {γ : Type}
    (one other : Except ε γ) : Prop :=
  ∀ result, one = .ok result → other = .ok result

theorem firstSome_agrees
    (hEach : ∀ candidate ∈ candidates,
      Agrees (attempt candidate) (other candidate)) :
    Agrees (firstSome attempt candidates)
      (firstSome other candidates) := by
  intro result hResult
  induction candidates with
  | nil => exact hResult
  | cons candidate rest ih =>
      have hHere := hEach candidate List.mem_cons_self
      have hRest := fun later hLater =>
        hEach later (List.mem_cons_of_mem _ hLater)
      unfold firstSome at hResult ⊢
      split at hResult
      · cases hResult
      · rename_i found hFound
        rw [hHere _ hFound]
        exact hResult
      · rename_i hNone
        rw [hHere _ hNone]
        exact ih hRest hResult

theorem collect_agrees
    (hEach : ∀ candidate ∈ candidates,
      Agrees (attempt candidate) (other candidate)) :
    Agrees (collect attempt candidates)
      (collect other candidates) := by
  induction candidates with
  | nil => exact fun _ hResult => hResult
  | cons candidate rest ih =>
      intro results hResults
      have hHere := hEach candidate List.mem_cons_self
      have hRest := ih fun later hLater =>
        hEach later (List.mem_cons_of_mem _ hLater)
      unfold collect at hResults ⊢
      split at hResults
      · cases hResults
      · rename_i found hFound
        split at hResults
        · cases hResults
        · rename_i others hOthers
          rw [hHere _ hFound, hRest _ hOthers]
          exact hResults

------------------------------------------------------------
-- Images
------------------------------------------------------------

section Images

variable {γ δ : Type}

/- Candidates that are images are tried through the map. -/
theorem firstSome_map
    (image : γ → α)
    (entries : List γ) :
    firstSome attempt (entries.map image) =
      firstSome (attempt ∘ image) entries := by
  induction entries with
  | nil => rfl
  | cons entry rest ih =>
      rw [List.map_cons, firstSome, firstSome, ih]
      rfl

theorem eq_none_of_map_image
    {result : Except ε (Option γ)}
    {image : γ → δ}
    (hNone : result.map (Option.map image) = .ok none) :
    result = .ok none := by
  cases result with
  | error e => cases hNone
  | ok found =>
      cases found with
      | none => rfl
      | some found => cases hNone

theorem exists_of_map_image
    {result : Except ε (Option γ)}
    {image : γ → δ}
    {shown : δ}
    (hSome :
      result.map (Option.map image) = .ok (some shown)) :
    ∃ found, result = .ok (some found) ∧
      image found = shown := by
  cases result with
  | error e => cases hSome
  | ok found =>
      cases found with
      | none => cases hSome
      | some found =>
          refine ⟨found, rfl, ?_⟩
          exact Option.some.inj (Except.ok.inj hSome)

/- If all results are images, then so is the first of them. -/
theorem firstSome_image
    {attempt : α → Except ε (Option γ)}
    {shown : α → Except ε (Option δ)}
    {image : γ → δ}
    (hEach : ∀ candidate ∈ candidates,
      shown candidate =
        (attempt candidate).map (Option.map image)) :
    firstSome shown candidates =
      (firstSome attempt candidates).map
        (Option.map image) := by
  induction candidates with
  | nil => rfl
  | cons candidate rest ih =>
      rcases List.forall_mem_cons.mp hEach with
        ⟨hHere, hRest⟩
      rw [firstSome, firstSome, hHere, ih hRest]
      cases attempt candidate with
      | error e => rfl
      | ok result => cases result <;> rfl

/- Searches that are related try by try have related results. -/
theorem firstSome_related
    {attempt : α → Except ε (Option γ)}
    {shown : α → Except ε (Option δ)}
    {relation : γ → δ → Prop}
    {one : Option γ}
    {other : Option δ}
    (hEach : ∀ candidate ∈ candidates, ∀ result reply,
      attempt candidate = .ok result →
      shown candidate = .ok reply →
        Option.Rel relation result reply)
    (hOne : firstSome attempt candidates = .ok one)
    (hOther : firstSome shown candidates = .ok other) :
    Option.Rel relation one other := by
  induction candidates with
  | nil =>
      cases hOne
      cases hOther
      exact Option.Rel.none
  | cons candidate rest ih =>
      rcases List.forall_mem_cons.mp hEach with
        ⟨hHere, hRest⟩
      rw [firstSome] at hOne hOther
      cases hResult : attempt candidate with
      | error e => rw [hResult] at hOne; cases hOne
      | ok result =>
      cases hReply : shown candidate with
      | error e => rw [hReply] at hOther; cases hOther
      | ok reply =>
      have hRelated := hHere result reply hResult hReply
      rw [hResult] at hOne
      rw [hReply] at hOther
      cases hRelated with
      | none => exact ih hRest hOne hOther
      | some hPair =>
          cases hOne
          cases hOther
          exact Option.Rel.some hPair

end Images

end Diachrony
