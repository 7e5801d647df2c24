import Diachrony.Proofs.Scan.Judgement
import Diachrony.Proofs.Source.Pairings

/-
  Correlated members.

  At a site whose bindings hold a slot to a position, a
  reference of the replacement with that slot writes its own
  member at the position. If it has no such member, or if
  the pairing is disabled, the replacement cannot be built
  beyond the reference, and the site stays as it is.

  Key definitions include:
    * `Site.Emits`

  Key theorems include:
    * `Site.correlate_bound`
    * `Site.emits_of_build`
    * `Site.build_of_missing`
    * `Site.build_of_group`
-/

namespace Diachrony

variable {rule : Rule}
variable {options : EngineOptions}
variable {site : Site}
variable {word : WordArray}
variable {front back : Pattern}
variable {own : CategoryRef}
variable {position : Nat}

------------------------------------------------------------
-- Parts of a replacement
------------------------------------------------------------

/- A replacement is built part by part. -/
theorem Site.buildFrom_append
    (written : List Symbol) :
    site.buildFrom rule word written (front ++ back) =
      (site.buildFrom rule word written front).bind
        fun symbols => site.buildFrom rule word symbols back := by
  induction front generalizing written with
  | nil => rfl
  | cons element rest ih =>
      rw [List.cons_append, buildFrom, buildFrom]
      cases site.emit rule word written element with
      | error problem => rfl
      | ok symbols => exact ih _

/- What is written stays in front of what follows. -/
theorem Site.exists_rest_of_buildFrom
    {pattern : Pattern}
    {written symbols : List Symbol}
    (hBuild :
      site.buildFrom rule word written pattern =
        .ok symbols) :
    ∃ rest, symbols = written ++ rest := by
  induction pattern generalizing written with
  | nil =>
      cases hBuild
      exact ⟨[], (List.append_nil _).symm⟩
  | cons element rest ih =>
      rw [buildFrom] at hBuild
      split at hBuild
      · cases hBuild
      rename_i part _
      rcases ih hBuild with ⟨later, rfl⟩
      exact ⟨part ++ later, List.append_assoc _ _ _⟩

/- A group cannot be written. -/
theorem Site.emit_of_group
    {element : Element}
    (hRef : own ∈ element.categoryRefs)
    (hGroup : element ≠ .category own)
    (written : List Symbol) :
    site.emit rule word written element =
      .error (.unwritable element.text) := by
  cases element with
  | category ref =>
      obtain rfl := List.mem_singleton.mp hRef
      exact absurd rfl hGroup
  | optional body isLazy => rfl
  | repeated body min max isLazy => rfl
  | _ => cases hRef

------------------------------------------------------------
-- Members at a bound position
------------------------------------------------------------

/- A bound reference writes its member at the position. -/
theorem Site.correlate_bound
    {category : Category}
    (hCategory : own.category = some category)
    (hBound :
      site.boundPosition? own = some (position : Int)) :
    site.correlate rule own =
      if site.isMismatched rule own = true ∨
          category.size ≤ position then
        .error (.memberMissing own.text)
      else
        .ok (Member.symbols
          (category.members[position]?.getD [])) := by
  rw [correlate, hCategory]
  dsimp only
  rw [hBound]
  simp only [nth?_natCast, Int.ofNat_le]

/-
  A reference between two parts of a replacement has written
  the symbols of its member at a position, word edges left
  out, in the symbols that were built.
-/
def Site.Emits
    (site : Site)
    (rule : Rule)
    (word : WordArray)
    (front : Pattern)
    (own : CategoryRef)
    (back : Pattern)
    (position : Nat)
    (symbols : List Symbol) : Prop :=
  ∃ category member written rest,
    own.category = some category ∧
      category.members[position]? = some member ∧
      site.buildFrom rule word [] front = .ok written ∧
      site.buildFrom rule word
          (written ++ Member.symbols member) back =
        .ok symbols ∧
      symbols = written ++ Member.symbols member ++ rest

theorem Site.emits_of_build
    (hReplacement :
      site.predicate.replacementFor site.branch =
        front ++ .category own :: back)
    (hBound :
      site.boundPosition? own = some (position : Int))
    {symbols : List Symbol}
    (hBuild : site.build rule word = .ok symbols) :
    site.Emits rule word front own back position symbols := by
  rw [build, hReplacement, buildFrom_append] at hBuild
  cases hFront : site.buildFrom rule word [] front with
  | error problem =>
      rw [hFront] at hBuild
      cases hBuild
  | ok written =>
  rw [hFront] at hBuild
  change
    site.buildFrom rule word written (.category own :: back) =
      .ok symbols at hBuild
  rw [buildFrom, emit] at hBuild
  cases hCategory : own.category with
  | none =>
      simp only [correlate, hCategory] at hBuild
      cases hBuild
  | some category =>
  rw [correlate_bound hCategory hBound] at hBuild
  split at hBuild
  · cases hBuild
  rename_i part hPart
  split at hPart
  · cases hPart
  rename_i hMember
  have hInside : position < category.members.length :=
    Nat.lt_of_not_le fun h => hMember (Or.inr h)
  have hHere :
      category.members[position]? =
        some category.members[position] :=
    List.getElem?_eq_getElem hInside
  rw [hHere] at hPart
  cases hPart
  rcases exists_rest_of_buildFrom hBuild with ⟨rest, hRest⟩
  exact ⟨category, _, written, rest, hCategory, hHere, hFront,
    hBuild, hRest⟩

/-
  A replacement cannot be built: a reference between two
  parts of it has no member to write, unless the part before
  it cannot be built already.
-/
theorem Site.build_of_missing
    (hReplacement :
      site.predicate.replacementFor site.branch =
        front ++ .category own :: back)
    (hBound :
      site.boundPosition? own = some (position : Int))
    {category : Category}
    (hCategory : own.category = some category)
    (hMissing :
      site.isMismatched rule own = true ∨
        category.size ≤ position) :
    site.build rule word = .error (.memberMissing own.text) ∨
      ∃ problem,
        site.buildFrom rule word [] front =
            .error problem ∧
          site.build rule word = .error problem := by
  rw [build, hReplacement, buildFrom_append]
  cases hFront : site.buildFrom rule word [] front with
  | error problem => exact Or.inr ⟨problem, rfl, rfl⟩
  | ok written =>
      left
      change
        site.buildFrom rule word written
            (.category own :: back) =
          .error (.memberMissing own.text)
      rw [buildFrom, emit, correlate_bound hCategory hBound,
        if_pos hMissing]

/- A replacement with a group cannot be built beyond it. -/
theorem Site.build_of_group
    {element : Element}
    (hReplacement :
      site.predicate.replacementFor site.branch =
        front ++ element :: back)
    (hRef : own ∈ element.categoryRefs)
    (hGroup : element ≠ .category own) :
    ∃ problem,
      site.buildFrom rule word [] (front ++ [element]) =
          .error problem ∧
        site.build rule word = .error problem := by
  rw [build, hReplacement, buildFrom_append, buildFrom_append]
  cases hFront : site.buildFrom rule word [] front with
  | error problem => exact ⟨problem, rfl, rfl⟩
  | ok written =>
      refine ⟨.unwritable element.text, ?_, ?_⟩
      · change
          site.buildFrom rule word written [element] =
            .error (.unwritable element.text)
        rw [buildFrom, emit_of_group hRef hGroup]
      · change
          site.buildFrom rule word written (element :: back) =
            .error (.unwritable element.text)
        rw [buildFrom, emit_of_group hRef hGroup]

end Diachrony
