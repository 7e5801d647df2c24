import Diachrony.Proofs.Matching.Paths
import Diachrony.Proofs.Pattern.Slots
import Diachrony.Source.RuleText

/-
  Rules as they are read.

  Whatever a text says, each pattern that is read from it
  has well-bounded repetitions, references that have the
  slot of their tag or none, and no element that cannot be
  matched. A rule has at least one predicate, its targets
  and replacements are numbered, and its disabled pairings
  are those that a check of its correlations has found.

  Key definitions include:
    * `Pattern.AsRead`
    * `RuleBody.AsRead`
    * `Rule.IsCompiled`

  Key theorems include:
    * `readUnits_asRead`
    * `readBody_asRead`
    * `Rule.read_cases`
    * `Rule.IsCompiled.exists_body`
-/

namespace Diachrony

------------------------------------------------------------
-- Patterns
------------------------------------------------------------

/-
  An element as it is read: its repetitions are well-bounded,
  its references have the slot of their tag or none, and a
  matcher can be built for it.
-/
structure Element.AsRead
    (element : Element) : Prop where
  refs : ∀ ref ∈ element.categoryRefs, ref.AsRead
  bounded : element.wellBounded = true
  matchable : element.matchable = true

/- A pattern all of whose elements are as they are read. -/
def Pattern.AsRead
    (pattern : Pattern) : Prop :=
  ∀ element ∈ pattern, element.AsRead

namespace Pattern.AsRead

variable {pattern other : Pattern}
variable {element : Element}

theorem nil :
    Pattern.AsRead [] := by
  intro element hMem
  cases hMem

theorem append
    (hPattern : pattern.AsRead)
    (hOther : other.AsRead) :
    Pattern.AsRead (pattern ++ other) := by
  intro element hMem
  rcases List.mem_append.mp hMem with hHere | hThere
  · exact hPattern element hHere
  · exact hOther element hThere

theorem concat
    (hPattern : pattern.AsRead)
    (hElement : element.AsRead) :
    Pattern.AsRead (pattern ++ [element]) := by
  apply hPattern.append
  intro other hMem
  obtain rfl := List.mem_singleton.mp hMem
  exact hElement

theorem replaceLast
    (hPattern : pattern.AsRead)
    (hElement : element.AsRead) :
    (pattern.replaceLast element).AsRead := by
  apply Pattern.AsRead.concat _ hElement
  intro other hMem
  exact hPattern other (List.dropLast_subset pattern hMem)

theorem refs
    (hPattern : pattern.AsRead) :
    ∀ ref ∈ pattern.categoryRefs, ref.AsRead := by
  induction pattern with
  | nil =>
      intro ref hMem
      cases hMem
  | cons element rest ih =>
      rcases List.forall_mem_cons.mp hPattern with
        ⟨hHere, hRest⟩
      intro ref hMem
      rw [Pattern.categoryRefs_cons] at hMem
      rcases List.mem_append.mp hMem with hFirst | hLater
      · exact hHere.refs ref hFirst
      · exact ih hRest ref hLater

theorem bounded
    (hPattern : pattern.AsRead) :
    Pattern.wellBounded pattern = true := by
  induction pattern with
  | nil => rfl
  | cons element rest ih =>
      rcases List.forall_mem_cons.mp hPattern with
        ⟨hHere, hRest⟩
      simp only [Pattern.wellBounded, hHere.bounded, ih hRest,
        Bool.and_self]

theorem matchable
    (hPattern : pattern.AsRead) :
    Pattern.matchable pattern = true := by
  induction pattern with
  | nil => rfl
  | cons element rest ih =>
      rcases List.forall_mem_cons.mp hPattern with
        ⟨hHere, hRest⟩
      simp only [Pattern.matchable, hHere.matchable, ih hRest,
        Bool.and_self]

end Pattern.AsRead

namespace Element.AsRead

variable {body : Pattern}
variable {element : Element}

theorem plain
    (hRefs : element.categoryRefs = [])
    (hBounded : element.wellBounded = true)
    (hMatchable : element.matchable = true) :
    element.AsRead where
  refs := by
    rw [hRefs]
    intro ref hMem
    cases hMem
  bounded := hBounded
  matchable := hMatchable

theorem category
    {ref : CategoryRef}
    (hRef : ref.AsRead) :
    (Element.category ref).AsRead where
  refs := by
    intro other hMem
    obtain rfl := List.mem_singleton.mp hMem
    exact hRef
  bounded := rfl
  matchable := rfl

theorem optional
    (hBody : body.AsRead)
    (isLazy : Bool) :
    (Element.optional body isLazy).AsRead where
  refs := hBody.refs
  bounded := hBody.bounded
  matchable := hBody.matchable

theorem repeated
    (hElement : element.AsRead)
    {min : Int}
    (hMin : 0 ≤ min)
    (max : Option Int)
    (isLazy : Bool) :
    (Element.repeated element min max isLazy).AsRead where
  refs := hElement.refs
  bounded := by
    simp [Element.wellBounded, hMin, hElement.bounded]
  matchable := by
    simp [Element.matchable, hElement.matchable]

end Element.AsRead

------------------------------------------------------------
-- Numbered patterns
------------------------------------------------------------

mutual

theorem Element.wellBounded_assignSlotsFrom :
    (element : Element) → (next : Nat) →
      (Element.assignSlotsFrom next element).1.wellBounded =
        element.wellBounded
  | .optional body _, next =>
      Pattern.wellBounded_assignSlotsFrom body next
  | .repeated body min _ _, next =>
      congrArg (fun bounded => decide (0 ≤ min) && bounded)
        (Element.wellBounded_assignSlotsFrom body next)
  | .category _, _ => rfl
  | .literal _, _ => rfl
  | .wildcard, _ => rfl
  | .gap _, _ => rfl
  | .edge, _ => rfl
  | .null, _ => rfl
  | .target _, _ => rfl
  | .ditto, _ => rfl
  | .foreign _, _ => rfl

theorem Pattern.wellBounded_assignSlotsFrom :
    (pattern : Pattern) → (next : Nat) →
      Pattern.wellBounded
          (Pattern.assignSlotsFrom next pattern).1 =
        Pattern.wellBounded pattern
  | [], _ => rfl
  | element :: rest, next => by
      simp only [Pattern.assignSlotsFrom, Pattern.wellBounded,
        Element.wellBounded_assignSlotsFrom element,
        Pattern.wellBounded_assignSlotsFrom rest]

end

/- A numbered pattern that is read has well-bounded repetitions. -/
theorem Pattern.AsRead.bounded_assignSlots
    {pattern : Pattern}
    (hPattern : pattern.AsRead) :
    Pattern.wellBounded (Pattern.assignSlots pattern) = true :=
  (Pattern.wellBounded_assignSlotsFrom pattern 0).trans
    hPattern.bounded

mutual

theorem Element.matchable_assignSlotsFrom :
    (element : Element) → (next : Nat) →
      (Element.assignSlotsFrom next element).1.matchable =
        element.matchable
  | .optional body _, next =>
      Pattern.matchable_assignSlotsFrom body next
  | .repeated body min max _, next =>
      congrArg
        (fun matchable =>
          (requiredCopies min = 0 &&
            max.any fun most => furtherCopies min most = 0) ||
          matchable)
        (Element.matchable_assignSlotsFrom body next)
  | .category _, _ => rfl
  | .literal _, _ => rfl
  | .wildcard, _ => rfl
  | .gap _, _ => rfl
  | .edge, _ => rfl
  | .null, _ => rfl
  | .target _, _ => rfl
  | .ditto, _ => rfl
  | .foreign _, _ => rfl

theorem Pattern.matchable_assignSlotsFrom :
    (pattern : Pattern) → (next : Nat) →
      Pattern.matchable
          (Pattern.assignSlotsFrom next pattern).1 =
        Pattern.matchable pattern
  | [], _ => rfl
  | element :: rest, next => by
      simp only [Pattern.assignSlotsFrom, Pattern.matchable,
        Element.matchable_assignSlotsFrom element,
        Pattern.matchable_assignSlotsFrom rest]

end

/- A numbered pattern that is read can be matched. -/
theorem Pattern.AsRead.matchable_assignSlots
    {pattern : Pattern}
    (hPattern : pattern.AsRead) :
    Pattern.matchable (Pattern.assignSlots pattern) = true :=
  (Pattern.matchable_assignSlotsFrom pattern 0).trans
    hPattern.matchable

------------------------------------------------------------
-- Reading patterns
------------------------------------------------------------

section Reading

variable {context : ReadContext}
variable {tokens : List Token}

theorem ReadContext.failAt_ne_ok
    {α : Type}
    {cause : Cause}
    {result : α} :
    context.failAt tokens cause ≠ .ok result := by
  unfold failAt failOn
  split <;> nofun

theorem readReference_asRead
    {result : Parsed CategoryRef}
    (hRead : readReference context tokens = .ok result) :
    result.value.explicit = false ∧
      result.value.slot = none := by
  unfold readReference at hRead
  split at hRead
  · cases hRead
    unfold ReadContext.named
    dsimp only
    split <;> exact ⟨rfl, rfl⟩
  · split at hRead
    · cases hRead
    · split at hRead
      · cases hRead
      · cases hRead
        exact ⟨rfl, rfl⟩

theorem readTag_asRead
    {ref : CategoryRef}
    (hUntagged : ref.explicit = false)
    (hSlot : ref.slot = none)
    {result : CategoryRef × List Token}
    (hRead : readTag context ref tokens = .ok result) :
    result.1.AsRead := by
  unfold readTag at hRead
  split at hRead
  · cases hRead
    refine ⟨?_, fun _ => hSlot⟩
    intro hTagged
    rw [hUntagged] at hTagged
    cases hTagged
  · cases hRead
  · split at hRead
    · split at hRead
      · cases hRead
      · rename_i n _
        cases hRead
        exact ⟨fun _ => ⟨n, rfl⟩, nofun⟩
    · cases hRead

theorem readCategory_asRead
    {result : Parsed Element}
    (hRead : readCategory context tokens = .ok result) :
    result.value.AsRead := by
  unfold readCategory at hRead
  split at hRead
  · cases hRead
    exact Element.AsRead.plain rfl rfl rfl
  · split at hRead
    · cases hRead
    rename_i hReference
    split at hRead
    · cases hRead
    rename_i hTag
    cases hRead
    apply Element.AsRead.category
    rcases readReference_asRead hReference with
      ⟨hUntagged, hSlot⟩
    exact readTag_asRead hUntagged hSlot hTag

theorem readBounds_nonneg
    {result : (Int × Option Int) × List Token}
    (hRead : readBounds context tokens = .ok result) :
    0 ≤ result.1.1 := by
  unfold readBounds at hRead
  split at hRead
  · cases hRead
  · split at hRead
    · split at hRead
      · cases hRead
      · rename_i n _
        split at hRead
        · cases hRead
        · cases hRead
          exact Int.natCast_nonneg n
    · split at hRead
      · cases hRead
        exact Int.le_refl 0
      · split at hRead
        · cases hRead
          exact Int.zero_le_ofNat 1
        · cases hRead

theorem readRepeat_asRead
    {element : Element}
    (hElement : element.AsRead)
    {result : Element × List Token}
    (hRead : readRepeat context element tokens = .ok result) :
    result.1.AsRead := by
  unfold readRepeat at hRead
  split at hRead
  · cases hRead
  rename_i hBounds
  dsimp only at hRead
  split at hRead
  · cases hRead
  · cases hRead
    exact hElement.repeated (readBounds_nonneg hBounds) _ _

theorem TokenKind.element?_asRead
    {kind : TokenKind}
    {element : Element}
    (hElement : kind.element? = some element) :
    element.AsRead := by
  unfold element? at hElement
  split at hElement <;> cases hElement <;>
    exact Element.AsRead.plain rfl rfl rfl

theorem ReadContext.literals_asRead
    (context : ReadContext)
    (text : String) :
    Pattern.AsRead (context.literals text) := by
  intro element hMem
  rcases List.mem_map.mp hMem with ⟨symbol, _, rfl⟩
  exact Element.AsRead.plain rfl rfl rfl

/-
  What is read is as it should be if what has been read is,
  inside and outside the open groups.
-/
theorem readUnits_asRead
    {stops : List TokenKind}
    {groups : List OpenGroup}
    {pattern : Pattern}
    {diagnostics : List Diagnostic}
    {result : Parsed Pattern}
    (hGroups : ∀ group ∈ groups, Pattern.AsRead group.before)
    (hPattern : pattern.AsRead)
    (hRead :
      readUnits context stops groups pattern diagnostics
        tokens = .ok result) :
    Pattern.AsRead result.value := by
  fun_induction readUnits context stops groups pattern
      diagnostics tokens
  case case1 | case3 =>
    cases hRead
    exact hPattern
  case case5 =>
    -- the group is closed, and goes on outside it
    rename_i ih
    rcases List.forall_mem_cons.mp hGroups with
      ⟨hGroup, hOuter⟩
    exact ih hOuter
      (hGroup.concat (Element.AsRead.optional hPattern _))
      hRead
  case case6 =>
    rename_i ih
    apply ih _ Pattern.AsRead.nil hRead
    exact List.forall_mem_cons.mpr ⟨hPattern, hGroups⟩
  case case9 =>
    rename_i hLast _ _ hRepeat _ ih
    apply ih hGroups _ hRead
    apply hPattern.replaceLast
    exact readRepeat_asRead
      (hPattern _ (List.mem_of_getLast? hLast)) hRepeat
  case case11 =>
    rename_i hCategory _ ih
    exact ih hGroups
      (hPattern.concat (readCategory_asRead hCategory)) hRead
  case case12 =>
    rename_i ih
    exact ih hGroups
      (hPattern.append (context.literals_asRead _)) hRead
  case case13 | case14 | case15 =>
    rename_i ih
    exact ih hGroups
      (hPattern.concat (Element.AsRead.plain rfl rfl rfl)) hRead
  case case16 =>
    rename_i hElement _ ih
    exact ih hGroups
      (hPattern.concat (TokenKind.element?_asRead hElement))
      hRead
  all_goals cases hRead

theorem readPattern_asRead
    {stops : List TokenKind}
    {result : Parsed Pattern}
    (hRead : readPattern context stops tokens = .ok result) :
    Pattern.AsRead result.value := by
  apply readUnits_asRead _ Pattern.AsRead.nil hRead
  intro group hMem
  cases hMem

------------------------------------------------------------
-- Reading bodies
------------------------------------------------------------

/- What each item is, all items of a list are; there is one. -/
theorem readSeparated_forall
    {α : Type}
    {separator : TokenKind}
    {readItem : List Token → Except ReadError (Parsed α)}
    (property : α → Prop)
    (hItem : ∀ tokens item,
      readItem tokens = .ok item → property item.value)
    {result : Parsed (List α)}
    (hRead :
      readSeparated separator readItem tokens = .ok result) :
    result.value ≠ [] ∧
      ∀ item ∈ result.value, property item := by
  fun_induction readSeparated separator readItem tokens
      generalizing result
  case case1 => cases hRead
  case case2 | case5 =>
    cases hRead
    refine ⟨List.cons_ne_nil _ _, ?_⟩
    intro other hMem
    obtain rfl := List.mem_singleton.mp hMem
    exact hItem _ _ ‹_›
  case case3 => cases hRead
  case case4 =>
    rename_i hFirst _ _ _ _ hLater ih
    cases hRead
    refine ⟨List.cons_ne_nil _ _, ?_⟩
    exact List.forall_mem_cons.mpr
      ⟨hItem _ _ hFirst, (ih hLater).2⟩

/- An environment whose patterns are as they are read. -/
def Environment.AsRead
    (environment : Environment) : Prop :=
  ∀ pattern ∈ environment.patterns, Pattern.AsRead pattern

/- Groups of environments that are as they are read. -/
def groupsAsRead
    (groups : List EnvironmentGroup) : Prop :=
  ∀ group ∈ groups, ∀ environment ∈ group,
    Environment.AsRead environment

/-
  A predicate as it is read: its conditions and replacements
  are.
-/
structure Predicate.AsRead
    (predicate : Predicate) : Prop where
  replacements :
    ∀ pattern ∈ predicate.replacements, Pattern.AsRead pattern
  environments : groupsAsRead predicate.environments
  exceptions : groupsAsRead predicate.exceptions

theorem readRightSide_asRead
    {result : Parsed Pattern}
    (hRead : readRightSide context tokens = .ok result) :
    Pattern.AsRead result.value := by
  unfold readRightSide at hRead
  split at hRead
  · cases hRead
  rename_i hPattern
  split at hRead
  · exact absurd hRead ReadContext.failAt_ne_ok
  split at hRead
  · exact absurd hRead ReadContext.failAt_ne_ok
  · cases hRead
    exact readPattern_asRead hPattern

theorem readEnvironment_asRead
    {result : Parsed Environment}
    (hRead : readEnvironment context tokens = .ok result) :
    Environment.AsRead result.value := by
  unfold readEnvironment at hRead
  split at hRead
  · cases hRead
  rename_i hLeft
  have hLeft := readPattern_asRead hLeft
  split at hRead
  · split at hRead
    · cases hRead
    rename_i hRight
    cases hRead
    have hRight := readRightSide_asRead hRight
    intro pattern hMem
    rcases List.mem_pair.mp hMem with rfl | rfl
    · exact hLeft
    · exact hRight
  · split at hRead
    · exact absurd hRead ReadContext.failAt_ne_ok
    split at hRead
    · cases hRead
    · cases hRead
      intro pattern hMem
      obtain rfl := List.mem_singleton.mp hMem
      exact hLeft

theorem readEnvironments_asRead
    {result : Parsed (List EnvironmentGroup)}
    (hRead : readEnvironments context tokens = .ok result) :
    groupsAsRead result.value := by
  have hGroups : ∀ tokens (group : Parsed EnvironmentGroup),
      readGroup context tokens = .ok group →
        ∀ environment ∈ group.value,
          Environment.AsRead environment := by
    intro tokens group hGroup
    exact
      (readSeparated_forall Environment.AsRead
        (fun _ _ => readEnvironment_asRead) hGroup).2
  exact (readSeparated_forall _ hGroups hRead).2

theorem readConditions_asRead
    {sign : TokenKind}
    {result : Parsed (List EnvironmentGroup)}
    (hRead :
      readConditions context sign tokens = .ok result) :
    groupsAsRead result.value := by
  unfold readConditions at hRead
  split at hRead
  · cases hRead
    intro group hMem
    cases hMem
  · exact readEnvironments_asRead hRead

theorem readBranch_asRead
    {result : Parsed Branch}
    (hRead : readBranch context tokens = .ok result) :
    Pattern.AsRead result.value.target := by
  unfold readBranch at hRead
  split at hRead
  · cases hRead
  rename_i hTarget
  split at hRead
  · exact absurd hRead ReadContext.failAt_ne_ok
  split at hRead
  · cases hRead
  · cases hRead
    exact readPattern_asRead hTarget

theorem readReplacement_asRead
    {result : Parsed Pattern}
    (hRead : readReplacement context tokens = .ok result) :
    Pattern.AsRead result.value := by
  unfold readReplacement at hRead
  split at hRead
  · cases hRead
  rename_i hReplacement
  split at hRead
  · exact absurd hRead ReadContext.failAt_ne_ok
  split at hRead
  · exact absurd hRead ReadContext.failAt_ne_ok
  · cases hRead
    have hPattern := readPattern_asRead hReplacement
    exact hPattern

theorem readClauses_asRead
    {replacements : List Pattern}
    (hReplacements :
      ∀ pattern ∈ replacements, Pattern.AsRead pattern)
    {result : Parsed Predicate}
    (hRead :
      readClauses context replacements tokens = .ok result) :
    result.value.AsRead := by
  unfold readClauses at hRead
  split at hRead
  · cases hRead
  rename_i hEnvironments
  split at hRead
  · cases hRead
  rename_i hExceptions
  cases hRead
  exact
    { replacements := hReplacements
      environments := readConditions_asRead hEnvironments
      exceptions := readConditions_asRead hExceptions }

theorem readPredicate_asRead
    {result : Parsed Predicate}
    (hRead : readPredicate context tokens = .ok result) :
    result.value.AsRead := by
  unfold readPredicate at hRead
  split at hRead
  · cases hRead
  rename_i hReplacements
  split at hRead
  · cases hRead
  rename_i hClauses
  cases hRead
  apply readClauses_asRead _ hClauses
  exact
    (readSeparated_forall Pattern.AsRead
      (fun _ _ => readReplacement_asRead) hReplacements).2

/- Nothing by itself is as it is read. -/
theorem nothing_asRead :
    Pattern.AsRead nothing := by
  intro element hMem
  obtain rfl := List.mem_singleton.mp hMem
  exact Element.AsRead.plain rfl rfl rfl

theorem readTargets_asRead
    {form : RuleForm}
    {result : Parsed (List Branch)}
    (hRead : readTargets context form tokens = .ok result) :
    ∀ branch ∈ result.value,
      Pattern.AsRead branch.target := by
  have hBranches :
      readBranches context tokens = .ok result →
        ∀ branch ∈ result.value,
          Pattern.AsRead branch.target := by
    intro hList
    exact
      (readSeparated_forall
        (fun branch => Pattern.AsRead branch.target)
        (fun _ _ => readBranch_asRead) hList).2
  cases form with
  | insertion =>
      cases hRead
      intro branch hMem
      obtain rfl := List.mem_singleton.mp hMem
      exact nothing_asRead
  | substitution => exact hBranches hRead
  | deletion => exact hBranches hRead

theorem readChanges_asRead
    {form : RuleForm}
    {result : Parsed (List Predicate)}
    (hRead : readChanges context form tokens = .ok result) :
    result.value ≠ [] ∧
      ∀ predicate ∈ result.value, predicate.AsRead := by
  cases form with
  | substitution =>
      change readPredicates context tokens = .ok result at hRead
      unfold readPredicates at hRead
      split at hRead
      · exact absurd hRead ReadContext.failAt_ne_ok
      · exact readSeparated_forall Predicate.AsRead
          (fun _ _ => readPredicate_asRead) hRead
  | insertion =>
      unfold readChanges at hRead
      dsimp only at hRead
      split at hRead
      · cases hRead
      rename_i hPredicate
      cases hRead
      refine ⟨List.cons_ne_nil _ _, ?_⟩
      intro other hMem
      obtain rfl := List.mem_singleton.mp hMem
      exact readPredicate_asRead hPredicate
  | deletion =>
      unfold readChanges at hRead
      dsimp only at hRead
      split at hRead
      · cases hRead
      rename_i hPredicate
      cases hRead
      refine ⟨List.cons_ne_nil _ _, ?_⟩
      intro other hMem
      obtain rfl := List.mem_singleton.mp hMem
      apply readClauses_asRead _ hPredicate
      intro pattern hPattern
      obtain rfl := List.mem_singleton.mp hPattern
      exact nothing_asRead

/- The parts of a rule that are read from a text. -/
structure RuleBody.AsRead
    (body : RuleBody) : Prop where
  targets :
    ∀ branch ∈ body.branches, Pattern.AsRead branch.target
  predicates : ∀ predicate ∈ body.predicates, predicate.AsRead
  predicates_ne : body.predicates ≠ []

theorem readBody_asRead
    {form : RuleForm}
    {body : RuleBody}
    {diagnostics : List Diagnostic}
    (hRead :
      readBody context form tokens =
        .ok (body, diagnostics)) :
    body.AsRead := by
  unfold readBody at hRead
  split at hRead
  · cases hRead
  rename_i hTargets
  split at hRead
  · cases hRead
  rename_i hChanges
  split at hRead
  · cases hRead
  · cases hRead
    rcases readChanges_asRead hChanges with
      ⟨hSome, hPredicates⟩
    exact
      { targets := readTargets_asRead hTargets
        predicates := hPredicates
        predicates_ne := hSome }

end Reading

------------------------------------------------------------
-- Rules
------------------------------------------------------------

/-
  A rule that is read from a text, possibly with other flags,
  another place or another number than it was read with.
-/
def Rule.IsCompiled
    (rule : Rule) : Prop :=
  ∃ setting text read,
    Rule.read setting text = .ok read ∧
      rule.branches = read.branches ∧
      rule.predicates = read.predicates ∧
      rule.mismatched = read.mismatched

/- The rule that a text is read as, if it can be read. -/
def Rule.ofText
    (setting : RuleSetting)
    (text : List Char) : Rule :=
  match Rule.read setting text with
  | .ok rule => rule
  | .error _ => { branches := [], predicates := [] }

theorem Rule.read_ofText
    {setting : RuleSetting}
    {text : List Char}
    (hRead : (Rule.read setting text).isOk = true) :
    Rule.read setting text = .ok (Rule.ofText setting text) := by
  cases hRule : Rule.read setting text with
  | ok rule => rw [Rule.ofText, hRule]
  | error e =>
      rw [hRule] at hRead
      cases hRead

theorem Rule.isCompiled_ofText
    {setting : RuleSetting}
    {text : List Char}
    (hRead : (Rule.read setting text).isOk = true) :
    (Rule.ofText setting text).IsCompiled :=
  ⟨setting, text, _, Rule.read_ofText hRead, rfl, rfl, rfl⟩

/- A rule that is put together from parts that are read. -/
structure Rule.Assembled
    (rule : Rule)
    (body : RuleBody) : Prop where
  body_asRead : body.AsRead
  branches_eq :
    rule.branches = body.branches.map Branch.assignSlots
  predicates_eq :
    rule.predicates =
      body.predicates.map Predicate.assignSlots
  mismatched_eq :
    rule.mismatched =
      Pairing.sorted
        ((correlationFindings rule.branches
          rule.predicates).filterMap Finding.pairing)

/- A rule that is read is assembled from flags and a body. -/
theorem Rule.read_cases
    {setting : RuleSetting}
    {text : List Char}
    {rule : Rule}
    (hRead : Rule.read setting text = .ok rule) :
    ∃ (fields : RuleFields) (source : String)
        (flags : Flags) (body : RuleBody)
        (flagDiagnostics bodyDiagnostics : List Diagnostic)
        (context : ReadContext) (tokens : List Token),
      fields.readFlags setting.digitLimit setting.line =
          .ok (flags, flagDiagnostics) ∧
        readBody context fields.form tokens =
          .ok (body, bodyDiagnostics) ∧
        rule =
          Rule.assemble setting source flags
            (flagDiagnostics.map (nameRule source) ++
              bodyDiagnostics)
            body := by
  unfold Rule.read at hRead
  dsimp only at hRead
  split at hRead
  · cases hRead
  unfold Rule.readTrimmed at hRead
  split at hRead
  · cases hRead
  split at hRead
  · cases hRead
  unfold RuleFields.read at hRead
  split at hRead
  · cases hRead
  rename_i hFlags
  split at hRead
  · cases hRead
  dsimp only at hRead
  split at hRead
  · cases hRead
  rename_i hBody
  cases hRead
  exact ⟨_, _, _, _, _, _, _, _, hFlags, hBody, rfl⟩

/- A compiled rule is put together from what its text says. -/
theorem Rule.IsCompiled.exists_body
    {rule : Rule}
    (hCompiled : rule.IsCompiled) :
    ∃ body, rule.Assembled body := by
  rcases hCompiled with
    ⟨setting, text, read, hRead, hBranches, hPredicates,
      hMismatched⟩
  rcases Rule.read_cases hRead with
    ⟨_, _, _, body, _, _, _, _, _, hBody, rfl⟩
  refine ⟨body, ?_⟩
  exact
    { body_asRead := readBody_asRead hBody
      branches_eq := hBranches
      predicates_eq := hPredicates
      mismatched_eq := by
        rw [hMismatched, hBranches, hPredicates]
        rfl }

namespace Rule.Assembled

variable {rule : Rule}
variable {body : RuleBody}

/- A target is a pattern that was read and numbered. -/
theorem exists_target
    (hRule : rule.Assembled body)
    {branch : Branch}
    (hBranch : branch ∈ rule.branches) :
    ∃ pattern, Pattern.AsRead pattern ∧
      branch.target = Pattern.assignSlots pattern := by
  rw [hRule.branches_eq] at hBranch
  rcases List.mem_map.mp hBranch with ⟨read, hRead, rfl⟩
  exact ⟨read.target, hRule.body_asRead.targets read hRead, rfl⟩

/- A predicate is one that was read and numbered. -/
theorem exists_predicate
    (hRule : rule.Assembled body)
    {predicate : Predicate}
    (hPredicate : predicate ∈ rule.predicates) :
    ∃ read : Predicate, read.AsRead ∧
      predicate = read.assignSlots := by
  rw [hRule.predicates_eq] at hPredicate
  rcases List.mem_map.mp hPredicate with ⟨read, hRead, rfl⟩
  exact ⟨read, hRule.body_asRead.predicates read hRead, rfl⟩

/- A replacement is a pattern that was read and numbered. -/
theorem exists_replacement
    (hRule : rule.Assembled body)
    {predicate : Predicate}
    (hPredicate : predicate ∈ rule.predicates)
    (branch : Nat) :
    ∃ pattern, Pattern.AsRead pattern ∧
      predicate.replacementFor branch =
        Pattern.assignSlots pattern := by
  rcases hRule.exists_predicate hPredicate with
    ⟨read, hRead, rfl⟩
  have hTurn :
      read.assignSlots.replacementFor branch =
        (((read.replacements[
            branch % read.replacements.length]?).map
          Pattern.assignSlots).getD []) := by
    simp only [Predicate.replacementFor,
      Predicate.assignSlots, List.length_map,
      List.getElem?_map]
  rw [hTurn]
  cases hPattern :
      read.replacements[
        branch % read.replacements.length]? with
  | none => exact ⟨[], Pattern.AsRead.nil, rfl⟩
  | some pattern =>
      exact ⟨pattern, hRead.replacements pattern
        (List.mem_of_getElem? hPattern), rfl⟩

/- The patterns of its environments are as they were read. -/
theorem asRead_of_group
    (hRule : rule.Assembled body)
    {predicate : Predicate}
    (hPredicate : predicate ∈ rule.predicates)
    {group : EnvironmentGroup}
    (hGroup : group ∈ predicate.environments) :
    ∀ pattern ∈ group.flatMap Environment.patterns,
      Pattern.AsRead pattern := by
  rcases hRule.exists_predicate hPredicate with
    ⟨read, hRead, rfl⟩
  intro pattern hPattern
  rcases List.mem_flatMap.mp hPattern with
    ⟨environment, hEnvironment, hPattern⟩
  exact
    hRead.environments group hGroup environment hEnvironment
      pattern hPattern

theorem predicates_ne
    (hRule : rule.Assembled body) :
    rule.predicates ≠ [] := by
  rw [hRule.predicates_eq]
  intro hNone
  exact hRule.body_asRead.predicates_ne
    (List.map_eq_nil_iff.mp hNone)

end Rule.Assembled

end Diachrony
