import Diachrony.Proofs.Run.Budget
import Diachrony.Proofs.Source.AsRead
import Diachrony.Proofs.Source.References

/-
  Flaws of a rule that are reported as it is read.

  A reference to a category that is not defined is reported
  where it is read, and so is an element of a replacement
  that cannot be written. So if a rule was read without such
  a report, all categories in its patterns are defined, or
  all elements of its replacements can be written.

  What is read without a report of a kind is followed from
  the patterns up to the rule once, for whatever the lack of
  reports says about a pattern.

  Key definitions include:
    * `IsSilent`
    * `Pattern.IsResolved`
    * `Pattern.IsWritable`
    * `ReadContext.Vouches`

  Key theorems include:
    * `readUnits_resolved`
    * `readBody_consists`
    * `Rule.read_resolved`
    * `Rule.read_writable`
-/

namespace Diachrony

------------------------------------------------------------
-- Reports and flaws
------------------------------------------------------------

/- Nothing of a kind is reported. -/
def IsSilent
    (kind : DiagnosticKind)
    (diagnostics : List Diagnostic) : Prop :=
  ∀ diagnostic ∈ diagnostics, diagnostic.kind ≠ kind

section Silence

variable {kind : DiagnosticKind}
variable {diagnostics others : List Diagnostic}

theorem isSilent_append :
    IsSilent kind (diagnostics ++ others) ↔
      IsSilent kind diagnostics ∧ IsSilent kind others :=
  List.forall_mem_append

theorem IsSilent.of_subset
    (hSilent : IsSilent kind others)
    (hSubset : diagnostics ⊆ others) :
    IsSilent kind diagnostics :=
  fun diagnostic hMem => hSilent diagnostic (hSubset hMem)

/- If there is some report of a kind, it is not silent. -/
theorem exists_of_not_isSilent
    (hNoisy : ¬IsSilent kind diagnostics) :
    ∃ diagnostic ∈ diagnostics, diagnostic.kind = kind := by
  simpa [IsSilent] using hNoisy

end Silence

namespace Pattern

/- All categories that a pattern refers to are defined. -/
def IsResolved
    (pattern : Pattern) : Prop :=
  ∀ ref ∈ pattern.categoryRefs, ref.category ≠ none

/- All elements of a pattern can be written into a word. -/
def IsWritable
    (pattern : Pattern) : Prop :=
  ∀ element ∈ pattern, element.writable = true

variable {pattern other : Pattern}
variable {element last : Element}

theorem isResolved_append :
    IsResolved (pattern ++ other) ↔
      IsResolved pattern ∧ IsResolved other := by
  unfold IsResolved
  rw [categoryRefs_append, List.forall_mem_append]

/- Without references there is nothing to resolve. -/
theorem isResolved_of_noRefs
    (hNone : pattern.categoryRefs = []) :
    IsResolved pattern := by
  unfold IsResolved
  rw [hNone]
  exact List.forall_mem_nil _

/- A group refers to what its elements refer to. -/
theorem isResolved_optional
    (isLazy : Bool) :
    IsResolved [.optional pattern isLazy] ↔ IsResolved pattern := by
  unfold IsResolved
  rw [categoryRefs_cons]
  exact iff_of_eq (by rw [← List.append_nil pattern.categoryRefs]; rfl)

/- What is repeated refers to the same. -/
theorem isResolved_repeated
    (hLast : pattern.getLast? = some last)
    (min : Int)
    (max : Option Int)
    (isLazy : Bool) :
    IsResolved
        (pattern.replaceLast (.repeated last min max isLazy)) ↔
      IsResolved pattern := by
  have hParts : pattern.dropLast ++ [last] = pattern :=
    List.dropLast_append_getLast? last hLast
  conv_rhs => rw [← hParts]
  rw [replaceLast, isResolved_append, isResolved_append]
  exact Iff.rfl

theorem isResolved_literals
    (context : ReadContext)
    (text : String) :
    IsResolved (context.literals text) := by
  apply isResolved_of_noRefs
  rw [ReadContext.literals]
  induction context.symbols text with
  | nil => rfl
  | cons symbol rest ih =>
      rw [List.map_cons, categoryRefs_cons, ih]
      rfl

theorem isResolved_element?
    {kind : TokenKind}
    (hElement : kind.element? = some element) :
    IsResolved [element] := by
  apply isResolved_of_noRefs
  unfold TokenKind.element? at hElement
  split at hElement <;> cases hElement <;> rfl

end Pattern

------------------------------------------------------------
-- Numbered patterns
------------------------------------------------------------

/- Numbers are given to slots, and categories stay. -/
theorem CategoryRef.exists_of_mem_numberFrom
    {refs : List CategoryRef}
    {next : Nat}
    {ref : CategoryRef}
    (hMem : ref ∈ numberFrom next refs) :
    ∃ read ∈ refs, ref.category = read.category := by
  induction refs generalizing next with
  | nil => cases hMem
  | cons first rest ih =>
      rw [numberFrom] at hMem
      rcases List.mem_cons.mp hMem with rfl | hRest
      · refine ⟨first, List.mem_cons_self, ?_⟩
        unfold assignSlot
        split <;> rfl
      · rcases ih hRest with ⟨read, hRead, hSame⟩
        exact ⟨read, List.mem_cons_of_mem _ hRead, hSame⟩

theorem Element.writable_assignSlotsFrom
    (element : Element)
    (next : Nat) :
    (Element.assignSlotsFrom next element).1.writable =
      element.writable := by
  cases element <;> rfl

namespace Pattern

variable {pattern : Pattern}

theorem IsResolved.assignSlots
    (hPattern : pattern.IsResolved) :
    IsResolved (Pattern.assignSlots pattern) := by
  intro ref hMem
  rw [categoryRefs_assignSlots] at hMem
  rcases CategoryRef.exists_of_mem_numberFrom hMem with
    ⟨read, hRead, hSame⟩
  rw [hSame]
  exact hPattern read hRead

theorem IsWritable.assignSlotsFrom
    (hPattern : pattern.IsWritable)
    (next : Nat) :
    IsWritable (Pattern.assignSlotsFrom next pattern).1 := by
  induction pattern generalizing next with
  | nil => exact hPattern
  | cons element rest ih =>
      rcases List.forall_mem_cons.mp hPattern with
        ⟨hFirst, hRest⟩
      refine List.forall_mem_cons.mpr ⟨?_, ih hRest _⟩
      rw [Element.writable_assignSlotsFrom]
      exact hFirst

theorem IsWritable.assignSlots
    (hPattern : pattern.IsWritable) :
    IsWritable (Pattern.assignSlots pattern) :=
  hPattern.assignSlotsFrom 0

end Pattern

------------------------------------------------------------
-- Reading patterns
------------------------------------------------------------

section Patterns

variable {context : ReadContext}
variable {tokens : List Token}

theorem readReference_resolved
    {result : Parsed CategoryRef}
    (hRead : readReference context tokens = .ok result)
    (hSilent : IsSilent .undefinedCategory result.diagnostics) :
    result.value.category ≠ none := by
  unfold readReference at hRead
  split at hRead
  · rename_i name _ _
    cases hRead
    dsimp only at hSilent ⊢
    unfold ReadContext.named at hSilent ⊢
    split at hSilent
    · exact Option.some_ne_none _
    · exact absurd rfl (hSilent _ (List.mem_singleton_self _))
  · split at hRead
    · cases hRead
    split at hRead
    · cases hRead
    · cases hRead
      exact Option.some_ne_none _

theorem readTag_category
    {ref : CategoryRef}
    {result : CategoryRef × List Token}
    (hRead : readTag context ref tokens = .ok result) :
    result.1.category = ref.category := by
  unfold readTag at hRead
  split at hRead
  · cases hRead
    rfl
  · exact absurd hRead ReadContext.failAt_ne_ok
  · split at hRead
    · split at hRead
      · cases hRead
      · cases hRead
        rfl
    · cases hRead

theorem readCategory_resolved
    {result : Parsed Element}
    (hRead : readCategory context tokens = .ok result)
    (hSilent : IsSilent .undefinedCategory result.diagnostics) :
    Pattern.IsResolved [result.value] := by
  unfold readCategory at hRead
  split at hRead
  · cases hRead
    exact Pattern.isResolved_of_noRefs rfl
  split at hRead
  · cases hRead
  rename_i hReference
  split at hRead
  · cases hRead
  rename_i hTag
  cases hRead
  intro ref hMem
  obtain rfl := List.mem_singleton.mp hMem
  have hSame := readTag_category hTag
  dsimp only at hSame
  rw [hSame]
  exact readReference_resolved hReference hSilent

theorem readRepeat_repeated
    {element : Element}
    {result : Element × List Token}
    (hRead : readRepeat context element tokens = .ok result) :
    ∃ min max isLazy,
      result.1 = .repeated element min max isLazy := by
  unfold readRepeat at hRead
  split at hRead
  · cases hRead
  dsimp only at hRead
  split at hRead
  · cases hRead
  · cases hRead
    exact ⟨_, _, _, rfl⟩

/-
  What has been read by the time nothing undefined has been
  reported is resolved, inside and outside the open groups.
-/
theorem readUnits_resolved
    {stops : List TokenKind}
    {groups : List OpenGroup}
    {pattern : Pattern}
    {diagnostics : List Diagnostic}
    {result : Parsed Pattern}
    (hGroups : IsSilent .undefinedCategory diagnostics →
      ∀ group ∈ groups, Pattern.IsResolved group.before)
    (hPattern : IsSilent .undefinedCategory diagnostics →
      pattern.IsResolved)
    (hRead :
      readUnits context stops groups pattern diagnostics
        tokens = .ok result)
    (hSilent : IsSilent .undefinedCategory result.diagnostics) :
    Pattern.IsResolved result.value := by
  have hPlain : ∀ {pattern more : Pattern} {diagnostics},
      (IsSilent .undefinedCategory diagnostics →
        pattern.IsResolved) →
      Pattern.IsResolved more →
      IsSilent .undefinedCategory diagnostics →
        Pattern.IsResolved (pattern ++ more) :=
    fun hBefore hMore hSilent =>
      Pattern.isResolved_append.mpr ⟨hBefore hSilent, hMore⟩
  fun_induction readUnits context stops groups pattern
      diagnostics tokens
  case case1 | case3 =>
    cases hRead
    exact hPattern hSilent
  case case5 =>
    -- the group is closed, and goes on outside it
    rename_i ih
    refine ih (fun hNone => ?_) (fun hNone => ?_) hRead
    · exact (List.forall_mem_cons.mp (hGroups hNone)).2
    · exact
        Pattern.isResolved_append.mpr
          ⟨(List.forall_mem_cons.mp (hGroups hNone)).1,
            (Pattern.isResolved_optional _).mpr (hPattern hNone)⟩
  case case6 =>
    rename_i ih
    refine ih (fun hNone => ?_) (fun _ => ?_) hRead
    · exact
        List.forall_mem_cons.mpr
          ⟨hPattern hNone, hGroups hNone⟩
    · exact Pattern.isResolved_of_noRefs rfl
  case case9 =>
    rename_i hLast _ _ hRepeat _ ih
    refine ih hGroups (fun hNone => ?_) hRead
    rcases readRepeat_repeated hRepeat with
      ⟨min, max, isLazy, hSame⟩
    dsimp only at hSame
    rw [hSame]
    exact
      (Pattern.isResolved_repeated hLast min max isLazy).mpr
        (hPattern hNone)
  case case11 =>
    rename_i hCategory _ ih
    refine ih (fun hNone => ?_) (fun hNone => ?_) hRead
    · exact hGroups (isSilent_append.mp hNone).1
    · exact
        Pattern.isResolved_append.mpr
          ⟨hPattern (isSilent_append.mp hNone).1,
            readCategory_resolved hCategory
              (isSilent_append.mp hNone).2⟩
  case case12 =>
    rename_i ih
    exact ih hGroups
      (hPlain hPattern (Pattern.isResolved_literals context _))
      hRead
  case case13 | case14 | case15 =>
    rename_i ih
    exact ih hGroups
      (hPlain hPattern (Pattern.isResolved_of_noRefs rfl)) hRead
  case case16 =>
    rename_i hElement _ ih
    exact ih hGroups
      (hPlain hPattern (Pattern.isResolved_element? hElement))
      hRead
  all_goals cases hRead

theorem readPattern_resolved
    {stops : List TokenKind}
    {result : Parsed Pattern}
    (hRead : readPattern context stops tokens = .ok result)
    (hSilent : IsSilent .undefinedCategory result.diagnostics) :
    Pattern.IsResolved result.value :=
  readUnits_resolved (fun _ => List.forall_mem_nil _)
    (fun _ => Pattern.isResolved_of_noRefs rfl) hRead hSilent

/- A replacement is a pattern, whose elements are looked at. -/
theorem readReplacement_cases
    {result : Parsed Pattern}
    (hRead : readReplacement context tokens = .ok result) :
    ∃ pattern : Parsed Pattern,
      readPattern context clauseStops tokens = .ok pattern ∧
        result.value = pattern.value ∧
        pattern.value ≠ [] ∧
        result.diagnostics =
          pattern.diagnostics ++
            context.unwritable tokens pattern.value := by
  unfold readReplacement at hRead
  split at hRead
  · cases hRead
  rename_i hPattern
  split at hRead
  · exact absurd hRead ReadContext.failAt_ne_ok
  rename_i hSome
  split at hRead
  · exact absurd hRead ReadContext.failAt_ne_ok
  · cases hRead
    exact
      ⟨_, hPattern, rfl,
        fun hNone => hSome (List.isEmpty_iff.mpr hNone), rfl⟩

theorem readReplacement_resolved
    {result : Parsed Pattern}
    (hRead : readReplacement context tokens = .ok result)
    (hSilent : IsSilent .undefinedCategory result.diagnostics) :
    Pattern.IsResolved result.value := by
  rcases readReplacement_cases hRead with
    ⟨pattern, hPattern, hValue, _, hReported⟩
  rw [hReported] at hSilent
  rw [hValue]
  exact
    readPattern_resolved hPattern (isSilent_append.mp hSilent).1

/- Each element that cannot be written is reported. -/
theorem readReplacement_writable
    {result : Parsed Pattern}
    (hRead : readReplacement context tokens = .ok result)
    (hSilent : IsSilent .invalidReplacement result.diagnostics) :
    Pattern.IsWritable result.value := by
  rcases readReplacement_cases hRead with
    ⟨pattern, hPattern, hValue, hSome, hReported⟩
  rw [hReported] at hSilent
  rw [hValue]
  intro element hMem
  rw [← Bool.not_eq_false]
  intro hFlawed
  cases tokens with
  | nil =>
      rw [readPattern, readUnits] at hPattern
      cases hPattern
      exact hSome rfl
  | cons first rest =>
      have hListed :
          context.diagnostic first (.unwritable element.text) ∈
            context.unwritable (first :: rest) pattern.value :=
        List.mem_map_of_mem
          (List.mem_filter.mpr ⟨hMem, by rw [hFlawed]; rfl⟩)
      exact (isSilent_append.mp hSilent).2 _ hListed rfl

end Patterns

------------------------------------------------------------
-- Reading bodies
------------------------------------------------------------

/-
  If nothing of a kind is reported, patterns that are read
  have one property and replacements another, and so has
  nothing by itself.
-/
structure ReadContext.Vouches
    (context : ReadContext)
    (kind : DiagnosticKind)
    (Q R : Pattern → Prop) : Prop where
  pattern :
    ∀ stops tokens parsed,
      readPattern context stops tokens = .ok parsed →
        IsSilent kind parsed.diagnostics → Q parsed.value
  replacement :
    ∀ tokens parsed,
      readReplacement context tokens = .ok parsed →
        IsSilent kind parsed.diagnostics → R parsed.value
  nothing : Q nothing ∧ R nothing

/-
  A predicate whose replacements have one property and the
  patterns of whose conditions have another.
-/
structure Predicate.Consists
    (Q R : Pattern → Prop)
    (predicate : Predicate) : Prop where
  replacements : ∀ pattern ∈ predicate.replacements, R pattern
  conditions :
    ∀ group ∈ predicate.environments ++ predicate.exceptions,
      ∀ environment ∈ group,
        ∀ pattern ∈ environment.patterns, Q pattern

/- The parts of a rule, with properties of their patterns. -/
structure RuleBody.Consists
    (Q R : Pattern → Prop)
    (body : RuleBody) : Prop where
  targets : ∀ branch ∈ body.branches, Q branch.target
  predicates :
    ∀ predicate ∈ body.predicates, predicate.Consists Q R

section Bodies

variable {context : ReadContext}
variable {tokens : List Token}
variable {kind : DiagnosticKind}
variable {Q R : Pattern → Prop}

/- What holds of each silent item holds of a silent list. -/
theorem readSeparated_silent
    {α : Type}
    {separator : TokenKind}
    {readItem : List Token → Except ReadError (Parsed α)}
    (property : α → Prop)
    (hItem : ∀ tokens item,
      readItem tokens = .ok item →
        IsSilent kind item.diagnostics → property item.value)
    {result : Parsed (List α)}
    (hRead :
      readSeparated separator readItem tokens = .ok result)
    (hSilent : IsSilent kind result.diagnostics) :
    ∀ item ∈ result.value, property item := by
  fun_induction readSeparated separator readItem tokens
      generalizing result
  case case1 => cases hRead
  case case2 | case5 =>
    cases hRead
    exact List.forall_mem_singleton.mpr (hItem _ _ ‹_› hSilent)
  case case3 => cases hRead
  case case4 =>
    rename_i hFirst _ _ _ _ hLater ih
    cases hRead
    rcases isSilent_append.mp hSilent with ⟨hHere, hThere⟩
    exact
      List.forall_mem_cons.mpr
        ⟨hItem _ _ hFirst hHere, ih hLater hThere⟩

variable (hVouches : context.Vouches kind Q R)

include hVouches

theorem readRightSide_silent
    {result : Parsed Pattern}
    (hRead : readRightSide context tokens = .ok result)
    (hSilent : IsSilent kind result.diagnostics) :
    Q result.value := by
  unfold readRightSide at hRead
  split at hRead
  · cases hRead
  rename_i hPattern
  split at hRead
  · exact absurd hRead ReadContext.failAt_ne_ok
  split at hRead
  · exact absurd hRead ReadContext.failAt_ne_ok
  · cases hRead
    exact hVouches.pattern _ _ _ hPattern hSilent

theorem readEnvironment_silent
    {result : Parsed Environment}
    (hRead : readEnvironment context tokens = .ok result)
    (hSilent : IsSilent kind result.diagnostics) :
    ∀ pattern ∈ result.value.patterns, Q pattern := by
  unfold readEnvironment at hRead
  split at hRead
  · cases hRead
  rename_i hLeft
  split at hRead
  · split at hRead
    · cases hRead
    rename_i hRight
    cases hRead
    rcases isSilent_append.mp hSilent with ⟨hHere, hThere⟩
    simp only [Environment.patterns, List.forall_mem_cons]
    exact
      ⟨hVouches.pattern _ _ _ hLeft hHere,
        readRightSide_silent hVouches hRight hThere,
        List.forall_mem_nil _⟩
  · split at hRead
    · exact absurd hRead ReadContext.failAt_ne_ok
    split at hRead
    · cases hRead
    · cases hRead
      exact
        List.forall_mem_singleton.mpr
          (hVouches.pattern _ _ _ hLeft hSilent)

theorem readConditions_silent
    {sign : TokenKind}
    {result : Parsed (List EnvironmentGroup)}
    (hRead : readConditions context sign tokens = .ok result)
    (hSilent : IsSilent kind result.diagnostics) :
    ∀ group ∈ result.value, ∀ environment ∈ group,
      ∀ pattern ∈ environment.patterns, Q pattern := by
  unfold readConditions at hRead
  split at hRead
  · cases hRead
    exact List.forall_mem_nil _
  · refine
      readSeparated_silent _ (fun _ _ hGroup hHere => ?_) hRead
        hSilent
    exact
      readSeparated_silent _
        (fun _ _ => readEnvironment_silent hVouches) hGroup hHere

theorem readBranch_silent
    {result : Parsed Branch}
    (hRead : readBranch context tokens = .ok result)
    (hSilent : IsSilent kind result.diagnostics) :
    Q result.value.target := by
  unfold readBranch at hRead
  split at hRead
  · cases hRead
  rename_i hTarget
  split at hRead
  · exact absurd hRead ReadContext.failAt_ne_ok
  split at hRead
  · cases hRead
  · cases hRead
    exact hVouches.pattern _ _ _ hTarget hSilent

theorem readClauses_silent
    {replacements : List Pattern}
    (hReplacements : ∀ pattern ∈ replacements, R pattern)
    {result : Parsed Predicate}
    (hRead :
      readClauses context replacements tokens = .ok result)
    (hSilent : IsSilent kind result.diagnostics) :
    result.value.Consists Q R := by
  unfold readClauses at hRead
  split at hRead
  · cases hRead
  rename_i hEnvironments
  split at hRead
  · cases hRead
  rename_i hExceptions
  cases hRead
  rcases isSilent_append.mp hSilent with ⟨hHere, hThere⟩
  exact
    { replacements := hReplacements
      conditions :=
        List.forall_mem_append.mpr
          ⟨readConditions_silent hVouches hEnvironments hHere,
            readConditions_silent hVouches hExceptions hThere⟩ }

theorem readPredicate_silent
    {result : Parsed Predicate}
    (hRead : readPredicate context tokens = .ok result)
    (hSilent : IsSilent kind result.diagnostics) :
    result.value.Consists Q R := by
  unfold readPredicate at hRead
  split at hRead
  · cases hRead
  rename_i hReplacements
  split at hRead
  · cases hRead
  rename_i hClauses
  cases hRead
  rcases isSilent_append.mp hSilent with ⟨hHere, hThere⟩
  have hWritten :=
    readSeparated_silent R hVouches.replacement hReplacements
      hHere
  have hPredicate :=
    readClauses_silent hVouches hWritten hClauses hThere
  exact hPredicate

theorem readTargets_silent
    {form : RuleForm}
    {result : Parsed (List Branch)}
    (hRead : readTargets context form tokens = .ok result)
    (hSilent : IsSilent kind result.diagnostics) :
    ∀ branch ∈ result.value, Q branch.target := by
  have hBranches :
      readBranches context tokens = .ok result →
        ∀ branch ∈ result.value, Q branch.target :=
    fun hList =>
      readSeparated_silent _
        (fun _ _ => readBranch_silent hVouches) hList hSilent
  cases form with
  | insertion =>
      cases hRead
      exact List.forall_mem_singleton.mpr hVouches.nothing.1
  | substitution => exact hBranches hRead
  | deletion => exact hBranches hRead

theorem readChanges_silent
    {form : RuleForm}
    {result : Parsed (List Predicate)}
    (hRead : readChanges context form tokens = .ok result)
    (hSilent : IsSilent kind result.diagnostics) :
    ∀ predicate ∈ result.value, predicate.Consists Q R := by
  cases form with
  | substitution =>
      change readPredicates context tokens = .ok result at hRead
      unfold readPredicates at hRead
      split at hRead
      · exact absurd hRead ReadContext.failAt_ne_ok
      · exact
          readSeparated_silent _
            (fun _ _ => readPredicate_silent hVouches) hRead
            hSilent
  | insertion =>
      unfold readChanges at hRead
      dsimp only at hRead
      split at hRead
      · cases hRead
      rename_i hPredicate
      cases hRead
      exact
        List.forall_mem_singleton.mpr
          (readPredicate_silent hVouches hPredicate hSilent)
  | deletion =>
      unfold readChanges at hRead
      dsimp only at hRead
      split at hRead
      · cases hRead
      rename_i hClauses
      cases hRead
      exact
        List.forall_mem_singleton.mpr
          (readClauses_silent hVouches
            (List.forall_mem_singleton.mpr hVouches.nothing.2)
            hClauses hSilent)

/- What a context vouches for holds of a silent body. -/
theorem readBody_consists
    {form : RuleForm}
    {body : RuleBody}
    {diagnostics : List Diagnostic}
    (hRead :
      readBody context form tokens = .ok (body, diagnostics))
    (hSilent : IsSilent kind diagnostics) :
    body.Consists Q R := by
  unfold readBody at hRead
  split at hRead
  · cases hRead
  rename_i hTargets
  split at hRead
  · cases hRead
  rename_i hChanges
  split at hRead
  · cases hRead
  · cases hRead
    rcases isSilent_append.mp hSilent with ⟨hHere, hThere⟩
    exact
      { targets := readTargets_silent hVouches hTargets hHere
        predicates :=
          readChanges_silent hVouches hChanges hThere }

end Bodies

/- Where nothing undefined is reported, all is resolved. -/
theorem ReadContext.vouches_resolved
    (context : ReadContext) :
    context.Vouches .undefinedCategory Pattern.IsResolved
      Pattern.IsResolved where
  pattern := fun _ _ _ => readPattern_resolved
  replacement := fun _ _ => readReplacement_resolved
  nothing :=
    ⟨Pattern.isResolved_of_noRefs rfl,
      Pattern.isResolved_of_noRefs rfl⟩

/- Where nothing invalid is reported, all can be written. -/
theorem ReadContext.vouches_writable
    (context : ReadContext) :
    context.Vouches .invalidReplacement (fun _ => True)
      Pattern.IsWritable where
  pattern := fun _ _ _ _ _ => trivial
  replacement := fun _ _ => readReplacement_writable
  nothing := ⟨trivial, List.forall_mem_singleton.mpr rfl⟩

------------------------------------------------------------
-- Reading rules
------------------------------------------------------------

section Rules

variable {setting : RuleSetting}
variable {text : List Char}
variable {rule : Rule}

/- The reports on a body are among those on its rule. -/
theorem Rule.read_consists
    {kind : DiagnosticKind}
    {Q R : Pattern → Prop}
    (hVouches :
      ∀ context : ReadContext, context.Vouches kind Q R)
    (hRead : Rule.read setting text = .ok rule)
    (hSilent : IsSilent kind rule.diagnostics) :
    ∃ body,
      RuleBody.Consists Q R body ∧
        rule.branches = body.branches.map Branch.assignSlots ∧
        rule.predicates =
          body.predicates.map Predicate.assignSlots := by
  rcases Rule.read_cases hRead with
    ⟨_, _, _, body, _, diagnostics, context, _, _, hBody, rfl⟩
  refine ⟨body, ?_, rfl, rfl⟩
  refine readBody_consists (hVouches context) hBody ?_
  refine hSilent.of_subset fun diagnostic hMem => ?_
  apply Diagnostic.subset_foldl_addNew
  exact
    List.mem_append_left _ (List.mem_append_right _ hMem)

/-
  If no undefined category was reported as a rule was read,
  all its patterns are resolved, however deep in groups and
  repetitions its references stand.
-/
theorem Rule.read_resolved
    (hRead : Rule.read setting text = .ok rule)
    (hSilent : IsSilent .undefinedCategory rule.diagnostics) :
    ∀ pattern ∈ rule.patterns, pattern.IsResolved := by
  rcases Rule.read_consists ReadContext.vouches_resolved hRead
      hSilent with
    ⟨body, hBody, hBranches, hPredicates⟩
  simp only [Rule.patterns, patternsOf, hBranches, hPredicates,
    List.forall_mem_append, List.forall_mem_map,
    List.forall_mem_flatMap]
  refine ⟨fun branch hMem => ?_, fun predicate hMem => ?_⟩
  · exact (hBody.targets branch hMem).assignSlots
  · have hRead := hBody.predicates predicate hMem
    refine
      Predicate.forall_patterns_iff.mpr ⟨?_, hRead.conditions⟩
    intro pattern hPattern
    rcases List.mem_map.mp hPattern with ⟨read, hMem, rfl⟩
    exact (hRead.replacements read hMem).assignSlots

/-
  If nothing was reported that cannot be written, each
  replacement of a rule can be.
-/
theorem Rule.read_writable
    (hRead : Rule.read setting text = .ok rule)
    (hSilent : IsSilent .invalidReplacement rule.diagnostics) :
    ∀ predicate ∈ rule.predicates,
      ∀ pattern ∈ predicate.replacements,
        pattern.IsWritable := by
  rcases Rule.read_consists ReadContext.vouches_writable hRead
      hSilent with
    ⟨body, hBody, _, hPredicates⟩
  rw [hPredicates]
  refine List.forall_mem_map.mpr fun predicate hMem => ?_
  refine List.forall_mem_map.mpr fun pattern hPattern => ?_
  have hRead := hBody.predicates predicate hMem
  exact (hRead.replacements pattern hPattern).assignSlots

end Rules

end Diachrony
