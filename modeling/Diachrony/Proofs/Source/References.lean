import Diachrony.Proofs.Source.Spellings

/-
  The categories that a rule refers to.

  A rule that is read refers to categories of the table by
  their names, and to those that are written in line. What
  holds of all of these holds of every category in the
  targets, replacements, environments and exceptions of the
  rule, however deep it stands in groups and repetitions.

  Key definitions include:
    * `Pattern.categories`
    * `Rule.patterns`
    * `Rule.categories`

  Key theorems include:
    * `Derives.forall_categories`
    * `DerivesBody.forall_patterns`
    * `Rule.read_forall_categories`
-/

namespace Diachrony

------------------------------------------------------------
-- Patterns
------------------------------------------------------------

/- The categories that a pattern refers to. -/
def Pattern.categories
    (pattern : Pattern) : List Category :=
  (Pattern.categoryRefs pattern).filterMap CategoryRef.category

/- The patterns of a predicate. -/
def Predicate.patterns
    (predicate : Predicate) : List Pattern :=
  predicate.replacements ++
    (predicate.environments ++
      predicate.exceptions).flatten.flatMap
        Environment.patterns

/- The patterns of branches and predicates. -/
def patternsOf
    (branches : List Branch)
    (predicates : List Predicate) : List Pattern :=
  branches.map Branch.target ++
    predicates.flatMap Predicate.patterns

/- The patterns of a rule. -/
def Rule.patterns
    (rule : Rule) : List Pattern :=
  patternsOf rule.branches rule.predicates

/- The categories that a rule refers to. -/
def Rule.categories
    (rule : Rule) : List Category :=
  rule.patterns.flatMap Pattern.categories

namespace Pattern

variable {before after pattern : Pattern}
variable {last : Element}

theorem categories_append :
    categories (before ++ after) =
      categories before ++ categories after := by
  rw [categories, categoryRefs_append, List.filterMap_append]
  rfl

theorem categories_literals
    (symbols : List Symbol) :
    categories (symbols.map Element.literal) = [] := by
  induction symbols with
  | nil => rfl
  | cons symbol rest ih =>
      have hFirst :
          symbol :: rest = [symbol] ++ rest := rfl
      rw [hFirst, List.map_append]
      exact categories_append.trans ih

/- What is repeated keeps its categories. -/
theorem categories_quantified
    (hLast : pattern.getLast? = some last)
    (min : Int)
    (max : Option Int)
    (isLazy : Bool) :
    categories
        (pattern.replaceLast (.repeated last min max isLazy)) =
      categories pattern := by
  have hParts : pattern.dropLast ++ [last] = pattern :=
    List.dropLast_append_getLast? last hLast
  conv_rhs => rw [← hParts]
  rw [replaceLast, categories_append, categories_append]
  rfl

/- Numbers do not change what is referred to. -/
theorem categories_numberFrom
    (refs : List CategoryRef)
    (next : Nat) :
    (CategoryRef.numberFrom next refs).filterMap
        CategoryRef.category =
      refs.filterMap CategoryRef.category := by
  induction refs generalizing next with
  | nil => rfl
  | cons ref rest ih =>
      have hSame :
          (ref.assignSlot next).1.category = ref.category := by
        unfold CategoryRef.assignSlot
        split <;> rfl
      rw [CategoryRef.numberFrom, List.filterMap_cons,
        List.filterMap_cons, hSame, ih]

theorem categories_assignSlots
    (pattern : Pattern) :
    categories (assignSlots pattern) = categories pattern := by
  rw [categories, categoryRefs_assignSlots]
  exact categories_numberFrom _ _

end Pattern

------------------------------------------------------------
-- What is derived
------------------------------------------------------------

section Derivations

variable {context : ReadContext}
variable {tokens : List Token}

/- What holds of the categories that are named and listed. -/
structure ReadContext.RefersOnly
    (context : ReadContext)
    (P : Category → Prop) : Prop where
  named :
    ∀ name category,
      context.table.resolve? name = some category → P category
  listed :
    ∀ tokens members,
      DerivesMembers context tokens members →
        P { name := "", members := members }

variable {P : Category → Prop}

theorem DerivesBracket.forall_category
    {ref : CategoryRef}
    (hRefers : context.RefersOnly P)
    (hBracket : DerivesBracket context tokens ref) :
    ∀ category ∈ ref.category, P category := by
  intro category hCategory
  cases hBracket with
  | @named _ name =>
      unfold ReadContext.named at hCategory
      split at hCategory
      · rename_i hResolve
        cases hCategory
        exact hRefers.named _ _ hResolve
      · cases hCategory
  | listed _ hMembers =>
      cases hCategory
      exact hRefers.listed _ _ hMembers

theorem DerivesTag.category_eq
    {ref tagged : CategoryRef}
    (hTag : DerivesTag context ref tokens tagged) :
    tagged.category = ref.category := by
  cases hTag <;> rfl

/-
  What holds of the categories of a table and of those that
  are listed holds of all that a pattern refers to.
-/
theorem Derives.forall_categories
    {phrase : Phrase}
    {pattern : Pattern}
    (hRefers : context.RefersOnly P)
    (hDerives : Derives context phrase tokens pattern) :
    ∀ category ∈ Pattern.categories pattern, P category := by
  induction hDerives with
  | none => exact List.forall_mem_nil _
  | more _ _ ihFirst ihLater =>
      rw [Pattern.categories_append]
      exact List.forall_mem_append.mpr ⟨ihFirst, ihLater⟩
  | plain _ ih => exact ih
  | quantified _ hLast hQuantifier ih =>
      cases hQuantifier with
      | braces =>
          rw [Pattern.categories_quantified hLast]
          exact ih
  | text =>
      rw [ReadContext.literals, Pattern.categories_literals]
      exact List.forall_mem_nil _
  | @sign token _ hSign =>
      generalize token.kind = kind at hSign
      cases hSign <;> exact List.forall_mem_nil _
  | group _ _ _ _ _ ih =>
      have hSame (elements : Pattern) (isLazy : Bool) :
          Pattern.categories [.optional elements isLazy] =
            Pattern.categories elements := by
        rw [Pattern.categories, Pattern.categoryRefs_cons,
          Pattern.categories]
        exact congrArg _ (List.append_nil _)
      rw [hSame]
      exact ih
  | category hBracket hTag =>
      intro category hMem
      rcases List.mem_filterMap.mp hMem with
        ⟨ref, hRef, hCategory⟩
      obtain rfl := List.mem_singleton.mp hRef
      rw [hTag.category_eq] at hCategory
      exact hBracket.forall_category hRefers category hCategory
  | escape | wildcard | gap | nothing =>
      exact List.forall_mem_nil _

theorem DerivesSeparated.forall_values
    {α : Type}
    {separator : TokenKind}
    {derives : List Token → α → Prop}
    {Q : α → Prop}
    {values : List α}
    (hItem : ∀ tokens value, derives tokens value → Q value)
    (hValues :
      DerivesSeparated separator derives tokens values) :
    ∀ value ∈ values, Q value := by
  induction hValues with
  | one hFirst =>
      exact List.forall_mem_singleton.mpr (hItem _ _ hFirst)
  | more hFirst _ _ ih =>
      exact List.forall_mem_cons.mpr ⟨hItem _ _ hFirst, ih⟩

variable {Q : Pattern → Prop}

/- What holds of patterns by themselves. -/
structure ReadContext.DerivesOnly
    (context : ReadContext)
    (Q : Pattern → Prop) : Prop where
  units :
    ∀ tokens pattern,
      Derives context .units tokens pattern → Q pattern
  nothing : Q nothing

theorem DerivesEnvironment.forall_patterns
    {environment : Environment}
    (hOnly : context.DerivesOnly Q)
    (hEnvironment :
      DerivesEnvironment context tokens environment) :
    ∀ pattern ∈ environment.patterns, Q pattern := by
  cases hEnvironment with
  | around hLeft _ hRight =>
      simp only [Environment.patterns, List.forall_mem_cons]
      exact
        ⟨hOnly.units _ _ hLeft, hOnly.units _ _ hRight, nofun⟩
  | anywhere hPattern =>
      exact
        List.forall_mem_singleton.mpr
          (hOnly.units _ _ hPattern)

theorem DerivesConditions.forall_patterns
    {sign : TokenKind}
    {groups : List EnvironmentGroup}
    (hOnly : context.DerivesOnly Q)
    (hConditions :
      DerivesConditions context sign tokens groups) :
    ∀ group ∈ groups, ∀ environment ∈ group,
      ∀ pattern ∈ environment.patterns, Q pattern := by
  cases hConditions with
  | missing => exact List.forall_mem_nil _
  | given _ hGroups =>
      exact
        hGroups.forall_values fun _ _ hGroup =>
          hGroup.forall_values fun _ _ hEnvironment =>
            hEnvironment.forall_patterns hOnly

theorem Predicate.forall_patterns_iff
    {predicate : Predicate} :
    (∀ pattern ∈ predicate.patterns, Q pattern) ↔
      (∀ pattern ∈ predicate.replacements, Q pattern) ∧
        ∀ group ∈ predicate.environments ++ predicate.exceptions,
          ∀ environment ∈ group,
            ∀ pattern ∈ environment.patterns, Q pattern := by
  simp only [Predicate.patterns, List.forall_mem_append,
    List.mem_flatMap, List.mem_flatten]
  grind

theorem DerivesClauses.forall_patterns
    {replacements : List Pattern}
    {predicate : Predicate}
    (hOnly : context.DerivesOnly Q)
    (hReplacements : ∀ pattern ∈ replacements, Q pattern)
    (hClauses :
      DerivesClauses context replacements tokens predicate) :
    ∀ pattern ∈ predicate.patterns, Q pattern := by
  cases hClauses with
  | clauses hEnvironments hExceptions =>
      refine
        Predicate.forall_patterns_iff.mpr ⟨hReplacements, ?_⟩
      exact
        List.forall_mem_append.mpr
          ⟨hEnvironments.forall_patterns hOnly,
            hExceptions.forall_patterns hOnly⟩

theorem DerivesPredicate.forall_patterns
    {predicate : Predicate}
    (hOnly : context.DerivesOnly Q)
    (hPredicate : DerivesPredicate context tokens predicate) :
    ∀ pattern ∈ predicate.patterns, Q pattern := by
  cases hPredicate with
  | predicate hReplacements hClauses =>
      refine hClauses.forall_patterns hOnly ?_
      refine hReplacements.forall_values ?_
      rintro _ _ ⟨hPattern, _⟩
      exact hOnly.units _ _ hPattern

theorem DerivesTargets.forall_targets
    {form : RuleForm}
    {branches : List Branch}
    (hOnly : context.DerivesOnly Q)
    (hTargets : DerivesTargets context form tokens branches) :
    ∀ branch ∈ branches, Q branch.target := by
  cases hTargets with
  | listed _ hTargets =>
      refine hTargets.forall_values ?_
      rintro _ _ ⟨hPattern, _⟩
      exact hOnly.units _ _ hPattern
  | insertion =>
      exact List.forall_mem_singleton.mpr hOnly.nothing

theorem DerivesChanges.forall_patterns
    {form : RuleForm}
    {predicates : List Predicate}
    (hOnly : context.DerivesOnly Q)
    (hChanges : DerivesChanges context form tokens predicates) :
    ∀ predicate ∈ predicates,
      ∀ pattern ∈ predicate.patterns, Q pattern := by
  cases hChanges with
  | substitution _ hPredicates =>
      exact
        hPredicates.forall_values fun _ _ hPredicate =>
          hPredicate.forall_patterns hOnly
  | insertion hPredicate =>
      exact
        List.forall_mem_singleton.mpr
          (hPredicate.forall_patterns hOnly)
  | deletion hClauses =>
      exact
        List.forall_mem_singleton.mpr
          (hClauses.forall_patterns hOnly
            (List.forall_mem_singleton.mpr hOnly.nothing))

/- What holds of the patterns that are derived holds of all. -/
theorem DerivesBody.forall_patterns
    {form : RuleForm}
    {body : RuleBody}
    (hOnly : context.DerivesOnly Q)
    (hBody : DerivesBody context form tokens body) :
    ∀ pattern ∈ patternsOf body.branches body.predicates,
      Q pattern := by
  cases hBody with
  | body hTargets hChanges =>
      simp only [patternsOf, List.forall_mem_append,
        List.forall_mem_map, List.forall_mem_flatMap]
      exact
        ⟨hTargets.forall_targets hOnly,
          hChanges.forall_patterns hOnly⟩

end Derivations

------------------------------------------------------------
-- Rules
------------------------------------------------------------

section Rules

variable {setting : RuleSetting}
variable {text : List Char}
variable {rule : Rule}
variable {body : RuleBody}

/- What a rule is put together from is what it refers to. -/
theorem Rule.categories_plain
    (flags : Flags)
    (body : RuleBody) :
    (Rule.plain flags body).categories =
      (patternsOf body.branches body.predicates).flatMap
        Pattern.categories := by
  simp only [Rule.categories, Rule.patterns, Rule.plain,
    Rule.assemble, patternsOf, Predicate.patterns,
    List.flatMap_append, List.flatMap_map, List.flatMap_assoc,
    Branch.assignSlots, Predicate.assignSlots,
    Pattern.categories_assignSlots]

/-
  What holds of the categories of a table, and of those that
  can be listed, holds of all that a rule refers to.
-/
theorem Rule.read_forall_categories
    {P : Category → Prop}
    (hRefers :
      ∀ context : ReadContext,
        context.table = setting.table → context.RefersOnly P)
    (hRead : Rule.read setting text = .ok rule) :
    ∀ category ∈ rule.categories, P category := by
  rcases SpellsRule.of_read hRead with
    ⟨form, _, flags, body, _, hSpells, hAlike⟩
  rcases hSpells.divided with
    ⟨bodyText, _, _, _, _, hReads, hStands⟩
  rcases hReads 0 0 with ⟨tokens, _, hBares⟩
  have hBody := hStands 0 0 none tokens hBares
  have hPlain :
      rule.categories = (Rule.plain flags body).categories := by
    rw [Rule.categories, Rule.patterns, hAlike.branches_eq,
      hAlike.predicates_eq]
    rfl
  rw [hPlain, Rule.categories_plain]
  have hOnly :
      (setting.grammar.relocate 0 0 none).DerivesOnly
        fun pattern =>
          ∀ category ∈ Pattern.categories pattern,
            P category :=
    { units := fun _ _ hDerives =>
        hDerives.forall_categories (hRefers _ rfl)
      nothing := List.forall_mem_nil _ }
  intro category hCategory
  rcases List.mem_flatMap.mp hCategory with
    ⟨pattern, hPattern, hCategory⟩
  exact hBody.forall_patterns hOnly pattern hPattern category
    hCategory

end Rules

end Diachrony
