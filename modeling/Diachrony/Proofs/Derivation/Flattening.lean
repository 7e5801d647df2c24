import Diachrony.Proofs.Derivation.Calls

/-
  Blocks that are run like their items.

  A block without flags does not show in a derivation. As
  long as no item looks at the one before it and none
  persists, the items of a sequence are simply run in turn,
  so that a block can be replaced by the rules inside it.

  Key definitions include:
    * `Step.andThen`
    * `inTurn`
    * `Item.IsPlain`
    * `Ruleset.flat`

  Key theorems include:
    * `sequence_eq_inTurn`
    * `inTurn_append`
    * `Item.turn_eq_inTurn`
    * `Ruleset.apply_flat`
-/

namespace Diachrony

------------------------------------------------------------
-- Steps one after another
------------------------------------------------------------

namespace Step

/- The step that does nothing. -/
def stay : Step :=
  fun state => .ok (state, false)

/- A step after another one, unless that has stopped the run. -/
def andThen
    (first second : Step) : Step :=
  fun state =>
    match first state with
    | .error fault => .error fault
    | .ok (next, changed) =>
        if next.stopped then
          .ok (next, changed)
        else
          match second next with
          | .error fault => .error fault
          | .ok (last, later) => .ok (last, changed || later)

/- Two steps do the same as long as the run goes on. -/
def Agrees
    (first second : Step) : Prop :=
  ∀ state : RunState,
    state.stopped = false →
      first state = second state

variable {first second third other : Step}

theorem Agrees.trans
    (hFirst : first.Agrees second)
    (hSecond : second.Agrees third) :
    first.Agrees third :=
  fun state hGoing =>
    (hFirst state hGoing).trans (hSecond state hGoing)

theorem andThen_assoc
    (first second third : Step) :
    (first.andThen second).andThen third =
      first.andThen (second.andThen third) := by
  funext state
  rw [andThen, andThen, andThen]
  cases first state with
  | error fault => rfl
  | ok result =>
      rcases result with ⟨next, changed⟩
      dsimp only
      by_cases hStopped : next.stopped = true
      · simp only [if_pos hStopped]
      · simp only [if_neg hStopped, andThen]
        cases second next with
        | error fault => rfl
        | ok result =>
            rcases result with ⟨middle, later⟩
            dsimp only
            by_cases hLater : middle.stopped = true
            · simp only [if_pos hLater]
            · simp only [if_neg hLater]
              cases third middle with
              | error fault => rfl
              | ok result => simp only [Bool.or_assoc]

/- What follows matters only as long as the run goes on. -/
theorem Agrees.andThen
    (hFirst : first.Agrees second)
    (hThird : third.Agrees other) :
    (first.andThen third).Agrees (second.andThen other) := by
  intro state hGoing
  rw [Step.andThen, Step.andThen, hFirst state hGoing]
  cases second state with
  | error fault => rfl
  | ok result =>
      rcases result with ⟨next, changed⟩
      dsimp only
      by_cases hStopped : next.stopped = true
      · rw [if_pos hStopped, if_pos hStopped]
      · rw [if_neg hStopped, if_neg hStopped,
          hThird next (Bool.eq_false_iff.mpr hStopped)]

theorem stay_andThen
    (second : Step) :
    (stay.andThen second).Agrees second := by
  intro state hGoing
  simp only [andThen, stay, hGoing, Bool.false_eq_true,
    if_false, Bool.false_or]
  cases second state with
  | error fault => rfl
  | ok result => rfl

theorem andThen_stay
    (first : Step) :
    first.andThen stay = first := by
  funext state
  rw [andThen]
  cases first state with
  | error fault => rfl
  | ok result =>
      rcases result with ⟨next, changed⟩
      simp [stay]

end Step

------------------------------------------------------------
-- Items in turn
------------------------------------------------------------

variable {options : EngineOptions}
variable {choice : OptionalChoice}

/- An item in its turn: left out, or run with a stop after it. -/
def FlaggedStep.turn
    (choice : OptionalChoice)
    (item : FlaggedStep) : Step :=
  fun state =>
    if choice.admits item.flags then
      match item.step state with
      | .error fault => .error fault
      | .ok (next, changed) =>
          .ok
            (next.stopIf (item.flags.stopsAfter changed),
              changed)
    else
      .ok (state.skipItem, false)

/- Run items in turn, with no regard to what was before them. -/
def inTurn
    (choice : OptionalChoice)
    (items : List FlaggedStep) : Step :=
  items.foldr
    (fun item later => (item.turn choice).andThen later)
    Step.stay

theorem inTurn_cons
    (item : FlaggedStep)
    (rest : List FlaggedStep) :
    inTurn choice (item :: rest) =
      (item.turn choice).andThen (inTurn choice rest) :=
  rfl

theorem inTurn_single
    (item : FlaggedStep) :
    inTurn choice [item] = item.turn choice :=
  Step.andThen_stay _

theorem inTurn_append
    (items others : List FlaggedStep) :
    (inTurn choice (items ++ others)).Agrees
      ((inTurn choice items).andThen
        (inTurn choice others)) := by
  induction items with
  | nil =>
      intro state hGoing
      exact (Step.stay_andThen _ state hGoing).symm
  | cons item rest ih =>
      rw [List.cons_append, inTurn_cons, inTurn_cons,
        Step.andThen_assoc]
      exact Step.Agrees.andThen (fun _ _ => rfl) ih

/-
  The flags of an item that neither looks at the item before
  it nor persists after it.
-/
structure Flags.Independent
    (flags : Flags) : Prop where
  ditto : flags.ditto = 0
  persist : flags.persist = 1

instance
    (flags : Flags) :
    Decidable flags.Independent :=
  decidable_of_iff (flags.ditto = 0 ∧ flags.persist = 1)
    ⟨fun h => ⟨h.1, h.2⟩, fun h => ⟨h.ditto, h.persist⟩⟩

namespace Flags.Independent

variable {item : FlaggedStep}
variable (hFlags : item.flags.Independent)

include hFlags

theorem isSkipped_eq
    (previous : Bool) :
    item.isSkipped choice previous =
      !choice.admits item.flags := by
  simp [FlaggedStep.isSkipped, Flags.dittoForbids,
    hFlags.ditto]

theorem add_eq_nil :
    Persisting.add (Persisting.remaining []) item = [] := by
  rw [Persisting.add, hFlags.persist]
  rfl

end Flags.Independent

/-
  Items that are independent of each other are run in turn,
  whatever was before them.
-/
theorem sequence_eq_inTurn
    {items : List FlaggedStep}
    (hItems : ∀ item ∈ items, item.flags.Independent)
    (previous changed : Bool)
    {state : RunState}
    (hGoing : state.stopped = false) :
    sequence choice items previous [] changed state =
      (inTurn choice items state).map fun result =>
        (result.1, changed || result.2) := by
  induction items generalizing previous changed state with
  | nil =>
      rw [sequence]
      simp [inTurn, Step.stay, Except.map]
  | cons item rest ih =>
  rcases List.forall_mem_cons.mp hItems with ⟨hItem, hRest⟩
  rw [inTurn_cons, Step.andThen, FlaggedStep.turn]
  have hSkipped :
      item.isSkipped choice previous =
        !choice.admits item.flags :=
    hItem.isSkipped_eq previous
  cases hAdmits : choice.admits item.flags with
  | false =>
      rw [hAdmits] at hSkipped
      have hSkip : state.skipItem.stopped = false := hGoing
      rw [sequence_of_skipped hSkipped,
        ih hRest false changed hSkip]
      simp only [Bool.false_eq_true, if_false, hSkip,
        Bool.false_or]
      cases inTurn choice rest state.skipItem with
      | error fault => rfl
      | ok result => rfl
  | true =>
      rw [hAdmits] at hSkipped
      simp only [if_true]
      cases hNext : item.step state with
      | error fault =>
          rw [sequence, ← FlaggedStep.isSkipped, hSkipped,
            hNext]
          rfl
      | ok result =>
          rcases result with ⟨next, itemChanged⟩
          rw [sequence_of_run hSkipped hNext rfl,
            hItem.add_eq_nil, Bool.or_false]
          dsimp only
          by_cases hStopped :
              (next.stopIf
                (item.flags.stopsAfter itemChanged)).stopped =
                true
          · rw [if_pos hStopped, if_pos hStopped]
            rfl
          · rw [if_neg hStopped, if_neg hStopped,
              ih hRest _ _ (Bool.eq_false_iff.mpr hStopped)]
            cases inTurn choice rest
                (next.stopIf
                  (item.flags.stopsAfter itemChanged)) with
            | error fault => rfl
            | ok result =>
                simp only [Except.map, Bool.or_assoc]

theorem sequenceAll_agrees
    {items : List FlaggedStep}
    (hItems : ∀ item ∈ items, item.flags.Independent) :
    (sequenceAll choice items).Agrees
      (inTurn choice items) := by
  intro state hGoing
  rw [sequenceAll,
    sequence_eq_inTurn hItems false false hGoing]
  cases inTurn choice items state with
  | error fault => rfl
  | ok result => simp [Except.map]

------------------------------------------------------------
-- Plain items
------------------------------------------------------------

/-
  A rule that is independent of the items around it, or a
  block without flags.
-/
def Item.IsPlain : Item → Prop
  | .rule r => r.flags.Independent
  | .block head _ => head.flags = {}

instance
    (item : Item) :
    Decidable item.IsPlain :=
  match item with
  | .rule r =>
      inferInstanceAs (Decidable r.flags.Independent)
  | .block head _ =>
      inferInstanceAs (Decidable (head.flags = {}))

theorem Item.IsPlain.independent
    {item : Item}
    (hPlain : item.IsPlain) :
    item.flags.Independent := by
  cases item with
  | rule rule => exact hPlain
  | block head items =>
      have hFlags : head.flags = {} := hPlain
      constructor
      · rw [Item.flags, hFlags]
      · rw [Item.flags, hFlags]

theorem Items.steps_append
    (items others : List Item) :
    Items.steps options choice (items ++ others) =
      Items.steps options choice items ++
        Items.steps options choice others := by
  induction items with
  | nil => rfl
  | cons item rest ih =>
      rw [List.cons_append, Items.steps_cons,
        Items.steps_cons, ih, List.cons_append]

/- All items of a list are independent if all inside are plain. -/
theorem Items.steps_independent
    {items : List Item}
    (hItems : ∀ item ∈ Items.walk items, item.IsPlain) :
    ∀ step ∈ Items.steps options choice items,
      step.flags.Independent := by
  induction items with
  | nil => simp [Items.steps]
  | cons item rest ih =>
      rw [Items.walk] at hItems
      rcases List.forall_mem_append.mp hItems with
        ⟨hItem, hRest⟩
      rw [Items.steps_cons, List.forall_mem_cons]
      exact
        ⟨(hItem item (Item.mem_walk_self item)).independent,
          ih hRest⟩

/- A block without flags is no more than a step with its items. -/
theorem BlockHead.turn_of_plain
    {head : BlockHead}
    (hPlain : head.flags = {})
    (items : List Item) :
    (Item.flaggedStep options choice
        (.block head items)).turn choice =
      sequenceAll choice
        (Items.steps options choice items) := by
  have hPersistent : head.flags.persistent = false := by
    rw [hPlain]
  funext state
  simp only [FlaggedStep.turn, Item.flaggedStep, Item.flags,
    Item.step, hPlain, BlockHead.step_of_plain hPersistent]
  rw [if_pos (by rfl)]
  cases sequenceAll choice
      (Items.steps options choice items) state with
  | error fault => rfl
  | ok result => rfl

mutual

/- A plain item does what the rules inside it do in turn. -/
theorem Item.turn_eq_inTurn :
    ∀ item : Item,
      (∀ one ∈ item.walk, one.IsPlain) →
        ((item.flaggedStep options choice).turn
            choice).Agrees
          (inTurn choice
            (Items.steps options choice
              (item.rules.map Item.rule)))
  | .rule rule, _ => by
      intro state _
      rw [Item.rules, List.map_singleton, Items.steps_cons,
        Items.steps, inTurn_single]
  | .block head items, hItems => by
      rw [Item.walk] at hItems
      rcases List.forall_mem_cons.mp hItems with
        ⟨hHead, hInside⟩
      rw [BlockHead.turn_of_plain hHead, Item.rules]
      exact
        (sequenceAll_agrees
          (Items.steps_independent hInside)).trans
          (Items.inTurn_rules items hInside)

theorem Items.inTurn_rules :
    ∀ items : List Item,
      (∀ one ∈ Items.walk items, one.IsPlain) →
        (inTurn choice
            (Items.steps options choice items)).Agrees
          (inTurn choice
            (Items.steps options choice
              ((Items.rules items).map Item.rule)))
  | [], _ => fun _ _ => rfl
  | item :: rest, hItems => by
      rw [Items.walk] at hItems
      rcases List.forall_mem_append.mp hItems with
        ⟨hItem, hRest⟩
      rw [Items.steps_cons, inTurn_cons, Items.rules,
        List.map_append, Items.steps_append]
      intro state hGoing
      rw [inTurn_append _ _ state hGoing]
      exact
        Step.Agrees.andThen (Item.turn_eq_inTurn item hItem)
          (Items.inTurn_rules rest hRest) state hGoing

end

theorem Items.walk_map_rule
    (rules : List Rule) :
    Items.walk (rules.map Item.rule) =
      rules.map Item.rule := by
  induction rules with
  | nil => rfl
  | cons rule rest ih =>
      rw [List.map_cons, Items.walk, ih, Item.walk,
        List.singleton_append]

------------------------------------------------------------
-- Rulesets without blocks
------------------------------------------------------------

/- A ruleset with its rules only. -/
def Ruleset.flat
    (ruleset : Ruleset) : Ruleset :=
  { ruleset with items := ruleset.rules.map Item.rule }

/- The rules of plain items are plain. -/
theorem Items.rules_plain
    {items : List Item}
    (hItems : ∀ item ∈ Items.walk items, item.IsPlain) :
    ∀ item ∈ Items.walk ((Items.rules items).map Item.rule),
      item.IsPlain := by
  intro item hItem
  rw [Items.walk_map_rule] at hItem
  rcases List.mem_map.mp hItem with ⟨rule, hRule, rfl⟩
  exact hItems _ (Items.mem_walk_of_mem_rules items hRule)

/-
  A ruleset in which no rule looks at the one before it or
  persists, and no block has flags, does to each word what
  the list of its rules does: the same word comes out, with
  the same records, reports and counts.
-/
theorem Ruleset.apply_flat
    {ruleset : Ruleset}
    (hItems :
      ∀ item ∈ Items.walk ruleset.items, item.IsPlain)
    (config : Config)
    (spelling : Spelling) :
    ruleset.flat.apply config spelling =
      ruleset.apply config spelling := by
  have hRules :
      ∀ item ∈ Items.walk ruleset.flat.items, item.IsPlain :=
    Items.rules_plain hItems
  have hDerive : ∀ word : Word,
      derive config.engine config.optional ruleset.flat.items
          word =
        derive config.engine config.optional ruleset.items
          word := by
    intro word
    let start : RunState := { word := word }
    have hGoing : start.stopped = false := rfl
    have hSame :
        sequenceAll config.optional
            (Items.steps config.engine config.optional
              ruleset.flat.items) start =
          sequenceAll config.optional
            (Items.steps config.engine config.optional
              ruleset.items) start := by
      rw [sequenceAll_agrees (Items.steps_independent hItems)
          start hGoing,
        sequenceAll_agrees (Items.steps_independent hRules)
          start hGoing]
      exact
        (Items.inTurn_rules ruleset.items hItems start
          hGoing).symm
    rw [derive, derive, hSame]
  rw [Ruleset.apply, Ruleset.apply]
  simp only [hDerive]
  rfl

/- A ruleset with a block inside a block, which stops the run. -/
def nestedRuleset : Ruleset where
  items :=
    [ .block { source := "!block: 3" }
        [ .rule
            { branches := [{ target := [.literal "a"] }]
              predicates :=
                [{ replacements := [[.literal "b"]] }]
              source := "a > b" },
          .block { source := "!block: 2" }
            [ .rule
                { branches := [{ target := [.literal "b"] }]
                  predicates :=
                    [{ replacements := [[.literal "c"]] }]
                  flags :=
                    { isOptional := true
                      optionalClass := "late" }
                  source := "b > c optional:late" },
              .rule
                { branches := [{ target := [.literal "d"] }]
                  predicates :=
                    [{ replacements := [[.literal "e"]] }]
                  flags :=
                    { stop := 1
                      persistent := true
                      rightToLeft := true }
                  source := "d > e stop; repeat; rtl" } ],
          .rule
            { branches := [{ target := [.literal "e"] }]
              predicates :=
                [{ replacements := [[.literal "f"]] }]
              source := "e > f" } ],
      .rule
        { branches := [{ target := [.literal "b"] }]
          predicates := [{ replacements := [[.literal "g"]] }]
          source := "b > g" } ]

/- The state in which the ruleset leaves a word. -/
def nestedState : RunState where
  word := ["b", "e"]
  trace :=
    [ { rule := "a > b"
        start := 0
        stop := 1
        before := ["a", "d"]
        after := ["b", "d"]
        pass := 1 },
      { rule := "d > e stop; repeat; rtl"
        start := 1
        stop := 2
        before := ["b", "d"]
        after := ["b", "e"]
        pass := 1 } ]
  stats :=
    { rulesRun := 2
      rulesSkipped := 1
      changes := 2
      changesByRule :=
        [("a > b", 1), ("d > e stop; repeat; rtl", 1)] }
  stopped := true

theorem nestedRuleset_flat :
    let config : Config :=
      { optional := { disabledClasses := ["late"] } }
    (∀ item ∈ Items.walk nestedRuleset.items,
        item.IsPlain) ∧
      nestedRuleset.apply config (.word ["a", "d"]) =
        .ok { input := ["a", "d"], final := nestedState } ∧
      nestedRuleset.flat.items.length = 5 ∧
      nestedRuleset.flat.apply config (.word ["a", "d"]) =
        .ok { input := ["a", "d"], final := nestedState } := by
  intro config
  have hItems :
      ∀ item ∈ Items.walk nestedRuleset.items,
        item.IsPlain := by
    decide
  have hApply :
      nestedRuleset.apply config (.word ["a", "d"]) =
        .ok { input := ["a", "d"], final := nestedState } := by
    decide +kernel
  have hFlat :=
    Ruleset.apply_flat hItems config (.word ["a", "d"])
  exact ⟨hItems, hApply, rfl, hFlat.trans hApply⟩

end Diachrony
