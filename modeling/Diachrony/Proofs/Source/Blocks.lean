import Diachrony.Proofs.Source.Extension

/-
  Blocks that are formed of items.

  Markers hold positions among the items as they were
  written, although the items after a position have been put
  into blocks when its marker's turn comes. So the blocks of
  a list of markers are described from the front: items from
  a position on, and markers in their order, make a sequence
  of entries, each an item by itself or a block, which is a
  sequence of its own for the items and markers inside it.

  Nothing is lost, repeated or put in another order. Forming
  blocks fails only if not enough entries follow a marker.

  Key definitions include:
    * `Assembles`
    * `Items.heads`

  Key theorems include:
    * `Assembles.cut`
    * `Assembles.split`
    * `BlockMarker.form_assembles`
    * `Reading.markers_inOrder`
    * `formBlocks_assembles`
-/

namespace Diachrony

------------------------------------------------------------
-- Sequences of entries
------------------------------------------------------------

/-
  Items from a position on, and markers in their order, make
  a sequence of entries. A block begins at the position of
  its marker and has what the marker says. If the marker
  gives a size then the block has so many entries, and if it
  does not then no entry of the sequence follows the block.
-/
inductive Assembles :
    Nat → List Item → List BlockMarker → List Item → Prop
  | nothing
      {position : Nat} :
      Assembles position [] [] []
  | item
      {position : Nat}
      {item : Item}
      {items formed : List Item}
      {markers : List BlockMarker}
      (hRest : Assembles (position + 1) items markers formed) :
      Assembles position (item :: items) markers
        (item :: formed)
  | block
      {position : Nat}
      {marker : BlockMarker}
      {inner items inside formed : List Item}
      {innerMarkers markers : List BlockMarker}
      (hPosition : marker.position = position)
      (hSized : ∀ size ∈ marker.size, inside.length = size)
      (hUnsized : marker.size = none → formed = [])
      (hInside : Assembles position inner innerMarkers inside)
      (hRest :
        Assembles (position + inner.length) items markers
          formed) :
      Assembles position (inner ++ items)
        (marker :: (innerMarkers ++ markers))
        (.block marker.head inside :: formed)

namespace Assembles

variable {position : Nat}
variable {items first later formed : List Item}
variable {markers : List BlockMarker}

/- Items without a marker stand by themselves. -/
theorem of_items
    (items : List Item) :
    Assembles position items [] items := by
  induction items generalizing position with
  | nil => exact .nothing
  | cons item rest ih => exact .item ih

/- So do items before the first marker. -/
theorem behind
    (first : List Item)
    (hRest :
      Assembles (position + first.length) items markers
        formed) :
    Assembles position (first ++ items) markers
      (first ++ formed) := by
  induction first generalizing position with
  | nil => exact hRest
  | cons item rest ih =>
      refine .item (ih ?_)
      rw [List.length_cons] at hRest
      rwa [Nat.add_right_comm, Nat.add_assoc]

/-
  A sequence is cut at a position that no marker comes
  before: the entries up to there are the items.
-/
theorem cut
    {n : Nat}
    (hForms : Assembles position items markers formed)
    (hLength : n ≤ items.length)
    (hMarkers : ∀ marker ∈ markers, position + n ≤ marker.position) :
    ∃ first rest later,
      first.length = n ∧
        items = first ++ rest ∧
        formed = first ++ later ∧
        Assembles (position + n) rest markers later := by
  induction n generalizing position items formed with
  | zero => exact ⟨[], items, formed, rfl, rfl, rfl, hForms⟩
  | succ n ih =>
      cases hForms with
      | nothing => exact absurd hLength (Nat.not_succ_le_zero n)
      | @item _ item more others _ hRest =>
          have hNext : position + 1 + n = position + (n + 1) := by
            omega
          rcases ih hRest (Nat.le_of_succ_le_succ hLength)
              (by rwa [hNext]) with
            ⟨first, rest, later, hFirst, rfl, rfl, hLater⟩
          rw [hNext] at hLater
          refine
            ⟨item :: first, rest, later, ?_, rfl, rfl, hLater⟩
          rw [List.length_cons, hFirst]
      | block hPosition =>
          have hHere := hMarkers _ List.mem_cons_self
          omega

/- A sequence is split between two of its entries. -/
theorem split
    (hForms :
      Assembles position items markers (first ++ later)) :
    ∃ before rest inner others,
      items = before ++ rest ∧
        markers = inner ++ others ∧
        Assembles position before inner first ∧
        Assembles (position + before.length) rest others
          later := by
  induction first generalizing position items markers with
  | nil =>
      exact ⟨[], items, [], markers, rfl, rfl, .nothing, hForms⟩
  | cons entry entries ih =>
      cases hForms with
      | @item _ _ _ _ _ hRest =>
          rcases ih hRest with
            ⟨before, rest, inner, others, rfl, rfl, hFirst,
              hLater⟩
          refine
            ⟨entry :: before, rest, inner, others, rfl, rfl,
              .item hFirst, ?_⟩
          rwa [List.length_cons, ← Nat.add_assoc,
            Nat.add_right_comm]
      | @block _ marker within _ _ _ innermost _ hPosition
          hSized hUnsized hInside hRest =>
          rcases ih hRest with
            ⟨before, rest, inner, others, rfl, rfl, hFirst,
              hLater⟩
          have hLast : marker.size = none → entries = [] :=
            fun hSize =>
              (List.append_eq_nil_iff.mp (hUnsized hSize)).1
          refine
            ⟨within ++ before, rest,
              marker :: (innermost ++ inner), others, ?_, ?_,
              .block hPosition hSized hLast hInside hFirst, ?_⟩
          · rw [List.append_assoc]
          · rw [List.cons_append, List.append_assoc]
          · rwa [List.length_append, ← Nat.add_assoc]

end Assembles

------------------------------------------------------------
-- What a sequence is made of
------------------------------------------------------------

theorem Items.rules_append
    (items others : List Item) :
    Items.rules (items ++ others) =
      Items.rules items ++ Items.rules others := by
  induction items with
  | nil => rfl
  | cons item rest ih =>
      rw [List.cons_append, Items.rules, Items.rules, ih,
        List.append_assoc]

/- The head of an item, if it is a block. -/
def Item.head? : Item → Option BlockHead
  | .rule _ => none
  | .block head _ => some head

/- The heads of all blocks in a list of items. -/
def Items.heads
    (items : List Item) : List BlockHead :=
  (Items.walk items).filterMap Item.head?

theorem Items.heads_append
    (items others : List Item) :
    Items.heads (items ++ others) =
      Items.heads items ++ Items.heads others := by
  rw [heads, walk_append, List.filterMap_append]
  rfl

theorem Items.heads_block
    (head : BlockHead)
    (inside items : List Item) :
    Items.heads (.block head inside :: items) =
      head :: (Items.heads inside ++ Items.heads items) := by
  have hInside :
      (Items.walk inside ++ Items.walk items).filterMap
          Item.head? =
        Items.heads inside ++ Items.heads items :=
    List.filterMap_append
  rw [heads, walk, Item.walk, List.cons_append,
    List.filterMap_cons, hInside]
  rfl

/- A sequence has the rules of its items, in their order. -/
theorem Assembles.rules_eq
    {position : Nat}
    {items formed : List Item}
    {markers : List BlockMarker}
    (hForms : Assembles position items markers formed) :
    Items.rules formed = Items.rules items := by
  induction hForms with
  | nothing => rfl
  | item _ ih => rw [Items.rules, Items.rules, ih]
  | block _ _ _ _ _ ihInside ihRest =>
      rw [Items.rules, Item.rules, ihInside, ihRest,
        Items.rules_append]

/-
  It has the blocks of its items, and one block more for
  each of the markers.
-/
theorem Assembles.heads_perm
    {position : Nat}
    {items formed : List Item}
    {markers : List BlockMarker}
    (hForms : Assembles position items markers formed) :
    (Items.heads formed).Perm
      (markers.map BlockMarker.head ++ Items.heads items) := by
  induction hForms with
  | nothing => exact .nil
  | @item _ item items formed markers _ ih =>
      have hFirst : ∀ items,
          Items.heads (item :: items) =
            Items.heads [item] ++ Items.heads items :=
        fun items => Items.heads_append [item] items
      rw [hFirst formed, hFirst items]
      exact
        (ih.append_left (Items.heads [item])).trans
          (List.perm_append_comm_assoc _ _ _)
  | @block _ marker inner items inside formed innerMarkers
      markers _ _ _ _ _ ihInside ihRest =>
      rw [Items.heads_block, Items.heads_append, List.map_cons,
        List.map_append, List.cons_append]
      refine .cons marker.head ((ihInside.append ihRest).trans ?_)
      simp only [List.append_assoc]
      exact
        (List.perm_append_comm_assoc _ _ _).append_left
          (innerMarkers.map BlockMarker.head)

------------------------------------------------------------
-- Forming blocks
------------------------------------------------------------

/-
  A marker takes what follows its position into a block: as
  many entries as its size says, or all of them.
-/
theorem BlockMarker.exists_block_of_form
    {marker : BlockMarker}
    {first later result : List Item}
    (hFirst : first.length = marker.position)
    (hForm : marker.form (first ++ later) = .ok result) :
    ∃ inside rest,
      later = inside ++ rest ∧
        result = first ++ .block marker.head inside :: rest ∧
        (∀ size ∈ marker.size, inside.length = size) ∧
        (marker.size = none → rest = []) := by
  unfold form at hForm
  dsimp only at hForm
  rw [← hFirst] at hForm
  split at hForm
  · cases hForm
  rename_i hEnough
  cases hForm
  rw [List.length_append, Nat.not_lt] at hEnough
  cases hSize : marker.size with
  | none =>
      have hStop :
          marker.stop (first ++ later) =
            (first ++ later).length := by
        rw [stop, hSize]
      refine
        ⟨later, [], (List.append_nil later).symm, ?_,
          fun _ hMem => (Option.not_mem_none _ hMem).elim,
          fun _ => rfl⟩
      rw [hStop, List.take_left, List.drop_left,
        List.length_append, Nat.add_sub_cancel_left,
        List.take_length, ← List.length_append,
        List.drop_length]
  | some size =>
      have hStop :
          marker.stop (first ++ later) = first.length + size := by
        rw [stop, hSize, hFirst]
      rw [hStop] at hEnough
      refine
        ⟨later.take size, later.drop size,
          (List.take_append_drop size later).symm, ?_, ?_,
          fun hNone => absurd hNone (Option.some_ne_none size)⟩
      · rw [hStop, List.take_left, List.drop_left,
          Nat.add_sub_cancel_left, List.drop_length_add_append]
      · rintro _ ⟨⟩
        exact List.length_take_of_le (by omega)

/-
  A marker that no other comes before puts the first block
  into a sequence.
-/
theorem BlockMarker.form_assembles
    {marker : BlockMarker}
    {items formed result : List Item}
    {markers : List BlockMarker}
    (hForms : Assembles 0 items markers formed)
    (hInside : marker.position ≤ items.length)
    (hFirst :
      ∀ other ∈ markers, marker.position ≤ other.position)
    (hForm : marker.form formed = .ok result) :
    Assembles 0 items (marker :: markers) result := by
  rcases hForms.cut hInside (by simpa using hFirst) with
    ⟨before, after, later, hBefore, rfl, rfl, hLater⟩
  rcases marker.exists_block_of_form hBefore hForm with
    ⟨inside, rest, rfl, rfl, hSized, hUnsized⟩
  rcases hLater.split with
    ⟨inner, items, innerMarkers, markers, rfl, rfl, hInner,
      hRest⟩
  have hBlock :
      Assembles (0 + before.length) (inner ++ items)
        (marker :: (innerMarkers ++ markers))
        (.block marker.head inside :: rest) := by
    rw [hBefore]
    exact .block (Nat.zero_add _).symm hSized hUnsized hInner hRest
  exact .behind before hBlock

/-
  A marker fails if and only if it has a size and fewer
  entries follow its position.
-/
theorem BlockMarker.form_eq_error_iff
    {marker : BlockMarker}
    {entries : List Item}
    {e : SourceError}
    (hInside : marker.position ≤ entries.length) :
    marker.form entries = .error e ↔
      ∃ size,
        marker.size = some size ∧
          (entries.drop marker.position).length < size ∧
          e =
            { cause :=
                .shortBlock size
                  (entries.drop marker.position).length
              line := marker.line
              column := 0 } := by
  rw [List.length_drop]
  cases hSize : marker.size with
  | none =>
      have hStop : marker.stop entries = entries.length := by
        rw [stop, hSize]
      simp [form, hStop]
  | some size =>
      have hStop :
          marker.stop entries = marker.position + size := by
        rw [stop, hSize]
      have hShort :
          entries.length < marker.position + size ↔
            entries.length - marker.position < size := by
        omega
      by_cases hFew : entries.length - marker.position < size
      · simp [form, hStop, hSize, hShort, hFew, eq_comm]
      · simp [form, hStop, hShort, hFew]

/-
  Blocks are not formed if and only if one of the markers
  fails when the markers after it have had their turn.
-/
theorem formBlocks_eq_error_iff
    {items : List Item}
    {markers : List BlockMarker}
    {e : SourceError} :
    formBlocks items markers = .error e ↔
      ∃ earlier marker later entries,
        markers = earlier ++ marker :: later ∧
          formBlocks items later = .ok entries ∧
          marker.form entries = .error e := by
  constructor
  · intro hForm
    induction markers with
    | nil => cases hForm
    | cons marker rest ih =>
        unfold formBlocks at hForm
        split at hForm
        · rename_i hRest
          cases hForm
          rcases ih hRest with
            ⟨earlier, failing, later, entries, rfl, hLater,
              hFails⟩
          exact
            ⟨marker :: earlier, failing, later, entries, rfl,
              hLater, hFails⟩
        · rename_i entries hRest
          exact ⟨[], marker, rest, entries, rfl, hRest, hForm⟩
  · rintro ⟨earlier, marker, later, entries, rfl, hLater,
      hFails⟩
    rw [formBlocks_append, formBlocks, hLater]
    dsimp only
    rw [hFails]

------------------------------------------------------------
-- Markers in their order
------------------------------------------------------------

/-
  Markers stand in the order of their positions, and none of
  them behind the last item.
-/
structure MarkersInOrder
    (items : List Item)
    (markers : List BlockMarker) : Prop where
  ordered :
    markers.Pairwise fun marker later =>
      marker.position ≤ later.position
  inside : ∀ marker ∈ markers, marker.position ≤ items.length

namespace MarkersInOrder

variable {items more : List Item}
variable {marker : BlockMarker}
variable {earlier markers : List BlockMarker}

theorem nil :
    MarkersInOrder items [] where
  ordered := .nil
  inside := List.forall_mem_nil _

theorem later
    (hOrder : MarkersInOrder items (earlier ++ marker :: markers)) :
    MarkersInOrder items markers ∧
      marker.position ≤ items.length ∧
      ∀ other ∈ markers, marker.position ≤ other.position := by
  have hTail :=
    List.pairwise_cons.mp (List.pairwise_append.mp hOrder.ordered).2.1
  have hInside :=
    List.forall_mem_cons.mp
      (List.forall_mem_append.mp hOrder.inside).2
  exact ⟨⟨hTail.2, hInside.2⟩, hInside.1, hTail.1⟩

/- They do so when items are added. -/
theorem append
    (hOrder : MarkersInOrder items markers) :
    MarkersInOrder (items ++ more) markers where
  ordered := hOrder.ordered
  inside marker hMarker := by
    have hPosition := hOrder.inside marker hMarker
    rw [List.length_append]
    omega

/- They do so when a marker is set behind the last item. -/
theorem concat
    (hOrder : MarkersInOrder items markers)
    (hPosition : marker.position = items.length) :
    MarkersInOrder items (markers ++ [marker]) where
  ordered := by
    refine
      List.pairwise_append.mpr
        ⟨hOrder.ordered, List.pairwise_singleton _ _, ?_⟩
    intro other hOther
    rw [List.forall_mem_singleton, hPosition]
    exact hOrder.inside other hOther
  inside :=
    List.forall_mem_append.mpr
      ⟨hOrder.inside,
        List.forall_mem_singleton.mpr hPosition.le⟩

/- Blocks that are formed make a sequence. -/
theorem assembles
    {formed : List Item}
    (hOrder : MarkersInOrder items markers)
    (hForm : formBlocks items markers = .ok formed) :
    Assembles 0 items markers formed := by
  induction markers generalizing formed with
  | nil =>
      cases hForm
      exact .of_items items
  | cons marker rest ih =>
      rcases @later items marker [] rest hOrder with
        ⟨hRest, hInside, hFirst⟩
      unfold formBlocks at hForm
      split at hForm
      · cases hForm
      rename_i hInner
      exact
        BlockMarker.form_assembles (ih hRest hInner) hInside
          hFirst hForm

end MarkersInOrder

/- The markers that are read of a source stand in order. -/
theorem Reading.markers_inOrder
    {reading next : Reading}
    {lines : List SourceLine}
    (hNone : reading.markers = [])
    (hLines : reading.lines lines = .ok next) :
    MarkersInOrder next.items next.markers := by
  refine
    lines_induction
      (P := fun other =>
        MarkersInOrder other.items other.markers)
      ?_ ?_ hLines
  · intro line _ other after hOther hStep
    cases hStep with
    | block hPosition => exact hOther.concat hPosition
    | run => exact hOther.append
    | rule => exact hOther.append
    | skip => exact hOther
    | category => exact hOther
    | define => exact hOther
    | report => exact hOther
    | store => exact hOther
  · rw [hNone]
    exact .nil

------------------------------------------------------------
-- Assembly
------------------------------------------------------------

/-
  Blocks that are formed at markers in their order make a
  sequence of the items. It has the rules of the items in
  their order and one block for each marker. Blocks are not
  formed if and only if a marker has a size and, when those
  after it have had their turn, fewer entries follow it.
-/
theorem formBlocks_assembles
    {items : List Item}
    {markers : List BlockMarker}
    (hMarkers : MarkersInOrder items markers) :
    (∀ formed,
        formBlocks items markers = .ok formed →
          Assembles 0 items markers formed ∧
            Items.rules formed = Items.rules items ∧
            (Items.heads formed).Perm
              (markers.map BlockMarker.head ++
                Items.heads items)) ∧
      ∀ e,
        formBlocks items markers = .error e ↔
          ∃ earlier marker later entries size,
            markers = earlier ++ marker :: later ∧
              formBlocks items later = .ok entries ∧
              marker.size = some size ∧
              (entries.drop marker.position).length < size ∧
              e =
                { cause :=
                    .shortBlock size
                      (entries.drop marker.position).length
                  line := marker.line
                  column := 0 } := by
  refine ⟨fun formed hForm => ?_, fun e => ?_⟩
  · have hForms := hMarkers.assembles hForm
    exact ⟨hForms, hForms.rules_eq, hForms.heads_perm⟩
  rw [formBlocks_eq_error_iff]
  have hFollows :
      ∀ {earlier marker later entries},
        markers = earlier ++ marker :: later →
          formBlocks items later = .ok entries →
            marker.position ≤ entries.length := by
    rintro earlier marker later entries rfl hLater
    rcases hMarkers.later with ⟨hRest, hPosition, hFirst⟩
    rcases (hRest.assembles hLater).cut hPosition
        (by simpa using hFirst) with
      ⟨first, _, rest, hLength, _, rfl, _⟩
    rw [List.length_append, hLength]
    exact Nat.le_add_right _ _
  constructor
  · rintro ⟨earlier, marker, later, entries, hSplit, hLater,
      hFails⟩
    rcases (BlockMarker.form_eq_error_iff
        (hFollows hSplit hLater)).mp hFails with
      ⟨size, hSize, hFew, hError⟩
    exact
      ⟨earlier, marker, later, entries, size, hSplit, hLater,
        hSize, hFew, hError⟩
  · rintro ⟨earlier, marker, later, entries, size, hSplit,
      hLater, hSize, hFew, hError⟩
    exact
      ⟨earlier, marker, later, entries, hSplit, hLater,
        (BlockMarker.form_eq_error_iff
          (hFollows hSplit hLater)).mpr
          ⟨size, hSize, hFew, hError⟩⟩

/- A rule that nothing is known of but its text. -/
def namedItem
    (source : String) : Item :=
  .rule { branches := [], predicates := [], source := source }

def fourItems : List Item :=
  ["a > b", "b > c", "c > d", "d > e"].map namedItem

/-
  Two blocks that begin together, the first one around the
  second, and a block of what is left.
-/
def outerMarker : BlockMarker where
  position := 0
  size := some 2
  flags := {}
  line := 1
  source := "!block: 2"

def innerMarker : BlockMarker where
  position := 0
  size := some 2
  flags := { persistent := true }
  line := 2
  source := "!block: 2 repeat"

def lastMarker : BlockMarker where
  position := 3
  size := none
  flags := {}
  line := 6
  source := "!block"

def fourBlocks : List Item :=
  [ .block outerMarker.head
      [ .block innerMarker.head
          [namedItem "a > b", namedItem "b > c"],
        namedItem "c > d" ],
    .block lastMarker.head [namedItem "d > e"] ]

/- Behind the second rule there is one more, and a block. -/
def wideMarker : BlockMarker where
  position := 2
  size := some 3
  flags := {}
  line := 4
  source := "!block: 3"

theorem fourItems_assemble :
    MarkersInOrder fourItems
        [outerMarker, innerMarker, lastMarker] ∧
      formBlocks fourItems
          [outerMarker, innerMarker, lastMarker] =
        .ok fourBlocks ∧
      Assembles 0 fourItems
        [outerMarker, innerMarker, lastMarker] fourBlocks ∧
      Items.rules fourBlocks = Items.rules fourItems ∧
      (Items.heads fourBlocks).Perm
        ([outerMarker, innerMarker, lastMarker].map
            BlockMarker.head ++
          Items.heads fourItems) ∧
      MarkersInOrder fourItems [wideMarker, lastMarker] ∧
      formBlocks fourItems [wideMarker, lastMarker] =
        .error
          { cause := .shortBlock 3 2
            line := 4
            column := 0 } := by
  have hNested :
      MarkersInOrder fourItems
        [outerMarker, innerMarker, lastMarker] :=
    ⟨by decide, by decide⟩
  have hWide : MarkersInOrder fourItems [wideMarker, lastMarker] :=
    ⟨by decide, by decide⟩
  have hForm :
      formBlocks fourItems
          [outerMarker, innerMarker, lastMarker] =
        .ok fourBlocks :=
    rfl
  have hFails :
      formBlocks fourItems [wideMarker, lastMarker] =
        .error
          { cause := .shortBlock 3 2
            line := 4
            column := 0 } :=
    ((formBlocks_assembles hWide).2 _).mpr
      ⟨[], wideMarker, [lastMarker], _, 3, rfl, rfl, rfl,
        by decide, rfl⟩
  rcases (formBlocks_assembles hNested).1 _ hForm with
    ⟨hForms, hRules, hHeads⟩
  exact
    ⟨hNested, hForm, hForms, hRules, hHeads, hWide, hFails⟩

end Diachrony
