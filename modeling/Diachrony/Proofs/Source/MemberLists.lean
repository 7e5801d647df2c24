import Diachrony.Proofs.Category.Tables
import Diachrony.Proofs.Source.Compiled
import Diachrony.Proofs.Source.MemberTexts
import Diachrony.Proofs.Source.Operators
import Diachrony.Proofs.Source.References

/-
  Lists of members in both notations.

  The members of a category line are cut at commas, and what
  stands in the brackets of a rule is read token by token. A
  list of word edges, names in brackets and plain texts has
  the same members either way, and the same names in it are
  reported as undefined.

  Key definitions include:
    * `MemberText.IsWritten`
    * `ListsItems`

  Key theorems include:
    * `isOrdinary_of_isNameCharacter`
    * `ListsItems.readsItems`
    * `ListsItems.readsAs`
    * `readMembers_of_bares`
    * `Reading.category_agrees_inline`
-/

namespace Diachrony

open Unicode

------------------------------------------------------------
-- Characters of names
------------------------------------------------------------

theorem exists_range_of_covers
    {code : Nat}
    {ranges : List CodeRange}
    (hCovers : CodeRange.covers code ranges = true) :
    ∃ range ∈ ranges, range.1 ≤ code ∧ code ≤ range.2 := by
  induction ranges with
  | nil => cases hCovers
  | cons range rest ih =>
      rcases range with ⟨low, high⟩
      unfold CodeRange.covers at hCovers
      split at hCovers
      · cases hCovers
      rename_i hLow
      rcases Bool.or_eq_true_iff.mp hCovers with hHigh | hRest
      · exact
          ⟨_, List.mem_cons_self, Nat.le_of_not_lt hLow,
            of_decide_eq_true hHigh⟩
      · rcases ih hRest with ⟨other, hOther, hWithin⟩
        exact ⟨other, List.mem_cons_of_mem _ hOther, hWithin⟩

theorem isNameCharacter_of_blank
    {c : Char}
    (hBlank : isBlank c = true) :
    isNameCharacter c = false := by
  have hAll :
      ∀ range ∈ blanks,
        ∀ code ∈ List.range' range.1 (range.2 - range.1 + 1),
          CodeRange.covers code nameCharacters = false := by
    decide +kernel
  rcases exists_range_of_covers hBlank with
    ⟨range, hRange, hLow, hHigh⟩
  refine hAll range hRange _ (List.mem_range'_1.mpr ?_)
  omega

/- Letters and digits belong to runs of ordinary text. -/
theorem isOrdinary_of_isNameCharacter
    {c : Char}
    (hName : isNameCharacter c = true)
    (hOther : c ≠ '_') :
    isOrdinary 0 c = true := by
  have hBlank : isBlank c = false := by
    by_contra hBlank
    rw [isNameCharacter_of_blank (by simpa using hBlank)] at hName
    cases hName
  have hControl : isControl c = false := by
    by_contra hControl
    rw [isControl] at hControl
    unfold TokenKind.ofChar? at hControl
    split at hControl
    all_goals
      first
      | exact absurd rfl hOther
      | exact absurd hName (by decide +kernel)
      | skip
    have hLast : c = '*' ∨ c = '\\' := by
      simpa [or_iff_not_imp_left] using hControl
    rcases hLast with rfl | rfl
    · exact absurd hName (by decide +kernel)
    · exact absurd hName (by decide +kernel)
  rw [isOrdinary, hBlank, hControl]
  simp

------------------------------------------------------------
-- Written items
------------------------------------------------------------

/-
  How an item is written: a word edge by its sign, a name of
  letters and digits in brackets, and a text as it is.
-/
inductive MemberText.IsWritten :
    MemberText → List Char → Prop
  | edge :
      IsWritten .edge ['#']
  | nested
      {name : List Char}
      (hSome : name ≠ [])
      (hName :
        ∀ c ∈ name, isNameCharacter c = true ∧ c ≠ '_') :
      IsWritten (.nested (String.ofList name))
        ('[' :: (name ++ [']']))
  | symbols
      {run : List Char}
      (hSome : run ≠ [])
      (hRun : ∀ c ∈ run, isOrdinary 0 c = true) :
      IsWritten (.symbols (String.ofList run)) run

/- Items with commas between them, and blanks around these. -/
inductive ListsItems :
    List MemberText → List Char → Prop
  | one
      {item : MemberText}
      {lead text tail : List Char}
      (hItem : item.IsWritten text)
      (hLead : ∀ c ∈ lead, isBlank c = true)
      (hTail : ∀ c ∈ tail, isBlank c = true) :
      ListsItems [item] (lead ++ (text ++ tail))
  | more
      {item : MemberText}
      {items : List MemberText}
      {lead text tail rest : List Char}
      (hItem : item.IsWritten text)
      (hLead : ∀ c ∈ lead, isBlank c = true)
      (hTail : ∀ c ∈ tail, isBlank c = true)
      (hRest : ListsItems items rest) :
      ListsItems (item :: items)
        (lead ++ (text ++ (tail ++ ',' :: rest)))

section Items

variable {item : MemberText}
variable {text lead tail : List Char}

theorem isOrdinary_of_name
    {name : List Char}
    (hName : ∀ c ∈ name, isNameCharacter c = true ∧ c ≠ '_') :
    ∀ c ∈ name, isOrdinary 0 c = true :=
  fun c hMem =>
    isOrdinary_of_isNameCharacter (hName c hMem).1
      (hName c hMem).2

/- An ordinary character is neither a blank nor a comma. -/
theorem isOrdinary_cases
    {c : Char}
    (hOrdinary : isOrdinary 0 c = true) :
    isBlank c = false ∧ c ≠ '\\' ∧ isComma c = false ∧
      c ≠ '#' := by
  have hControl : ∀ d ∈ [',', '#'], isOrdinary 0 d = false :=
    forall_mem_of_all (by decide)
  refine ⟨?_, ne_of_ordinary hOrdinary (by decide), ?_, ?_⟩
  · by_contra hBlank
    rw [isOrdinary, Bool.eq_true_of_not_eq_false hBlank]
      at hOrdinary
    simp at hOrdinary
  · refine decide_eq_false ?_
    rintro rfl
    rw [hControl ',' (by decide)] at hOrdinary
    cases hOrdinary
  · rintro rfl
    rw [hControl '#' (by decide)] at hOrdinary
    cases hOrdinary

namespace MemberText.IsWritten

theorem ne_nil
    (hItem : item.IsWritten text) :
    text ≠ [] := by
  cases hItem with
  | edge => exact List.cons_ne_nil _ _
  | nested => exact List.cons_ne_nil _ _
  | symbols hSome => exact hSome

/- No character of an item is a blank or separates items. -/
theorem plain
    (hItem : item.IsWritten text) :
    ∀ c ∈ text,
      isBlank c = false ∧ c ≠ '\\' ∧ isComma c = false := by
  have hOrdinary {run : List Char}
      (hRun : ∀ c ∈ run, isOrdinary 0 c = true) :
      ∀ c ∈ run,
        isBlank c = false ∧ c ≠ '\\' ∧ isComma c = false := by
    intro c hMem
    have hCases := isOrdinary_cases (hRun c hMem)
    exact ⟨hCases.1, hCases.2.1, hCases.2.2.1⟩
  cases hItem with
  | edge => exact List.forall_mem_singleton.mpr (by decide)
  | nested _ hName =>
      refine List.forall_mem_cons.mpr ⟨by decide, ?_⟩
      exact
        List.forall_mem_append.mpr
          ⟨hOrdinary (isOrdinary_of_name hName),
            List.forall_mem_singleton.mpr (by decide)⟩
  | symbols _ hRun => exact hOrdinary hRun

/- Its brackets are closed. -/
theorem depthAfter_eq
    (hItem : item.IsWritten text) :
    depthAfter 0 text = some 0 := by
  have hOrdinary {run : List Char} (depth : Int)
      (rest : List Char)
      (hRun : ∀ c ∈ run, isOrdinary 0 c = true) :
      depthAfter depth (run ++ rest) = depthAfter depth rest :=
    depthAfter_level
      (fun c hMem => (isOrdinary_cases (hRun c hMem)).2.1)
      (fun c hMem => bracketDepth_of_ordinary (hRun c hMem) depth)
  cases hItem with
  | edge => decide
  | nested _ hName =>
      rw [depthAfter_plain (by decide),
        hOrdinary _ _ (isOrdinary_of_name hName)]
      decide
  | symbols _ hRun =>
      have hWhole := hOrdinary 0 [] hRun
      rwa [List.append_nil] at hWhole

theorem trim_eq
    (hItem : item.IsWritten text)
    (hLead : ∀ c ∈ lead, isBlank c = true)
    (hTail : ∀ c ∈ tail, isBlank c = true) :
    trim (lead ++ (text ++ tail)) = text :=
  trim_solid (fun c hMem => (hItem.plain c hMem).1) hLead hTail

/- What is written is read as such in a category line. -/
theorem isReadFrom
    (hItem : item.IsWritten text) :
    item.IsReadFrom text := by
  intro place
  cases hItem with
  | edge => rfl
  | @nested name hSome hName =>
      have hTrim : trim name = name := by
        have hWhole :=
          (symbols hSome (isOrdinary_of_name hName)).trim_eq
            (List.forall_mem_nil _) (List.forall_mem_nil _)
        rwa [List.append_nil, List.nil_append] at hWhole
      have hInside :
          (('[' :: (name ++ [']'])).drop 1).dropLast = name :=
        List.dropLast_concat
      have hWrapped :
          ('[' :: (name ++ [']'])).head? = some '[' ∧
            ('[' :: (name ++ [']'])).getLast? = some ']' := by
        rw [← List.cons_append]
        exact ⟨rfl, List.getLast?_concat⟩
      have hEdge : '[' :: (name ++ [']']) ≠ ['#'] := by simp
      rw [MemberText.ofText, List.isEmpty_cons,
        if_neg Bool.false_ne_true, if_neg hEdge,
        if_pos hWrapped, hInside, hTrim]
  | symbols hSome hRun =>
      have hOther {d : Char}
          (hMem : d ∈ ['\\', '[', '(', '{', ']', ')', '}']) :
          d ∉ text :=
        fun hText => ne_of_ordinary (hRun d hText) hMem rfl
      have hEdge : text ≠ ['#'] := by
        rintro rfl
        exact (isOrdinary_cases (hRun '#' (by simp))).2.2.2 rfl
      have hWrapped :
          ¬(text.head? = some '[' ∧
            text.getLast? = some ']') :=
        fun hBoth =>
          hOther (by decide) (List.mem_of_head? hBoth.1)
      have hBare :
          ¬(text.contains '[' = true ∨
            text.contains ']' = true) := by
        simp [hOther]
      have hKept : text.filter (· ≠ '\\') = text := by
        refine List.filter_eq_self.mpr fun c hMem => ?_
        exact decide_eq_true (isOrdinary_cases (hRun c hMem)).2.1
      rw [MemberText.ofText, List.isEmpty_eq_false_iff.mpr hSome,
        if_neg Bool.false_ne_true, if_neg hEdge,
        if_neg hWrapped, if_neg hBare, hKept]

end MemberText.IsWritten

/- An item is not cut, whatever blanks stand around it. -/
theorem MemberText.IsWritten.splitFrom_eq
    (hItem : item.IsWritten text)
    (hLead : ∀ c ∈ lead, isBlank c = true)
    (hTail : ∀ c ∈ tail, isBlank c = true)
    (rest : List Char) :
    splitFrom isComma 0 [] (lead ++ (text ++ tail) ++ rest) =
      splitFrom isComma 0 (lead ++ (text ++ tail)).reverse
        rest := by
  have hBlank {gap : List Char}
      (hGap : ∀ c ∈ gap, isBlank c = true) :
      ∀ c ∈ gap, c ≠ '\\' ∧ isComma c = false :=
    fun c hMem =>
      ⟨ne_of_blank (hGap c hMem) (by decide),
        isComma_of_blank (hGap c hMem)⟩
  have hAll :
      ∀ c ∈ lead ++ (text ++ tail),
        c ≠ '\\' ∧ isComma c = false :=
    List.forall_mem_append.mpr
      ⟨hBlank hLead,
        List.forall_mem_append.mpr
          ⟨fun c hMem => (hItem.plain c hMem).2, hBlank hTail⟩⟩
  have hDepth :
      depthAfter 0 (lead ++ (text ++ tail)) = some 0 := by
    have hEnd : depthAfter 0 (tail ++ []) = depthAfter 0 [] :=
      depthAfter_blanks hTail
    rw [List.append_nil] at hEnd
    rw [depthAfter_blanks hLead,
      depthAfter_append hItem.depthAfter_eq, hEnd]
    rfl
  have hSplit :=
    @splitFrom_skip isComma 0 0 [] _ rest
      (fun c hMem => (hAll c hMem).1)
      (fun c hMem => (hAll c hMem).2) hDepth
  rwa [List.append_nil] at hSplit

/- A list is cut into its items. -/
theorem ListsItems.readsItems
    {items : List MemberText}
    (hItems : ListsItems items text) :
    ReadsItems (splitTop isComma text) items := by
  unfold splitTop
  induction hItems with
  | @one item lead text tail hItem hLead hTail =>
      have hSplit := hItem.splitFrom_eq hLead hTail []
      rw [List.append_nil, splitFrom, List.reverse_reverse]
        at hSplit
      rw [hSplit]
      refine .cons ?_ .nil
      rw [hItem.trim_eq hLead hTail]
      exact hItem.isReadFrom
  | @more item items lead text tail rest hItem hLead hTail _ ih =>
      have hSplit := hItem.splitFrom_eq hLead hTail (',' :: rest)
      rw [splitFrom_separator (by decide) rfl (by decide),
        List.reverse_reverse] at hSplit
      simp only [List.append_assoc] at hSplit
      rw [hSplit]
      refine .cons ?_ ih
      rw [hItem.trim_eq hLead hTail]
      exact hItem.isReadFrom

end Items

------------------------------------------------------------
-- Tokens
------------------------------------------------------------

/- The tokens that an item is read as in a rule. -/
def MemberText.bares :
    MemberText → List (TokenKind × String)
  | .edge => [(.hash, "#")]
  | .nested name =>
      [(.leftBracket, "["), (.text, name), (.rightBracket, "]")]
  | .symbols text => [(.text, text)]

/- The tokens of a list of items. -/
def listBares :
    List MemberText → List (TokenKind × String)
  | [] => []
  | [item] => item.bares
  | item :: rest => item.bares ++ (.comma, ",") :: listBares rest

section Tokens

variable {item : MemberText}
variable {items : List MemberText}
variable {text rest gap : List Char}
variable {bares : List (TokenKind × String)}

theorem ListsItems.ne_nil
    (hItems : ListsItems items text) :
    items ≠ [] := by
  cases hItems <;> exact List.cons_ne_nil _ _

theorem listBares_cons
    (hSome : items ≠ []) :
    listBares (item :: items) =
      item.bares ++ (.comma, ",") :: listBares items := by
  cases items with
  | nil => exact absurd rfl hSome
  | cons => rfl

theorem not_isOrdinary_blanks
    (hGap : ∀ c ∈ gap, isBlank c = true)
    (hRest : ∀ c ∈ rest.head?, isOrdinary 0 c = false) :
    ∀ c ∈ (gap ++ rest).head?, isOrdinary 0 c = false := by
  cases gap with
  | nil => exact hRest
  | cons d gap =>
      intro c hMem
      obtain rfl := Option.some.inj hMem
      simp [isOrdinary, hGap d List.mem_cons_self]

theorem MemberText.IsWritten.readsAs
    (hItem : item.IsWritten text)
    (hStop : ∀ c ∈ rest.head?, isOrdinary 0 c = false)
    (hRest : ReadsAs 0 rest bares) :
    ReadsAs 0 (text ++ rest) (item.bares ++ bares) := by
  have hRun {run rest : List Char}
      {bares : List (TokenKind × String)}
      (hSome : run ≠ [])
      (hOrdinary : ∀ c ∈ run, isOrdinary 0 c = true)
      (hStop : ∀ c ∈ rest.head?, isOrdinary 0 c = false)
      (hRest : ReadsAs 0 rest bares) :
      ReadsAs 0 (run ++ rest)
        ((.text, String.ofList run) :: bares) := by
    cases run with
    | nil => exact absurd rfl hSome
    | cons c run => exact .run hOrdinary hStop hRest
  cases hItem with
  | edge => exact .sign rfl (by decide) hRest
  | @nested name hSome hName =>
      have hClosing :
          ReadsAs 0 (']' :: rest)
            ((.rightBracket, "]") :: bares) :=
        .sign rfl (by decide) hRest
      have hInside :=
        hRun hSome (isOrdinary_of_name hName) (by simp; decide)
          hClosing
      rw [List.cons_append, List.append_assoc]
      exact .sign rfl (by decide) hInside
  | symbols hSome hOrdinary =>
      exact hRun hSome hOrdinary hStop hRest

/- A list is read token by token as its items. -/
theorem ListsItems.readsAs
    (hItems : ListsItems items text)
    (hStop : ∀ c ∈ rest.head?, isOrdinary 0 c = false)
    (hRest : ReadsAs 0 rest bares) :
    ReadsAs 0 (text ++ rest) (listBares items ++ bares) := by
  induction hItems with
  | one hItem hLead hTail =>
      rw [List.append_assoc, List.append_assoc,
        readsAs_blanks_iff hLead]
      exact
        hItem.readsAs (not_isOrdinary_blanks hTail hStop)
          ((readsAs_blanks_iff hTail).mpr hRest)
  | @more item items _ _ _ later hItem hLead hTail hLater ih =>
      have hComma :
          ReadsAs 0 (',' :: (later ++ rest))
            ((.comma, ",") :: (listBares items ++ bares)) :=
        .sign rfl (by decide) ih
      have hFirst :=
        hItem.readsAs
          (not_isOrdinary_blanks hTail (by simp; decide))
          ((readsAs_blanks_iff hTail).mpr hComma)
      rw [listBares_cons hLater.ne_nil]
      simp only [List.append_assoc, List.cons_append]
      exact (readsAs_blanks_iff hLead).mpr hFirst

end Tokens

------------------------------------------------------------
-- Members in brackets
------------------------------------------------------------

section Members

variable {context : ReadContext}
variable {item : MemberText}
variable {items : List MemberText}
variable {text : List Char}
variable {tokens rest : List Token}
variable {next : Token}

theorem ReadContext.nestedMembers_fst
    (context : ReadContext)
    (name : Token) :
    (context.nestedMembers name).1 =
      context.table.membersOf name.text := by
  rw [nestedMembers, Table.membersOf]
  cases context.table.resolve? name.text <;> rfl

theorem ReadContext.nestedMembers_problems
    (context : ReadContext)
    (name : Token) :
    (context.nestedMembers name).2.map Diagnostic.problem =
      (MemberText.nested name.text).problems context.table := by
  rw [nestedMembers, MemberText.problems]
  cases context.table.resolve? name.text <;> rfl

/-
  Tokens that are read as certain members with certain
  problems, wherever a comma or a closing bracket follows.
-/
structure ReadContext.Lends
    (context : ReadContext)
    (tokens : List Token)
    (members : List Member)
    (reported : List Diagnostic) : Prop where
  before_comma :
    ∀ start before diagnostics next rest,
      next.kind = .comma →
        readMembers context start [] before diagnostics
            (tokens ++ next :: rest) =
          readMembers context rest [] (before ++ members)
            (diagnostics ++ reported) rest
  before_closing :
    ∀ start before diagnostics next rest,
      next.kind = .rightBracket →
        readMembers context start [] before diagnostics
            (tokens ++ next :: rest) =
          .ok
            ⟨before ++ members, diagnostics ++ reported,
              next :: rest⟩

theorem DerivesRun.lends
    {member : Member}
    (hRun : DerivesRun context tokens member)
    (hSome : tokens ≠ []) :
    context.Lends tokens [member] [] where
  before_comma start before diagnostics next rest hComma := by
    rw [hRun.reads_next hSome hComma, List.append_nil]
  before_closing start before diagnostics next rest hClosing := by
    rw [hRun.reads_last hSome hClosing, List.append_nil]

/- An item lends its members and has its problems. -/
theorem MemberText.IsWritten.lends
    (context : ReadContext)
    (hItem : item.IsWritten text)
    (hTokens : tokens.map Token.bare = item.bares) :
    ∃ reported,
      reported.map Diagnostic.problem =
          item.problems context.table ∧
        context.Lends tokens
          (item.lent context.table context.graphs) reported := by
  cases hItem with
  | edge =>
      rcases List.map_eq_singleton_iff.mp hTokens with
        ⟨sign, rfl, hSign⟩
      refine ⟨[], rfl, ?_⟩
      exact
        (DerivesRun.edge .nil (congrArg Prod.fst hSign)).lends
          (List.cons_ne_nil _ _)
  | @nested name hSome hName =>
      simp only [bares, List.map_eq_cons_iff,
        List.map_eq_nil_iff] at hTokens
      rcases hTokens with
        ⟨opening, _, rfl, hOpening, token, _, rfl, hToken,
          closing, _, rfl, hClosing, rfl⟩
      have hText : token.text = String.ofList name :=
        congrArg Prod.snd hToken
      have hFirst : opening.kind = .leftBracket :=
        congrArg Prod.fst hOpening
      have hKind : token.kind = .text := congrArg Prod.fst hToken
      have hLast : closing.kind = .rightBracket :=
        congrArg Prod.fst hClosing
      refine ⟨(context.nestedMembers token).2, ?_, ?_⟩
      · rw [context.nestedMembers_problems, hText]
      · rw [lent, ← hText, ← context.nestedMembers_fst]
        exact
          { before_comma := fun _ _ _ _ _ hComma =>
              readMembers_nested_next hFirst hKind hLast hComma
                _ _ _ _
            before_closing := fun _ _ _ _ _ hEnd =>
              readMembers_nested_last hFirst hKind hLast hEnd
                _ _ _ }
  | symbols hSome =>
      rcases List.map_eq_singleton_iff.mp hTokens with
        ⟨token, rfl, hToken⟩
      have hText : token.text = String.ofList text :=
        congrArg Prod.snd hToken
      have hNonempty : token.text ≠ "" := by
        rw [hText]
        simpa using hSome
      have hRun :
          DerivesRun context ([] ++ [token])
            ([] ++
              Member.ofSymbols (context.symbols token.text)) :=
        .text .nil (congrArg Prod.fst hToken) hNonempty
      rw [hText] at hRun
      exact ⟨[], rfl, hRun.lends (List.cons_ne_nil _ _)⟩

/- So does a list, up to the bracket that closes it. -/
theorem ListsItems.readMembers
    (context : ReadContext)
    (hItems : ListsItems items text)
    (hTokens : tokens.map Token.bare = listBares items) :
    ∃ reported,
      reported.map Diagnostic.problem =
          items.flatMap (MemberText.problems context.table) ∧
        ∀ start before diagnostics closing rest,
          closing.kind = .rightBracket →
            Diachrony.readMembers context start [] before
                diagnostics (tokens ++ closing :: rest) =
              .ok
                ⟨before ++
                    items.flatMap
                      (MemberText.lent context.table
                        context.graphs),
                  diagnostics ++ reported, closing :: rest⟩ := by
  induction hItems generalizing tokens with
  | one hItem =>
      rcases hItem.lends context hTokens with
        ⟨reported, hReported, hLends⟩
      refine ⟨reported, ?_, ?_⟩
      · rw [hReported, List.flatMap_singleton]
      · rw [List.flatMap_singleton]
        exact hLends.before_closing
  | @more item items _ _ _ _ hItem _ _ hLater ih =>
      rw [listBares_cons hLater.ne_nil] at hTokens
      rcases List.map_eq_append_iff.mp hTokens with
        ⟨first, later, rfl, hFirst, hMore⟩
      rcases List.map_eq_cons_iff.mp hMore with
        ⟨comma, others, rfl, hComma, hOthers⟩
      rcases hItem.lends context hFirst with
        ⟨reported, hReported, hLends⟩
      rcases ih hOthers with ⟨more, hProblems, hRead⟩
      refine ⟨reported ++ more, ?_, ?_⟩
      · rw [List.map_append, hReported, hProblems,
          List.flatMap_cons]
      intro start before diagnostics closing rest hClosing
      have hKind : comma.kind = .comma := congrArg Prod.fst hComma
      rw [List.append_assoc, List.cons_append,
        hLends.before_comma _ _ _ _ _ hKind,
        hRead _ _ _ _ _ hClosing, List.flatMap_cons,
        List.append_assoc, List.append_assoc]

theorem exists_listBares
    (hTwo : 2 ≤ items.length) :
    ∃ head second more,
      listBares items = head :: second :: more ∧
        head.1 ≠ .rightBracket ∧
          (head.1 = .text → second.1 ≠ .rightBracket) := by
  match items, hTwo with
  | item :: next :: rest, _ =>
      rw [listBares_cons (List.cons_ne_nil _ _)]
      cases item with
      | edge => exact ⟨_, _, _, rfl, nofun, nofun⟩
      | nested => exact ⟨_, _, _, rfl, nofun, nofun⟩
      | symbols => exact ⟨_, _, _, rfl, nofun, nofun⟩

/- What refers to the members of a list in line. -/
def inlineRef
    (table : Table)
    (graphs : List String)
    (items : List MemberText) : CategoryRef where
  category :=
    some
      { name := ""
        members := items.flatMap (MemberText.lent table graphs) }

/-
  A list of two items or more in brackets is a category in
  line. Only a tag can belong to it of what follows.
-/
theorem ListsItems.readCategory
    (context : ReadContext)
    (hItems : ListsItems items text)
    (hTwo : 2 ≤ items.length)
    (hTokens : tokens.map Token.bare = listBares items) :
    ∃ reported,
      reported.map Diagnostic.problem =
          items.flatMap (MemberText.problems context.table) ∧
        ∀ closing rest,
          closing.kind = .rightBracket →
            Diachrony.readCategory context
                (tokens ++ closing :: rest) =
              (readTag context
                (inlineRef context.table context.graphs items)
                rest).map
                fun tagged =>
                  ⟨.category tagged.1, reported, tagged.2⟩ := by
  rcases hItems.readMembers context hTokens with
    ⟨reported, hReported, hMembers⟩
  refine ⟨reported, hReported, fun closing rest hClosing => ?_⟩
  have hRead :=
    hMembers (tokens ++ closing :: rest) [] [] closing rest
      hClosing
  rcases exists_listBares hTwo with
    ⟨_, _, _, hBares, hHead, hSecond⟩
  rw [hBares] at hTokens
  rcases List.map_eq_cons_iff.mp hTokens with
    ⟨head, _, rfl, rfl, hMore⟩
  rcases List.map_eq_cons_iff.mp hMore with
    ⟨second, more, rfl, rfl, _⟩
  have hSkip :
      skipToken? .rightBracket
          (head :: second :: more ++ closing :: rest) =
        none := by
    rw [List.cons_append, skipToken?]
    exact if_neg hHead
  have hLone :
      loneName? (head :: second :: more ++ closing :: rest) =
        none := by
    rw [List.cons_append, List.cons_append, loneName?]
    exact if_neg fun hAll => hSecond hAll.1 hAll.2.1
  rw [Diachrony.readCategory, hSkip]
  dsimp only
  rw [readReference, hLone, hRead]
  dsimp only
  rw [expectToken, skipToken?_cons hClosing]
  dsimp only
  rw [List.nil_append, List.nil_append, inlineRef]
  cases readTag context _ rest <;> rfl

end Members

------------------------------------------------------------
-- Both notations
------------------------------------------------------------

/-
  A text that in brackets, and whatever text stands behind
  them, is read as a category in line with certain members,
  of which certain problems are reported.
-/
def ReadContext.ReadsInline
    (context : ReadContext)
    (text : List Char)
    (members : List Member)
    (problems : List Problem) : Prop :=
  ∀ after bares,
    ReadsAs 0 after bares →
      ∀ line column,
        ∃ opening tokens later reported,
          readTokens line column 0
                ('[' :: (text ++ ']' :: after)) =
              .ok (opening :: tokens) ∧
            opening.kind = .leftBracket ∧
            later.map Token.bare = bares ∧
            reported.map Diagnostic.problem = problems ∧
            readCategory context tokens =
              (readTag context
                { category :=
                    some { name := "", members := members } }
                later).map
                fun tagged =>
                  ⟨.category tagged.1, reported, tagged.2⟩

theorem ListsItems.readsInline
    {items : List MemberText}
    {text : List Char}
    (context : ReadContext)
    (hItems : ListsItems items text)
    (hTwo : 2 ≤ items.length) :
    context.ReadsInline text
      (items.flatMap
        (MemberText.lent context.table context.graphs))
      (items.flatMap (MemberText.problems context.table)) := by
  intro after bares hAfter line column
  have hEnd :
      ReadsAs 0 (']' :: after) ((.rightBracket, "]") :: bares) :=
    .sign rfl (by decide) hAfter
  have hWhole :
      ReadsAs 0 ('[' :: (text ++ ']' :: after))
        ((.leftBracket, "[") ::
          (listBares items ++ (.rightBracket, "]") :: bares)) :=
    .sign rfl (by decide)
      (hItems.readsAs (by simp; decide) hEnd)
  rcases hWhole line column with ⟨all, hTokens, hBares⟩
  rcases List.map_eq_cons_iff.mp hBares with
    ⟨opening, tokens, rfl, hOpening, hRest⟩
  rcases List.map_eq_append_iff.mp hRest with
    ⟨inside, _, rfl, hInside, hLater⟩
  rcases List.map_eq_cons_iff.mp hLater with
    ⟨closing, later, rfl, hClosing, hBehind⟩
  rcases hItems.readCategory context hTwo hInside with
    ⟨reported, hReported, hRead⟩
  exact
    ⟨opening, _, later, reported, hTokens,
      congrArg Prod.fst hOpening, hBehind, hReported,
      hRead closing later (congrArg Prod.fst hClosing)⟩

/-
  A category line and a category in line have the same
  members for a list of two items or more, in the same
  order, and the same names in it are reported. The line
  must not be that of the graphs.
-/
theorem Reading.category_agrees_inline
    {reading : Reading}
    {line : SourceLine}
    {category : CategoryLine}
    {items : List MemberText}
    (hKind : line.kind = .category)
    (hCategory :
      CategoryLine.read? line.text = some category)
    (hName : String.ofList category.name ≠ graphsName)
    (hItems : ListsItems items category.body)
    (hTwo : 2 ≤ items.length) :
    let name := String.ofList category.name
    let members :=
      items.flatMap
        (MemberText.lent reading.table reading.graphs)
    let problems :=
      items.flatMap (MemberText.problems reading.table)
    (∃ next,
        reading.line line = .ok next ∧
          next.table.membersOf name =
            category.edit.editMembers reading.table name
              members ∧
          next.diagnostics.map Diagnostic.problem =
            reading.diagnostics.map Diagnostic.problem ++
              problems ++
              (category.edit.diagnostics reading.table name
                line.place).map Diagnostic.problem) ∧
      ∀ context : ReadContext,
        context.table = reading.table →
          context.graphs = reading.graphs →
            context.ReadsInline category.body members
              problems := by
  intro name members problems
  constructor
  · have hBody (place : Place) :
        ∃ diagnostics,
          readCategoryBody reading.table reading.graphs place
                category.body =
              .ok (members, diagnostics) ∧
            diagnostics.map Diagnostic.problem = problems :=
      readCategoryBody_eq_ok_iff.mpr
        ⟨items, hItems.readsItems, rfl, rfl⟩
    rw [line_of_category hKind hCategory]
    unfold categoryLine
    dsimp only
    rcases hBody _ with ⟨diagnostics, hBody, hProblems⟩
    rw [hBody]
    refine ⟨_, rfl, ?_, ?_⟩
    · unfold editCategory
      dsimp only
      rw [if_neg hName]
      exact Table.membersOf_append _ _ _
    · unfold editCategory
      dsimp only
      rw [List.map_append, List.map_append, hProblems]
  · intro context hTable hGraphs
    have hInline := hItems.readsInline context hTwo
    rwa [hTable, hGraphs] at hInline

------------------------------------------------------------
-- A list of all kinds of members
------------------------------------------------------------

def vowelReading : Reading where
  table :=
    Table.ofList [("V", ["a", "e"].map Member.ofSymbol)]
  graphs := ["th"]

/- A line with an edge, a category, a text, and a category. -/
def mixedLine : SourceLine :=
  SourceLine.ofRaw 1 "C = #, [V] , thi,[W]".toList

def mixedCategory : CategoryLine where
  name := ['C']
  edit := .define
  body := "#, [V] , thi,[W]".toList
  offset := 4

def mixedItems : List MemberText :=
  [.edge, .nested "V", .symbols "thi", .nested "W"]

theorem mixedItems_listed :
    ListsItems mixedItems mixedCategory.body := by
  have hFirst :
      (MemberText.nested "V").IsWritten "[V]".toList :=
    @MemberText.IsWritten.nested ['V'] nofun
      (List.forall_mem_singleton.mpr (by decide +kernel))
  have hText :
      (MemberText.symbols "thi").IsWritten "thi".toList :=
    @MemberText.IsWritten.symbols "thi".toList (by decide)
      (List.all_eq_true.mp (by decide))
  have hLast :
      (MemberText.nested "W").IsWritten "[W]".toList :=
    @MemberText.IsWritten.nested ['W'] nofun
      (List.forall_mem_singleton.mpr (by decide +kernel))
  have hBlank : ∀ c ∈ [' '], isBlank c = true :=
    List.forall_mem_singleton.mpr (by decide)
  exact
    @ListsItems.more _ _ [] _ [] _ .edge nofun nofun
      (@ListsItems.more _ _ [' '] _ [' '] _ hFirst hBlank hBlank
        (@ListsItems.more _ _ [' '] _ [] _ hText hBlank nofun
          (@ListsItems.one _ [] _ [] hLast nofun nofun)))

theorem mixedLine_agrees :
    mixedLine.kind = .category ∧
      CategoryLine.read? mixedLine.text = some mixedCategory ∧
        ListsItems mixedItems mixedCategory.body ∧
          (let members : List Member :=
            [ [.edge], [.symbol "a"], [.symbol "e"],
              [.symbol "th", .symbol "i"] ]
          (∃ next,
            vowelReading.line mixedLine = .ok next ∧
              next.table.membersOf "C" = members ∧
              next.diagnostics.map Diagnostic.problem =
                [.undefinedCategory "W"]) ∧
            ∀ context : ReadContext,
              context.table = vowelReading.table →
                context.graphs = vowelReading.graphs →
                  context.ReadsInline mixedCategory.body members
                    [.undefinedCategory "W"]) := by
  have hKind : mixedLine.kind = .category := by
    decide +kernel
  have hCategory :
      CategoryLine.read? mixedLine.text = some mixedCategory := by
    decide +kernel
  have hAgree :=
    @Reading.category_agrees_inline vowelReading _ _ _ hKind
      hCategory (by decide) mixedItems_listed (by decide)
  have hMembers :
      mixedItems.flatMap
          (MemberText.lent vowelReading.table
            vowelReading.graphs) =
        [ [.edge], [.symbol "a"], [.symbol "e"],
          [.symbol "th", .symbol "i"] ] := by
    decide +kernel
  have hProblems :
      mixedItems.flatMap
          (MemberText.problems vowelReading.table) =
        [.undefinedCategory "W"] := by
    decide +kernel
  dsimp only at hAgree
  rw [hMembers, hProblems] at hAgree
  exact ⟨hKind, hCategory, mixedItems_listed, hAgree⟩

/- A list of graphs, and the same list in a rule. -/
def graphsSource : String :=
  "graphs = #, th\n[#, th] > x"

/- The sign of the word edge is a graph in a line of graphs. -/
theorem graphsSource_differs :
    ListsItems [.edge, .symbols "th"] "#, th".toList ∧
      ∃ ruleset,
        Ruleset.read {} ["th"] graphsSource = .ok ruleset ∧
          ruleset.categories.membersOf "graphs" =
            [[.symbol "#"], [.symbol "th"]] ∧
          ((Items.rules ruleset.items).flatMap
              Rule.categories).map Category.members =
            [[[.edge], [.symbol "th"]]] := by
  have hLast :
      (MemberText.symbols "th").IsWritten "th".toList :=
    @MemberText.IsWritten.symbols "th".toList (by decide)
      (List.all_eq_true.mp (by decide))
  have hBlank : ∀ c ∈ [' '], isBlank c = true :=
    List.forall_mem_singleton.mpr (by decide)
  refine
    ⟨@ListsItems.more _ _ [] _ [] _ .edge nofun nofun
        (@ListsItems.one _ [' '] _ [] hLast hBlank nofun),
      Ruleset.ofSource {} ["th"] graphsSource,
      Ruleset.read_ofSource (by decide +kernel), ?_, ?_⟩
  · decide +kernel
  · decide +kernel

end Diachrony
