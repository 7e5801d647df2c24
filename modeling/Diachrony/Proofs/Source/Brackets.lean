import Diachrony.Proofs.Source.Faults
import Diachrony.Proofs.Source.Tokens

/-
  What stands in brackets is read as the grammar says.

  Members are read up to the bracket that closes them, a
  name by itself is told from a list of members by the token
  after it, and a tag is read if a caret follows. Whatever
  is read has a derivation, and whatever has a derivation is
  read. If nothing is read then one of the tokens, or what
  is missing behind them, is to blame.

  Key theorems include:
    * `readMembers_sound`
    * `DerivesMembers.reads`
    * `readCategory_sound`
    * `DerivesBracket.reads`
    * `readCategory_faults`
-/

namespace Diachrony

open Unicode

variable {context : ReadContext}

------------------------------------------------------------
-- Single tokens
------------------------------------------------------------

section Tokens

variable {kind : TokenKind}
variable {tokens rest : List Token}

theorem skipToken?_eq_some_iff :
    skipToken? kind tokens = some rest ↔
      ∃ token : Token,
        token.kind = kind ∧ tokens = token :: rest := by
  cases tokens with
  | nil => simp [skipToken?]
  | cons token more =>
      rw [skipToken?]
      split
      · rename_i hKind
        constructor
        · rintro ⟨⟩
          exact ⟨token, hKind, rfl⟩
        · rintro ⟨_, _, ⟨⟩⟩
          rfl
      · rename_i hOther
        constructor
        · intro hSome
          cases hSome
        · rintro ⟨_, hKind, ⟨⟩⟩
          exact absurd hKind hOther

theorem skipToken?_eq_none
    (hOther : ∀ token ∈ tokens.head?, token.kind ≠ kind) :
    skipToken? kind tokens = none := by
  cases tokens with
  | nil => rfl
  | cons token more =>
      rw [skipToken?, if_neg (hOther token rfl)]

theorem skipToken?_cons
    {token : Token}
    (hKind : token.kind = kind) :
    skipToken? kind (token :: rest) = some rest := by
  rw [skipToken?, if_pos hKind]

theorem expectToken_eq_ok_iff
    {cause : Cause} :
    expectToken context kind cause tokens = .ok rest ↔
      ∃ token : Token,
        token.kind = kind ∧ tokens = token :: rest := by
  rw [← skipToken?_eq_some_iff, expectToken]
  split
  · rename_i hSkip
    rw [hSkip, Except.ok.injEq, Option.some.injEq]
  · rename_i hNone
    rw [hNone]
    exact iff_of_false ReadContext.failAt_ne_ok nofun

/- A mark of laziness is read if it is there. -/
theorem readLazy_sound
    (tokens : List Token) :
    ∃ mark,
      tokens = mark ++ (readLazy tokens).2 ∧
        DerivesMark mark (readLazy tokens).1 := by
  unfold readLazy
  split
  · rename_i hSkip
    rcases skipToken?_eq_some_iff.mp hSkip with
      ⟨mark, hMark, rfl⟩
    exact ⟨[mark], rfl, .lazy hMark⟩
  · exact ⟨[], rfl, .missing⟩

theorem DerivesMark.reads
    {mark : List Token}
    {isLazy : Bool}
    (hMark : DerivesMark mark isLazy)
    (hRest : ∀ token ∈ rest.head?, token.kind ≠ .question) :
    readLazy (mark ++ rest) = (isLazy, rest) := by
  cases hMark with
  | missing =>
      rw [List.nil_append, readLazy, skipToken?_eq_none hRest]
  | lazy hMark =>
      rw [List.singleton_append, readLazy,
        skipToken?_cons hMark]

end Tokens

------------------------------------------------------------
-- Members
------------------------------------------------------------

/-
  What follows some tokens is used up as part of what begins
  with them.
-/
theorem exists_used_append
    {α : Type}
    {derives : List Token → α → Prop}
    {value : α}
    {read tokens later rest : List Token}
    (front : List Token)
    (hTokens : tokens = front ++ later)
    (hUsed : ∃ used,
      later = used ++ rest ∧
        derives (read ++ front ++ used) value) :
    ∃ used,
      tokens = used ++ rest ∧ derives (read ++ used) value := by
  rcases hUsed with ⟨used, rfl, hDerives⟩
  rw [List.append_assoc] at hDerives
  refine ⟨front ++ used, ?_, hDerives⟩
  rw [hTokens, List.append_assoc]

theorem DerivesMembers.append
    {tokens later : List Token}
    {comma : Token}
    {members others : List Member}
    (hMembers : DerivesMembers context tokens members)
    (hComma : comma.kind = .comma)
    (hLater : DerivesMembers context later others) :
    DerivesMembers context (tokens ++ comma :: later)
      (members ++ others) := by
  induction hMembers with
  | one hMember => exact .more hMember hComma hLater
  | more hMember hFirst _ ih =>
      rw [List.append_assoc, List.append_assoc]
      exact .more hMember hFirst ih

/-
  Tokens of members that are under way: a run, which may
  come after other members and a comma.
-/
inductive MembersOpen
    (context : ReadContext) :
    List Token → List Member → Member → Prop
  | first
      {part : List Token}
      {member : Member}
      (hRun : DerivesRun context part member) :
      MembersOpen context part [] member
  | later
      {before part : List Token}
      {comma : Token}
      {members : List Member}
      {member : Member}
      (hMembers : DerivesMembers context before members)
      (hComma : comma.kind = .comma)
      (hRun : DerivesRun context part member) :
      MembersOpen context (before ++ comma :: part) members
        member

namespace MembersOpen

variable {read : List Token}
variable {members : List Member}
variable {member more : Member}
variable {token : Token}
variable (hOpen : MembersOpen context read members member)

include hOpen

/- The run goes on with a token. -/
theorem add
    (hStep : ∀ part,
      DerivesRun context part member →
        DerivesRun context (part ++ [token]) (member ++ more)) :
    MembersOpen context (read ++ [token]) members
      (member ++ more) := by
  cases hOpen with
  | first hRun => exact .first (hStep _ hRun)
  | later hMembers hComma hRun =>
      rw [List.append_assoc]
      exact .later hMembers hComma (hStep _ hRun)

/- The run and some more tokens become members. -/
theorem close
    {extra : List Token}
    {others : List Member}
    (hMember : ∀ part,
      DerivesRun context part member →
        DerivesMember context (part ++ extra) others) :
    DerivesMembers context (read ++ extra)
      (members ++ others) := by
  cases hOpen with
  | first hRun => exact .one (hMember _ hRun)
  | later hMembers hComma hRun =>
      rw [List.append_assoc, List.cons_append]
      exact hMembers.append hComma (.one (hMember _ hRun))

theorem close_run
    (hSome : member ≠ []) :
    DerivesMembers context read (members ++ [member]) := by
  rw [← List.append_nil read]
  apply hOpen.close
  intro part hRun
  rw [List.append_nil]
  exact .run hRun (mt hRun.eq_nil_iff.mpr hSome)

theorem close_nested
    {opening name closing : Token}
    (hNone : member = [])
    (hOpening : opening.kind = .leftBracket)
    (hName : name.kind = .text)
    (hClosing : closing.kind = .rightBracket) :
    DerivesMembers context (read ++ [opening, name, closing])
      (members ++ (context.nestedMembers name).1) := by
  apply hOpen.close
  intro part hRun
  rw [hRun.eq_nil_iff.mp hNone]
  exact .nested hOpening hName hClosing

end MembersOpen

/-
  Members that are read are derived from the tokens that
  they are read from, those under way included.
-/
theorem readMembers_sound
    {start read tokens : List Token}
    {member : Member}
    {members : List Member}
    {diagnostics : List Diagnostic}
    {result : Parsed (List Member)}
    (hOpen : MembersOpen context read members member)
    (hTexts : TextsNonempty tokens)
    (hRead :
      readMembers context start member members diagnostics
        tokens = .ok result) :
    ∃ used,
      tokens = used ++ result.rest ∧
        DerivesMembers context (read ++ used) result.value := by
  fun_induction readMembers context start member members
      diagnostics tokens generalizing read
  case case2 =>
    -- the tokens end in a run
    rename_i hSome
    cases hRead
    refine ⟨[], rfl, ?_⟩
    rw [List.append_nil]
    exact hOpen.close_run (by simpa using hSome)
  case case3 =>
    -- a text
    rename_i token _ hKind ih
    have hNext := hOpen.add fun _ hRun =>
      hRun.text hKind (hTexts token List.mem_cons_self)
    exact exists_used_append [token] rfl
      (ih hNext (hTexts.of_suffix (List.suffix_cons _ _)) hRead)
  case case4 =>
    -- an escape
    rename_i token _ hKind ih
    have hNext := hOpen.add fun _ hRun => hRun.escape hKind
    exact exists_used_append [token] rfl
      (ih hNext (hTexts.of_suffix (List.suffix_cons _ _)) hRead)
  case case5 =>
    -- a word edge
    rename_i token _ hKind ih
    have hNext := hOpen.add fun _ hRun => hRun.edge hKind
    exact exists_used_append [token] rfl
      (ih hNext (hTexts.of_suffix (List.suffix_cons _ _)) hRead)
  case case7 =>
    -- a comma closes the run, and another one begins
    rename_i comma _ hComma hSome ih
    have hMembers := hOpen.close_run (by simpa using hSome)
    exact exists_used_append [comma] rfl
      (ih (.later hMembers hComma .nil)
        (hTexts.of_suffix (List.suffix_cons _ _)) hRead)
  case case9 =>
    -- a bracket closes the run
    rename_i hSome
    cases hRead
    refine ⟨[], rfl, ?_⟩
    rw [List.append_nil]
    exact hOpen.close_run (by simpa using hSome)
  case case15 =>
    -- the tokens end in a nested category
    rename_i opening hOpening name hName closing hClosing hNone
      _
    cases hRead
    refine ⟨[opening, name, closing], rfl, ?_⟩
    exact
      hOpen.close_nested (by simpa using hNone) hOpening
        (by simpa using hName) (by simpa using hClosing)
  case case16 =>
    -- so does a comma after a nested category
    rename_i opening hOpening name hName closing hClosing hNone
      _ comma _ hComma ih
    have hMembers :=
      hOpen.close_nested (by simpa using hNone) hOpening
        (by simpa using hName) (by simpa using hClosing)
    have hSuffix :
        TextsNonempty _ :=
      hTexts.of_suffix
        (List.suffix_append [opening, name, closing, comma] _)
    exact exists_used_append [opening, name, closing] rfl
      (exists_used_append [comma] rfl
        (ih (.later hMembers hComma .nil) hSuffix hRead))
  case case17 =>
    -- something else follows a nested category
    rename_i opening hOpening name hName closing hClosing hNone
      _ _ _ _
    cases hRead
    refine ⟨[opening, name, closing], rfl, ?_⟩
    exact
      hOpen.close_nested (by simpa using hNone) hOpening
        (by simpa using hName) (by simpa using hClosing)
  case case11 | case13 | case14 | case18 => cases hRead
  all_goals exact absurd hRead ReadContext.failAt_ne_ok

/- What cannot be read as members is malformed somewhere. -/
theorem readMembers_faults
    {start tokens all : List Token}
    {member : Member}
    {members : List Member}
    {diagnostics : List Diagnostic}
    {e : ReadError}
    (hStart : start ⊆ all)
    (hTokens : tokens ⊆ all)
    (hRead :
      readMembers context start member members diagnostics
        tokens = .error e) :
    context.Faults all e := by
  fun_induction readMembers context start member members
      diagnostics tokens
  case case2 | case9 | case15 | case17 => cases hRead
  case case3 | case4 | case5 =>
    rename_i ih
    exact ih hStart (List.subset_of_cons_subset hTokens) hRead
  case case7 =>
    rename_i ih
    have hLater := List.subset_of_cons_subset hTokens
    exact ih hLater hLater hRead
  case case16 =>
    rename_i ih
    simp only [List.cons_subset] at hTokens
    exact ih hTokens.2.2.2.2 hTokens.2.2.2.2 hRead
  case case11 | case13 | case14 =>
    exact .of_failOn (hTokens (by simp)) ⟨rfl, rfl⟩ hRead
  case case18 =>
    -- an unexpected token
    refine .of_unexpected (hTokens List.mem_cons_self) ?_ hRead
    refine ⟨?_, rfl⟩
    rintro named ⟨⟩
    rfl
  case case10 | case12 =>
    exact .of_failAt (List.nil_subset all) ⟨rfl, rfl⟩ hRead
  all_goals exact .of_failAt hStart ⟨rfl, rfl⟩ hRead

------------------------------------------------------------
-- Derived members are read
------------------------------------------------------------

theorem DerivesRun.reads
    {tokens : List Token}
    {member : Member}
    (hRun : DerivesRun context tokens member)
    (start : List Token)
    (first : Member)
    (members : List Member)
    (diagnostics : List Diagnostic)
    (rest : List Token) :
    readMembers context start first members diagnostics
        (tokens ++ rest) =
      readMembers context start (first ++ member) members
        diagnostics rest := by
  induction hRun generalizing rest with
  | nil => rw [List.nil_append, List.append_nil]
  | text _ hKind _ ih =>
      rw [List.append_assoc, ih, List.singleton_append,
        readMembers.eq_def]
      simp only [hKind, List.append_assoc]
  | escape _ hKind ih =>
      rw [List.append_assoc, ih, List.singleton_append,
        readMembers.eq_def]
      simp only [hKind, List.append_assoc]
  | edge _ hKind ih =>
      rw [List.append_assoc, ih, List.singleton_append,
        readMembers.eq_def]
      simp only [hKind, List.append_assoc]

section Reads

variable {tokens rest : List Token}
variable {members : List Member}
variable {next : Token}

/- What stands before a comma is read, and more follows. -/
theorem DerivesRun.reads_next
    {member : Member}
    (hRun : DerivesRun context tokens member)
    (hSome : tokens ≠ [])
    (hComma : next.kind = .comma)
    (start : List Token)
    (before : List Member)
    (diagnostics : List Diagnostic)
    (rest : List Token) :
    readMembers context start [] before diagnostics
        (tokens ++ next :: rest) =
      readMembers context rest [] (before ++ [member])
        diagnostics rest := by
  have hMember := mt hRun.eq_nil_iff.mp hSome
  rw [hRun.reads, List.nil_append, readMembers.eq_def]
  simp only [hComma, List.isEmpty_iff, hMember, if_false]

theorem DerivesRun.reads_last
    {member : Member}
    (hRun : DerivesRun context tokens member)
    (hSome : tokens ≠ [])
    (hClosing : next.kind = .rightBracket)
    (start : List Token)
    (before : List Member)
    (diagnostics : List Diagnostic) :
    readMembers context start [] before diagnostics
        (tokens ++ next :: rest) =
      .ok ⟨before ++ [member], diagnostics, next :: rest⟩ := by
  have hMember := mt hRun.eq_nil_iff.mp hSome
  rw [hRun.reads, List.nil_append, readMembers.eq_def]
  simp only [hClosing, List.isEmpty_iff, hMember, if_false]

section Nested

variable {opening name closing : Token}
variable (hOpening : opening.kind = .leftBracket)
variable (hName : name.kind = .text)
variable (hEnd : closing.kind = .rightBracket)

include hOpening hName hEnd

theorem readMembers_nested_next
    (hComma : next.kind = .comma)
    (start : List Token)
    (before : List Member)
    (diagnostics : List Diagnostic)
    (rest : List Token) :
    readMembers context start [] before diagnostics
        (opening :: name :: closing :: next :: rest) =
      readMembers context rest []
        (before ++ (context.nestedMembers name).1)
        (diagnostics ++ (context.nestedMembers name).2)
        rest := by
  rw [readMembers.eq_def]
  simp [hOpening, hName, hEnd, hComma]

theorem readMembers_nested_last
    (hClosing : next.kind = .rightBracket)
    (start : List Token)
    (before : List Member)
    (diagnostics : List Diagnostic) :
    readMembers context start [] before diagnostics
        (opening :: name :: closing :: next :: rest) =
      .ok
        ⟨before ++ (context.nestedMembers name).1,
          diagnostics ++ (context.nestedMembers name).2,
          next :: rest⟩ := by
  rw [readMembers.eq_def]
  simp [hOpening, hName, hEnd, hClosing]

end Nested

theorem DerivesMember.reads_next
    (hMember : DerivesMember context tokens members)
    (hComma : next.kind = .comma)
    (start : List Token)
    (before : List Member)
    (diagnostics : List Diagnostic)
    (rest : List Token) :
    ∃ more,
      readMembers context start [] before diagnostics
          (tokens ++ next :: rest) =
        readMembers context rest [] (before ++ members)
          (diagnostics ++ more) rest := by
  cases hMember with
  | run hRun hSome =>
      refine ⟨[], ?_⟩
      rw [hRun.reads_next hSome hComma, List.append_nil]
  | @nested opening name closing hOpening hName hEnd =>
      exact
        ⟨(context.nestedMembers name).2,
          readMembers_nested_next hOpening hName hEnd hComma _ _
            _ _⟩

/- What stands before the closing bracket is read up to it. -/
theorem DerivesMember.reads_last
    (hMember : DerivesMember context tokens members)
    (hClosing : next.kind = .rightBracket)
    (start : List Token)
    (before : List Member)
    (diagnostics : List Diagnostic) :
    ∃ more,
      readMembers context start [] before diagnostics
          (tokens ++ next :: rest) =
        .ok
          ⟨before ++ members, diagnostics ++ more,
            next :: rest⟩ := by
  cases hMember with
  | run hRun hSome =>
      refine ⟨[], ?_⟩
      rw [hRun.reads_last hSome hClosing, List.append_nil]
  | @nested opening name closing hOpening hName hEnd =>
      exact
        ⟨(context.nestedMembers name).2,
          readMembers_nested_last hOpening hName hEnd hClosing _
            _ _⟩

/- Members are read after others up to the closing bracket. -/
theorem DerivesMembers.reads
    (hMembers : DerivesMembers context tokens members)
    (hClosing : next.kind = .rightBracket)
    (start : List Token)
    (before : List Member)
    (diagnostics : List Diagnostic) :
    ∃ more,
      readMembers context start [] before diagnostics
          (tokens ++ next :: rest) =
        .ok
          ⟨before ++ members, diagnostics ++ more,
            next :: rest⟩ := by
  induction hMembers generalizing start before diagnostics with
  | one hMember =>
      exact hMember.reads_last hClosing start before diagnostics
  | @more first later comma _ _ hMember hComma _ ih =>
      rcases hMember.reads_next hComma start before diagnostics
          (later ++ next :: rest) with
        ⟨reported, hFirst⟩
      rcases ih _ _ _ with ⟨more, hLater⟩
      refine ⟨reported ++ more, ?_⟩
      rw [List.append_assoc, List.cons_append, hFirst, hLater,
        List.append_assoc, List.append_assoc]

end Reads

------------------------------------------------------------
-- References
------------------------------------------------------------

theorem DerivesRun.not_closing
    {tokens : List Token}
    {member : Member}
    (hRun : DerivesRun context tokens member) :
    ∀ token ∈ tokens, token.kind ≠ .rightBracket := by
  have hStep : ∀ {before : List Token} {last : Token}
      {kind : TokenKind},
      last.kind = kind → kind ≠ .rightBracket →
      (∀ token ∈ before, token.kind ≠ .rightBracket) →
        ∀ token ∈ before ++ [last],
          token.kind ≠ .rightBracket := by
    intro before last kind hKind hOther hBefore token hMem
    rcases List.mem_append.mp hMem with hEarlier | hLast
    · exact hBefore token hEarlier
    · obtain rfl := List.mem_singleton.mp hLast
      rwa [hKind]
  induction hRun with
  | nil => nofun
  | text _ hKind _ ih => exact hStep hKind nofun ih
  | escape _ hKind ih => exact hStep hKind nofun ih
  | edge _ hKind ih => exact hStep hKind nofun ih

/-
  Members do not begin with a closing bracket, nor with a
  text and a closing bracket.
-/
theorem DerivesMembers.exists_head
    {tokens : List Token}
    {members : List Member}
    (hMembers : DerivesMembers context tokens members) :
    ∃ head more,
      tokens = head :: more ∧ head.kind ≠ .rightBracket ∧
        (head.kind = .text →
          ∀ next ∈ more.head?, next.kind ≠ .rightBracket) := by
  have hFirst : ∀ {first : List Token} {others : List Member},
      DerivesMember context first others →
        ∃ head more,
          first = head :: more ∧ head.kind ≠ .rightBracket ∧
            (head.kind = .text →
              ∀ next ∈ more.head?,
                next.kind ≠ .rightBracket) := by
    intro first others hMember
    cases hMember with
    | run hRun hSome =>
        rcases List.exists_cons_of_ne_nil hSome with
          ⟨head, more, rfl⟩
        have hKinds := hRun.not_closing
        refine ⟨head, more, rfl, hKinds _ List.mem_cons_self, ?_⟩
        intro _ next hNext
        exact hKinds next
          (List.mem_cons_of_mem _ (List.mem_of_head? hNext))
    | nested hOpening =>
        refine ⟨_, _, rfl, ?_, ?_⟩
        · rw [hOpening]
          nofun
        · rw [hOpening]
          nofun
  cases hMembers with
  | one hMember => exact hFirst hMember
  | more hMember hComma _ =>
      rcases hFirst hMember with
        ⟨head, more, rfl, hHead, hNext⟩
      refine ⟨head, _, rfl, hHead, ?_⟩
      intro hText next hMem
      cases more with
      | nil =>
          cases hMem
          rw [hComma]
          nofun
      | cons other rest =>
          exact hNext hText next hMem

theorem loneName?_eq_some_iff
    {tokens rest : List Token}
    {name : Token} :
    loneName? tokens = some (name, rest) ↔
      ∃ closing : Token,
        tokens = name :: closing :: rest ∧
          name.kind = .text ∧ closing.kind = .rightBracket ∧
          isName name.text.toList = true := by
  unfold loneName?
  split
  · split
    · rename_i hLone
      constructor
      · rintro ⟨⟩
        exact ⟨_, rfl, hLone⟩
      · rintro ⟨_, ⟨⟩, _⟩
        rfl
    · rename_i hOther
      refine iff_of_false nofun ?_
      rintro ⟨_, ⟨⟩, hLone⟩
      exact hOther hLone
  · rename_i hShort
    refine iff_of_false nofun ?_
    rintro ⟨closing, rfl, _⟩
    exact hShort _ _ _ rfl

/- Members are not taken for a lone name. -/
theorem DerivesMembers.loneName?_eq_none
    {tokens rest : List Token}
    {closing : Token}
    {members : List Member}
    (hMembers : DerivesMembers context tokens members)
    (hNotLone : ¬IsLoneName tokens) :
    loneName? (tokens ++ closing :: rest) = none := by
  rcases hMembers.exists_head with
    ⟨head, more, rfl, _, hNext⟩
  rw [Option.eq_none_iff_forall_ne_some]
  rintro ⟨name, after⟩ hLone
  rcases loneName?_eq_some_iff.mp hLone with
    ⟨last, hTokens, hText, hLast, hName⟩
  rw [List.cons_append] at hTokens
  rcases List.cons.inj hTokens with ⟨rfl, hMore⟩
  cases more with
  | nil => exact hNotLone ⟨head, rfl, hText, hName⟩
  | cons next rest =>
      have hSame : next = last := (List.cons.inj hMore).1
      exact hNext hText next rfl (hSame ▸ hLast)

theorem readReference_sound
    {opening : Token}
    {tokens : List Token}
    {result : Parsed CategoryRef}
    (hOpening : opening.kind = .leftBracket)
    (hTexts : TextsNonempty tokens)
    (hRead : readReference context tokens = .ok result) :
    ∃ used,
      tokens = used ++ result.rest ∧
        DerivesBracket context (opening :: used)
          result.value := by
  unfold readReference at hRead
  split at hRead
  · rename_i name rest hLone
    cases hRead
    rcases loneName?_eq_some_iff.mp hLone with
      ⟨closing, rfl, hText, hClosing, hName⟩
    exact
      ⟨[name, closing], rfl,
        .named hOpening hText hName hClosing⟩
  rename_i hNotLone
  split at hRead
  · cases hRead
  rename_i hMembers
  split at hRead
  · cases hRead
  rename_i rest hEnd
  cases hRead
  rcases readMembers_sound (.first .nil) hTexts hMembers with
    ⟨used, rfl, hDerives⟩
  rcases expectToken_eq_ok_iff.mp hEnd with
    ⟨closing, hClosing, hRest⟩
  rw [hRest] at hNotLone ⊢
  refine ⟨used ++ [closing], by simp, ?_⟩
  refine .listed hOpening hDerives ?_ hClosing
  -- a lone name would have been read as such
  rintro ⟨name, hUsed, hText, hName⟩
  have hLone :
      loneName? (name :: closing :: rest) =
        some (name, rest) :=
    loneName?_eq_some_iff.mpr
      ⟨closing, rfl, hText, hClosing, hName⟩
  have hUsed : used = [name] := hUsed
  rw [hUsed, List.singleton_append, hLone] at hNotLone
  cases hNotLone

/- A reference is read up to its closing bracket. -/
theorem DerivesBracket.reads
    {tokens : List Token}
    {ref : CategoryRef}
    (hBracket : DerivesBracket context tokens ref) :
    ∃ opening head more,
      tokens = opening :: head :: more ∧
        opening.kind = .leftBracket ∧
        head.kind ≠ .rightBracket ∧
        ∀ rest, ∃ reported,
          readReference context (head :: (more ++ rest)) =
            .ok ⟨ref, reported, rest⟩ := by
  cases hBracket with
  | @named opening name closing hOpening hKind hName hClosing =>
      refine
        ⟨opening, name, [closing], rfl, hOpening, ?_,
          fun rest => ⟨(context.named name).2, ?_⟩⟩
      · rw [hKind]
        nofun
      · have hLone :
            loneName? (name :: closing :: rest) =
              some (name, rest) :=
          loneName?_eq_some_iff.mpr
            ⟨closing, rfl, hKind, hClosing, hName⟩
        rw [readReference, List.singleton_append, hLone]
  | @listed opening closing inside members hOpening hMembers
      hNotLone hClosing =>
      rcases hMembers.exists_head with
        ⟨head, more, rfl, hHead, _⟩
      refine
        ⟨opening, head, more ++ [closing], rfl, hOpening, hHead,
          fun rest => ?_⟩
      rcases hMembers.reads hClosing
          (head :: more ++ closing :: rest) [] [] with
        ⟨reported, hRead⟩
      refine ⟨[] ++ reported, ?_⟩
      rw [List.append_assoc, List.singleton_append,
        ← List.cons_append, readReference,
        hMembers.loneName?_eq_none hNotLone, hRead]
      dsimp only
      rw [expectToken, skipToken?_cons hClosing]
      rfl

theorem readReference_faults
    {tokens all : List Token}
    {e : ReadError}
    (hTokens : tokens ⊆ all)
    (hTexts : TextsNonempty tokens)
    (hRead : readReference context tokens = .error e) :
    context.Faults all e := by
  unfold readReference at hRead
  split at hRead
  · cases hRead
  split at hRead
  · rename_i hMembers
    cases hRead
    exact readMembers_faults hTokens hTokens hMembers
  rename_i members hMembers
  rcases readMembers_sound (.first .nil) hTexts hMembers with
    ⟨used, hUsed, _⟩
  have hRest : members.rest ⊆ tokens := by
    rw [hUsed]
    exact List.subset_append_right _ _
  split at hRead
  · rename_i hEnd
    cases hRead
    exact
      .of_expectToken (List.Subset.trans hRest hTokens)
        ⟨rfl, rfl⟩ hEnd
  · cases hRead

------------------------------------------------------------
-- Tags
------------------------------------------------------------

theorem readTag_sound
    {ref tagged : CategoryRef}
    {tokens rest : List Token}
    (hRead : readTag context ref tokens = .ok (tagged, rest)) :
    ∃ used,
      tokens = used ++ rest ∧
        DerivesTag context ref used tagged := by
  unfold readTag at hRead
  split at hRead
  · cases hRead
    exact ⟨[], rfl, .untagged⟩
  · cases hRead
  rename_i hSkip
  split at hRead
  · rename_i number _ hDigits
    split at hRead
    · cases hRead
    rename_i hNumber
    cases hRead
    rcases skipToken?_eq_some_iff.mp hSkip with
      ⟨caret, hCaret, rfl⟩
    have hSpells :=
      (context.number_eq_ok_iff hDigits.1).mp hNumber
    exact ⟨[caret, number], rfl, .tagged hCaret hSpells⟩
  · cases hRead

theorem DerivesTag.reads
    {ref tagged : CategoryRef}
    {tag rest : List Token}
    (hTag : DerivesTag context ref tag tagged)
    (hRest : ∀ token ∈ rest.head?, token.kind ≠ .caret) :
    readTag context ref (tag ++ rest) = .ok (tagged, rest) := by
  cases hTag with
  | untagged =>
      rw [List.nil_append, readTag, skipToken?_eq_none hRest]
  | tagged hCaret hNumber =>
      have hValue :=
        (context.number_eq_ok_iff hNumber.kind_eq).mpr hNumber
      rw [List.cons_append, readTag, skipToken?_cons hCaret,
        List.singleton_append]
      simp only [hNumber.kind_eq, hNumber.isDigits, and_self,
        if_true, hValue]

/- A tag is refused if its number is missing or unreadable. -/
theorem readTag_faults
    {ref : CategoryRef}
    {tokens all : List Token}
    {e : ReadError}
    (hTokens : tokens <:+: all)
    (hRead : readTag context ref tokens = .error e) :
    context.Faults all e := by
  unfold readTag at hRead
  split at hRead
  · cases hRead
  · exact .of_failAt (List.nil_subset all) ⟨rfl, rfl⟩ hRead
  rename_i number rest hSkip
  rcases skipToken?_eq_some_iff.mp hSkip with
    ⟨caret, hCaret, rfl⟩
  split at hRead
  · rename_i hDigits
    split at hRead
    · rename_i hNumber
      cases hRead
      exact .of_number hTokens (Or.inr hCaret) hDigits hNumber
    · cases hRead
  · have hMem : number ∈ all := hTokens.subset (by simp)
    exact .of_failOn hMem ⟨rfl, rfl⟩ hRead

------------------------------------------------------------
-- Categories
------------------------------------------------------------

/- What is read after an opening bracket is an atom with it. -/
theorem readCategory_sound
    {opening : Token}
    {tokens : List Token}
    {result : Parsed Element}
    (hOpening : opening.kind = .leftBracket)
    (hTexts : TextsNonempty tokens)
    (hRead : readCategory context tokens = .ok result) :
    ∃ used,
      tokens = used ++ result.rest ∧
        Derives context .atom (opening :: used)
          [result.value] := by
  unfold readCategory at hRead
  split at hRead
  · rename_i hSkip
    cases hRead
    rcases skipToken?_eq_some_iff.mp hSkip with
      ⟨closing, hClosing, rfl⟩
    exact ⟨[closing], rfl, .nothing hOpening hClosing⟩
  split at hRead
  · cases hRead
  rename_i hReference
  split at hRead
  · cases hRead
  rename_i hTag
  cases hRead
  rcases readReference_sound hOpening hTexts hReference with
    ⟨bracket, rfl, hBracket⟩
  rcases readTag_sound hTag with ⟨tag, hRest, hTag⟩
  refine ⟨bracket ++ tag, ?_, .category hBracket hTag⟩
  rw [hRest, List.append_assoc]

/- A reference and its tag are read as a category. -/
theorem DerivesBracket.reads_category
    {bracket tag rest : List Token}
    {ref tagged : CategoryRef}
    (hBracket : DerivesBracket context bracket ref)
    (hTag : DerivesTag context ref tag tagged)
    (hRest : ∀ token ∈ rest.head?, token.kind ≠ .caret) :
    ∃ opening inside,
      bracket = opening :: inside ∧
        opening.kind = .leftBracket ∧
        ∃ reported,
          readCategory context (inside ++ (tag ++ rest)) =
            .ok ⟨.category tagged, reported, rest⟩ := by
  rcases hBracket.reads with
    ⟨opening, head, more, rfl, hOpening, hHead, hReads⟩
  rcases hReads (tag ++ rest) with ⟨reported, hRead⟩
  refine
    ⟨opening, head :: more, rfl, hOpening, reported, ?_⟩
  rw [List.cons_append, readCategory, skipToken?, if_neg hHead,
    hRead]
  dsimp only
  rw [hTag.reads hRest]

theorem readCategory_faults
    {opening : Token}
    {tokens all : List Token}
    {e : ReadError}
    (hOpening : opening.kind = .leftBracket)
    (hTokens : tokens <:+: all)
    (hTexts : TextsNonempty tokens)
    (hRead : readCategory context tokens = .error e) :
    context.Faults all e := by
  unfold readCategory at hRead
  split at hRead
  · cases hRead
  split at hRead
  · rename_i hReference
    cases hRead
    exact
      readReference_faults hTokens.subset hTexts hReference
  rename_i hReference
  split at hRead
  · rename_i hTag
    cases hRead
    rcases readReference_sound hOpening hTexts hReference with
      ⟨bracket, hUsed, _⟩
    rw [hUsed] at hTokens
    have hRest :=
      (List.suffix_append bracket _).isInfix.trans hTokens
    exact readTag_faults hRest hTag
  · cases hRead

end Diachrony
