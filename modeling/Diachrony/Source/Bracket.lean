import Diachrony.Source.Reader
import Diachrony.Unicode.NameCharacter

/-
  What stands in brackets.

  Empty brackets stand for nothing. A name by itself refers
  to a category of that name. Everything else lists the
  members of a category that is written in line: texts,
  word edges and the members of named categories, with
  commas between them. A tag may follow the brackets.

  Key definitions include:
    * `readMembers`
    * `loneName?`
    * `readReference`
    * `readTag`
    * `readCategory`
-/

namespace Diachrony

open Unicode

------------------------------------------------------------
-- Members
------------------------------------------------------------

/- The members of a named category, and what is reported. -/
def ReadContext.nestedMembers
    (context : ReadContext)
    (name : Token) : List Member × List Diagnostic :=
  match context.table.resolve? name.text with
  | some category => (category.members, [])
  | none =>
      ([],
        [context.diagnostic name (.undefinedCategory name.text)])

/-
  Read the members of a category up to the closing bracket,
  which is left. `start` is where the present member begins,
  `member` what has been read of it, and `members` those
  before it.
-/
def readMembers
    (context : ReadContext)
    (start : List Token)
    (member : Member)
    (members : List Member)
    (diagnostics : List Diagnostic) :
    List Token → Except ReadError (Parsed (List Member))
  | [] =>
      if member.isEmpty then
        context.failAt start .emptyMember
      else
        .ok ⟨members ++ [member], diagnostics, []⟩
  | token :: rest =>
      match token.kind with
      | .text =>
          readMembers context start
            (member ++
              Member.ofSymbols (context.symbols token.text))
            members diagnostics rest
      | .escape =>
          readMembers context start
            (member ++ [.symbol token.text]) members
            diagnostics rest
      | .hash =>
          readMembers context start (member ++ [.edge]) members
            diagnostics rest
      | .comma =>
          if member.isEmpty then
            context.failAt start .emptyMember
          else
            readMembers context rest [] (members ++ [member])
              diagnostics rest
      | .rightBracket =>
          if member.isEmpty then
            context.failAt start .emptyMember
          else
            .ok ⟨members ++ [member], diagnostics, token :: rest⟩
      | .leftBracket =>
          match rest with
          | [] => context.failAt [] .expectedCategoryName
          | name :: afterName =>
              if name.kind ≠ .text then
                context.failOn name .expectedCategoryName
              else
                match afterName with
                | [] => context.failAt [] .expectedCategoryEnd
                | closing :: after =>
                    if closing.kind ≠ .rightBracket then
                      context.failOn closing .expectedCategoryEnd
                    else if !member.isEmpty then
                      context.failOn name .nestedNotAlone
                    else
                      let nested := context.nestedMembers name
                      match after with
                      | [] =>
                          .ok
                            ⟨members ++ nested.1,
                              diagnostics ++ nested.2, []⟩
                      | next :: more =>
                          if next.kind = .comma then
                            readMembers context more []
                              (members ++ nested.1)
                              (diagnostics ++ nested.2) more
                          else
                            .ok
                              ⟨members ++ nested.1,
                                diagnostics ++ nested.2,
                                next :: more⟩
      | _ =>
          context.failOn token (.unexpectedInCategory token.text)

------------------------------------------------------------
-- References
------------------------------------------------------------

/- A reference to a named category, and what is reported. -/
def ReadContext.named
    (context : ReadContext)
    (name : Token) : CategoryRef × List Diagnostic :=
  match context.table.resolve? name.text with
  | some category =>
      ({ category := some category, name := name.text }, [])
  | none =>
      ({ category := none, name := name.text },
        [context.diagnostic name (.undefinedCategory name.text)])

/-
  The name of a reference that consists of nothing else, and
  what follows its closing bracket.
-/
def loneName? :
    List Token → Option (Token × List Token)
  | name :: closing :: rest =>
      if name.kind = .text ∧ closing.kind = .rightBracket ∧
          isName name.text.toList then
        some (name, rest)
      else
        none
  | _ => none

/- Read what stands between the brackets of a reference. -/
def readReference
    (context : ReadContext)
    (tokens : List Token) :
    Except ReadError (Parsed CategoryRef) :=
  match loneName? tokens with
  | some (name, rest) =>
      let ref := context.named name
      .ok ⟨ref.1, ref.2, rest⟩
  | none =>
      match readMembers context tokens [] [] [] tokens with
      | .error e => .error e
      | .ok members =>
          match
            expectToken context .rightBracket
              .expectedCategoryEnd members.rest
          with
          | .error e => .error e
          | .ok rest =>
              .ok
                ⟨{ category :=
                    some { name := "", members := members.value } },
                  members.diagnostics, rest⟩

/- The slot that a tag with a given number names. -/
def tagSlot
    (n : Nat) : String :=
  "^" ++ toString n

/- Read the tag of a reference, if it has one. -/
def readTag
    (context : ReadContext)
    (ref : CategoryRef)
    (tokens : List Token) :
    Except ReadError (CategoryRef × List Token) :=
  match skipToken? .caret tokens with
  | none => .ok (ref, tokens)
  | some [] => context.failAt [] .expectedTagNumber
  | some (tag :: rest) =>
      if tag.kind = .text ∧ isDigits tag.text then
        match context.number tag with
        | .error e => .error e
        | .ok n =>
            .ok
              ({ ref with
                slot := some (tagSlot n), explicit := true },
              rest)
      else
        context.failOn tag .expectedTagNumber

/-
  Read what an opening bracket begins: nothing at all, or a
  reference to a category. The tokens are those after the
  bracket.
-/
def readCategory
    (context : ReadContext)
    (tokens : List Token) :
    Except ReadError (Parsed Element) :=
  match skipToken? .rightBracket tokens with
  | some rest => .ok ⟨.null, [], rest⟩
  | none =>
      match readReference context tokens with
      | .error e => .error e
      | .ok ref =>
          match readTag context ref.value ref.rest with
          | .error e => .error e
          | .ok (tagged, rest) =>
              .ok ⟨.category tagged, ref.diagnostics, rest⟩

------------------------------------------------------------
-- What readers leave over
------------------------------------------------------------

/- Reading members leaves no more tokens. -/
theorem readMembers_length
    {context : ReadContext}
    {start : List Token}
    {member : Member}
    {members : List Member}
    {diagnostics : List Diagnostic}
    {tokens : List Token}
    {result : Parsed (List Member)}
    (h :
      readMembers context start member members diagnostics
        tokens = .ok result) :
    result.rest.length ≤ tokens.length := by
  fun_induction readMembers context start member members
      diagnostics tokens <;>
    simp_all [ReadContext.failAt, ReadContext.failOn] <;>
    grind

/- A lone name leaves fewer tokens. -/
theorem loneName?_length
    {tokens rest : List Token}
    {name : Token}
    (h : loneName? tokens = some (name, rest)) :
    rest.length < tokens.length := by
  unfold loneName? at h
  split at h
  · split at h
    · simp only [Option.some.injEq, Prod.mk.injEq] at h
      rw [← h.2]
      simp only [List.length_cons]
      omega
    · simp at h
  · simp at h

/- Reading a reference leaves fewer tokens. -/
theorem readReference_length
    {context : ReadContext}
    {tokens : List Token}
    {result : Parsed CategoryRef}
    (h : readReference context tokens = .ok result) :
    result.rest.length < tokens.length := by
  unfold readReference at h
  split at h
  · next hName =>
      have hResult := Except.ok.inj h
      subst hResult
      exact loneName?_length hName
  · split at h
    · simp at h
    · next hMembers =>
        have hFirst := readMembers_length hMembers
        split at h
        · simp at h
        · next hEnd =>
            have hResult := Except.ok.inj h
            subst hResult
            exact Nat.lt_of_lt_of_le
              (expectToken_length hEnd) hFirst

/- Reading a tag leaves no more tokens. -/
theorem readTag_length
    {context : ReadContext}
    {ref : CategoryRef}
    {tokens : List Token}
    {result : CategoryRef × List Token}
    (h : readTag context ref tokens = .ok result) :
    result.2.length ≤ tokens.length := by
  unfold readTag at h
  split at h
  · have hResult := Except.ok.inj h
    subst hResult
    exact Nat.le_refl _
  · simp [ReadContext.failAt] at h
  · next hSkip =>
      have hFirst := skipToken?_length hSkip
      split at h
      · split at h
        · simp at h
        · have hResult := Except.ok.inj h
          subst hResult
          simp at hFirst ⊢
          omega
      · simp [ReadContext.failOn] at h

/- Reading a category leaves fewer tokens. -/
theorem readCategory_length
    {context : ReadContext}
    {tokens : List Token}
    {result : Parsed Element}
    (h : readCategory context tokens = .ok result) :
    result.rest.length < tokens.length := by
  unfold readCategory at h
  split at h
  · next hSkip =>
      have hResult := Except.ok.inj h
      subst hResult
      exact skipToken?_length hSkip
  · split at h
    · simp at h
    · next hRef =>
        have hFirst := readReference_length hRef
        split at h
        · simp at h
        · next hTag =>
            have hLast := readTag_length hTag
            have hResult := Except.ok.inj h
            subst hResult
            exact Nat.lt_of_le_of_lt hLast hFirst

end Diachrony
