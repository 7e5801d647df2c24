import Diachrony.Source.RuleBody

/-
  The grammar of patterns.

  A pattern is a sequence of units, and a unit is an atom
  with any number of quantifiers. Atoms are texts, signs,
  wildcards, groups of units in parentheses, and categories
  in brackets. Each derivation says what elements its tokens
  stand for: a quantifier repeats the last of the elements
  before it, and a name by itself in brackets refers to the
  category of that name.

  A pattern is read up to the first token of a certain kind
  that is outside all brackets and parentheses. No phrase of
  the grammar contains such a token.

  Key definitions include:
    * `DerivesBracket`
    * `DerivesQuantifier`
    * `Derives`
    * `beforeStop`
    * `fromStop`

  Key theorems include:
    * `Derives.concat`
    * `Derives.quantifyLast`
    * `Derives.beforeStop_eq`
    * `fromStop_stops`
-/

namespace Diachrony

open Unicode

------------------------------------------------------------
-- Numbers
------------------------------------------------------------

/- A token of decimal digits, no more of them than may be. -/
structure ReadContext.Spells
    (context : ReadContext)
    (token : Token)
    (n : Nat) : Prop where
  kind_eq : token.kind = .text
  admitted :
    context.digitLimit.admits token.text.toList.length = true
  number_eq : number? token.text.toList = some n

------------------------------------------------------------
-- Categories
------------------------------------------------------------

/- A run of texts, escapes and word edges. -/
inductive DerivesRun
    (context : ReadContext) :
    List Token → Member → Prop
  | nil :
      DerivesRun context [] []
  | text
      {tokens : List Token}
      {member : Member}
      {token : Token}
      (hRun : DerivesRun context tokens member)
      (hKind : token.kind = .text)
      (hText : token.text ≠ "") :
      DerivesRun context (tokens ++ [token])
        (member ++
          Member.ofSymbols (context.symbols token.text))
  | escape
      {tokens : List Token}
      {member : Member}
      {token : Token}
      (hRun : DerivesRun context tokens member)
      (hKind : token.kind = .escape) :
      DerivesRun context (tokens ++ [token])
        (member ++ [.symbol token.text])
  | edge
      {tokens : List Token}
      {member : Member}
      {token : Token}
      (hRun : DerivesRun context tokens member)
      (hKind : token.kind = .hash) :
      DerivesRun context (tokens ++ [token])
        (member ++ [.edge])

/-
  What stands between commas: a run, which is one member, or
  a name in brackets, which lends the members of its
  category.
-/
inductive DerivesMember
    (context : ReadContext) :
    List Token → List Member → Prop
  | run
      {tokens : List Token}
      {member : Member}
      (hRun : DerivesRun context tokens member)
      (hSome : tokens ≠ []) :
      DerivesMember context tokens [member]
  | nested
      {opening name closing : Token}
      (hOpening : opening.kind = .leftBracket)
      (hName : name.kind = .text)
      (hClosing : closing.kind = .rightBracket) :
      DerivesMember context [opening, name, closing]
        (context.nestedMembers name).1

/- One or more of those with commas between them. -/
inductive DerivesMembers
    (context : ReadContext) :
    List Token → List Member → Prop
  | one
      {tokens : List Token}
      {members : List Member}
      (hMember : DerivesMember context tokens members) :
      DerivesMembers context tokens members
  | more
      {first later : List Token}
      {comma : Token}
      {members others : List Member}
      (hMember : DerivesMember context first members)
      (hComma : comma.kind = .comma)
      (hLater : DerivesMembers context later others) :
      DerivesMembers context (first ++ comma :: later)
        (members ++ others)

/- A name and nothing else. -/
def IsLoneName
    (tokens : List Token) : Prop :=
  ∃ name : Token,
    tokens = [name] ∧ name.kind = .text ∧
      isName name.text.toList = true

/- A reference: a name in brackets, or members in brackets. -/
inductive DerivesBracket
    (context : ReadContext) :
    List Token → CategoryRef → Prop
  | named
      {opening name closing : Token}
      (hOpening : opening.kind = .leftBracket)
      (hKind : name.kind = .text)
      (hName : isName name.text.toList = true)
      (hClosing : closing.kind = .rightBracket) :
      DerivesBracket context [opening, name, closing]
        (context.named name).1
  | listed
      {opening closing : Token}
      {tokens : List Token}
      {members : List Member}
      (hOpening : opening.kind = .leftBracket)
      (hMembers : DerivesMembers context tokens members)
      (hNotLone : ¬IsLoneName tokens)
      (hClosing : closing.kind = .rightBracket) :
      DerivesBracket context
        (opening :: (tokens ++ [closing]))
        { category := some { name := "", members := members } }

/- A reference with the tag after it, if there is one. -/
inductive DerivesTag
    (context : ReadContext)
    (ref : CategoryRef) :
    List Token → CategoryRef → Prop
  | untagged :
      DerivesTag context ref [] ref
  | tagged
      {caret number : Token}
      {n : Nat}
      (hCaret : caret.kind = .caret)
      (hNumber : context.Spells number n) :
      DerivesTag context ref [caret, number]
        { ref with slot := some (tagSlot n), explicit := true }

------------------------------------------------------------
-- Quantifiers
------------------------------------------------------------

/- A mark of laziness, which may be missing. -/
inductive DerivesMark : List Token → Bool → Prop
  | missing :
      DerivesMark [] false
  | lazy
      {mark : Token}
      (hMark : mark.kind = .question) :
      DerivesMark [mark] true

/- How often an element is to be repeated. -/
inductive DerivesBounds
    (context : ReadContext) :
    Token → Int → Option Int → Prop
  | number
      {token : Token}
      {n : Nat}
      (hNumber : context.Spells token n)
      (hPositive : 1 ≤ n) :
      DerivesBounds context token n (some n)
  | star
      {token : Token}
      (hKind : token.kind = .star) :
      DerivesBounds context token 0 none
  | doubleStar
      {token : Token}
      (hKind : token.kind = .doubleStar) :
      DerivesBounds context token 0 none
  | plus
      {token : Token}
      (hKind : token.kind = .plus) :
      DerivesBounds context token 1 none

/- Bounds in braces, and what they make of an element. -/
inductive DerivesQuantifier
    (context : ReadContext) :
    List Token → (Element → Element) → Prop
  | braces
      {opening bounds closing : Token}
      {mark : List Token}
      {min : Int}
      {max : Option Int}
      {isLazy : Bool}
      (hOpening : opening.kind = .leftBrace)
      (hBounds : DerivesBounds context bounds min max)
      (hMark : DerivesMark mark isLazy)
      (hClosing : closing.kind = .rightBrace) :
      DerivesQuantifier context
        (opening :: bounds :: (mark ++ [closing]))
        (fun element => .repeated element min max isLazy)

------------------------------------------------------------
-- Patterns
------------------------------------------------------------

/- Tokens that are elements by themselves. -/
inductive DerivesSign : TokenKind → Element → Prop
  | edge : DerivesSign .hash .edge
  | target : DerivesSign .percent (.target false)
  | reversed : DerivesSign .less (.target true)
  | ditto : DerivesSign .ditto .ditto

/- The phrases that patterns are made of. -/
inductive Phrase where
  | units
  | unit
  | atom
  deriving Repr, DecidableEq

/- Which tokens a phrase consists of, and what they stand for. -/
inductive Derives
    (context : ReadContext) :
    Phrase → List Token → Pattern → Prop
  -- any number of units
  | none :
      Derives context .units [] []
  | more
      {first later : List Token}
      {elements others : Pattern}
      (hUnit : Derives context .unit first elements)
      (hLater : Derives context .units later others) :
      Derives context .units (first ++ later)
        (elements ++ others)
  -- an atom with any number of quantifiers
  | plain
      {tokens : List Token}
      {elements : Pattern}
      (hAtom : Derives context .atom tokens elements) :
      Derives context .unit tokens elements
  | quantified
      {tokens quantifier : List Token}
      {elements : Pattern}
      {last : Element}
      {wrap : Element → Element}
      (hUnit : Derives context .unit tokens elements)
      (hLast : elements.getLast? = some last)
      (hQuantifier :
        DerivesQuantifier context quantifier wrap) :
      Derives context .unit (tokens ++ quantifier)
        (elements.replaceLast (wrap last))
  -- atoms
  | text
      {token : Token}
      (hKind : token.kind = .text)
      (hText : token.text ≠ "") :
      Derives context .atom [token]
        (context.literals token.text)
  | escape
      {token : Token}
      (hKind : token.kind = .escape) :
      Derives context .atom [token] [.literal token.text]
  | sign
      {token : Token}
      {element : Element}
      (hSign : DerivesSign token.kind element) :
      Derives context .atom [token] [element]
  | wildcard
      {star : Token}
      {mark : List Token}
      {isLazy : Bool}
      (hStar : star.kind = .star)
      (hMark : DerivesMark mark isLazy) :
      Derives context .atom (star :: mark) [.wildcard]
  | gap
      {star : Token}
      {mark : List Token}
      {isLazy : Bool}
      (hStar : star.kind = .doubleStar)
      (hMark : DerivesMark mark isLazy) :
      Derives context .atom (star :: mark) [.gap isLazy]
  | group
      {opening closing : Token}
      {tokens mark : List Token}
      {elements : Pattern}
      {isLazy : Bool}
      (hOpening : opening.kind = .leftParen)
      (hUnits : Derives context .units tokens elements)
      (hSome : tokens ≠ [])
      (hClosing : closing.kind = .rightParen)
      (hMark : DerivesMark mark isLazy) :
      Derives context .atom
        (opening :: (tokens ++ closing :: mark))
        [.optional elements isLazy]
  | nothing
      {opening closing : Token}
      (hOpening : opening.kind = .leftBracket)
      (hClosing : closing.kind = .rightBracket) :
      Derives context .atom [opening, closing] [.null]
  | category
      {bracket tag : List Token}
      {ref tagged : CategoryRef}
      (hBracket : DerivesBracket context bracket ref)
      (hTag : DerivesTag context ref tag tagged) :
      Derives context .atom (bracket ++ tag)
        [.category tagged]

variable {context : ReadContext}

------------------------------------------------------------
-- What phrases stand for
------------------------------------------------------------

/- A text that is not empty has symbols. -/
theorem segment_ne_nil
    {graphs : List String}
    {text : String}
    (hText : text ≠ "") :
    segment graphs none text ≠ [] := by
  intro hNone
  have hPieces :
      Segmentation.pieces (graphs.map String.toList) []
        text.toList = [] :=
    List.map_eq_nil_iff.mp hNone
  cases hChars : text.toList with
  | nil => exact hText (String.toList_eq_nil_iff.mp hChars)
  | cons c rest =>
      rw [hChars, Segmentation.pieces] at hPieces
      simp only [Segmentation.startsWithSeparator,
        List.isEmpty_nil, Bool.not_true, Bool.false_and,
        Bool.false_eq_true, if_false] at hPieces
      split at hPieces <;> cases hPieces

theorem ReadContext.symbols_ne_nil
    {text : String}
    (hText : text ≠ "") :
    context.symbols text ≠ [] :=
  segment_ne_nil hText

/- A run stands for something if it has any tokens. -/
theorem DerivesRun.eq_nil_iff
    {tokens : List Token}
    {member : Member}
    (hRun : DerivesRun context tokens member) :
    member = [] ↔ tokens = [] := by
  cases hRun with
  | nil => exact iff_of_true rfl rfl
  | text hRun hKind hText =>
      refine iff_of_false ?_ (by simp)
      intro hNone
      have hSymbols := (List.append_eq_nil_iff.mp hNone).2
      exact ReadContext.symbols_ne_nil hText
        (List.map_eq_nil_iff.mp hSymbols)
  | escape hRun hKind => exact iff_of_false (by simp) (by simp)
  | edge hRun hKind => exact iff_of_false (by simp) (by simp)

/- The last element of two patterns in turn is replaced. -/
theorem Pattern.replaceLast_append
    {before elements : Pattern}
    {element : Element}
    (hSome : elements ≠ []) :
    Pattern.replaceLast (before ++ elements) element =
      before ++ elements.replaceLast element := by
  rw [Pattern.replaceLast, Pattern.replaceLast,
    List.dropLast_append_of_ne_nil hSome, List.append_assoc]

namespace Derives

variable {phrase : Phrase}
variable {tokens later quantifier : List Token}
variable {elements others : Pattern}
variable {last : Element}
variable {wrap : Element → Element}

/- A unit and an atom stand for something. -/
theorem elements_ne_nil
    (hDerives : Derives context phrase tokens elements)
    (hPhrase : phrase ≠ .units) :
    elements ≠ [] := by
  induction hDerives with
  | none => exact absurd rfl hPhrase
  | more => exact absurd rfl hPhrase
  | plain hAtom ih => exact ih Phrase.noConfusion
  | quantified => simp [Pattern.replaceLast]
  | text hKind hText =>
      intro hNone
      exact ReadContext.symbols_ne_nil hText
        (List.map_eq_nil_iff.mp hNone)
  | escape | sign | wildcard | gap | group | nothing
  | category =>
      exact List.cons_ne_nil _ _

/- A unit and an atom have tokens. -/
theorem tokens_ne_nil
    (hDerives : Derives context phrase tokens elements)
    (hPhrase : phrase ≠ .units) :
    tokens ≠ [] := by
  induction hDerives with
  | none => exact absurd rfl hPhrase
  | more => exact absurd rfl hPhrase
  | plain hAtom ih => exact ih Phrase.noConfusion
  | quantified hUnit hLast hQuantifier ih =>
      intro hNone
      exact ih Phrase.noConfusion
        (List.append_eq_nil_iff.mp hNone).1
  | category hBracket hTag =>
      cases hBracket <;> simp
  | text | escape | sign | wildcard | gap | group | nothing =>
      exact List.cons_ne_nil _ _

/- Units stand for something if they have any tokens. -/
theorem eq_nil_iff
    (hUnits : Derives context .units tokens elements) :
    elements = [] ↔ tokens = [] := by
  cases hUnits with
  | none => exact iff_of_true rfl rfl
  | more hUnit hLater =>
      apply iff_of_false
      · intro hNone
        exact hUnit.elements_ne_nil Phrase.noConfusion
          (List.append_eq_nil_iff.mp hNone).1
      · intro hNone
        exact hUnit.tokens_ne_nil Phrase.noConfusion
          (List.append_eq_nil_iff.mp hNone).1

------------------------------------------------------------
-- One more unit or quantifier
------------------------------------------------------------

theorem of_unit
    (hUnit : Derives context .unit tokens elements) :
    Derives context .units tokens elements := by
  have hUnits := Derives.more hUnit .none
  rwa [List.append_nil, List.append_nil] at hUnits

/- Units and one more unit are units. -/
theorem concat
    (hUnits : Derives context .units tokens elements)
    (hUnit : Derives context .unit later others) :
    Derives context .units (tokens ++ later)
      (elements ++ others) := by
  generalize hPhrase : Phrase.units = phrase at hUnits
  induction hUnits with
  | none => exact hUnit.of_unit
  | more hFirst _ _ ih =>
      rw [List.append_assoc, List.append_assoc]
      exact .more hFirst (ih rfl)
  | _ => cases hPhrase

/- A quantifier after units is a quantifier of the last one. -/
theorem quantifyLast
    (hUnits : Derives context .units tokens elements)
    (hLast : elements.getLast? = some last)
    (hQuantifier :
      DerivesQuantifier context quantifier wrap) :
    Derives context .units (tokens ++ quantifier)
      (elements.replaceLast (wrap last)) := by
  generalize hPhrase : Phrase.units = phrase at hUnits
  induction hUnits with
  | none => cases hLast
  | @more first later elements others hUnit hLater _ ih =>
      by_cases hNone : others = []
      · rw [hNone, List.append_nil] at hLast
        rw [hNone, hLater.eq_nil_iff.mp hNone,
          List.append_nil, List.append_nil]
        exact (hUnit.quantified hLast hQuantifier).of_unit
      · have hEnd : others.getLast? = some last := by
          rw [List.getLast?_append,
            List.getLast?_eq_some_getLast hNone,
            Option.some_or] at hLast
          rw [List.getLast?_eq_some_getLast hNone, hLast]
        rw [List.append_assoc, Pattern.replaceLast_append hNone]
        exact .more hUnit (ih hEnd rfl)
  | _ => cases hPhrase

end Derives

------------------------------------------------------------
-- Stops
------------------------------------------------------------

/- The kinds of tokens that can stand between patterns. -/
def TokenKind.separates : TokenKind → Bool
  | .underscore => true
  | .comma => true
  | .ampersand => true
  | .atSign => true
  | .greater => true
  | .slash => true
  | .bang => true
  | .rightParen => true
  | _ => false

/-
  The stops that patterns are read up to: of targets and
  replacements, of environments, and of groups.
-/
def patternStops : List (List TokenKind) :=
  [clauseStops, environmentStops, [.rightParen]]

theorem separates_of_mem_patternStops
    {stops : List TokenKind}
    (hStops : stops ∈ patternStops) :
    ∀ kind ∈ stops, kind.separates = true := by
  revert stops
  decide

/- How many brackets and parentheses are open after a token. -/
def openAfter
    (depth : Nat) : TokenKind → Nat
  | .leftBracket => depth + 1
  | .leftParen => depth + 1
  | .rightBracket => depth - 1
  | .rightParen => depth - 1
  | _ => depth

/-
  The tokens before the first stop that is outside brackets
  and parentheses, if so many of those are open before.
-/
def beforeStop
    (stops : List TokenKind)
    (depth : Nat) : List Token → List Token
  | [] => []
  | token :: rest =>
      if depth = 0 ∧ token.kind ∈ stops then
        []
      else
        token ::
          beforeStop stops (openAfter depth token.kind) rest

/- That stop and what follows it. -/
def fromStop
    (stops : List TokenKind)
    (depth : Nat)
    (tokens : List Token) : List Token :=
  tokens.drop (beforeStop stops depth tokens).length

section Stops

variable {stops : List TokenKind}

theorem beforeStop_append_fromStop
    (depth : Nat)
    (tokens : List Token) :
    beforeStop stops depth tokens ++
        fromStop stops depth tokens =
      tokens := by
  unfold fromStop
  induction tokens generalizing depth with
  | nil => rfl
  | cons token rest ih =>
      rw [beforeStop]
      split
      · rfl
      · rw [List.length_cons, List.drop_succ_cons,
          List.cons_append, ih]

/- What follows begins with a stop, if there is anything. -/
theorem fromStop_stops
    (depth : Nat)
    (tokens : List Token) :
    ∀ token ∈ (fromStop stops depth tokens).head?,
      token.kind ∈ stops := by
  unfold fromStop
  induction tokens generalizing depth with
  | nil => nofun
  | cons token rest ih =>
      rw [beforeStop]
      split
      · rename_i hStop
        rintro other ⟨⟩
        exact hStop.2
      · rw [List.length_cons, List.drop_succ_cons]
        exact ih _

/- Tokens that contain no stop and close what they open. -/
def Unstopped
    (stops : List TokenKind)
    (depth : Nat)
    (tokens : List Token) : Prop :=
  ∀ rest,
    beforeStop stops depth (tokens ++ rest) =
      tokens ++ beforeStop stops depth rest

namespace Unstopped

variable {depth : Nat}
variable {tokens others : List Token}
variable {token opening closing : Token}

theorem nil :
    Unstopped stops depth [] :=
  fun _ => rfl

theorem append
    (hTokens : Unstopped stops depth tokens)
    (hOthers : Unstopped stops depth others) :
    Unstopped stops depth (tokens ++ others) := by
  intro rest
  rw [List.append_assoc, hTokens, hOthers, List.append_assoc]

theorem single
    (hDepth : openAfter depth token.kind = depth)
    (hStops : depth = 0 → token.kind ∉ stops) :
    Unstopped stops depth [token] := by
  intro rest
  rw [List.singleton_append, beforeStop, hDepth]
  rw [if_neg fun hStop => hStops hStop.1 hStop.2]
  rfl

theorem cons
    (hToken : Unstopped stops depth [token])
    (hTokens : Unstopped stops depth tokens) :
    Unstopped stops depth (token :: tokens) :=
  hToken.append hTokens

/- Brackets and what they enclose. -/
theorem enclosed
    (hOpening : openAfter depth opening.kind = depth + 1)
    (hStops : depth = 0 → opening.kind ∉ stops)
    (hTokens : Unstopped stops (depth + 1) tokens)
    (hClosing : openAfter (depth + 1) closing.kind = depth) :
    Unstopped stops depth (opening :: (tokens ++ [closing])) := by
  intro rest
  rw [List.cons_append, beforeStop,
    if_neg fun hStop => hStops hStop.1 hStop.2, hOpening,
    List.append_assoc, hTokens, List.singleton_append,
    beforeStop, if_neg fun hStop => Nat.succ_ne_zero _ hStop.1,
    hClosing]
  simp

end Unstopped

------------------------------------------------------------
-- Phrases without stops
------------------------------------------------------------

variable
  (hSeparate : ∀ kind ∈ stops, kind.separates = true)
variable {depth : Nat}
variable {tokens : List Token}

include hSeparate

/- Only what separates patterns is a stop. -/
theorem not_mem_stops
    {kind : TokenKind}
    (hPlain : kind.separates = false) :
    kind ∉ stops := by
  intro hStop
  rw [hSeparate kind hStop] at hPlain
  cases hPlain

/- A token of an ordinary kind is neither stop nor bracket. -/
theorem Unstopped.of_kind
    {token : Token}
    {kind : TokenKind}
    (hKind : token.kind = kind)
    (hDepth : ∀ depth, openAfter depth kind = depth)
    (hPlain : kind.separates = false) :
    Unstopped stops depth [token] := by
  apply Unstopped.single
  · rw [hKind, hDepth]
  · rw [hKind]
    exact fun _ => not_mem_stops hSeparate hPlain

theorem Unstopped.bracketed
    {opening closing : Token}
    (hOpening : opening.kind = .leftBracket)
    (hTokens : Unstopped stops (depth + 1) tokens)
    (hClosing : closing.kind = .rightBracket) :
    Unstopped stops depth (opening :: (tokens ++ [closing])) := by
  apply Unstopped.enclosed _ _ hTokens
  · rw [hClosing]
    rfl
  · rw [hOpening]
    rfl
  · rw [hOpening]
    exact fun _ => not_mem_stops hSeparate rfl

theorem DerivesRun.unstopped
    {member : Member}
    (hRun : DerivesRun context tokens member) :
    Unstopped stops depth tokens := by
  induction hRun with
  | nil => exact Unstopped.nil
  | text _ hKind _ ih =>
      exact ih.append
        (.of_kind hSeparate hKind (fun _ => rfl) rfl)
  | escape _ hKind ih =>
      exact ih.append
        (.of_kind hSeparate hKind (fun _ => rfl) rfl)
  | edge _ hKind ih =>
      exact ih.append
        (.of_kind hSeparate hKind (fun _ => rfl) rfl)

theorem DerivesMember.unstopped
    {members : List Member}
    (hMember : DerivesMember context tokens members) :
    Unstopped stops depth tokens := by
  cases hMember with
  | run hRun _ => exact hRun.unstopped hSeparate
  | nested hOpening hName hClosing =>
      exact .bracketed hSeparate hOpening
        (.of_kind hSeparate hName (fun _ => rfl) rfl) hClosing

/- Commas between members are inside brackets. -/
theorem DerivesMembers.unstopped
    {members : List Member}
    (hMembers : DerivesMembers context tokens members) :
    Unstopped stops (depth + 1) tokens := by
  induction hMembers with
  | one hMember => exact hMember.unstopped hSeparate
  | more hMember hComma _ ih =>
      apply (hMember.unstopped hSeparate).append
      refine Unstopped.cons (Unstopped.single ?_ ?_) ih
      · rw [hComma]
        rfl
      · exact fun hDepth => absurd hDepth (Nat.succ_ne_zero _)

theorem DerivesBracket.unstopped
    {ref : CategoryRef}
    (hBracket : DerivesBracket context tokens ref) :
    Unstopped stops depth tokens := by
  cases hBracket with
  | named hOpening hKind _ hClosing =>
      exact .bracketed hSeparate hOpening
        (.of_kind hSeparate hKind (fun _ => rfl) rfl) hClosing
  | listed hOpening hMembers _ hClosing =>
      exact .bracketed hSeparate hOpening
        (hMembers.unstopped hSeparate) hClosing

theorem DerivesTag.unstopped
    {ref tagged : CategoryRef}
    (hTag : DerivesTag context ref tokens tagged) :
    Unstopped stops depth tokens := by
  cases hTag with
  | untagged => exact Unstopped.nil
  | tagged hCaret hNumber =>
      exact Unstopped.cons
        (.of_kind hSeparate hCaret (fun _ => rfl) rfl)
        (.of_kind hSeparate hNumber.kind_eq (fun _ => rfl) rfl)

theorem DerivesMark.unstopped
    {isLazy : Bool}
    (hMark : DerivesMark tokens isLazy) :
    Unstopped stops depth tokens := by
  cases hMark with
  | missing => exact Unstopped.nil
  | lazy hMark =>
      exact .of_kind hSeparate hMark (fun _ => rfl) rfl

theorem DerivesBounds.unstopped
    {token : Token}
    {min : Int}
    {max : Option Int}
    (hBounds : DerivesBounds context token min max) :
    Unstopped stops depth [token] := by
  cases hBounds with
  | number hNumber _ =>
      exact .of_kind hSeparate hNumber.kind_eq (fun _ => rfl)
        rfl
  | star hKind =>
      exact .of_kind hSeparate hKind (fun _ => rfl) rfl
  | doubleStar hKind =>
      exact .of_kind hSeparate hKind (fun _ => rfl) rfl
  | plus hKind =>
      exact .of_kind hSeparate hKind (fun _ => rfl) rfl

theorem DerivesQuantifier.unstopped
    {wrap : Element → Element}
    (hQuantifier : DerivesQuantifier context tokens wrap) :
    Unstopped stops depth tokens := by
  cases hQuantifier with
  | braces hOpening hBounds hMark hClosing =>
      exact Unstopped.cons
        (.of_kind hSeparate hOpening (fun _ => rfl) rfl)
        ((hBounds.unstopped hSeparate).cons
          ((hMark.unstopped hSeparate).append
            (.of_kind hSeparate hClosing (fun _ => rfl) rfl)))

theorem DerivesSign.unstopped
    {token : Token}
    {element : Element}
    (hSign : DerivesSign token.kind element) :
    Unstopped stops depth [token] := by
  generalize hKind : token.kind = kind at hSign
  cases hSign <;>
    exact .of_kind hSeparate hKind (fun _ => rfl) rfl

/- No phrase contains a stop that is not inside brackets. -/
theorem Derives.unstopped
    {phrase : Phrase}
    {elements : Pattern}
    (hDerives : Derives context phrase tokens elements)
    (depth : Nat) :
    Unstopped stops depth tokens := by
  induction hDerives generalizing depth with
  | none => exact Unstopped.nil
  | more _ _ ihUnit ihLater =>
      exact (ihUnit depth).append (ihLater depth)
  | plain _ ih => exact ih depth
  | quantified _ _ hQuantifier ih =>
      exact (ih depth).append (hQuantifier.unstopped hSeparate)
  | text hKind _ =>
      exact .of_kind hSeparate hKind (fun _ => rfl) rfl
  | escape hKind =>
      exact .of_kind hSeparate hKind (fun _ => rfl) rfl
  | sign hSign => exact hSign.unstopped hSeparate
  | wildcard hStar hMark =>
      exact Unstopped.cons
        (.of_kind hSeparate hStar (fun _ => rfl) rfl)
        (hMark.unstopped hSeparate)
  | gap hStar hMark =>
      exact Unstopped.cons
        (.of_kind hSeparate hStar (fun _ => rfl) rfl)
        (hMark.unstopped hSeparate)
  | @group opening closing tokens mark _ _ hOpening _ _
      hClosing hMark ih =>
      have hGroup :
          Unstopped stops depth
            (opening :: (tokens ++ [closing])) := by
        apply Unstopped.enclosed _ _ (ih (depth + 1))
        · rw [hClosing]
          rfl
        · rw [hOpening]
          rfl
        · rw [hOpening]
          exact fun _ => not_mem_stops hSeparate rfl
      have hAll := hGroup.append (hMark.unstopped hSeparate)
      simpa using hAll
  | nothing hOpening hClosing =>
      exact .bracketed hSeparate hOpening Unstopped.nil hClosing
  | category hBracket hTag =>
      exact
        (hBracket.unstopped hSeparate).append
          (hTag.unstopped hSeparate)

/-
  Units that are followed by a stop, or by nothing, are what
  stands before the first stop.
-/
theorem Derives.beforeStop_eq
    {elements : Pattern}
    {rest : List Token}
    (hUnits : Derives context .units tokens elements)
    (hRest : ∀ token ∈ rest.head?, token.kind ∈ stops) :
    beforeStop stops 0 (tokens ++ rest) = tokens ∧
      fromStop stops 0 (tokens ++ rest) = rest := by
  have hNone : beforeStop stops 0 rest = [] := by
    cases rest with
    | nil => rfl
    | cons token more =>
        rw [beforeStop, if_pos ⟨rfl, hRest token rfl⟩]
  have hBefore :
      beforeStop stops 0 (tokens ++ rest) = tokens := by
    rw [hUnits.unstopped hSeparate 0, hNone, List.append_nil]
  refine ⟨hBefore, ?_⟩
  rw [fromStop, hBefore, List.drop_left]

end Stops

------------------------------------------------------------
-- What may follow a phrase
------------------------------------------------------------

/- Neither a mark of laziness nor a tag comes next. -/
def NothingToAdd
    (rest : List Token) : Prop :=
  ∀ token ∈ rest.head?,
    token.kind ≠ .question ∧ token.kind ≠ .caret

theorem NothingToAdd.of_kind
    {token : Token}
    {kind : TokenKind}
    {rest : List Token}
    (hKind : token.kind = kind)
    (hQuestion : kind ≠ .question)
    (hCaret : kind ≠ .caret) :
    NothingToAdd (token :: rest) := by
  rintro other ⟨⟩
  rw [hKind]
  exact ⟨hQuestion, hCaret⟩

theorem NothingToAdd.of_stops
    {stops : List TokenKind}
    {rest : List Token}
    (hSeparate : ∀ kind ∈ stops, kind.separates = true)
    (hStops : ∀ token ∈ rest.head?, token.kind ∈ stops) :
    NothingToAdd rest := by
  intro token hMem
  have hKind := hSeparate _ (hStops token hMem)
  constructor
  · intro hQuestion
    rw [hQuestion] at hKind
    cases hKind
  · intro hCaret
    rw [hCaret] at hKind
    cases hKind

/- Nor does it where another phrase comes next. -/
theorem Derives.nothingToAdd
    {phrase : Phrase}
    {tokens rest : List Token}
    {elements : Pattern}
    (hDerives : Derives context phrase tokens elements)
    (hRest : NothingToAdd rest) :
    NothingToAdd (tokens ++ rest) := by
  induction hDerives generalizing rest with
  | none => exact hRest
  | more _ _ ihUnit ihLater =>
      rw [List.append_assoc]
      exact ihUnit (ihLater hRest)
  | plain _ ih => exact ih hRest
  | quantified _ _ hQuantifier ih =>
      rw [List.append_assoc]
      apply ih
      cases hQuantifier with
      | braces hOpening =>
          exact .of_kind hOpening nofun nofun
  | text hKind => exact .of_kind hKind nofun nofun
  | escape hKind => exact .of_kind hKind nofun nofun
  | @sign token _ hSign =>
      generalize hKind : token.kind = kind at hSign
      cases hSign <;> exact .of_kind hKind nofun nofun
  | wildcard hStar => exact .of_kind hStar nofun nofun
  | gap hStar => exact .of_kind hStar nofun nofun
  | group hOpening => exact .of_kind hOpening nofun nofun
  | nothing hOpening => exact .of_kind hOpening nofun nofun
  | category hBracket _ =>
      cases hBracket with
      | named hOpening => exact .of_kind hOpening nofun nofun
      | listed hOpening => exact .of_kind hOpening nofun nofun

end Diachrony
