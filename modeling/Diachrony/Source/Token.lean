import Diachrony.Source.Error
import Diachrony.Unicode.Blank

/-
  Tokens of rule text.

  Blanks separate tokens and are dropped. A backslash and
  the character after it are one token. A plus sign is a
  token of its own only inside braces. Whatever is no
  operator forms runs of ordinary text.

  Key definitions include:
    * `TokenKind`
    * `TokenKind.ofChar?`
    * `Token`
    * `TokenText`
    * `TokenText.read`
-/

namespace Diachrony

open Unicode

------------------------------------------------------------
-- Kinds
------------------------------------------------------------

/- The kinds of tokens. -/
inductive TokenKind where
  | text
  | escape
  | leftBracket
  | rightBracket
  | leftParen
  | rightParen
  | leftBrace
  | rightBrace
  | star
  | doubleStar
  | question
  | plus
  | hash
  | percent
  | less
  | ditto
  | caret
  | comma
  | atSign
  | pipe
  | underscore
  | ampersand
  | greater
  | slash
  | bang
  deriving Repr, DecidableEq

namespace TokenKind

/- The name of a kind of tokens. -/
def name : TokenKind → String
  | text => "TEXT"
  | escape => "ESCAPE"
  | leftBracket => "LBRACKET"
  | rightBracket => "RBRACKET"
  | leftParen => "LPAREN"
  | rightParen => "RPAREN"
  | leftBrace => "LBRACE"
  | rightBrace => "RBRACE"
  | star => "STAR"
  | doubleStar => "DSTAR"
  | question => "QUESTION"
  | plus => "PLUS"
  | hash => "HASH"
  | percent => "PERCENT"
  | less => "LT"
  | ditto => "DITTO"
  | caret => "CARET"
  | comma => "COMMA"
  | atSign => "AT"
  | pipe => "PIPE"
  | underscore => "UNDERSCORE"
  | ampersand => "AMP"
  | greater => "GT"
  | slash => "SLASH"
  | bang => "BANG"

/- All kinds of tokens. -/
def all : List TokenKind :=
  [ text, escape, leftBracket, rightBracket, leftParen,
    rightParen, leftBrace, rightBrace, star, doubleStar,
    question, plus, hash, percent, less, ditto, caret, comma,
    atSign, pipe, underscore, ampersand, greater, slash, bang ]

/- The kind with a given name. -/
def ofName?
    (name : String) : Option TokenKind :=
  all.find? fun kind => kind.name = name

/- The kind of a character that is a token by itself. -/
def ofChar? : Char → Option TokenKind
  | '[' => some leftBracket
  | ']' => some rightBracket
  | '(' => some leftParen
  | ')' => some rightParen
  | '{' => some leftBrace
  | '}' => some rightBrace
  | '?' => some question
  | '#' => some hash
  | '%' => some percent
  | '<' => some less
  | '"' => some ditto
  | '^' => some caret
  | ',' => some comma
  | '@' => some atSign
  | '|' => some pipe
  | '_' => some underscore
  | '&' => some ampersand
  | '>' => some greater
  | '/' => some slash
  | '!' => some bang
  | _ => none

end TokenKind

/- A character that ends a run of ordinary text. -/
def isControl
    (c : Char) : Bool :=
  (TokenKind.ofChar? c).isSome || c = '*' || c = '\\'

------------------------------------------------------------
-- Tokens
------------------------------------------------------------

/-
  A token with its text and the column at which it begins.
  The text of an escape is the escaped character.
-/
structure Token where
  kind : TokenKind
  text : String
  column : Int
  deriving Repr, DecidableEq

/- A kind of token and a text as shown in a listing. -/
def describeToken
    (kind : String)
    (text : String) : String :=
  "<" ++ kind ++ ":" ++ quote text ++ ">"

/- A token as shown in a listing. -/
def Token.describe
    (token : Token) : String :=
  describeToken token.kind.name token.text

/- The tokens of a text and the column at which it ends. -/
structure TokenText where
  tokens : List Token
  finish : Int
  deriving Repr, DecidableEq

------------------------------------------------------------
-- Reading
------------------------------------------------------------

/- The depth of braces after a character. -/
def braceDepth
    (depth : Nat)
    (c : Char) : Nat :=
  if c = '{' then
    depth + 1
  else if c = '}' then
    depth - 1
  else
    depth

/- A character that a run of ordinary text can contain. -/
def isOrdinary
    (depth : Nat)
    (c : Char) : Bool :=
  !isControl c && !isBlank c && !(c = '+' && 0 < depth)

/- Put a token before those that follow. -/
def Token.before
    (token : Token)
    (later : Except SourceError (List Token)) :
    Except SourceError (List Token) :=
  match later with
  | .error e => .error e
  | .ok tokens => .ok (token :: tokens)

/- A token that consists of one character. -/
def Token.ofChar
    (kind : TokenKind)
    (c : Char)
    (column : Int) : Token where
  kind := kind
  text := String.ofList [c]
  column := column

/-
  The tokens of a text that begins at a given column inside
  a given depth of braces. A text must not end in a
  backslash that escapes nothing.
-/
def readTokens
    (line : Int)
    (column : Int)
    (depth : Nat) :
    List Char → Except SourceError (List Token)
  | [] => .ok []
  | c :: rest =>
      if isBlank c then
        readTokens line (column + 1) depth rest
      else if c = '\\' then
        match rest with
        | [] =>
            .error
              { cause := .danglingEscape
                line := line
                column := column }
        | escaped :: more =>
            (Token.ofChar .escape escaped column).before
              (readTokens line (column + 2) depth more)
      else if c = '*' ∧ rest.head? = some '*' then
        { kind := .doubleStar
          text := "**"
          column := column : Token }.before
          (readTokens line (column + 2) depth (rest.drop 1))
      else if c = '*' then
        (Token.ofChar .star c column).before
          (readTokens line (column + 1) depth rest)
      else if c = '+' ∧ 0 < depth then
        (Token.ofChar .plus c column).before
          (readTokens line (column + 1) depth rest)
      else
        match TokenKind.ofChar? c with
        | some kind =>
            (Token.ofChar kind c column).before
              (readTokens line (column + 1)
                (braceDepth depth c) rest)
        | none =>
            have := (List.dropWhile_sublist
              (l := rest) (isOrdinary depth)).length_le
            let run := rest.takeWhile (isOrdinary depth)
            { kind := .text
              text := String.ofList (c :: run)
              column := column : Token }.before
              (readTokens line (column + 1 + run.length) depth
                (rest.dropWhile (isOrdinary depth)))
termination_by text => text.length
decreasing_by
  all_goals
    simp only [List.length_cons, List.length_drop]
    omega

/- The tokens of a text. -/
def TokenText.read
    (text : List Char)
    (line : Int)
    (column : Int) : Except SourceError TokenText :=
  match readTokens line column 0 text with
  | .error e => .error e
  | .ok tokens =>
      .ok { tokens := tokens, finish := column + text.length }

end Diachrony
