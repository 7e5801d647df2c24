import Diachrony.Config

/-
  Compiled rulesets and their application to words.

  Key definitions include:
    * `Ruleset`
    * `Ruleset.rules`
    * `ApplyResult`
    * `Ruleset.apply`
    * `Ruleset.applyLexicon`
-/

namespace Diachrony

------------------------------------------------------------
-- Rulesets
------------------------------------------------------------

/-
  Rules and blocks in the order in which they are run, with
  the categories they were built on, the graphs that split
  words into symbols, and what was reported on the way.
-/
structure Ruleset where
  items : List Item := []
  categories : Table := { frozen := true }
  graphs : List String := []
  diagnostics : List Diagnostic := []
  deriving Repr

namespace Ruleset

/- The rules of a ruleset, blocks resolved. -/
def rules
    (ruleset : Ruleset) : List Rule :=
  Items.rules ruleset.items

end Ruleset

------------------------------------------------------------
-- Words
------------------------------------------------------------

/-
  The result of applying a ruleset to a word, with the full
  derivation.
-/
structure ApplyResult where
  input : Word
  final : RunState
  deriving Repr, DecidableEq

namespace ApplyResult

/- The resulting word. -/
def word
    (result : ApplyResult) : Word :=
  result.final.word

/- The text of the resulting word. -/
def text
    (result : ApplyResult) : String :=
  result.word.text

/- Whether the result differs from the input. -/
def changed
    (result : ApplyResult) : Bool :=
  result.word ≠ result.input

/- Whether some run reached its pass bound. -/
def truncated
    (result : ApplyResult) : Bool :=
  result.final.diagnostics.any fun d => d.kind = .truncated

/- Whether some run ended unsettled. -/
def unsettled
    (result : ApplyResult) : Bool :=
  result.final.diagnostics.any fun d => d.kind.isUnsettled

end ApplyResult

namespace Ruleset

/- Apply a ruleset to a word. -/
def apply
    (ruleset : Ruleset)
    (config : Config)
    (spelling : Spelling) : Except RunFault ApplyResult :=
  let word :=
    spelling.toWord ruleset.graphs config.compiler.separator
  match
    derive config.engine config.optional ruleset.items word
  with
  | .error fault => .error fault
  | .ok state => .ok { input := word, final := state }

------------------------------------------------------------
-- Lexicons
------------------------------------------------------------

/-
  Apply a ruleset to the words of a lexicon, in order, each
  on its own. If the run is called off after a number of
  words, the words after them have no result.
-/
def applyEach
    (ruleset : Ruleset)
    (config : Config) :
    Option Int →
    List Spelling →
    Except RunFault (List (Option ApplyResult))
  | _, [] => .ok []
  | left, spelling :: rest =>
      if left.any fun n => n ≤ 0 then
        match applyEach ruleset config left rest with
        | .error fault => .error fault
        | .ok results => .ok (none :: results)
      else
        match ruleset.apply config spelling with
        | .error fault => .error fault
        | .ok result =>
            match
              applyEach ruleset config (left.map (· - 1)) rest
            with
            | .error fault => .error fault
            | .ok results => .ok (some result :: results)

end Ruleset

/-
  The results of a lexicon in the order of its words. A
  word that was not started has none.
-/
structure LexiconResult where
  results : List (Option ApplyResult)
  deriving Repr, DecidableEq

namespace LexiconResult

/- The texts of the results. -/
def words
    (lexicon : LexiconResult) : List (Option String) :=
  lexicon.results.map fun result => result.map ApplyResult.text

/- Whether some word was not started. -/
def aborted
    (lexicon : LexiconResult) : Bool :=
  lexicon.results.any Option.isNone

end LexiconResult

/-
  Apply a ruleset to a lexicon, and call the run off after
  a number of words, if one is given.
-/
def Ruleset.applyLexicon
    (ruleset : Ruleset)
    (config : Config)
    (callOffAfter : Option Int)
    (words : List Spelling) : Except RunFault LexiconResult :=
  match ruleset.applyEach config callOffAfter words with
  | .error fault => .error fault
  | .ok results => .ok { results := results }

end Diachrony
