import Diachrony.Word

/-
  A word under revision.

  A draft holds the word as it is now and the snapshots
  taken of it. A snapshot is never touched by later edits.

  Key definitions include:
    * `Draft`
    * `Draft.replace`
    * `Draft.takeSnapshot`
    * `Draft.restore?`
    * `Draft.unchangedSince`
-/

namespace Diachrony

/- The present form of a word and its snapshots, oldest first. -/
structure Draft where
  word : Word
  snapshots : List Word := []
  deriving Repr, DecidableEq

namespace Draft

/- Replace the symbols between two bounds. -/
def replace
    (draft : Draft)
    (start stop : Int)
    (symbols : List Symbol) : Draft :=
  { draft with word := draft.word.replace start stop symbols }

/- Start over from another word, keeping the snapshots. -/
def startOver
    (draft : Draft)
    (word : Word) : Draft :=
  { draft with word := word }

/- Remember the present form. -/
def takeSnapshot
    (draft : Draft) : Draft :=
  { draft with snapshots := draft.snapshots ++ [draft.word] }

/- Go back to a snapshot, if there is one at this index. -/
def restore?
    (draft : Draft)
    (i : Int) : Option Draft :=
  (nth? draft.snapshots i).map draft.startOver

/- Which snapshots are equal to the present form. -/
def unchangedSince
    (draft : Draft) : List Bool :=
  draft.snapshots.map fun snapshot => draft.word = snapshot

/- Which snapshots are equal to one another. -/
def sameSnapshots
    (draft : Draft) : List (List Bool) :=
  draft.snapshots.map fun one =>
    draft.snapshots.map fun other => one = other

end Draft

end Diachrony
