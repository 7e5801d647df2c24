/-
  Flags of rules and blocks.

  Flags compose freely: a few yes-or-no properties and a
  few numbers.

  Key definitions include:
    * `Flags`
    * `Flags.text`
-/

namespace Diachrony

/-
  The flags of a rule or a block:
    * `persistent`: run again until nothing changes;
    * `maxPasses`: the bound for persistent runs, if it is
      not the general one;
    * `rightToLeft`: scan from the word end;
    * `isOptional`: belongs to `optionalClass`, which the
      caller may switch off;
    * `ignored`: never run;
    * `ditto`: if 1, run only if the previous rule changed
      the word, if -1 only if it did not;
    * `stop`: if 1, end the run if the word was changed, if
      -1 if it was not;
    * `persist`: the number of rules, this one included,
      after which the rule is run again.
-/
structure Flags where
  persistent : Bool := false
  rightToLeft : Bool := false
  isOptional : Bool := false
  ignored : Bool := false
  maxPasses : Option Int := none
  optionalClass : String := "optional"
  ditto : Int := 0
  stop : Int := 0
  persist : Int := 1
  deriving Repr, DecidableEq

namespace Flags

------------------------------------------------------------
-- Sequencing
------------------------------------------------------------

/-
  Whether the condition on the previous rule forbids a run.
  There may be no previous rule, which counts as one that
  changed nothing.
-/
def dittoForbids
    (flags : Flags)
    (previousChanged : Bool) : Bool :=
  (flags.ditto = 1 && !previousChanged) ||
    (flags.ditto = -1 && previousChanged)

/- Whether a run that changed the word or not is the last. -/
def stopsAfter
    (flags : Flags)
    (changed : Bool) : Bool :=
  (flags.stop = 1 && changed) || (flags.stop = -1 && !changed)

/- The bound on the passes of a persistent run. -/
def passBound
    (flags : Flags)
    (general : Int) : Int :=
  match flags.maxPasses with
  | none => general
  | some bound => if bound = 0 then general else bound

------------------------------------------------------------
-- Written form
------------------------------------------------------------

/- The written form of a flag that can be negated. -/
def signedText
    (name : String)
    (value : Int) : List String :=
  if value = 0 then
    []
  else if 0 < value then
    [name]
  else
    ["!" ++ name]

/- The items of the written form. -/
def items
    (flags : Flags) : List String :=
  (if flags.persistent then
    match flags.maxPasses with
    | none => ["repeat"]
    | some bound => ["repeat:" ++ toString bound]
  else []) ++
  (if flags.rightToLeft then ["rtl"] else []) ++
  (if flags.isOptional then
    ["optional:" ++ flags.optionalClass]
  else []) ++
  (if flags.ignored then ["ignore"] else []) ++
  signedText "ditto" flags.ditto ++
  signedText "stop" flags.stop ++
  (if 1 < flags.persist then
    ["persist:" ++ toString flags.persist]
  else [])

/- The written form of flags. -/
def text
    (flags : Flags) : String :=
  "; ".intercalate flags.items

end Flags

end Diachrony
