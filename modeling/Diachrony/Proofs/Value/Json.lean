import Diachrony.Value.Json

/-
  Values that are written as JSON text.

  Every value that is written is read back from its text as
  it was: numbers of either sign, strings with any
  characters, and lists and records of any depth, wherever
  the text stands. As much fuel as the text is long is
  enough. A value is written unless some number in it has
  more digits than the limit on them admits.

  Key definitions include:
    * `Json.EndsNumber`
    * `Json.joined`
    * `Value.keepsTo`

  Key theorems include:
    * `Json.readString?_written`
    * `Json.readSimple?_number`
    * `Json.readValue?_written`
    * `Json.read?_json?`
    * `Json.json?_isSome`
-/

namespace Diachrony

namespace Json

variable {limit : DigitLimit}
variable {c : Char}
variable {text rest : List Char}

------------------------------------------------------------
-- Blanks
------------------------------------------------------------

theorem skipBlanks_of_blank
    (hBlank : isJsonBlank c = true)
    (text : List Char) :
    skipBlanks (c :: text) = skipBlanks text :=
  List.dropWhile_cons_of_pos hBlank

theorem skipBlanks_of_solid
    (hSolid : isJsonBlank c = false)
    (text : List Char) :
    skipBlanks (c :: text) = c :: text :=
  List.dropWhile_cons_of_neg (by simp [hSolid])

theorem skipBlanks_newLine
    (depth : Nat)
    (text : List Char) :
    skipBlanks ((newLine depth).toList ++ text) =
      skipBlanks text := by
  apply List.dropWhile_append_of_pos
  intro c hMem
  rw [newLine, String.toList_ofList, List.mem_cons,
    List.mem_replicate] at hMem
  rcases hMem with rfl | ⟨_, rfl⟩ <;> rfl

/- Blanks before a value make no difference. -/
theorem readValue?_of_skipBlanks
    {other : List Char}
    (hSkip : skipBlanks text = skipBlanks other)
    (fuel : Nat) :
    readValue? limit fuel text = readValue? limit fuel other := by
  cases fuel with
  | zero => rfl
  | succ fuel => simp only [readValue?, hSkip]

theorem readValue?_newLine
    (fuel depth : Nat)
    (text : List Char) :
    readValue? limit fuel ((newLine depth).toList ++ text) =
      readValue? limit fuel text :=
  readValue?_of_skipBlanks (skipBlanks_newLine depth text) fuel

theorem readValue?_blank
    (fuel : Nat)
    (text : List Char) :
    readValue? limit fuel (' ' :: text) = readValue? limit fuel text :=
  readValue?_of_skipBlanks (skipBlanks_of_blank rfl text) fuel

------------------------------------------------------------
-- Strings
------------------------------------------------------------

/- A control character is given by its code. -/
theorem hexCode?_hexDigits :
    ∀ code < 0x20,
      hexCode? (Quoted.hexDigit (code / 16 / 16 / 16 % 16))
          (Quoted.hexDigit (code / 16 / 16 % 16))
          (Quoted.hexDigit (code / 16 % 16))
          (Quoted.hexDigit (code % 16)) =
        some code := by
  decide

theorem readString?_code
    (hCode : c.toNat < 0x20)
    (read rest : List Char) :
    readString? read
        ('\\' :: 'u' :: (Quoted.hexDigits 4 c.toNat ++ rest)) =
      readString? (c :: read) rest := by
  simp only [Quoted.hexDigits, List.nil_append,
    List.cons_append, readString?,
    hexCode?_hexDigits c.toNat hCode, Char.ofNat_toNat]

theorem readString?_plain
    (hMark : c ≠ '"')
    (hEscape : c ≠ '\\')
    (hCode : ¬c.toNat < 0x20)
    (read rest : List Char) :
    readString? read (c :: rest) =
      readString? (c :: read) rest := by
  rw [readString?.eq_def]
  split
  case h_5 hText =>
    cases hText
    exact if_neg hCode
  all_goals simp_all

/- A character that is written in a string is read again. -/
theorem readString?_escape
    (read : List Char)
    (c : Char)
    (rest : List Char) :
    readString? read (escape c ++ rest) =
      readString? (c :: read) rest := by
  unfold escape
  split
  case isTrue hMark =>
    rcases hMark with rfl | rfl <;> rfl
  case isFalse hPlain =>
  split
  case isTrue hNewLine => subst hNewLine; rfl
  split
  case isTrue hReturn => subst hReturn; rfl
  split
  case isTrue hTab => subst hTab; rfl
  split
  case isTrue hFeed => subst hFeed; rfl
  split
  case isTrue hBack => subst hBack; rfl
  split
  case isTrue hCode => exact readString?_code hCode read rest
  case isFalse hCode =>
    obtain ⟨hMark, hEscape⟩ := not_or.mp hPlain
    exact readString?_plain hMark hEscape hCode read rest

theorem readString?_written
    (read text rest : List Char) :
    readString? read (text.flatMap escape ++ '"' :: rest) =
      some (String.ofList (read.reverse ++ text), rest) := by
  induction text generalizing read with
  | nil => simp [readString?]
  | cons c text ih =>
      rw [List.flatMap_cons, List.append_assoc,
        readString?_escape, ih]
      simp

theorem readString?_name
    (name : String)
    (rest : List Char) :
    readString? [] (name.toList.flatMap escape ++ '"' :: rest) =
      some (name, rest) := by
  rw [readString?_written, List.reverse_nil, List.nil_append,
    String.ofList_toList]

theorem toList_writeString
    (s : String) :
    (writeString s).toList =
      '"' :: (s.toList.flatMap escape ++ ['"']) :=
  String.toList_ofList

------------------------------------------------------------
-- Numbers
------------------------------------------------------------

/- What can follow a number without being a part of it. -/
def EndsNumber
    (text : List Char) : Prop :=
  ∀ c ∈ text.head?, c.isDigit = false

theorem takeWhile_isDigit
    (hRest : EndsNumber rest) :
    rest.takeWhile Char.isDigit = [] := by
  cases rest with
  | nil => rfl
  | cons c more =>
      exact List.takeWhile_cons_of_neg (by simp [hRest c rfl])

theorem dropWhile_isDigit
    (hRest : EndsNumber rest) :
    rest.dropWhile Char.isDigit = rest := by
  cases rest with
  | nil => rfl
  | cons c more =>
      exact List.dropWhile_cons_of_neg (by simp [hRest c rfl])

theorem toList_toString
    (n : Nat) :
    (toString n).toList = Nat.toDigits 10 n := by
  rw [Nat.toString_eq_ofList_toDigits, String.toList_ofList]

/- A number begins with a digit. -/
theorem toDigits_eq_cons
    (n : Nat) :
    ∃ c digits,
      Nat.toDigits 10 n = c :: digits ∧ c.isDigit = true := by
  cases hDigits : Nat.toDigits 10 n with
  | nil => exact (Nat.toDigits_ne_nil hDigits).elim
  | cons c digits =>
      refine ⟨c, digits, rfl, ?_⟩
      apply
        @Nat.isDigit_of_mem_toDigits 10 n c (by decide)
          (Nat.le_refl _)
      rw [hDigits]
      exact List.mem_cons_self

/- Only zero has a zero for its first digit. -/
theorem head_toDigits
    {n : Nat}
    (hSome : n ≠ 0) :
    ∀ c ∈ (Nat.toDigits 10 n).head?, c ≠ '0' := by
  induction n using Nat.strongRecOn with
  | ind n ih =>
      rcases Nat.lt_or_ge n 10 with hLess | hMore
      · rw [Nat.toDigits_of_lt_base hLess]
        rintro _ ⟨⟩
        exact mt Nat.digitChar_eq_zero.mp hSome
      · have hTens : n / 10 ≠ 0 :=
          Nat.ne_of_gt (Nat.div_pos hMore (by decide))
        have hLess : n / 10 < n :=
          Nat.div_lt_self (Nat.pos_of_ne_zero hSome) (by decide)
        have hHead := ih (n / 10) hLess hTens
        rcases toDigits_eq_cons (n / 10) with
          ⟨c, digits, hCons, _⟩
        rw [hCons] at hHead
        rw [Nat.toDigits_of_base_le (by decide) hMore, hCons]
        exact hHead

theorem leadingDigits_of_ne_zero
    (hOther : c ≠ '0')
    (text : List Char) :
    leadingDigits (c :: text) =
      (c :: text).takeWhile Char.isDigit := by
  unfold leadingDigits
  split <;> simp_all

theorem leadingDigits_written
    (n : Nat)
    (hRest : EndsNumber rest) :
    leadingDigits (Nat.toDigits 10 n ++ rest) =
      Nat.toDigits 10 n := by
  by_cases hZero : n = 0
  case pos =>
    subst hZero
    rfl
  case neg =>
    have hDigits : ∀ c ∈ Nat.toDigits 10 n, c.isDigit = true :=
      fun _ hMem =>
        Nat.isDigit_of_mem_toDigits (by decide) (Nat.le_refl _)
          hMem
    have hHead := head_toDigits hZero
    rcases toDigits_eq_cons n with ⟨c, digits, hCons, _⟩
    rw [hCons] at hDigits hHead ⊢
    rw [List.cons_append,
      leadingDigits_of_ne_zero (hHead c rfl),
      ← List.cons_append, List.takeWhile_append_of_pos hDigits,
      takeWhile_isDigit hRest, List.append_nil]

theorem readDigits?_written
    (n : Nat)
    (hLimit : limit.admitsNumber n = true)
    (hRest : EndsNumber rest) :
    readDigits? limit ((toString n).toList ++ rest) =
      some (n, rest) := by
  have hAdmits :
      limit.admits (Nat.toDigits 10 n).length = true := by
    rw [← toList_toString, String.length_toList]
    exact hLimit
  have hSome : (Nat.toDigits 10 n).isEmpty = false :=
    List.isEmpty_eq_false_iff.mpr Nat.toDigits_ne_nil
  have hValue : digitsValue (Nat.toDigits 10 n) = n :=
    Nat.ofDigitChars_ten_toDigits
  unfold readDigits?
  rw [toList_toString, leadingDigits_written n hRest]
  simp only [hAdmits, hSome, hValue, List.drop_left,
    Bool.not_true, Bool.or_self, Bool.false_eq_true, if_false]

theorem readSimple?_digit
    (hDigit : c.isDigit = true)
    (text : List Char) :
    readSimple? limit (c :: text) =
      (readDigits? limit (c :: text)).map fun r =>
        (.number r.1, r.2) := by
  unfold readSimple?
  split
  case h_6 => rfl
  all_goals simp_all

theorem readSimple?_number
    (n : Int)
    (hLimit : limit.admitsNumber n = true)
    (hRest : EndsNumber rest) :
    readSimple? limit ((toString n).toList ++ rest) =
      some (.number n, rest) := by
  cases n with
  | ofNat n =>
      rcases toDigits_eq_cons n with ⟨c, digits, hCons, hDigit⟩
      have hSimple :
          readSimple? limit ((toString n).toList ++ rest) =
            (readDigits? limit ((toString n).toList ++ rest)).map
              fun r => (.number r.1, r.2) := by
        rw [toList_toString, hCons]
        exact readSimple?_digit hDigit (digits ++ rest)
      rw [readDigits?_written n hLimit hRest] at hSimple
      exact hSimple
  | negSucc n =>
      have hText :
          (toString (Int.negSucc n)).toList =
            '-' :: (toString (n + 1)).toList :=
        String.toList_append
      rw [hText, List.cons_append, readSimple?,
        readDigits?_written (n + 1) hLimit hRest]
      rfl

/- A number that is written has no more digits than it may. -/
theorem writeNumber?_eq_some_iff
    {n : Int}
    {written : String} :
    writeNumber? limit n = some written ↔
      limit.admitsNumber n = true ∧ toString n = written := by
  rw [writeNumber?, Option.ite_none_right_eq_some,
    Option.some.injEq]

theorem solid_of_isDigit
    (hDigit : c.isDigit = true) :
    isJsonBlank c = false ∧ c ≠ ']' := by
  constructor
  · simp only [isJsonBlank, Bool.or_eq_false_iff,
      decide_eq_false_iff_not]
    refine ⟨⟨⟨?_, ?_⟩, ?_⟩, ?_⟩
    all_goals
      rintro rfl
      cases hDigit
  · rintro rfl
    cases hDigit

/- A number begins with its sign or with a digit. -/
theorem exists_head_toString
    (n : Int) :
    ∃ c more,
      (toString n).toList = c :: more ∧
        (c = '-' ∨ c.isDigit = true) := by
  cases n with
  | ofNat n =>
      rcases toDigits_eq_cons n with ⟨c, digits, hCons, hDigit⟩
      exact
        ⟨c, digits, (toList_toString n).trans hCons, .inr hDigit⟩
  | negSucc n =>
      exact ⟨'-', _, String.toList_append, .inl rfl⟩

------------------------------------------------------------
-- Lists and records
------------------------------------------------------------

/-
  The entries of a list or a record as they stand between
  its brackets, each on a line of its own.
-/
def joined
    (depth : Nat) : List String → List Char
  | [] => []
  | [entry] =>
      (newLine (depth + 1)).toList ++ entry.toList ++
        (newLine depth).toList
  | entry :: next :: more =>
      (newLine (depth + 1)).toList ++ entry.toList ++
        ',' :: joined depth (next :: more)

theorem joined_eq_intercalate
    (depth : Nat)
    (entry : String)
    (more : List String) :
    joined depth (entry :: more) =
      (newLine (depth + 1)).toList ++
        (("," ++ newLine (depth + 1)).intercalate
          (entry :: more)).toList ++
        (newLine depth).toList := by
  induction more generalizing entry with
  | nil => simp [joined]
  | cons next more ih =>
      have hComma : ",".toList = [','] := rfl
      rw [joined, ih]
      simp [hComma, String.toList_intercalate]

theorem toList_enclose
    (opening closing : String)
    (depth : Nat)
    (entries : List String) :
    (enclose opening closing depth entries).toList =
      opening.toList ++
        (joined depth entries ++ closing.toList) := by
  cases entries with
  | nil => simp [enclose, joined]
  | cons entry more =>
      rw [joined_eq_intercalate]
      simp [enclose]

section Written

variable {depth : Nat}
variable {written : String}
variable {entries : List String}

theorem toList_write?_list
    {items : List Value}
    (hWritten : write? limit depth (.list items) = some written) :
    ∃ entries,
      writeAll? limit (depth + 1) items = some entries ∧
        written.toList =
          '[' :: (joined depth entries ++ [']']) := by
  rw [write?] at hWritten
  rcases Option.map_eq_some_iff.mp hWritten with
    ⟨entries, hEntries, rfl⟩
  refine ⟨entries, hEntries, ?_⟩
  rw [toList_enclose]
  simp

theorem toList_write?_record
    {fields : List (String × Value)}
    (hWritten :
      write? limit depth (.record fields) = some written) :
    ∃ entries,
      writeFields? limit (depth + 1) fields = some entries ∧
        written.toList =
          '{' :: (joined depth entries ++ ['}']) := by
  rw [write?] at hWritten
  rcases Option.map_eq_some_iff.mp hWritten with
    ⟨entries, hEntries, rfl⟩
  refine ⟨entries, hEntries, ?_⟩
  rw [toList_enclose]
  simp

theorem writeAll?_cons_eq_bind
    (value : Value)
    (rest : List Value) :
    writeAll? limit depth (value :: rest) =
      (write? limit depth value).bind fun entry =>
        (writeAll? limit depth rest).map fun others =>
          entry :: others := by
  rw [writeAll?]
  cases write? limit depth value <;> rfl

theorem writeFields?_cons_eq_bind
    (name : String)
    (value : Value)
    (rest : List (String × Value)) :
    writeFields? limit depth ((name, value) :: rest) =
      (write? limit depth value).bind fun entry =>
        (writeFields? limit depth rest).map fun others =>
          (writeString name ++ ": " ++ entry) :: others := by
  rw [writeFields?]
  cases write? limit depth value <;> rfl

/- The entries of a list are all written. -/
theorem writeAll?_cons
    {first : Value}
    {items : List Value}
    (hWritten :
      writeAll? limit depth (first :: items) = some entries) :
    ∃ entry others,
      write? limit depth first = some entry ∧
        writeAll? limit depth items = some others ∧
          entries = entry :: others := by
  rw [writeAll?_cons_eq_bind] at hWritten
  rcases Option.bind_eq_some_iff.mp hWritten with
    ⟨entry, hEntry, hRest⟩
  rcases Option.map_eq_some_iff.mp hRest with
    ⟨others, hOthers, rfl⟩
  exact ⟨entry, others, hEntry, hOthers, rfl⟩

theorem writeFields?_cons
    {name : String}
    {first : Value}
    {fields : List (String × Value)}
    (hWritten :
      writeFields? limit depth ((name, first) :: fields) =
        some entries) :
    ∃ entry others,
      write? limit depth first = some entry ∧
        writeFields? limit depth fields = some others ∧
          entries =
            (writeString name ++ ": " ++ entry) :: others := by
  rw [writeFields?_cons_eq_bind] at hWritten
  rcases Option.bind_eq_some_iff.mp hWritten with
    ⟨entry, hEntry, hRest⟩
  rcases Option.map_eq_some_iff.mp hRest with
    ⟨others, hOthers, rfl⟩
  exact ⟨entry, others, hEntry, hOthers, rfl⟩

end Written

theorem joined_last_append
    (depth : Nat)
    (entry : String)
    (rest : List Char) :
    joined depth [entry] ++ rest =
      (newLine (depth + 1)).toList ++
        (entry.toList ++ ((newLine depth).toList ++ rest)) := by
  simp [joined]

theorem joined_more
    {others : List String}
    (hSome : others ≠ [])
    (depth : Nat)
    (entry : String) :
    joined depth (entry :: others) =
      (newLine (depth + 1)).toList ++
        (entry.toList ++ ',' :: joined depth others) := by
  cases others with
  | nil => exact (hSome rfl).elim
  | cons next more => simp [joined]

theorem joined_more_append
    {others : List String}
    (hSome : others ≠ [])
    (depth : Nat)
    (entry : String)
    (rest : List Char) :
    joined depth (entry :: others) ++ rest =
      (newLine (depth + 1)).toList ++
        (entry.toList ++
          ',' :: (joined depth others ++ rest)) := by
  rw [joined_more hSome]
  simp

/- The first entry comes first, whatever there is behind it. -/
theorem exists_joined_append
    (depth : Nat)
    (entry : String)
    (more : List String)
    (rest : List Char) :
    ∃ after,
      joined depth (entry :: more) ++ rest =
        (newLine (depth + 1)).toList ++
          (entry.toList ++ after) := by
  cases more with
  | nil => exact ⟨_, joined_last_append depth entry rest⟩
  | cons next more =>
      exact
        ⟨_, joined_more_append (List.cons_ne_nil _ _) depth entry
          rest⟩

theorem EndsNumber.cons
    (hOther : c.isDigit = false)
    (text : List Char) :
    EndsNumber (c :: text) := by
  rintro _ ⟨⟩
  exact hOther

theorem EndsNumber.newLine
    (depth : Nat)
    (text : List Char) :
    EndsNumber ((newLine depth).toList ++ text) := by
  rw [Json.newLine, String.toList_ofList]
  exact .cons rfl _

/- A value begins neither with a blank nor with an end. -/
theorem exists_head_write?
    {depth : Nat}
    {value : Value}
    {written : String}
    (hWritten : write? limit depth value = some written) :
    ∃ c more,
      written.toList = c :: more ∧
        isJsonBlank c = false ∧ c ≠ ']' := by
  cases value with
  | absent =>
      rw [write?] at hWritten
      cases hWritten
      exact ⟨'n', _, rfl, rfl, by decide⟩
  | truth b =>
      rw [write?] at hWritten
      cases hWritten
      cases b with
      | true => exact ⟨'t', _, rfl, rfl, by decide⟩
      | false => exact ⟨'f', _, rfl, rfl, by decide⟩
  | number n =>
      rw [write?] at hWritten
      rcases writeNumber?_eq_some_iff.mp hWritten with ⟨_, rfl⟩
      rcases exists_head_toString n with ⟨c, more, hText, hC⟩
      refine ⟨c, more, hText, ?_⟩
      rcases hC with rfl | hDigit
      · exact ⟨rfl, by decide⟩
      · exact solid_of_isDigit hDigit
  | text s =>
      rw [write?] at hWritten
      cases hWritten
      exact ⟨'"', _, toList_writeString s, rfl, by decide⟩
  | list items =>
      rcases toList_write?_list hWritten with ⟨_, _, hText⟩
      exact ⟨'[', _, hText, rfl, by decide⟩
  | record fields =>
      rcases toList_write?_record hWritten with ⟨_, _, hText⟩
      exact ⟨'{', _, hText, rfl, by decide⟩

theorem readValue?_simple
    (fuel : Nat)
    (hSolid : isJsonBlank c = false)
    (hList : c ≠ '[')
    (hRecord : c ≠ '{') :
    readValue? limit (fuel + 1) (c :: text) =
      readSimple? limit (c :: text) := by
  rw [readValue?, skipBlanks_of_solid hSolid]
  split <;> simp_all

theorem readValue?_absent
    (fuel : Nat)
    (rest : List Char) :
    readValue? limit (fuel + 1) ("null".toList ++ rest) =
      some (.absent, rest) := by
  have hText : "null".toList = ['n', 'u', 'l', 'l'] := rfl
  rw [hText]
  exact readValue?_simple fuel rfl (by decide) (by decide)

theorem readValue?_truth
    (fuel : Nat)
    (b : Bool)
    (rest : List Char) :
    readValue? limit (fuel + 1)
        ((if b then "true" else "false").toList ++ rest) =
      some (.truth b, rest) := by
  have hTrue : "true".toList = ['t', 'r', 'u', 'e'] := rfl
  have hFalse : "false".toList = ['f', 'a', 'l', 's', 'e'] := rfl
  cases b with
  | true =>
      rw [if_pos rfl, hTrue]
      exact readValue?_simple fuel rfl (by decide) (by decide)
  | false =>
      rw [if_neg Bool.false_ne_true, hFalse]
      exact readValue?_simple fuel rfl (by decide) (by decide)

theorem readValue?_number
    (fuel : Nat)
    (n : Int)
    (hLimit : limit.admitsNumber n = true)
    (hRest : EndsNumber rest) :
    readValue? limit (fuel + 1) ((toString n).toList ++ rest) =
      some (.number n, rest) := by
  rcases exists_head_toString n with ⟨c, more, hText, hC⟩
  have hSimple :
      readValue? limit (fuel + 1)
          ((toString n).toList ++ rest) =
        readSimple? limit ((toString n).toList ++ rest) := by
    rw [hText]
    rcases hC with rfl | hDigit
    · exact readValue?_simple fuel rfl (by decide) (by decide)
    · apply readValue?_simple fuel (solid_of_isDigit hDigit).1
      all_goals
        rintro rfl
        cases hDigit
  rw [hSimple, readSimple?_number n hLimit hRest]

theorem readValue?_text
    (fuel : Nat)
    (s : String)
    (rest : List Char) :
    readValue? limit (fuel + 1) ((writeString s).toList ++ rest) =
      some (.text s, rest) := by
  rw [toList_writeString, List.cons_append, List.append_assoc,
    readValue?_simple fuel rfl (by decide) (by decide),
    readSimple?]
  simp [readString?_written]

section Entries

variable {fuel depth : Nat}
variable {entry name : String}
variable {others : List String}
variable {value : Value}
variable {more : List Char}

/- The text of a list goes on with its first entry. -/
theorem exists_head_items
    {first : Value}
    (hFirst : write? limit (depth + 1) first = some entry)
    (entries : List String)
    (rest : List Char) :
    ∃ c more,
      skipBlanks (joined depth (entry :: entries) ++ rest) =
          c :: more ∧
        c ≠ ']' := by
  rcases exists_joined_append depth entry entries rest with
    ⟨after, hText⟩
  rcases exists_head_write? hFirst with
    ⟨c, more, hEntry, hSolid, hOther⟩
  refine ⟨c, more ++ after, ?_, hOther⟩
  rw [hText, skipBlanks_newLine, hEntry, List.cons_append,
    skipBlanks_of_solid hSolid]

theorem readValue?_list
    (hSkip : skipBlanks text = c :: more)
    (hOther : c ≠ ']') :
    readValue? limit (fuel + 1) ('[' :: text) =
      (readItems? limit fuel text).map fun r => (.list r.1, r.2) := by
  rw [readValue?, skipBlanks_of_solid rfl]
  simp only [hSkip]
  split <;> simp_all

theorem readItems?_last
    (hValue :
      readValue? limit fuel
          (entry.toList ++
            ((newLine depth).toList ++ ']' :: rest)) =
        some (value, (newLine depth).toList ++ ']' :: rest)) :
    readItems? limit (fuel + 1) (joined depth [entry] ++ ']' :: rest) =
      some ([value], rest) := by
  rw [joined_last_append, readItems?, readValue?_newLine,
    hValue]
  simp only [skipBlanks_newLine, @skipBlanks_of_solid ']' rfl]

theorem readItems?_more
    {items : List Value}
    (hSome : others ≠ [])
    (hValue :
      readValue? limit fuel
          (entry.toList ++
            ',' :: (joined depth others ++ ']' :: rest)) =
        some (value, ',' :: (joined depth others ++ ']' :: rest)))
    (hItems :
      readItems? limit fuel (joined depth others ++ ']' :: rest) =
        some (items, rest)) :
    readItems? limit (fuel + 1)
        (joined depth (entry :: others) ++ ']' :: rest) =
      some (value :: items, rest) := by
  rw [joined_more_append hSome, readItems?, readValue?_newLine,
    hValue]
  simp only [@skipBlanks_of_solid ',' rfl, hItems,
    Option.map_some]

/- A field begins with its name between quotation marks. -/
theorem skipBlanks_field
    (depth : Nat)
    (name entry : String)
    (after : List Char) :
    skipBlanks
        ((newLine depth).toList ++
          ((writeString name ++ ": " ++ entry).toList ++
            after)) =
      '"' ::
        (name.toList.flatMap escape ++
          '"' :: ':' :: ' ' :: (entry.toList ++ after)) := by
  rw [skipBlanks_newLine, String.toList_append,
    String.toList_append, toList_writeString, List.cons_append,
    List.cons_append, List.cons_append,
    skipBlanks_of_solid rfl]
  simp

theorem exists_head_fields
    (depth : Nat)
    (name entry : String)
    (others : List String)
    (rest : List Char) :
    ∃ more,
      skipBlanks
          (joined depth
              ((writeString name ++ ": " ++ entry) :: others) ++
            rest) =
        '"' :: more := by
  rcases
    exists_joined_append depth
      (writeString name ++ ": " ++ entry) others rest with
    ⟨after, hText⟩
  rw [hText, skipBlanks_field]
  exact ⟨_, rfl⟩

theorem readValue?_record
    (hSkip : skipBlanks text = '"' :: more) :
    readValue? limit (fuel + 1) ('{' :: text) =
      (readFields? limit fuel text).map fun r =>
        (.record r.1, r.2) := by
  rw [readValue?, skipBlanks_of_solid rfl]
  simp only [hSkip]
  split <;> simp_all

theorem readFields?_last
    (hValue :
      readValue? limit fuel
          (entry.toList ++
            ((newLine depth).toList ++ '}' :: rest)) =
        some (value, (newLine depth).toList ++ '}' :: rest)) :
    readFields? limit (fuel + 1)
        (joined depth [writeString name ++ ": " ++ entry] ++
          '}' :: rest) =
      some ([(name, value)], rest) := by
  rw [joined_last_append, readFields?, skipBlanks_field]
  simp only [readString?_name, @skipBlanks_of_solid ':' rfl,
    readValue?_blank, hValue, skipBlanks_newLine,
    @skipBlanks_of_solid '}' rfl]

theorem readFields?_more
    {fields : List (String × Value)}
    (hSome : others ≠ [])
    (hValue :
      readValue? limit fuel
          (entry.toList ++
            ',' :: (joined depth others ++ '}' :: rest)) =
        some (value, ',' :: (joined depth others ++ '}' :: rest)))
    (hFields :
      readFields? limit fuel (joined depth others ++ '}' :: rest) =
        some (fields, rest)) :
    readFields? limit (fuel + 1)
        (joined depth
            ((writeString name ++ ": " ++ entry) :: others) ++
          '}' :: rest) =
      some ((name, value) :: fields, rest) := by
  rw [joined_more_append hSome, readFields?, skipBlanks_field]
  simp only [readString?_name, @skipBlanks_of_solid ':' rfl,
    readValue?_blank, hValue, @skipBlanks_of_solid ',' rfl,
    hFields, Option.map_some]

end Entries

------------------------------------------------------------
-- Values
------------------------------------------------------------

/-
  The induction is on the values, and with them on the
  entries of lists and records. What is left of the fuel is
  never less than what is left of the text up to the end of
  the value.
-/
mutual

theorem readValue?_written
    (depth : Nat)
    (rest : List Char)
    (hRest : EndsNumber rest)
    (value : Value)
    {written : String}
    (hWritten : write? limit depth value = some written)
    (fuel : Nat)
    (hFuel : written.toList.length ≤ fuel) :
    readValue? limit fuel (written.toList ++ rest) =
      some (value, rest) := by
  cases fuel with
  | zero =>
      rcases exists_head_write? hWritten with
        ⟨c, more, hText, _⟩
      rw [hText] at hFuel
      cases hFuel
  | succ fuel =>
  cases value with
  | absent =>
      rw [write?] at hWritten
      cases hWritten
      exact readValue?_absent fuel rest
  | truth b =>
      rw [write?] at hWritten
      cases hWritten
      exact readValue?_truth fuel b rest
  | number n =>
      rw [write?] at hWritten
      rcases writeNumber?_eq_some_iff.mp hWritten with
        ⟨hLimit, rfl⟩
      exact readValue?_number fuel n hLimit hRest
  | text s =>
      rw [write?] at hWritten
      cases hWritten
      exact readValue?_text fuel s rest
  | list items =>
      rcases toList_write?_list hWritten with
        ⟨entries, hEntries, hText⟩
      rw [hText] at hFuel ⊢
      cases items with
      | nil =>
          rw [writeAll?] at hEntries
          cases hEntries
          rfl
      | cons first items =>
          have hItems :=
            readItems?_written depth rest (first :: items)
              (List.cons_ne_nil _ _) hEntries fuel
              (by simp at hFuel; omega)
          rcases writeAll?_cons hEntries with
            ⟨entry, others, hFirst, _, rfl⟩
          rcases exists_head_items hFirst others (']' :: rest)
            with ⟨c, more, hSkip, hOther⟩
          rw [List.cons_append, List.append_assoc,
            List.singleton_append, readValue?_list hSkip hOther,
            hItems]
          rfl
  | record fields =>
      rcases toList_write?_record hWritten with
        ⟨entries, hEntries, hText⟩
      rw [hText] at hFuel ⊢
      cases fields with
      | nil =>
          rw [writeFields?] at hEntries
          cases hEntries
          rfl
      | cons first fields =>
          have hFields :=
            readFields?_written depth rest (first :: fields)
              (List.cons_ne_nil _ _) hEntries fuel
              (by simp at hFuel; omega)
          rcases writeFields?_cons hEntries with
            ⟨entry, others, _, _, rfl⟩
          rcases
            exists_head_fields depth first.1 entry others
              ('}' :: rest) with ⟨more, hSkip⟩
          rw [List.cons_append, List.append_assoc,
            List.singleton_append, readValue?_record hSkip,
            hFields]
          rfl

theorem readItems?_written
    (depth : Nat)
    (rest : List Char)
    (items : List Value)
    (hSome : items ≠ [])
    {entries : List String}
    (hWritten :
      writeAll? limit (depth + 1) items = some entries)
    (fuel : Nat)
    (hFuel : (joined depth entries).length < fuel) :
    readItems? limit fuel (joined depth entries ++ ']' :: rest) =
      some (items, rest) := by
  match items, fuel with
  | [], _ => exact (hSome rfl).elim
  | _, 0 => cases hFuel
  | [value], fuel + 1 =>
      rcases writeAll?_cons hWritten with
        ⟨entry, _, hValue, hNone, rfl⟩
      rw [writeAll?] at hNone
      cases hNone
      exact
        readItems?_last
          (readValue?_written (depth + 1) _ (.newLine depth _)
            value hValue fuel
            (by simp [joined] at hFuel ⊢; omega))
  | value :: next :: more, fuel + 1 =>
      rcases writeAll?_cons hWritten with
        ⟨entry, others, hValue, hOthers, rfl⟩
      have hMore : others ≠ [] := by
        rcases writeAll?_cons hOthers with ⟨_, _, _, _, rfl⟩
        exact List.cons_ne_nil _ _
      rw [joined_more hMore] at hFuel
      exact
        readItems?_more hMore
          (readValue?_written (depth + 1) _ (.cons rfl _) value
            hValue fuel (by simp at hFuel; omega))
          (readItems?_written depth rest (next :: more)
            (List.cons_ne_nil _ _) hOthers fuel
            (by simp at hFuel; omega))

theorem readFields?_written
    (depth : Nat)
    (rest : List Char)
    (fields : List (String × Value))
    (hSome : fields ≠ [])
    {entries : List String}
    (hWritten :
      writeFields? limit (depth + 1) fields = some entries)
    (fuel : Nat)
    (hFuel : (joined depth entries).length < fuel) :
    readFields? limit fuel
        (joined depth entries ++ '}' :: rest) =
      some (fields, rest) := by
  match fields, fuel with
  | [], _ => exact (hSome rfl).elim
  | _, 0 => cases hFuel
  | [(name, value)], fuel + 1 =>
      rcases writeFields?_cons hWritten with
        ⟨entry, _, hValue, hNone, rfl⟩
      rw [writeFields?] at hNone
      cases hNone
      exact
        readFields?_last
          (readValue?_written (depth + 1) _ (.newLine depth _)
            value hValue fuel
            (by simp [joined] at hFuel ⊢; omega))
  | (name, value) :: next :: more, fuel + 1 =>
      rcases writeFields?_cons hWritten with
        ⟨entry, others, hValue, hOthers, rfl⟩
      have hMore : others ≠ [] := by
        rcases writeFields?_cons hOthers with ⟨_, _, _, _, rfl⟩
        exact List.cons_ne_nil _ _
      rw [joined_more hMore] at hFuel
      exact
        readFields?_more hMore
          (readValue?_written (depth + 1) _ (.cons rfl _) value
            hValue fuel (by simp at hFuel; omega))
          (readFields?_written depth rest (next :: more)
            (List.cons_ne_nil _ _) hOthers fuel
            (by simp at hFuel; omega))

end

end Json

------------------------------------------------------------
-- Values that are written
------------------------------------------------------------

namespace Value

mutual

/- Whether all numbers in a value keep to a limit. -/
def keepsTo
    (limit : DigitLimit) : Value → Bool
  | .number n => limit.admitsNumber n
  | .list items => allKeepTo limit items
  | .record fields => fieldsKeepTo limit fields
  | _ => true

/- Whether all numbers in the entries of a list do. -/
def allKeepTo
    (limit : DigitLimit) : List Value → Bool
  | [] => true
  | value :: rest => value.keepsTo limit && allKeepTo limit rest

/- Whether all numbers in the fields of a record do. -/
def fieldsKeepTo
    (limit : DigitLimit) : List (String × Value) → Bool
  | [] => true
  | (_, value) :: rest =>
      value.keepsTo limit && fieldsKeepTo limit rest

end

end Value

namespace Json

/- There are two results in one if there are both. -/
theorem isSome_bind_map
    {α β γ : Type}
    (first? : Option α)
    (second? : Option β)
    {pair : α → β → γ} :
    (first?.bind fun a => second?.map (pair a)).isSome =
      (first?.isSome && second?.isSome) := by
  cases first? with
  | none => rfl
  | some a =>
      rw [Option.bind_some, Option.isSome_map,
        Option.isSome_some, Bool.true_and]

mutual

/- A value is written if all its numbers keep to the limit. -/
theorem write?_isSome
    (limit : DigitLimit)
    (depth : Nat)
    (value : Value) :
    (write? limit depth value).isSome = value.keepsTo limit := by
  cases value with
  | absent => rfl
  | truth b => rfl
  | number n =>
      rw [write?, writeNumber?, Value.keepsTo]
      cases limit.admitsNumber n <;> rfl
  | text s => rfl
  | list items =>
      rw [write?, Value.keepsTo, Option.isSome_map]
      exact writeAll?_isSome limit (depth + 1) items
  | record fields =>
      rw [write?, Value.keepsTo, Option.isSome_map]
      exact writeFields?_isSome limit (depth + 1) fields

theorem writeAll?_isSome
    (limit : DigitLimit)
    (depth : Nat)
    (items : List Value) :
    (writeAll? limit depth items).isSome =
      Value.allKeepTo limit items := by
  match items with
  | [] => rfl
  | value :: rest =>
      rw [writeAll?_cons_eq_bind, Value.allKeepTo,
        ← write?_isSome limit depth value,
        ← writeAll?_isSome limit depth rest]
      exact isSome_bind_map _ _

theorem writeFields?_isSome
    (limit : DigitLimit)
    (depth : Nat)
    (fields : List (String × Value)) :
    (writeFields? limit depth fields).isSome =
      Value.fieldsKeepTo limit fields := by
  match fields with
  | [] => rfl
  | (name, value) :: rest =>
      rw [writeFields?_cons_eq_bind, Value.fieldsKeepTo,
        ← write?_isSome limit depth value,
        ← writeFields?_isSome limit depth rest]
      exact isSome_bind_map _ _

end

end Json

end Diachrony
