import Csh.RequireVersion

namespace Csh.RequireVersion

open Libc

/-!
# Version texts

`parse_version` goes through a text character by character.  It reads a number
when it comes to its first digit, and the last one again at the end; the
position of the number it is in is kept as the text from there on.
-/

/-- The locals of `parse_version` and the version it fills. -/
structure Parsing where
  versionOut : Version
  dotCount : Nat
  numberStart : Option CString
  deriving Repr, DecidableEq

/-- `*semver_out[index] = value`. -/
def Version.setPart (version : Version) (index : Nat) (value : Int) : Version :=
  match index with
  | 0 => { version with major := value }
  | 1 => { version with minor := value }
  | _ => { version with patch := value }

/-- What is returned, with the version as it is then. -/
abbrev Parsed :=
  Bool × Version

/-- The turn of the loop at index `i`, where `text` begins with `c`. -/
def parseChar
    (allowSuffix : Bool)
    (i : Nat)
    (c : Char)
    (rest : CString)
    (state : Parsing) :
    Except Parsed Parsing :=
  if c = 'v' ∨ c = 'V' then
    if 0 < i then
      .error (false, state.versionOut)
    else
      .ok { state with numberStart := none }
  else if c = '-' ∨ c = '.' then
    if state.numberStart = none then
      .error (false, state.versionOut)
    else if numVersionParts ≤ state.dotCount + 1 then
      .error (allowSuffix, state.versionOut)
    else
      .ok { state with
        dotCount := state.dotCount + 1
        numberStart := none }
  else if c.isDigit then
    if state.numberStart = none then
      let tempLongVer := (strtol 10 (c :: rest)).1
      if 2147483647 < tempLongVer then
        .error (false, state.versionOut)
      else
        .ok { state with
          versionOut := state.versionOut.setPart state.dotCount
            (toInt tempLongVer)
          numberStart := some (c :: rest) }
    else
      .ok state
  else if c = '+' ∧ rest = [] then
    .ok state
  else
    .error (false, state.versionOut)

/-- Behind the loop the last number is read once more. -/
def Parsing.finish (state : Parsing) : Parsed :=
  match state.numberStart with
  | none => (false, state.versionOut)
  | some number =>
      (true, state.versionOut.setPart state.dotCount (atoi number))

/-- The loop from index `i` on. -/
def parseLoop (allowSuffix : Bool) : Nat → CString → Parsing → Parsed
  | _, [], state => state.finish
  | i, c :: rest, state =>
      match parseChar allowSuffix i c rest state with
      | .error parsed => parsed
      | .ok next => parseLoop allowSuffix (i + 1) rest next

/-- `parse_version` on pointers that are not NULL. -/
def parseVersion (versionStr : CString) (allowSuffix : Bool) : Parsed :=
  parseLoop allowSuffix 0 versionStr ⟨⟨0, 0, 0⟩, 0, none⟩

/-- Numbers of `int` range with single separators between them. -/
inductive Numbers : CString → List Nat → Prop where
  | last
      {text : CString}
      {value : Nat}
      (numeral : IsNumeral text value)
      (int : value ≤ 2147483647) :
      Numbers text [value]
  | more
      {text later : CString}
      {value : Nat}
      {values : List Nat}
      {separator : Char}
      (numeral : IsNumeral text value)
      (int : value ≤ 2147483647)
      (isSeparator : separator = '.' ∨ separator = '-')
      (behind : Numbers later values) :
      Numbers (text ++ separator :: later) (value :: values)

/--
What may stand behind that many numbers: nothing, a dirty mark, and behind
three numbers a suffix, if it is allowed.
-/
def Ends (allowSuffix : Bool) (count : Nat) (rest : CString) : Prop :=
  count ≤ 3 ∧ (rest = [] ∨ rest = ['+']) ∨
    allowSuffix = true ∧
      count = 3 ∧
      ∃ separator suffix,
        (separator = '.' ∨ separator = '-') ∧ rest = separator :: suffix

/-- A version text with its numbers. -/
def IsVersionText
    (allowSuffix : Bool)
    (text : CString)
    (values : List Nat) :
    Prop :=
  ∃ mark numbers rest,
    text = mark ++ (numbers ++ rest) ∧
      (mark = [] ∨ mark = ['v'] ∨ mark = ['V']) ∧
      Numbers numbers values ∧
      Ends allowSuffix values.length rest

/-- The numbers in order, with zeros for those that are missing. -/
def Version.ofNumbers (values : List Nat) : Version :=
  ⟨values.getD 0 0, values.getD 1 0, values.getD 2 0⟩

/-- What may follow once that many numbers have been read. -/
def Follows
    (allowSuffix : Bool)
    (count : Nat)
    (text : CString)
    (values : List Nat) :
    Prop :=
  ∃ numbers rest,
    text = numbers ++ rest ∧
      Numbers numbers values ∧
      Ends allowSuffix (count + values.length) rest

/-- The version with these numbers from a part on. -/
def Version.fill : Version → Nat → List Nat → Version
  | version, _, [] => version
  | version, index, value :: later =>
      (version.setPart index value).fill (index + 1) later

section Grammar

variable {allowSuffix : Bool}
variable {count value : Nat}
variable {digits rest text : CString}
variable {values : List Nat}

theorem Ends.noDigitAhead
    (ends : Ends allowSuffix count rest) :
    NoDigitAhead 10 rest := by
  rcases ends with ⟨_, rfl | rfl⟩ | ⟨_, _, separator, suffix, isSeparator, rfl⟩
  · simp [NoDigitAhead]
  · simp [NoDigitAhead]
  · rcases isSeparator with rfl | rfl <;> simp [NoDigitAhead]

/-- The digits in front of a text are its first number. -/
theorem numeral_unique
    {other later : CString}
    {otherValue : Nat}
    (numeral : IsNumeral digits value)
    (ahead : NoDigitAhead 10 rest)
    (otherNumeral : IsNumeral other otherValue)
    (otherAhead : NoDigitAhead 10 later)
    (same : digits ++ rest = other ++ later) :
    digits = other ∧ value = otherValue ∧ rest = later := by
  have decimal : ∀ c ∈ digits, isDigitOf 10 c = true := by
    intro c member
    simp [numeral.2.1 c member]
  have otherDecimal : ∀ c ∈ other, isDigitOf 10 c = true := by
    intro c member
    simp [otherNumeral.2.1 c member]
  have sameDigits : digits = other := by
    rw [← takeWhile_digits decimal ahead, same,
      takeWhile_digits otherDecimal otherAhead]
  subst sameDigits
  exact
    ⟨rfl, numeral.2.2.symm.trans otherNumeral.2.2,
      List.append_cancel_left same⟩

/-- Behind a number stands the end of the text, or another number. -/
theorem follows_digits_iff
    (numeral : IsNumeral digits value)
    (ahead : NoDigitAhead 10 rest) :
    Follows allowSuffix count (digits ++ rest) values ↔
      value ≤ 2147483647 ∧
        (values = [value] ∧ Ends allowSuffix (count + 1) rest ∨
          ∃ separator suffix later,
            (separator = '.' ∨ separator = '-') ∧
              rest = separator :: suffix ∧
              values = value :: later ∧
              Follows allowSuffix (count + 1) suffix later) := by
  constructor
  · rintro ⟨numbers, behind, same, isNumbers, ends⟩
    cases isNumbers with
    | last other int =>
        obtain ⟨rfl, rfl, rfl⟩ :=
          numeral_unique numeral ahead other ends.noDigitAhead same
        exact ⟨int, .inl ⟨rfl, ends⟩⟩
    | @more text later _ values separator other int isSeparator isLater =>
        have notDigit :
            NoDigitAhead 10 (separator :: later ++ behind) := by
          rcases isSeparator with rfl | rfl <;> simp [NoDigitAhead]
        rw [List.append_assoc] at same
        obtain ⟨rfl, rfl, rfl⟩ :=
          numeral_unique numeral ahead other notDigit same
        refine
          ⟨int, .inr
            ⟨separator, _, values, isSeparator, rfl, rfl, later, behind, rfl,
              isLater, ?_⟩⟩
        rwa [List.length_cons, Nat.add_comm values.length, ← Nat.add_assoc]
          at ends
  · rintro ⟨int, ⟨rfl, ends⟩ | ⟨separator, suffix, later, isSeparator, rfl,
      rfl, numbers, behind, rfl, isLater, ends⟩⟩
    · exact ⟨digits, rest, rfl, .last numeral int, ends⟩
    · refine
        ⟨digits ++ separator :: numbers, behind, by simp,
          .more numeral int isSeparator isLater, ?_⟩
      rwa [List.length_cons, Nat.add_comm later.length, ← Nat.add_assoc]

/-- A text that does not begin with a digit has no number in front. -/
theorem not_follows
    (ahead : NoDigitAhead 10 text) :
    ¬ Follows allowSuffix count text values := by
  rintro ⟨numbers, rest, rfl, isNumbers, _⟩
  have begins :
      ∃ c later, numbers = c :: later ∧ c.isDigit = true := by
    cases isNumbers with
    | last numeral _ =>
        obtain ⟨c, later, rfl⟩ := List.exists_cons_of_ne_nil numeral.1
        exact ⟨c, later, rfl, numeral.2.1 c List.mem_cons_self⟩
    | more numeral _ _ _ =>
        obtain ⟨c, later, rfl⟩ := List.exists_cons_of_ne_nil numeral.1
        exact ⟨c, _, rfl, numeral.2.1 c List.mem_cons_self⟩
  obtain ⟨c, later, rfl, isDigit⟩ := begins
  have noDigit := ahead c (by simp)
  simp [isDigit] at noDigit

end Grammar

section Loop

variable {allowSuffix : Bool}
variable {i value : Nat}
variable {digits rest text : CString}
variable {state : Parsing}
variable {version : Version}

@[simp] theorem setPart_setPart
    (version : Version)
    (index : Nat)
    (value other : Int) :
    (version.setPart index value).setPart index other =
      version.setPart index other := by
  rcases index with _ | _ | index <;> rfl

/-- The first digit of a number reads it, the others do nothing. -/
theorem parseChar_digit
    {c : Char}
    (isDigit : c.isDigit = true) :
    parseChar allowSuffix i c rest state =
      if state.numberStart = none then
        if 2147483647 < (strtol 10 (c :: rest)).1 then
          .error (false, state.versionOut)
        else
          .ok { state with
            versionOut := state.versionOut.setPart state.dotCount
              (toInt (strtol 10 (c :: rest)).1)
            numberStart := some (c :: rest) }
      else
        .ok state := by
  have notMark : ¬ (c = 'v' ∨ c = 'V') := by
    rintro (rfl | rfl) <;> simp at isDigit
  have notSeparator : ¬ (c = '-' ∨ c = '.') := by
    rintro (rfl | rfl) <;> simp at isDigit
  simp only [parseChar, notMark, notSeparator, isDigit, ↓reduceIte]

/-- The loop goes over the digits of the number it is in. -/
theorem parseLoop_digits
    (decimal : ∀ c ∈ digits, c.isDigit = true)
    (inside : state.numberStart ≠ none) :
    parseLoop allowSuffix i (digits ++ rest) state =
      parseLoop allowSuffix (i + digits.length) rest state := by
  induction digits generalizing i with
  | nil =>
      rfl
  | cons c digits inductionHypothesis =>
      have isDigit := decimal c List.mem_cons_self
      rw [List.cons_append, parseLoop, parseChar_digit isDigit,
        if_neg inside]
      dsimp only
      rw [inductionHypothesis fun d member =>
        decimal d (List.mem_cons_of_mem c member)]
      rw [List.length_cons, Nat.add_comm digits.length, Nat.add_assoc]

theorem strtol_digits
    (numeral : IsNumeral digits value)
    (ahead : NoDigitAhead 10 rest) :
    (strtol 10 (digits ++ rest)).1 = toLong value := by
  obtain ⟨nonempty, decimal, isValue⟩ := numeral
  rw [strtol, scanNumeral_digits nonempty
    (fun c member => by simp [decimal c member]) (skipHexMark_ten _) ahead]
  simp [Numeral.value, isValue]

/-- The loop reads a number of `int` range and goes on behind it. -/
theorem parseLoop_number
    (numeral : IsNumeral digits value)
    (ahead : NoDigitAhead 10 rest)
    (fresh : state.numberStart = none) :
    parseLoop allowSuffix i (digits ++ rest) state =
      if value ≤ 2147483647 then
        parseLoop allowSuffix (i + digits.length) rest
          { state with
            versionOut := state.versionOut.setPart state.dotCount value
            numberStart := some (digits ++ rest) }
      else
        (false, state.versionOut) := by
  have scanned := strtol_digits numeral ahead
  obtain ⟨nonempty, decimal, _⟩ := numeral
  obtain ⟨c, later, rfl⟩ := List.exists_cons_of_ne_nil nonempty
  rw [List.cons_append] at scanned ⊢
  rw [parseLoop, parseChar_digit (decimal c List.mem_cons_self),
    if_pos fresh, scanned]
  by_cases int : value ≤ 2147483647
  · have small : ¬ 2147483647 < toLong value := by
      unfold toLong
      omega
    rw [if_pos int, if_neg small, toInt_toLong_of_lt (by omega)]
    dsimp only
    rw [parseLoop_digits
      (fun d member => decimal d (List.mem_cons_of_mem c member))
      (Option.some_ne_none _)]
    rw [List.length_cons, Nat.add_comm later.length, Nat.add_assoc]
  · have large : 2147483647 < toLong value := by
      unfold toLong
      omega
    rw [if_neg int, if_pos large]

/-- Where no number begins nothing is accepted. -/
theorem parseLoop_refuses
    (ahead : NoDigitAhead 10 text)
    (fresh : state.numberStart = none)
    (unmarked : ∀ c ∈ text.head?, c = 'v' ∨ c = 'V' → 0 < i) :
    (parseLoop allowSuffix i text state).1 = false := by
  cases text with
  | nil =>
      simp [parseLoop, Parsing.finish, fresh]
  | cons c rest =>
      have notDigit : c.isDigit = false := by
        simpa using ahead c rfl
      rw [parseLoop]
      by_cases mark : c = 'v' ∨ c = 'V'
      · simp [parseChar, mark, unmarked c rfl mark]
      · by_cases separator : c = '-' ∨ c = '.'
        · simp [parseChar, mark, separator, fresh]
        · by_cases dirty : c = '+' ∧ rest = []
          · obtain ⟨rfl, rfl⟩ := dirty
            simp [parseChar, parseLoop, Parsing.finish, fresh]
          · simp [parseChar, mark, separator, notDigit, dirty]

/-- What the loop makes of the text behind a number. -/
theorem parseLoop_behind_number
    {number : CString}
    (ahead : NoDigitAhead 10 rest)
    (later : 0 < i)
    (inside : state.numberStart = some number) :
    parseLoop allowSuffix i rest state = (true, version) ↔
      (rest = [] ∨ rest = ['+']) ∧
          version = state.versionOut.setPart state.dotCount (atoi number) ∨
        ∃ separator suffix,
          (separator = '.' ∨ separator = '-') ∧
            rest = separator :: suffix ∧
            if numVersionParts ≤ state.dotCount + 1 then
              allowSuffix = true ∧ version = state.versionOut
            else
              parseLoop allowSuffix (i + 1) suffix
                  { state with
                    dotCount := state.dotCount + 1
                    numberStart := none } =
                (true, version) := by
  cases rest with
  | nil =>
      simp [parseLoop, Parsing.finish, inside, eq_comm]
  | cons c suffix =>
      have notDigit : c.isDigit = false := by
        simpa using ahead c rfl
      rw [parseLoop]
      by_cases mark : c = 'v' ∨ c = 'V'
      · have other : c ≠ '+' ∧ c ≠ '.' ∧ c ≠ '-' := by
          rcases mark with rfl | rfl <;> decide
        simp [parseChar, mark, later, other]
      · by_cases separator : c = '-' ∨ c = '.'
        · have turn :
              parseChar allowSuffix i c suffix state =
                if numVersionParts ≤ state.dotCount + 1 then
                  .error (allowSuffix, state.versionOut)
                else
                  .ok { state with
                    dotCount := state.dotCount + 1
                    numberStart := none } := by
            simp [parseChar, mark, separator, inside]
          have notEnding : ¬ (c :: suffix = [] ∨ c :: suffix = ['+']) := by
            rcases separator with rfl | rfl <;> simp
          rw [turn]
          by_cases many : numVersionParts ≤ state.dotCount + 1
          · simp only [if_pos many, notEnding, false_and, false_or]
            constructor
            · intro result
              obtain ⟨rfl, rfl⟩ := Prod.mk.inj result
              exact ⟨c, suffix, separator.symm, rfl, rfl, rfl⟩
            · rintro ⟨_, _, _, _, rfl, rfl⟩
              rfl
          · simp only [if_neg many, notEnding, false_and, false_or]
            constructor
            · intro result
              exact ⟨c, suffix, separator.symm, rfl, result⟩
            · rintro ⟨_, _, _, same, result⟩
              obtain ⟨rfl, rfl⟩ := List.cons.inj same
              exact result
        · have notSeparator : ¬ (c = '.' ∨ c = '-') :=
            fun isSeparator => separator isSeparator.symm
          rw [not_or] at notSeparator
          by_cases dirty : c = '+' ∧ suffix = []
          · obtain ⟨rfl, rfl⟩ := dirty
            simp [parseChar, parseLoop, Parsing.finish, inside, eq_comm]
          · simp [parseChar, mark, notSeparator, notDigit, dirty]

/-- Behind three numbers only a suffix may follow. -/
theorem Follows.few
    {count : Nat}
    {values : List Nat}
    (follows : Follows allowSuffix count text values) :
    count < 3 := by
  obtain ⟨numbers, rest, _, isNumbers, ends⟩ := follows
  have some : 0 < values.length := by
    cases isNumbers <;> simp
  rcases ends with ⟨few, _⟩ | ⟨_, three, _⟩
  · omega
  · omega

/-- In front of a number the loop accepts the numbers that may follow. -/
theorem parseLoop_eq_true_iff
    (fresh : state.numberStart = none)
    (few : state.dotCount < 3)
    (unmarked : ∀ c ∈ text.head?, c = 'v' ∨ c = 'V' → 0 < i) :
    parseLoop allowSuffix i text state = (true, version) ↔
      ∃ values,
        Follows allowSuffix state.dotCount text values ∧
          version = state.versionOut.fill state.dotCount values := by
  induction length : text.length using Nat.strong_induction_on
    generalizing i text state with
  | h _ inductionHypothesis =>
  subst length
  obtain ⟨digits, rest, rfl, decimal, ahead⟩ := exists_digits_append text
  by_cases none : digits = []
  · subst none
    refine iff_of_false (fun accepted => ?_) ?_
    · have refused := @parseLoop_refuses allowSuffix i _ _ ahead fresh unmarked
      rw [List.nil_append] at accepted
      simp [accepted] at refused
    · rintro ⟨values, follows, _⟩
      exact not_follows ahead follows
  · have numeral : IsNumeral digits (digitsValue 10 digits) :=
      ⟨none, decimal, rfl⟩
    have longer : 0 < digits.length := List.length_pos_iff.mpr none
    generalize digitsValue 10 digits = value at numeral
    rw [parseLoop_number numeral ahead fresh]
    simp only [follows_digits_iff numeral ahead]
    by_cases int : value ≤ 2147483647
    · have read : atoi (digits ++ rest) = value := by
        rw [atoi, strtol_digits numeral ahead, toInt_toLong_of_lt (by omega)]
      rw [if_pos int, parseLoop_behind_number ahead (by omega) rfl, read]
      dsimp only
      rw [setPart_setPart]
      constructor
      · rintro (⟨ending, rfl⟩ | ⟨separator, suffix, isSeparator, rfl, goesOn⟩)
        · refine ⟨[value], ⟨int, .inl ⟨rfl, .inl ⟨few, ending⟩⟩⟩, rfl⟩
        · by_cases many : numVersionParts ≤ state.dotCount + 1
          · rw [if_pos many] at goesOn
            obtain ⟨allowed, rfl⟩ := goesOn
            have three : state.dotCount + 1 = 3 :=
              Nat.le_antisymm few many
            exact
              ⟨[value], ⟨int, .inl ⟨rfl, .inr
                ⟨allowed, three, separator, suffix, isSeparator, rfl⟩⟩⟩, rfl⟩
          · rw [if_neg many] at goesOn
            have fewer : state.dotCount + 1 < 3 := Nat.lt_of_not_le many
            obtain ⟨values, follows, rfl⟩ :=
              (inductionHypothesis suffix.length (by simp; omega) rfl fewer
                (fun _ _ _ => Nat.succ_pos _) rfl).mp goesOn
            exact
              ⟨value :: values, ⟨int, .inr
                ⟨separator, suffix, values, isSeparator, rfl, rfl, follows⟩⟩,
                rfl⟩
      · rintro ⟨values, ⟨_, ⟨rfl, ends⟩ | ⟨separator, suffix, later,
          isSeparator, rfl, rfl, follows⟩⟩, rfl⟩
        · rcases ends with ⟨_, ending⟩ |
            ⟨allowed, three, separator, suffix, isSeparator, rfl⟩
          · exact .inl ⟨ending, rfl⟩
          · refine .inr ⟨separator, suffix, isSeparator, rfl, ?_⟩
            have many : numVersionParts ≤ state.dotCount + 1 :=
              le_of_eq three.symm
            rw [if_pos many]
            exact ⟨allowed, rfl⟩
        · refine .inr ⟨separator, suffix, isSeparator, rfl, ?_⟩
          have fewer : ¬ numVersionParts ≤ state.dotCount + 1 :=
            Nat.not_le.mpr follows.few
          rw [if_neg fewer]
          exact
            (inductionHypothesis suffix.length (by simp; omega) rfl
              follows.few (fun _ _ _ => Nat.succ_pos _) rfl).mpr
              ⟨later, follows, rfl⟩
    · rw [if_neg int]
      simp [int]

end Loop

section Texts

variable {allowSuffix : Bool}
variable {text : CString}
variable {values : List Nat}

/-- A version text is its numbers, behind one `v` or none. -/
theorem isVersionText_iff :
    IsVersionText allowSuffix text values ↔
      Follows allowSuffix 0 text values ∨
        ∃ mark rest,
          (mark = 'v' ∨ mark = 'V') ∧
            text = mark :: rest ∧ Follows allowSuffix 0 rest values := by
  simp only [IsVersionText, Follows, Nat.zero_add]
  constructor
  · rintro ⟨mark, numbers, rest, rfl, rfl | rfl | rfl, isNumbers, ends⟩
    · exact .inl ⟨numbers, rest, rfl, isNumbers, ends⟩
    · exact .inr ⟨'v', _, .inl rfl, rfl, numbers, rest, rfl, isNumbers, ends⟩
    · exact .inr ⟨'V', _, .inr rfl, rfl, numbers, rest, rfl, isNumbers, ends⟩
  · rintro (⟨numbers, rest, rfl, isNumbers, ends⟩ |
      ⟨mark, _, isMark, rfl, numbers, rest, rfl, isNumbers, ends⟩)
    · exact ⟨[], numbers, rest, rfl, .inl rfl, isNumbers, ends⟩
    · refine ⟨[mark], numbers, rest, rfl, .inr ?_, isNumbers, ends⟩
      rcases isMark with rfl | rfl
      · exact .inl rfl
      · exact .inr rfl

/-- Up to three numbers fill the parts in order. -/
theorem Follows.fill_eq
    (follows : Follows allowSuffix 0 text values) :
    Version.fill ⟨0, 0, 0⟩ 0 values = Version.ofNumbers values := by
  have atMostThree : values.length ≤ 3 := by
    obtain ⟨_, _, _, _, ⟨few, _⟩ | ⟨_, three, _⟩⟩ := follows
    · omega
    · omega
  rcases values with _ | ⟨major, _ | ⟨minor, _ | ⟨patch, _ | ⟨_, _⟩⟩⟩⟩
  · rfl
  · rfl
  · rfl
  · rfl
  · simp only [List.length_cons] at atMostThree
    omega

end Texts

/--
`parse_version` accepts exactly the version texts, and gives their numbers in
order, with zeros for missing ones.
-/
theorem parseVersion_eq_true_iff
    (versionStr : CString)
    (allowSuffix : Bool)
    (version : Version) :
    parseVersion versionStr allowSuffix = (true, version) ↔
      ∃ values,
        IsVersionText allowSuffix versionStr values ∧
          version = Version.ofNumbers values := by
  have numbers :
      ∀ text : CString,
        (∃ values,
            Follows allowSuffix 0 text values ∧
              version = Version.fill ⟨0, 0, 0⟩ 0 values) ↔
          ∃ values,
            Follows allowSuffix 0 text values ∧
              version = Version.ofNumbers values := by
    intro text
    refine exists_congr fun values => and_congr_right fun follows => ?_
    rw [follows.fill_eq]
  simp only [isVersionText_iff]
  by_cases marked : ∃ mark rest,
      (mark = 'v' ∨ mark = 'V') ∧ versionStr = mark :: rest
  · obtain ⟨mark, rest, isMark, rfl⟩ := marked
    have turn :
        parseVersion (mark :: rest) allowSuffix =
          parseLoop allowSuffix 1 rest ⟨⟨0, 0, 0⟩, 0, none⟩ := by
      simp [parseVersion, parseLoop, parseChar, isMark]
    have noNumber :
        ∀ values, ¬ Follows allowSuffix 0 (mark :: rest) values := by
      intro values
      refine not_follows ?_
      rcases isMark with rfl | rfl <;> simp [NoDigitAhead]
    rw [turn, parseLoop_eq_true_iff rfl (by decide)
      fun _ _ _ => Nat.succ_pos 0]
    rw [numbers rest]
    refine exists_congr fun values => and_congr_left' ?_
    constructor
    · intro follows
      exact .inr ⟨mark, rest, isMark, rfl, follows⟩
    · rintro (follows | ⟨_, _, _, same, follows⟩)
      · exact absurd follows (noNumber values)
      · obtain ⟨rfl, rfl⟩ := List.cons.inj same
        exact follows
  · have unmarked :
        ∀ c ∈ versionStr.head?, c = 'v' ∨ c = 'V' → 0 < 0 := by
      intro c first isMark
      obtain ⟨rest, rfl⟩ := List.head?_eq_some_iff.mp first
      exact absurd ⟨c, rest, isMark, rfl⟩ marked
    rw [parseVersion, parseLoop_eq_true_iff rfl (by decide) unmarked]
    rw [numbers versionStr]
    refine exists_congr fun values => and_congr_left' ?_
    refine (or_iff_left ?_).symm
    rintro ⟨mark, rest, isMark, same, _⟩
    exact marked ⟨mark, rest, isMark, same⟩

example : parseVersion "2.5-36-g3b8a51f+".toList true = (true, ⟨2, 5, 36⟩) := by
  rfl

end Csh.RequireVersion
