import Csh.Lib.CString
import Mathlib.Algebra.Order.Ring.Int
import Mathlib.Data.List.Induction

namespace Csh.Libc

/-!
# Numbers in C strings

`strtol`, `strtoul`, `atoi` and the `%d` conversion of `sscanf` share one
scanner: blanks are skipped, one sign may follow, and the digits are taken up
to the first character that is none.  `long` has 64 bits and saturates, `int`
has 32 bits and is cut from a `long`, as on the supported platforms.
-/

/-- The number one digit character stands for, for bases up to sixteen. -/
def digitValue? (c : Char) : Option Nat :=
  if c.isDigit then
    some (c.toNat - '0'.toNat)
  else if 'a' ≤ c ∧ c ≤ 'f' then
    some (c.toNat - 'a'.toNat + 10)
  else if 'A' ≤ c ∧ c ≤ 'F' then
    some (c.toNat - 'A'.toNat + 10)
  else
    none

/-- A digit of the given base. -/
def isDigitOf (base : Nat) (c : Char) : Bool :=
  match digitValue? c with
  | some digit => digit < base
  | none => false

/-- The number a digit sequence denotes. -/
def digitsValue (base : Nat) (digits : List Char) : Nat :=
  digits.foldl (fun value c => value * base + (digitValue? c).getD 0) 0

/-- A scanned number: its sign, its digits and the text behind them. -/
structure Numeral where
  negative : Bool
  digits : List Char
  rest : CString
  deriving DecidableEq

/-- An optional sign in front of a number. -/
def scanSign : CString → Bool × CString
  | '-' :: rest => (true, rest)
  | '+' :: rest => (false, rest)
  | text => (false, text)

/-- In base sixteen a `0x` is skipped when a digit follows it. -/
def skipHexMark (base : Nat) (text : CString) : CString :=
  match text with
  | '0' :: mark :: c :: rest =>
      if base = 16 ∧ (mark = 'x' ∨ mark = 'X') ∧ isDigitOf 16 c = true then
        c :: rest
      else
        text
  | _ => text

/-- The number at the start of a text, if there is one. -/
def scanNumeral (base : Nat) (text : CString) : Option Numeral :=
  let signed := scanSign (text.dropWhile isspace)
  let body := skipHexMark base signed.2
  let digits := body.takeWhile (isDigitOf base)
  if digits = [] then
    none
  else
    some {
      negative := signed.1
      digits := digits
      rest := body.dropWhile (isDigitOf base)
    }

/-- The signed value of a scanned number, before it is cut to a C type. -/
def Numeral.value (base : Nat) (numeral : Numeral) : Int :=
  if numeral.negative then
    -(digitsValue base numeral.digits : Int)
  else
    digitsValue base numeral.digits

/-- `strtol` saturates at the ends of `long`. -/
def toLong (value : Int) : Int :=
  max (-2 ^ 63) (min value (2 ^ 63 - 1))

/-- Conversion of a `long` to `int`. -/
def toInt (value : Int) : Int :=
  value.bmod (2 ^ 32)

/-- Conversion of an `int` to `unsigned int`. -/
def toUnsigned (value : Int) : Nat :=
  (value % 2 ^ 32).toNat

/-- `strtol`, with the text its end pointer is left at. -/
def strtol (base : Nat) (text : CString) : Int × CString :=
  match scanNumeral base text with
  | none => (0, text)
  | some numeral => (toLong (numeral.value base), numeral.rest)

/-- `strtoul`: too large a number gives `ULONG_MAX`, a sign wraps. -/
def strtoul (base : Nat) (text : CString) : Nat × CString :=
  match scanNumeral base text with
  | none => (0, text)
  | some numeral =>
      if 2 ^ 64 ≤ digitsValue base numeral.digits then
        (2 ^ 64 - 1, numeral.rest)
      else
        ((numeral.value base % 2 ^ 64).toNat, numeral.rest)

/-- `atoi` is `strtol` in base ten, converted to `int`. -/
def atoi (text : CString) : Int :=
  toInt (strtol 10 text).1

/-- The `%d` conversion of `sscanf`: the value and the unread text. -/
def scanInt (text : CString) : Option (Int × CString) :=
  (scanNumeral 10 text).map fun numeral =>
    (toInt (toLong (numeral.value 10)), numeral.rest)

/-- The `%u` conversion of `fscanf`, into an `unsigned int`. -/
def scanUnsigned (text : CString) : Option Nat :=
  (scanNumeral 10 text).map fun _ => (strtoul 10 text).1 % 2 ^ 32

/-- A text that is a decimal numeral of `value`: digits and nothing else. -/
def IsNumeral (text : CString) (value : Nat) : Prop :=
  text ≠ [] ∧ (∀ c ∈ text, c.isDigit = true) ∧ digitsValue 10 text = value

/-- A text that is a decimal integer: an optional sign and digits. -/
def IsInteger (text : CString) : Prop :=
  (scanSign text).2 ≠ [] ∧ ∀ c ∈ (scanSign text).2, c.isDigit = true

/-- A decimal digit is read as its distance from `0`. -/
theorem digitValue?_of_isDigit
    {c : Char}
    (isDigit : c.isDigit = true) :
    digitValue? c = some (c.toNat - '0'.toNat) := by
  simp [digitValue?, isDigit]

/-- The code of a decimal digit lies between those of `0` and `9`. -/
theorem toNat_of_isDigit
    {c : Char}
    (isDigit : c.isDigit = true) :
    48 ≤ c.toNat ∧ c.toNat ≤ 57 := by
  simp only [Char.isDigit, ge_iff_le, Bool.and_eq_true, decide_eq_true_eq,
    UInt32.le_iff_toNat_le] at isDigit
  exact isDigit

/-- The digits of base ten are the decimal digits. -/
@[simp] theorem isDigitOf_ten
    (c : Char) :
    isDigitOf 10 c = c.isDigit := by
  by_cases isDigit : c.isDigit = true
  · have range := toNat_of_isDigit isDigit
    simp only [isDigitOf, digitValue?_of_isDigit isDigit, isDigit,
      decide_eq_true_eq, Char.reduceToNat]
    omega
  · simp only [isDigitOf, digitValue?, isDigit, Bool.false_eq_true, ↓reduceIte]
    split <;> rename_i found
    · split at found
      · simp only [Option.some.injEq] at found
        subst found
        simp
      · split at found
        · simp only [Option.some.injEq] at found
          subst found
          simp
        · simp at found
    · rfl

/-- A `0x` with no digit behind it is not skipped. -/
theorem skipHexMark_of_short
    {base : Nat}
    {text : CString}
    (short : text.length ≤ 2) :
    skipHexMark base text = text := by
  unfold skipHexMark
  split
  · simp only [List.length_cons] at short
    omega
  · rfl

/-- No `0x` is skipped in base ten. -/
@[simp] theorem skipHexMark_ten
    (text : CString) :
    skipHexMark 10 text = text := by
  unfold skipHexMark
  split <;> simp

/-- A decimal digit differs from every character that is none. -/
theorem ne_of_isDigit
    {c d : Char}
    (isDigit : c.isDigit = true)
    (notDigit : d.isDigit = false) :
    c ≠ d := by
  rintro rfl
  simp [isDigit] at notDigit

/-- A digit of any base differs from every character without a value. -/
theorem ne_of_isDigitOf
    {base : Nat}
    {c d : Char}
    (isDigit : isDigitOf base c = true)
    (noValue : digitValue? d = none) :
    c ≠ d := by
  rintro rfl
  simp [isDigitOf, noValue] at isDigit

/-- A digit is no blank. -/
theorem isspace_of_isDigitOf
    {base : Nat}
    {c : Char}
    (isDigit : isDigitOf base c = true) :
    isspace c = false := by
  simp only [isspace, Bool.or_eq_false_iff, beq_eq_false_iff_ne]
  refine ⟨⟨⟨⟨⟨?_, ?_⟩, ?_⟩, ?_⟩, ?_⟩, ?_⟩ <;>
    exact ne_of_isDigitOf isDigit (by decide)

/-- A digit in front is no sign. -/
theorem scanSign_of_isDigitOf
    {base : Nat}
    {c : Char}
    (isDigit : isDigitOf base c = true)
    (rest : CString) :
    scanSign (c :: rest) = (false, c :: rest) := by
  have notMinus : c ≠ '-' :=
    ne_of_isDigitOf isDigit (by decide)
  have notPlus : c ≠ '+' :=
    ne_of_isDigitOf isDigit (by decide)
  unfold scanSign
  split
  · simp_all
  · simp_all
  · rfl

/-- Another decimal digit at the end adds its value to ten times the rest. -/
theorem digitsValue_concat
    (base : Nat)
    (digits : List Char)
    (c : Char) :
    digitsValue base (digits ++ [c]) =
      digitsValue base digits * base + (digitValue? c).getD 0 := by
  simp [digitsValue]

/-- A digit of a base is below it. -/
theorem digitValue?_lt
    {base : Nat}
    {c : Char}
    (isDigit : isDigitOf base c = true) :
    (digitValue? c).getD 0 < base := by
  unfold isDigitOf at isDigit
  cases digit : digitValue? c with
  | none =>
      simp [digit] at isDigit
  | some value =>
      simpa [digit] using isDigit

/-- A number is below the power of its base given by its length. -/
theorem digitsValue_lt_pow
    {base : Nat}
    {digits : List Char}
    (allDigits : ∀ c ∈ digits, isDigitOf base c = true) :
    digitsValue base digits < base ^ digits.length := by
  induction digits using List.reverseRecOn with
  | nil =>
      simp [digitsValue]
  | append_singleton digits c inductionHypothesis =>
      have lastDigit :=
        digitValue?_lt (allDigits c (by simp))
      have leading :=
        inductionHypothesis fun d member => allDigits d (by simp [member])
      rw [digitsValue_concat, List.length_append, List.length_singleton,
        pow_succ]
      calc
        digitsValue base digits * base + (digitValue? c).getD 0
            < digitsValue base digits * base + base := by
          omega
        _ = (digitsValue base digits + 1) * base := by
          rw [Nat.add_mul, Nat.one_mul]
        _ ≤ base ^ digits.length * base :=
          Nat.mul_le_mul_right base leading

/-- The text behind a number does not go on with a digit of the base. -/
def NoDigitAhead (base : Nat) (rest : CString) : Prop :=
  ∀ c ∈ rest.head?, isDigitOf base c = false

/-- The digits of a number are taken up to the text behind it. -/
theorem takeWhile_digits
    {base : Nat}
    {digits rest : CString}
    (allDigits : ∀ c ∈ digits, isDigitOf base c = true)
    (ahead : NoDigitAhead base rest) :
    (digits ++ rest).takeWhile (isDigitOf base) = digits := by
  rw [List.takeWhile_append_of_pos allDigits]
  cases rest with
  | nil =>
      simp
  | cons c rest =>
      have stop : isDigitOf base c = false :=
        ahead c (by simp)
      simp [stop]

/-- Dropping the digits of a number leaves the text behind it. -/
theorem dropWhile_digits
    {base : Nat}
    {digits rest : CString}
    (allDigits : ∀ c ∈ digits, isDigitOf base c = true)
    (ahead : NoDigitAhead base rest) :
    (digits ++ rest).dropWhile (isDigitOf base) = rest := by
  rw [List.dropWhile_append_of_pos allDigits]
  cases rest with
  | nil =>
      rfl
  | cons c rest =>
      have stop : isDigitOf base c = false :=
        ahead c (by simp)
      simp [stop]

/-- Every text begins with some decimal digits, possibly none. -/
theorem exists_digits_append
    (text : CString) :
    ∃ digits rest,
      text = digits ++ rest ∧
        (∀ c ∈ digits, c.isDigit = true) ∧
        NoDigitAhead 10 rest := by
  refine
    ⟨text.takeWhile Char.isDigit, text.dropWhile Char.isDigit,
      List.takeWhile_append_dropWhile.symm,
      fun c member => List.mem_takeWhile_imp member, ?_⟩
  intro c first
  have stops := List.head?_dropWhile_not Char.isDigit text
  rw [Option.mem_def.mp first] at stops
  simpa using stops

/-- Digits in front of anything but a digit are scanned as one number. -/
theorem scanNumeral_digits
    {base : Nat}
    {digits rest : CString}
    (nonempty : digits ≠ [])
    (allDigits : ∀ c ∈ digits, isDigitOf base c = true)
    (unmarked : skipHexMark base (digits ++ rest) = digits ++ rest)
    (ahead : NoDigitAhead base rest) :
    scanNumeral base (digits ++ rest) = some ⟨false, digits, rest⟩ := by
  obtain ⟨c, later, rfl⟩ := List.exists_cons_of_ne_nil nonempty
  have headDigit : isDigitOf base c = true :=
    allDigits c (by simp)
  have noBlank :
      (c :: later ++ rest).dropWhile isspace = c :: later ++ rest := by
    simp [isspace_of_isDigitOf headDigit]
  have unsigned :
      scanSign (c :: later ++ rest) = (false, c :: later ++ rest) :=
    scanSign_of_isDigitOf headDigit (later ++ rest)
  simp only [scanNumeral, noBlank, unsigned, unmarked,
    takeWhile_digits allDigits ahead, dropWhile_digits allDigits ahead]
  simp

/-- Skipping leading characters of a kind loses no other character. -/
theorem mem_dropWhile_of_not
    {kind : Char → Bool}
    {text : CString}
    {c : Char}
    (member : c ∈ text)
    (other : kind c = false) :
    c ∈ text.dropWhile kind := by
  rw [← @List.takeWhile_append_dropWhile _ kind text] at member
  rcases List.mem_append.mp member with skipped | kept
  · have isKind := List.mem_takeWhile_imp skipped
    simp [other] at isKind
  · exact kept

/-- Taking a sign loses no other character. -/
theorem mem_scanSign_of_ne
    {text : CString}
    {c : Char}
    (member : c ∈ text)
    (noSign : c ≠ '-' ∧ c ≠ '+') :
    c ∈ (scanSign text).2 := by
  unfold scanSign
  split
  · exact (List.mem_cons.mp member).resolve_left noSign.1
  · exact (List.mem_cons.mp member).resolve_left noSign.2
  · exact member

theorem length_scanSign_le
    (text : CString) :
    (scanSign text).2.length ≤ text.length := by
  unfold scanSign
  split
  · exact Nat.le_succ _
  · exact Nat.le_succ _
  · exact Nat.le_refl _

/-- Scanning a decimal number keeps every character no number is made of. -/
theorem mem_rest_of_scanInt
    {text rest : CString}
    {value : Int}
    {c : Char}
    (scanned : scanInt text = some (value, rest))
    (member : c ∈ text)
    (noBlank : isspace c = false)
    (noSign : c ≠ '-' ∧ c ≠ '+')
    (noDigit : c.isDigit = false) :
    c ∈ rest := by
  obtain ⟨numeral, found, same⟩ := Option.map_eq_some_iff.mp scanned
  have behindBlanks : c ∈ text.dropWhile isspace :=
    mem_dropWhile_of_not member noBlank
  have behindSign : c ∈ (scanSign (text.dropWhile isspace)).2 :=
    mem_scanSign_of_ne behindBlanks noSign
  have behindDigits :
      c ∈ ((scanSign (text.dropWhile isspace)).2).dropWhile
        (isDigitOf 10) :=
    mem_dropWhile_of_not behindSign (by simp [noDigit])
  simp only [scanNumeral, skipHexMark_ten] at found
  split at found
  · simp at found
  · simp only [Option.some.injEq] at found
    subst found
    simp only [Prod.mk.injEq] at same
    rw [← same.2]
    exact behindDigits

/-- No number starts at a character that no number is made of. -/
theorem scanInt_cons_eq_none
    {c : Char}
    (noBlank : isspace c = false)
    (noSign : c ≠ '-' ∧ c ≠ '+')
    (noDigit : c.isDigit = false)
    (rest : CString) :
    scanInt (c :: rest) = none := by
  have unsigned : scanSign (c :: rest) = (false, c :: rest) := by
    unfold scanSign
    split
    · simp_all
    · simp_all
    · rfl
  simp [scanInt, scanNumeral, noBlank, unsigned, noDigit]

/-- Every `int` lies between its two ends. -/
theorem toInt_range
    (value : Int) :
    -2 ^ 31 ≤ toInt value ∧ toInt value < 2 ^ 31 := by
  have lower := @Int.le_bmod value (2 ^ 32) (by decide)
  have upper := @Int.bmod_lt value (2 ^ 32) (by decide)
  unfold toInt
  omega

/-- A number in the range of `int` is kept. -/
theorem toInt_of_range
    {value : Int}
    (small : -2 ^ 31 ≤ value ∧ value < 2 ^ 31) :
    toInt value = value :=
  Int.bmod_eq_of_le (by omega) (by omega)

/-- An `int` survives the conversion to `long` and back. -/
theorem toInt_toLong_of_range
    {value : Int}
    (small : -2 ^ 31 ≤ value ∧ value < 2 ^ 31) :
    toInt (toLong value) = value := by
  have kept : toLong value = value := by
    rw [toLong, min_eq_left (by omega), max_eq_right (by omega)]
  rw [kept, toInt_of_range small]

theorem toInt_toLong_of_lt
    {value : Nat}
    (small : value < 2 ^ 31) :
    toInt (toLong value) = value :=
  toInt_toLong_of_range (by omega)

/-- A numeral is scanned to its end. -/
theorem scanNumeral_of_isNumeral
    {text : CString}
    {value : Nat}
    (numeral : IsNumeral text value) :
    scanNumeral 10 text = some ⟨false, text, []⟩ := by
  obtain ⟨nonempty, decimal, _⟩ := numeral
  have scanned :=
    @scanNumeral_digits 10 text [] nonempty
      (fun c member => by simp [decimal c member]) (skipHexMark_ten _)
      (by simp [NoDigitAhead])
  rwa [List.append_nil] at scanned

/-- `strtol` reads a numeral to its end. -/
theorem strtol_of_isNumeral
    {text : CString}
    {value : Nat}
    (numeral : IsNumeral text value) :
    strtol 10 text = (toLong value, []) := by
  simp only [strtol, scanNumeral_of_isNumeral numeral, Numeral.value,
    numeral.2.2, Bool.false_eq_true, ↓reduceIte]

/-- A numeral of an `unsigned int` is scanned as its value. -/
theorem scanUnsigned_of_isNumeral
    {text : CString}
    {value : Nat}
    (numeral : IsNumeral text value)
    (small : value < 2 ^ 32) :
    scanUnsigned text = some value := by
  have fits : ¬ 2 ^ 64 ≤ value := by omega
  have number : Numeral.value 10 ⟨false, text, []⟩ = (value : Int) := by
    simp [Numeral.value, numeral.2.2]
  simp only [scanUnsigned, strtoul, scanNumeral_of_isNumeral numeral,
    numeral.2.2, if_neg fits, Option.map_some, number]
  congr 1
  omega

/-- `atoi` reads a numeral to its end. -/
theorem atoi_of_isNumeral
    {text : CString}
    {value : Nat}
    (numeral : IsNumeral text value) :
    atoi text = toInt (toLong value) := by
  rw [atoi, strtol_of_isNumeral numeral]

/-- On decimal digits the value is that of the standard conversion. -/
theorem digitsValue_eq_ofDigitChars
    {digits : List Char}
    (decimal : ∀ c ∈ digits, c.isDigit = true) :
    digitsValue 10 digits = Nat.ofDigitChars 10 digits 0 := by
  induction digits using List.reverseRecOn with
  | nil =>
      rfl
  | append_singleton digits c inductionHypothesis =>
      have isDigit : c.isDigit = true := decimal c (by simp)
      have earlier := inductionHypothesis fun d member =>
        decimal d (List.mem_append_left _ member)
      rw [digitsValue_concat, digitValue?_of_isDigit isDigit, earlier,
        Nat.ofDigitChars_append, Nat.ofDigitChars_cons,
        Nat.ofDigitChars_nil, Nat.mul_comm]
      rfl

/-- What `%u` prints is a numeral of the value. -/
theorem isNumeral_printUnsigned
    (value : Nat) :
    IsNumeral (printUnsigned value) value := by
  have decimal : ∀ c ∈ printUnsigned value, c.isDigit = true :=
    fun c member =>
      Nat.isDigit_of_mem_toDigits (by decide) (by decide) member
  refine ⟨Nat.toDigits_ne_nil, decimal, ?_⟩
  rw [digitsValue_eq_ofDigitChars decimal]
  exact Nat.ofDigitChars_ten_toDigits

theorem printUnsigned_injective :
    Function.Injective printUnsigned := by
  intro first second samePrint
  have value := (isNumeral_printUnsigned first).2.2
  rw [samePrint, (isNumeral_printUnsigned second).2.2] at value
  exact value.symm

/-- Different numbers are printed differently. -/
theorem printInt_injective :
    Function.Injective printInt := by
  have noMinus :
      ∀ (value : Nat) (rest : CString), printUnsigned value ≠ '-' :: rest := by
    intro value rest isSigned
    have isDigit :=
      (isNumeral_printUnsigned value).2.1 '-' (by rw [isSigned]; simp)
    exact absurd isDigit (by decide)
  intro first second samePrint
  rw [printInt, printInt] at samePrint
  split at samePrint
  · split at samePrint
    · have sameAbs :=
        printUnsigned_injective (List.cons.inj samePrint).2
      omega
    · exact absurd samePrint.symm (noMinus _ _)
  · split at samePrint
    · exact absurd samePrint (noMinus _ _)
    · have sameAbs := printUnsigned_injective samePrint
      omega

/-- A small non-negative number is scanned as itself. -/
theorem scanInt_digits
    {digits rest : CString}
    (nonempty : digits ≠ [])
    (decimal : ∀ c ∈ digits, c.isDigit = true)
    (small : digitsValue 10 digits < 2 ^ 31)
    (ahead : NoDigitAhead 10 rest) :
    scanInt (digits ++ rest) =
      some ((digitsValue 10 digits : Int), rest) := by
  have fits := toInt_toLong_of_lt small
  have scanned :=
    scanNumeral_digits nonempty (fun c member => by simp [decimal c member])
      (skipHexMark_ten _) ahead
  simp [scanInt, scanned, Numeral.value, fits]

theorem scanSign_eq_append
    (text : CString) :
    ∃ sign,
      text = sign ++ (scanSign text).2 ∧
        (sign = [] ∨ sign = ['-'] ∨ sign = ['+']) := by
  unfold scanSign
  split
  · exact ⟨['-'], rfl, .inr (.inl rfl)⟩
  · exact ⟨['+'], rfl, .inr (.inr rfl)⟩
  · exact ⟨[], rfl, .inl rfl⟩

/-- An integer consists of sign and digit characters. -/
theorem IsInteger.sign_or_digit
    {text : CString}
    (integer : IsInteger text)
    {c : Char}
    (member : c ∈ text) :
    c = '-' ∨ c = '+' ∨ c.isDigit = true := by
  obtain ⟨sign, shape, signs⟩ := scanSign_eq_append text
  rw [shape] at member
  rcases List.mem_append.mp member with inSign | inDigits
  · rcases signs with rfl | rfl | rfl
    · simp at inSign
    · exact .inl (by simpa using inSign)
    · exact .inr (.inl (by simpa using inSign))
  · exact .inr (.inr (integer.2 c inDigits))

theorem IsInteger.ne_nil
    {text : CString}
    (integer : IsInteger text) :
    text ≠ [] := by
  rintro rfl
  exact integer.1 rfl

/-- No character of an integer is one that numbers are not made of. -/
theorem IsInteger.ne
    {text : CString}
    (integer : IsInteger text)
    {c d : Char}
    (member : c ∈ text)
    (noSign : d ≠ '-' ∧ d ≠ '+')
    (noDigit : d.isDigit = false) :
    c ≠ d := by
  rcases integer.sign_or_digit member with rfl | rfl | digit
  · exact noSign.1.symm
  · exact noSign.2.symm
  · exact ne_of_isDigit digit noDigit

theorem IsInteger.isspace
    {text : CString}
    (integer : IsInteger text)
    {c : Char}
    (member : c ∈ text) :
    isspace c = false := by
  rcases integer.sign_or_digit member with rfl | rfl | digit
  · decide
  · decide
  · exact @isspace_of_isDigitOf 10 c (by simpa using digit)

theorem dropWhile_isspace
    {text : CString}
    (noBlank : ∀ c ∈ text, isspace c = false) :
    text.dropWhile isspace = text := by
  cases text with
  | nil =>
      rfl
  | cons c rest =>
      rw [List.dropWhile_cons_of_neg (by simp [noBlank c (by simp)])]

/-- Blanks are skipped, and an integer is scanned to its end. -/
theorem scanNumeral_of_isInteger
    {blanks number : CString}
    (allBlank : ∀ c ∈ blanks, isspace c = true)
    (integer : IsInteger number) :
    scanNumeral 10 (blanks ++ number) =
      some ⟨(scanSign number).1, (scanSign number).2, []⟩ := by
  have noBlank :=
    dropWhile_isspace fun c member => integer.isspace member
  have allDigits : ∀ c ∈ (scanSign number).2, isDigitOf 10 c = true := by
    intro c member
    simpa using integer.2 c member
  have taken := @takeWhile_digits 10 _ [] allDigits (by simp [NoDigitAhead])
  have dropped := @dropWhile_digits 10 _ [] allDigits (by simp [NoDigitAhead])
  rw [List.append_nil] at taken dropped
  rw [scanNumeral, List.dropWhile_append_of_pos allBlank, noBlank]
  simp only [skipHexMark_ten, taken, dropped, if_neg integer.1]

/-- A text that is scanned to its end is blanks and an integer. -/
theorem exists_isInteger_of_scanNumeral
    {text : CString}
    {negative : Bool}
    {digits : List Char}
    (scanned : scanNumeral 10 text = some ⟨negative, digits, []⟩) :
    ∃ blanks number,
      text = blanks ++ number ∧ (∀ c ∈ blanks, isspace c = true) ∧
        IsInteger number := by
  simp only [scanNumeral, skipHexMark_ten] at scanned
  split at scanned
  · cases scanned
  · rename_i nonempty
    simp only [Option.some.injEq, Numeral.mk.injEq] at scanned
    obtain ⟨_, taken, dropped⟩ := scanned
    have whole :=
      @List.takeWhile_append_dropWhile _ (isDigitOf 10)
        (scanSign (text.dropWhile isspace)).2
    rw [dropped, List.append_nil] at whole
    refine
      ⟨text.takeWhile isspace, text.dropWhile isspace,
        List.takeWhile_append_dropWhile.symm,
        fun c member => List.mem_takeWhile_imp member, ?_, fun c member => ?_⟩
    · rwa [whole] at nonempty
    · rw [← whole] at member
      simpa using List.mem_takeWhile_imp member

theorem scanInt_of_isInteger
    {text : CString}
    (integer : IsInteger text) :
    ∃ value, scanInt text = some (value, []) := by
  have scanned := @scanNumeral_of_isInteger [] text (by simp) integer
  rw [List.nil_append] at scanned
  exact ⟨_, by rw [scanInt, scanned, Option.map_some]⟩

/-- Digits behind an optional sign are an integer. -/
theorem isInteger_append
    {sign digits : CString}
    (signs : sign = [] ∨ sign = ['-'] ∨ sign = ['+'])
    (nonempty : digits ≠ [])
    (decimal : ∀ c ∈ digits, c.isDigit = true) :
    IsInteger (sign ++ digits) := by
  rcases signs with rfl | rfl | rfl
  · obtain ⟨c, rest, rfl⟩ := List.exists_cons_of_ne_nil nonempty
    have digit : isDigitOf 10 c = true := by
      simpa using decimal c (by simp)
    rw [List.nil_append, IsInteger, scanSign_of_isDigitOf digit]
    exact ⟨nonempty, decimal⟩
  · exact ⟨nonempty, decimal⟩
  · exact ⟨nonempty, decimal⟩

/-- A number scanned in a text without blanks is an integer in front. -/
theorem exists_isInteger_of_scanInt
    {text rest : CString}
    {value : Int}
    (noBlank : ∀ c ∈ text, isspace c = false)
    (scanned : scanInt text = some (value, rest)) :
    ∃ number, IsInteger number ∧ text = number ++ rest := by
  obtain ⟨sign, shape, signs⟩ := scanSign_eq_append text
  obtain ⟨numeral, found, same⟩ := Option.map_eq_some_iff.mp scanned
  simp only [scanNumeral, dropWhile_isspace noBlank, skipHexMark_ten] at found
  split at found
  · simp at found
  · rename_i nonempty
    simp only [Option.some.injEq] at found
    subst found
    simp only [Prod.mk.injEq] at same
    obtain ⟨_, rfl⟩ := same
    refine
      ⟨sign ++ (scanSign text).2.takeWhile (isDigitOf 10),
        isInteger_append signs nonempty ?_, ?_⟩
    · intro c member
      simpa using List.mem_takeWhile_imp member
    · rw [List.append_assoc, List.takeWhile_append_dropWhile]
      exact shape

/-- A decimal number is made of digits and perhaps a sign. -/
theorem mem_printInt
    {value : Int}
    {c : Char}
    (member : c ∈ printInt value) :
    c = '-' ∨ c.isDigit = true := by
  have digits : ∀ number, c ∈ printUnsigned number → c.isDigit = true :=
    fun number member => (isNumeral_printUnsigned number).2.1 c member
  unfold printInt at member
  split at member
  · rcases List.mem_cons.mp member with sign | digit
    · exact .inl sign
    · exact .inr (digits _ digit)
  · exact .inr (digits _ member)

theorem scanNumeral_printInt
    {rest : CString}
    (value : Int)
    (ahead : NoDigitAhead 10 rest) :
    scanNumeral 10 (printInt value ++ rest) =
      some ⟨decide (value < 0), printUnsigned value.natAbs, rest⟩ := by
  obtain ⟨nonempty, decimal, _⟩ := isNumeral_printUnsigned value.natAbs
  have allDigits : ∀ c ∈ printUnsigned value.natAbs, isDigitOf 10 c = true :=
    fun c member => by simp [decimal c member]
  by_cases negative : value < 0
  · rw [printInt, if_pos negative]
    have noBlank :
        ('-' :: (printUnsigned value.natAbs ++ rest)).dropWhile isspace =
          '-' :: (printUnsigned value.natAbs ++ rest) :=
      List.dropWhile_cons_of_neg (by decide)
    simp only [List.cons_append, scanNumeral, noBlank, scanSign,
      skipHexMark_ten, takeWhile_digits allDigits ahead,
      dropWhile_digits allDigits ahead, if_neg nonempty, negative,
      decide_true]
  · rw [printInt, if_neg negative,
      scanNumeral_digits nonempty allDigits (skipHexMark_ten _) ahead]
    simp [negative]

theorem value_printInt
    (value : Int)
    (rest : CString) :
    Numeral.value 10
        ⟨decide (value < 0), printUnsigned value.natAbs, rest⟩ =
      value := by
  have digits := (isNumeral_printUnsigned value.natAbs).2.2
  simp only [Numeral.value, digits, decide_eq_true_eq]
  split <;> omega

/-- An `int` that was printed is scanned as itself. -/
theorem scanInt_printInt
    {rest : CString}
    {value : Int}
    (above : -2 ^ 31 ≤ value)
    (below : value < 2 ^ 31)
    (ahead : NoDigitAhead 10 rest) :
    scanInt (printInt value ++ rest) = some (value, rest) := by
  rw [scanInt, scanNumeral_printInt value ahead, Option.map_some,
    value_printInt, toInt_toLong_of_range ⟨above, below⟩]

/-- `atoi` is the `%d` conversion, and zero where there is no number. -/
theorem atoi_eq_scanInt
    (text : CString) :
    atoi text = ((scanInt text).map Prod.fst).getD 0 := by
  unfold atoi strtol scanInt
  cases scanNumeral 10 text with
  | none =>
      rfl
  | some numeral =>
      rfl

/-- What `strtoul` makes of a number without a sign. -/
theorem strtoul_of_scanNumeral
    {base : Nat}
    {text digits rest : CString}
    (scanned : scanNumeral base text = some ⟨false, digits, rest⟩) :
    strtoul base text =
      (min (digitsValue base digits) (2 ^ 64 - 1), rest) := by
  simp only [strtoul, scanned, Numeral.value, Bool.false_eq_true, ↓reduceIte]
  split
  · rw [min_eq_right (by omega)]
  · rw [min_eq_left (by omega), Int.emod_eq_of_lt (by omega) (by omega),
      Int.toNat_natCast]

/-- The number that an integer denotes. -/
def integerValue (number : CString) : Int :=
  Numeral.value 10 ⟨(scanSign number).1, (scanSign number).2, []⟩

/-- What `strtoul` makes of blanks and an integer. -/
theorem strtoul_of_isInteger
    {blanks number : CString}
    (allBlank : ∀ c ∈ blanks, isspace c = true)
    (integer : IsInteger number) :
    strtoul 10 (blanks ++ number) =
      if 2 ^ 64 ≤ (integerValue number).natAbs then
        (2 ^ 64 - 1, [])
      else
        ((integerValue number % 2 ^ 64).toNat, []) := by
  have size :
      (integerValue number).natAbs = digitsValue 10 (scanSign number).2 := by
    simp only [integerValue, Numeral.value]
    split <;> omega
  rw [strtoul, scanNumeral_of_isInteger allBlank integer, size]
  rfl

/-- `strtoul` reads to the end: an integer behind blanks, or nothing. -/
theorem strtoul_ten_iff
    (text : CString) :
    (strtoul 10 text).2 = [] ↔
      text = [] ∨
        ∃ blanks number,
          text = blanks ++ number ∧ (∀ c ∈ blanks, isspace c = true) ∧
            IsInteger number := by
  constructor
  · intro read
    cases scanned : scanNumeral 10 text with
    | none =>
        rw [strtoul, scanned] at read
        exact .inl read
    | some numeral =>
        have ended : numeral.rest = [] := by
          rw [strtoul, scanned] at read
          dsimp only at read
          split at read <;> exact read
        obtain ⟨negative, digits, rest⟩ := numeral
        obtain rfl : rest = [] := ended
        exact .inr (exists_isInteger_of_scanNumeral scanned)
  · rintro (rfl | ⟨blanks, number, rfl, allBlank, integer⟩)
    · rfl
    · rw [strtoul_of_isInteger allBlank integer]
      split <;> rfl

/-- A text that begins with a digit is scanned behind its `0x`. -/
theorem scanNumeral_of_isDigitOf
    {base : Nat}
    {c : Char}
    (isDigit : isDigitOf base c = true)
    {rest body : CString}
    (skipped : skipHexMark base (c :: rest) = body)
    (some : body.takeWhile (isDigitOf base) ≠ []) :
    scanNumeral base (c :: rest) =
      .some
        ⟨false, body.takeWhile (isDigitOf base),
          body.dropWhile (isDigitOf base)⟩ := by
  have noBlank : (c :: rest).dropWhile isspace = c :: rest := by
    simp [isspace_of_isDigitOf isDigit]
  rw [scanNumeral, noBlank, scanSign_of_isDigitOf isDigit]
  simp only [skipped, if_neg some]

/-- Behind `0x` there are hexadecimal digits, or the number is the zero. -/
theorem scanNumeral_hexMark
    (tail : CString) :
    scanNumeral 16 ('0' :: 'x' :: tail) =
      if tail.takeWhile (isDigitOf 16) = [] then
        some ⟨false, ['0'], 'x' :: tail⟩
      else
        some
          ⟨false, tail.takeWhile (isDigitOf 16),
            tail.dropWhile (isDigitOf 16)⟩ := by
  have zero : isDigitOf 16 '0' = true := by
    decide
  have mark : isDigitOf 16 'x' = false := by
    decide
  split
  · rename_i none
    have unmarked :
        skipHexMark 16 ('0' :: 'x' :: tail) = '0' :: 'x' :: tail := by
      cases tail with
      | nil =>
          rfl
      | cons c rest =>
          have notDigit : ¬ isDigitOf 16 c = true := fun isDigit => by
            rw [List.takeWhile_cons_of_pos isDigit] at none
            cases none
          simp [skipHexMark, notDigit]
    have digits :
        ('0' :: 'x' :: tail).takeWhile (isDigitOf 16) = ['0'] := by
      simp [zero, mark]
    rw [scanNumeral_of_isDigitOf zero unmarked (by simp [digits]), digits]
    simp [zero, mark]
  · rename_i some
    have skipped : skipHexMark 16 ('0' :: 'x' :: tail) = tail := by
      cases tail with
      | nil =>
          exact absurd rfl some
      | cons c rest =>
          have isDigit : isDigitOf 16 c = true := by
            by_contra notDigit
            exact some (List.takeWhile_cons_of_neg notDigit)
          simp [skipHexMark, isDigit]
    exact scanNumeral_of_isDigitOf zero skipped some

/-- Hexadecimal digits behind `0x` are read to the end, and nothing else. -/
theorem strtoul_hexMark_iff
    (tail : CString) :
    (strtoul 16 ('0' :: 'x' :: tail)).2 = [] ↔
      tail ≠ [] ∧ ∀ c ∈ tail, isDigitOf 16 c = true := by
  have scanned := scanNumeral_hexMark tail
  split at scanned
  · rename_i none
    rw [strtoul_of_scanNumeral scanned]
    refine iff_of_false (by simp) ?_
    rintro ⟨nonempty, allDigits⟩
    rw [List.takeWhile_eq_self_iff.mpr allDigits] at none
    exact nonempty none
  · rename_i some
    rw [strtoul_of_scanNumeral scanned, List.dropWhile_eq_nil_iff]
    refine (and_iff_right ?_).symm
    rintro rfl
    exact some rfl

theorem strtoul_hexMark
    {digits : List Char}
    (nonempty : digits ≠ [])
    (allDigits : ∀ c ∈ digits, isDigitOf 16 c = true) :
    strtoul 16 ('0' :: 'x' :: digits) =
      (min (digitsValue 16 digits) (2 ^ 64 - 1), []) := by
  have scanned := scanNumeral_hexMark digits
  have whole : digits.takeWhile (isDigitOf 16) = digits :=
    List.takeWhile_eq_self_iff.mpr allDigits
  have ended : digits.dropWhile (isDigitOf 16) = [] :=
    List.dropWhile_eq_nil_iff.mpr allDigits
  rw [whole, ended, if_neg nonempty] at scanned
  exact strtoul_of_scanNumeral scanned

theorem Numeral.value_of_lt
    {bound : Nat}
    (numeral : Numeral)
    (small : digitsValue 10 numeral.digits < bound) :
    -(bound : Int) < numeral.value 10 ∧ numeral.value 10 < bound := by
  unfold Numeral.value
  split <;> omega

/-- A number of few characters is a small one. -/
theorem exists_count_of_scanInt
    {text rest : CString}
    {value : Int}
    (scanned : scanInt text = some (value, rest)) :
    ∃ count,
      count + rest.length ≤ text.length ∧
        (count ≤ 9 → -10 ^ 9 < value ∧ value < 10 ^ 9) := by
  obtain ⟨numeral, found, read⟩ := Option.map_eq_some_iff.mp scanned
  obtain ⟨converted, unread⟩ := Prod.mk.inj read
  rw [scanNumeral, skipHexMark_ten] at found
  have fits :
      (scanSign (text.dropWhile isspace)).2.length ≤ text.length :=
    (length_scanSign_le _).trans (List.length_dropWhile_le _ _)
  generalize scanSign (text.dropWhile isspace) = signed at found fits
  obtain ⟨negative, body⟩ := signed
  simp only at found fits
  have parted :=
    congrArg List.length
      (@List.takeWhile_append_dropWhile _ (isDigitOf 10) body)
  rw [List.length_append] at parted
  split at found
  · cases found
  obtain rfl := Option.some.inj found
  refine ⟨(body.takeWhile (isDigitOf 10)).length, ?_, ?_⟩
  · rw [← unread]
    exact parted.trans_le fits
  · intro few
    have bound :
        digitsValue 10 (body.takeWhile (isDigitOf 10)) <
          10 ^ (body.takeWhile (isDigitOf 10)).length :=
      digitsValue_lt_pow fun c member => List.mem_takeWhile_imp member
    have small :=
      Numeral.value_of_lt
        ⟨negative, body.takeWhile (isDigitOf 10),
          body.dropWhile (isDigitOf 10)⟩
        (bound.trans_le (Nat.pow_le_pow_right (by decide) few))
    rw [← converted, toInt_toLong_of_range (by omega)]
    exact small

section Stops

variable {c : Char}
variable {text more : CString}

/-- A character behind a text that no number goes over. -/
structure Stops (c : Char) : Prop where
  noBlank : isspace c = false
  noSign : c ≠ '-' ∧ c ≠ '+'
  noDigit : c.isDigit = false

theorem takeWhile_append_stop
    {kind : Char → Bool}
    (stop : kind c = false) :
    (text ++ c :: more).takeWhile kind = text.takeWhile kind := by
  induction text with
  | nil =>
      exact List.takeWhile_cons_of_neg (by simp [stop])
  | cons d rest inductionHypothesis =>
      rw [List.cons_append, List.takeWhile_cons, List.takeWhile_cons]
      split
      · rw [inductionHypothesis]
      · rfl

theorem dropWhile_append_stop
    {kind : Char → Bool}
    (stop : kind c = false) :
    (text ++ c :: more).dropWhile kind =
      text.dropWhile kind ++ c :: more := by
  induction text with
  | nil =>
      exact List.dropWhile_cons_of_neg (by simp [stop])
  | cons d rest inductionHypothesis =>
      rw [List.cons_append, List.dropWhile_cons, List.dropWhile_cons]
      split
      · exact inductionHypothesis
      · rfl

theorem scanSign_append_stop
    (noSign : c ≠ '-' ∧ c ≠ '+') :
    scanSign (text ++ c :: more) =
      ((scanSign text).1, (scanSign text).2 ++ c :: more) := by
  cases text with
  | nil =>
      rw [List.nil_append]
      unfold scanSign
      split
      · simp_all
      · simp_all
      · rfl
  | cons d rest =>
      rw [List.cons_append]
      unfold scanSign
      split <;> split <;> simp_all

/-- What stands behind such a character does not change the number. -/
theorem scanNumeral_append_stop
    (stops : Stops c) :
    scanNumeral 10 (text ++ c :: more) =
      (scanNumeral 10 text).map fun numeral =>
        { numeral with rest := numeral.rest ++ c :: more } := by
  have noDigit : isDigitOf 10 c = false := by
    simp [stops.noDigit]
  simp only [scanNumeral, skipHexMark_ten,
    dropWhile_append_stop stops.noBlank, scanSign_append_stop stops.noSign,
    takeWhile_append_stop noDigit, dropWhile_append_stop noDigit]
  split <;> rfl

theorem scanInt_append_stop
    (stops : Stops c) :
    scanInt (text ++ c :: more) =
      (scanInt text).map fun read => (read.1, read.2 ++ c :: more) := by
  rw [scanInt, scanInt, scanNumeral_append_stop stops]
  cases scanNumeral 10 text <;> rfl

end Stops

end Csh.Libc
