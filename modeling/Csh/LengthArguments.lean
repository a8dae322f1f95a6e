import Csh.FileTransfer

namespace Csh.FileTransfer

open Libc

/-!
# The length argument

The commands that transfer memory read their length with `parse_length`;
`crc32` has a parser of its own.  Both give the text to `strtoul`, in base 10
and then in base 16, and look at the end pointer.
-/

/-- What `parse_length` returns, and what it leaves in `*length`. -/
def parseLengthInto (text : CString) (length : Nat) : SlashResult × Nat :=
  match parseLength text with
  | .error result => (result, length)
  | .ok parsed => (.success, parsed.val)

/-- The length that `vmem_client_slash_crc32` reads, in a `uint32_t`. -/
def crc32Length (text : CString) : Except SlashResult Nat :=
  let decimal := strtoul 10 text
  if decimal.2 ≠ [] then
    let hexadecimal := strtoul 16 text
    if hexadecimal.2 ≠ [] then
      .error .eusage
    else
      .ok (hexadecimal.1 % 2 ^ 32)
  else
    .ok (decimal.1 % 2 ^ 32)

/-- A length: decimal digits, or `0x` and hexadecimal digits. -/
def IsLength (text : CString) (value : Nat) : Prop :=
  IsNumeral text value ∨
    ∃ digits,
      text = '0' :: 'x' :: digits ∧ digits ≠ [] ∧
        (∀ c ∈ digits, isDigitOf 16 c = true) ∧
        digitsValue 16 digits = value

/--
A length that fits is stored; for any other text there is an error, and the
length stays what it was.
-/
def ReadsLength (text : CString) : Prop :=
  ∀ length,
    (∀ value, IsLength text value → value < 2 ^ 32 →
      parseLengthInto text length = (.success, value)) ∧
    ((∀ value, IsLength text value → 2 ^ 32 ≤ value) →
      (parseLengthInto text length).1.isError = true ∧
        (parseLengthInto text length).2 = length)

/--
The numbers that `strtoul` returns as one below `2 ^ 32`: a negated one wraps,
unless it is out of range.
-/
def WrapsSmall (value : Int) : Prop :=
  0 ≤ value ∧ value < 2 ^ 32 ∨ -2 ^ 64 < value ∧ value < 2 ^ 32 - 2 ^ 64

/--
What `strtoul` reads although it is no length: nothing at all, or a small
number with blanks or a sign in front.
-/
def Tolerated (text : CString) : Prop :=
  text = [] ∨
    ∃ blanks number,
      text = blanks ++ number ∧ (∀ c ∈ blanks, isspace c = true) ∧
        IsInteger number ∧ (∀ c ∈ text.head?, c.isDigit = false) ∧
        WrapsSmall (integerValue number)

section Numbers

variable {text : CString}
variable {value : Nat}

/-- A length begins with a digit. -/
theorem IsLength.exists_digit
    (isLength : IsLength text value) :
    ∃ c rest, text = c :: rest ∧ c.isDigit = true := by
  rcases isLength with ⟨nonempty, decimal, _⟩ | ⟨digits, rfl, _⟩
  · obtain ⟨c, rest, rfl⟩ := List.exists_cons_of_ne_nil nonempty
    exact ⟨c, rest, rfl, decimal c List.mem_cons_self⟩
  · exact ⟨'0', 'x' :: digits, rfl, by decide⟩

/-- A length is read as its value, up to `ULONG_MAX`. -/
theorem lengthNumber_of_isLength
    (isLength : IsLength text value) :
    lengthNumber text = .ok (min value (2 ^ 64 - 1)) := by
  rcases isLength with numeral | ⟨digits, rfl, nonempty, allDigits, rfl⟩
  · have read := strtoul_of_scanNumeral (scanNumeral_of_isNumeral numeral)
    rw [numeral.2.2] at read
    simp [lengthNumber, read]
  · have zero :=
      @scanNumeral_digits 10 ['0'] ('x' :: digits) (by simp) (by simp)
        (skipHexMark_ten _) (by simp [NoDigitAhead])
    have decimal := strtoul_of_scanNumeral zero
    have marked : strncmpEq 2 ('0' :: 'x' :: digits) "0x".toList = true :=
      rfl
    rw [List.singleton_append] at decimal
    rw [lengthNumber, decimal, strtoul_hexMark nonempty allDigits]
    simp only [ne_eq, reduceCtorEq, not_false_eq_true, ↓reduceIte, marked,
      not_true_eq_false, Bool.true_eq_false, or_self]

/-- Behind a digit only a length is read. -/
theorem exists_isLength
    {c : Char}
    {rest : CString}
    (isDigit : c.isDigit = true)
    (read : lengthNumber (c :: rest) = .ok value) :
    ∃ value, IsLength (c :: rest) value := by
  obtain ⟨digits, behind, shape, decimal, ahead⟩ :=
    exists_digits_append (c :: rest)
  have nonempty : digits ≠ [] := by
    rintro rfl
    rw [List.nil_append] at shape
    have noDigit := ahead c (by rw [← shape]; rfl)
    rw [isDigitOf_ten, isDigit] at noDigit
    cases noDigit
  have scanned :=
    strtoul_of_scanNumeral
      (scanNumeral_digits nonempty (fun c member => by simp [decimal c member])
        (skipHexMark_ten _) ahead)
  rw [← shape] at scanned
  by_cases whole : behind = []
  · rw [whole, List.append_nil] at shape
    exact
      ⟨_, .inl ⟨by simp, fun d member => decimal d (shape ▸ member), rfl⟩⟩
  · rw [lengthNumber, scanned] at read
    simp only [ne_eq, whole, not_false_eq_true, ↓reduceIte] at read
    split at read
    · cases read
    · rename_i accepted
      rw [not_or, not_not, Bool.not_eq_false, strncmpEq, beq_iff_eq]
        at accepted
      cases rest with
      | nil =>
          cases accepted.2
      | cons mark tail =>
          obtain ⟨rfl, rfl⟩ : c = '0' ∧ mark = 'x' := by
            simpa using accepted.2
          obtain ⟨some, allDigits⟩ := (strtoul_hexMark_iff tail).mp accepted.1
          exact ⟨_, .inr ⟨tail, rfl, some, allDigits, rfl⟩⟩

/-- A text that does not begin with a digit is read in base 10 only. -/
theorem lengthNumber_of_no_digit
    (noDigit : ∀ c ∈ text.head?, c.isDigit = false) :
    lengthNumber text =
      if (strtoul 10 text).2 = [] then
        .ok (strtoul 10 text).1
      else
        .error .eusage := by
  have unmarked : strncmpEq 2 text "0x".toList = false := by
    rw [strncmpEq, beq_eq_false_iff_ne]
    intro marked
    cases text with
    | nil =>
        cases marked
    | cons c rest =>
        have isZero : c = '0' := (List.cons.inj marked).1
        have notDigit := noDigit c rfl
        rw [isZero] at notDigit
        exact absurd notDigit (by decide)
  by_cases ended : (strtoul 10 text).2 = []
  · simp only [lengthNumber, ended, ne_eq, not_true_eq_false, ↓reduceIte]
  · simp only [lengthNumber, ended, unmarked, ne_eq, not_false_eq_true,
      ↓reduceIte, or_true]

/-- What is tolerated is what `strtoul` reads to the end as a small number. -/
theorem tolerated_iff
    (noDigit : ∀ c ∈ text.head?, c.isDigit = false) :
    Tolerated text ↔
      (strtoul 10 text).2 = [] ∧ (strtoul 10 text).1 < 2 ^ 32 := by
  have small :
      ∀ blanks number,
        (∀ c ∈ blanks, isspace c = true) → IsInteger number →
          ((strtoul 10 (blanks ++ number)).1 < 2 ^ 32 ↔
            WrapsSmall (integerValue number)) := by
    intro blanks number allBlank integer
    rw [strtoul_of_isInteger allBlank integer, WrapsSmall]
    split <;> dsimp only <;> omega
  rw [strtoul_ten_iff]
  constructor
  · rintro (rfl | ⟨blanks, number, rfl, allBlank, integer, _, wraps⟩)
    · exact ⟨.inl rfl, by decide⟩
    · exact
        ⟨.inr ⟨blanks, number, rfl, allBlank, integer⟩,
          (small blanks number allBlank integer).mpr wraps⟩
  · rintro ⟨rfl | ⟨blanks, number, rfl, allBlank, integer⟩, fits⟩
    · exact .inl rfl
    · exact
        .inr
          ⟨blanks, number, rfl, allBlank, integer, noDigit,
            (small blanks number allBlank integer).mp fits⟩

end Numbers

section Storing

variable {text : CString}
variable {value : Nat}

theorem parseLengthInto_of_ok
    (read : lengthNumber text = .ok value)
    (length : Nat) :
    parseLengthInto text length =
      if value < 2 ^ 32 then
        (.success, value)
      else
        (.einval, length) := by
  rw [parseLengthInto, parseLength, read]
  by_cases large : 2 ^ 32 - 1 < value
  · rw [if_neg (by omega)]
    simp only [large, ↓reduceDIte]
  · rw [if_pos (by omega)]
    simp only [large, ↓reduceDIte]

theorem parseLengthInto_of_error
    {result : SlashResult}
    (unread : lengthNumber text = .error result)
    (length : Nat) :
    parseLengthInto text length = (.eusage, length) := by
  have isUsage : result = .eusage := by
    unfold lengthNumber at unread
    dsimp only at unread
    split at unread
    · split at unread
      · exact (Except.error.inj unread).symm
      · cases unread
    · cases unread
  rw [parseLengthInto, parseLength, unread, isUsage]

/-- A text that begins with a digit is read as it should be. -/
theorem readsLength_of_digit
    {c : Char}
    {rest : CString}
    (isDigit : c.isDigit = true) :
    ReadsLength (c :: rest) := by
  refine fun length => ⟨fun value isLength small => ?_, fun large => ?_⟩
  · rw [parseLengthInto_of_ok (lengthNumber_of_isLength isLength),
      min_eq_left (by omega), if_pos small]
  · cases read : lengthNumber (c :: rest) with
    | error result =>
        rw [parseLengthInto_of_error read]
        exact ⟨rfl, rfl⟩
    | ok number =>
        obtain ⟨value, isLength⟩ := exists_isLength isDigit read
        have above := large value isLength
        rw [lengthNumber_of_isLength isLength] at read
        obtain rfl := Except.ok.inj read
        rw [parseLengthInto_of_ok (lengthNumber_of_isLength isLength),
          if_neg (by omega)]
        exact ⟨rfl, rfl⟩

/-- Any other text should be refused, and is unless it is tolerated. -/
theorem readsLength_iff_of_no_digit
    (noDigit : ∀ c ∈ text.head?, c.isDigit = false) :
    ReadsLength text ↔ ¬ Tolerated text := by
  have noLength : ∀ value, ¬ IsLength text value := by
    intro value isLength
    obtain ⟨c, rest, rfl, isDigit⟩ := isLength.exists_digit
    rw [noDigit c rfl] at isDigit
    cases isDigit
  have read := lengthNumber_of_no_digit noDigit
  rw [tolerated_iff noDigit]
  constructor
  · rintro reads ⟨ended, small⟩
    rw [if_pos ended] at read
    have refused :=
      (reads 0).2 fun value isLength => absurd isLength (noLength value)
    rw [parseLengthInto_of_ok read, if_pos small] at refused
    cases refused.1
  · refine fun strict length =>
      ⟨fun value isLength => absurd isLength (noLength value), fun _ => ?_⟩
    by_cases ended : (strtoul 10 text).2 = []
    · have large : ¬ (strtoul 10 text).1 < 2 ^ 32 :=
        fun small => strict ⟨ended, small⟩
      rw [if_pos ended] at read
      rw [parseLengthInto_of_ok read, if_neg large]
      exact ⟨rfl, rfl⟩
    · rw [if_neg ended] at read
      rw [parseLengthInto_of_error read]
      exact ⟨rfl, rfl⟩

end Storing

/--
`parse_length` accepts a length that fits and nothing else, unless the text is
one of those that `strtoul` tolerates.
-/
theorem readsLength_iff_not_tolerated
    (text : CString) :
    ReadsLength text ↔ ¬ Tolerated text := by
  cases text with
  | nil =>
      exact readsLength_iff_of_no_digit fun c none => by cases none
  | cons c rest =>
      by_cases isDigit : c.isDigit = true
      · refine iff_of_true (readsLength_of_digit isDigit) ?_
        rintro (empty | ⟨_, _, _, _, _, noDigit, _⟩)
        · cases empty
        · have notDigit := noDigit c rfl
          rw [isDigit] at notDigit
          cases notDigit
      · refine readsLength_iff_of_no_digit fun d first => ?_
        obtain rfl := Option.some.inj first
        exact Bool.eq_false_iff.mpr isDigit

/-- No text at all is read as the length 0. -/
theorem readsLength_fails_on_empty :
    parseLengthInto [] 7 = (.success, 0) ∧ ¬ ReadsLength [] := by
  have read : parseLengthInto [] 7 = (.success, 0) := rfl
  refine ⟨read, fun reads => ?_⟩
  have refused :=
    (reads 7).2 fun value isLength => by
      obtain ⟨c, rest, shape, _⟩ := isLength.exists_digit
      cases shape
  rw [read] at refused
  cases refused.1

section Crc32

variable {text : CString}

/-- The two parsers reject the text, or read the same number of bytes. -/
def Alike (text : CString) : Prop :=
  match parseLength text, crc32Length text with
  | .ok parsed, .ok length => parsed.val = length
  | .error _, .error _ => True
  | _, _ => False

/-- Of a number that both read, the low 32 bits are kept or all of it. -/
theorem alike_of_number
    {number : Nat}
    (read : lengthNumber text = .ok number)
    (crcRead : crc32Length text = .ok (number % 2 ^ 32)) :
    Alike text ↔ number < 2 ^ 32 := by
  rw [Alike, parseLength, read, crcRead]
  by_cases large : 2 ^ 32 - 1 < number
  · simp only [large, ↓reduceDIte, false_iff]
    omega
  · simp only [large, ↓reduceDIte]
    omega

/-- A number that only `crc32` reads. -/
theorem not_alike_of_crc32
    {result : SlashResult}
    {length : Nat}
    (unread : lengthNumber text = .error result)
    (crcRead : crc32Length text = .ok length) :
    ¬ Alike text := by
  rw [Alike, parseLength, unread, crcRead]
  exact id

/-- `0x` at the front, as `strncmp` sees it. -/
theorem strncmpEq_hexMark_iff :
    strncmpEq 2 text "0x".toList = true ↔ "0x".toList <+: text := by
  rw [strncmpEq, beq_iff_eq, List.prefix_iff_eq_take]
  exact eq_comm

end Crc32

/--
`crc32` reads a length as the other commands do, exactly where the number
`strtoul` reads is below `2 ^ 32`, and has `0x` in front when it is in base 16.
-/
theorem alike_iff
    (text : CString) :
    Alike text ↔
      (∀ number, strtoul 10 text = (number, []) → number < 2 ^ 32) ∧
        ((strtoul 10 text).2 ≠ [] →
          ∀ number, strtoul 16 text = (number, []) →
            "0x".toList <+: text ∧ number < 2 ^ 32) := by
  rcases decimalRead : strtoul 10 text with ⟨decimal, behind⟩
  rcases hexRead : strtoul 16 text with ⟨hexadecimal, rest⟩
  by_cases ended : behind = []
  · subst ended
    have read : lengthNumber text = .ok decimal := by
      simp [lengthNumber, decimalRead]
    have crcRead : crc32Length text = .ok (decimal % 2 ^ 32) := by
      simp [crc32Length, decimalRead]
    rw [alike_of_number read crcRead]
    simp
  · by_cases hexEnded : rest = []
    · subst hexEnded
      have crcRead : crc32Length text = .ok (hexadecimal % 2 ^ 32) := by
        simp [crc32Length, decimalRead, hexRead, ended]
      by_cases marked : "0x".toList <+: text
      · have read : lengthNumber text = .ok hexadecimal := by
          simp only [lengthNumber, decimalRead, hexRead, ended,
            strncmpEq_hexMark_iff.mpr marked, ne_eq, not_false_eq_true,
            ↓reduceIte, not_true_eq_false, Bool.true_eq_false, or_self]
        rw [alike_of_number read crcRead]
        simp only [Prod.mk.injEq, ended, and_false, false_implies, marked,
          true_and, and_true, ne_eq, not_false_eq_true, forall_const,
          forall_eq']
      · have unmarked : strncmpEq 2 text "0x".toList = false :=
          Bool.eq_false_iff.mpr fun found =>
            marked (strncmpEq_hexMark_iff.mp found)
        have unread : lengthNumber text = .error .eusage := by
          simp only [lengthNumber, decimalRead, ended, unmarked, ne_eq,
            not_false_eq_true, ↓reduceIte, or_true]
        refine iff_of_false (not_alike_of_crc32 unread crcRead) ?_
        rintro ⟨_, hexForm⟩
        exact marked (hexForm ended hexadecimal rfl).1
    · have unread : lengthNumber text = .error .eusage := by
        simp [lengthNumber, decimalRead, hexRead, ended, hexEnded]
      have crcUnread : crc32Length text = .error .eusage := by
        simp [crc32Length, decimalRead, hexRead, ended, hexEnded]
      rw [Alike, parseLength, unread, crcUnread]
      simp [ended, hexEnded]

/-- `crc32` drops the high bits of a large length, and needs no `0x`. -/
theorem alike_fails_on_large_and_unmarked :
    (crc32Length "4294967297".toList = .ok 1 ∧
      ¬ Alike "4294967297".toList) ∧
    (crc32Length "ff".toList = .ok 255 ∧ ¬ Alike "ff".toList) := by
  have large : crc32Length "4294967297".toList = .ok 1 := rfl
  have unmarked : crc32Length "ff".toList = .ok 255 := rfl
  have tooLarge : parseLength "4294967297".toList = .error .einval := rfl
  have unread : parseLength "ff".toList = .error .eusage := rfl
  refine ⟨⟨large, ?_⟩, unmarked, ?_⟩
  · rw [Alike, tooLarge, large]
    exact id
  · rw [Alike, unread, unmarked]
    exact id

end Csh.FileTransfer
