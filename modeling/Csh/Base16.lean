import Csh.Lib.CBuffer
import Csh.Poke

namespace Csh.Base16

open Libc Poke

/-!
# Encoding in base 16

`base16_encode` prints each byte behind the last one, and `base16_decode` reads
a text back.  The encoder leaves the NUL to `sprintf`, and the decoder leaves
it to `strtoul` to find what is no digit.
-/

/-- The `%02x` conversion of a byte. -/
def printHexByte (byte : UInt8) : CString :=
  [Nat.digitChar (byte.toNat / 16), Nat.digitChar (byte.toNat % 16)]

/-- The loop of `base16_encode`, with the offset of `encoded_bytes`. -/
def base16EncodeFrom (encoded : List Char) (offset : Nat) :
    List UInt8 → List Char
  | [] => encoded
  | byte :: rest =>
      base16EncodeFrom (strcpyAt encoded offset (printHexByte byte))
        (offset + 2) rest

/-- `base16_encode`: what the buffer holds behind it. -/
def base16Encode (raw : List UInt8) (encoded : List Char) : List Char :=
  base16EncodeFrom encoded 0 raw

/-- The buffer is read as no text. -/
def Unfilled (encoded : List Char) : Prop :=
  encoded.headD nul = nul

theorem stringAt_zero_eq_nil_iff
    {encoded : List Char} :
    stringAt encoded 0 = [] ↔ Unfilled encoded := by
  cases encoded with
  | nil =>
      exact iff_of_true rfl rfl
  | cons c rest =>
      rw [stringAt, List.drop_zero, List.takeWhile_cons, Unfilled,
        List.headD_cons]
      split
      · rename_i other
        exact iff_of_false (List.cons_ne_nil _ _) (bne_iff_ne.mp other)
      · rename_i same
        exact iff_of_true rfl (by simpa using same)

section Digits

variable {c : Char}

/-- A digit of a number is printed as one that is read back. -/
theorem digitChar_isDigitOf :
    ∀ value < 16,
      isDigitOf 16 (Nat.digitChar value) = true ∧
        (digitValue? (Nat.digitChar value)).getD 0 = value := by
  decide

theorem toNat_lt_of_isDigitOf
    (isDigit : isDigitOf 16 c = true) :
    c.toNat < 128 := by
  have ofLetter :
      ∀ last : Char, last.toNat < 128 → c ≤ last → c.toNat < 128 :=
    fun last small le =>
      Nat.lt_of_le_of_lt (UInt32.le_iff_toNat_le.mp le) small
  unfold isDigitOf digitValue? at isDigit
  split at isDigit
  · rename_i found
    split at found
    · rename_i decimal
      have range := toNat_of_isDigit decimal
      omega
    · split at found
      · rename_i lower
        exact ofLetter 'f' (by decide) lower.2
      · split at found
        · rename_i upper
          exact ofLetter 'F' (by decide) upper.2
        · cases found
  · cases isDigit

/-- A hexadecimal digit is printed as itself in lower case. -/
theorem digitChar_of_isDigitOf
    (isDigit : isDigitOf 16 c = true) :
    Nat.digitChar ((digitValue? c).getD 0) = c.toLower := by
  have table :
      ∀ code < 128,
        isDigitOf 16 (Char.ofNat code) = true →
          Nat.digitChar ((digitValue? (Char.ofNat code)).getD 0) =
            (Char.ofNat code).toLower := by
    decide
  have shown := table c.toNat (toNat_lt_of_isDigitOf isDigit)
  rw [Char.ofNat_toNat] at shown
  exact shown isDigit

variable {first second : Char}

theorem digitsValue_pair :
    digitsValue 16 [first, second] =
      (digitValue? first).getD 0 * 16 + (digitValue? second).getD 0 := by
  simp [digitsValue]

/-- A byte is printed as two digits that denote it. -/
theorem printHexByte_spec
    (byte : UInt8) :
    ∃ first second,
      printHexByte byte = [first, second] ∧
        isDigitOf 16 first = true ∧ isDigitOf 16 second = true ∧
          UInt8.ofNat (digitsValue 16 [first, second]) = byte := by
  have small : byte.toNat < 256 := byte.toNat_lt
  obtain ⟨firstDigit, firstValue⟩ :=
    digitChar_isDigitOf (byte.toNat / 16) (by omega)
  obtain ⟨secondDigit, secondValue⟩ :=
    digitChar_isDigitOf (byte.toNat % 16) (by omega)
  refine ⟨_, _, rfl, firstDigit, secondDigit, ?_⟩
  have value : byte.toNat / 16 * 16 + byte.toNat % 16 = byte.toNat := by
    omega
  rw [digitsValue_pair, firstValue, secondValue, value]
  exact UInt8.ofNat_toNat

/-- A pair of digits that denotes a byte is that byte in lower case. -/
theorem printHexByte_of_pair
    (firstDigit : isDigitOf 16 first = true)
    (secondDigit : isDigitOf 16 second = true) :
    printHexByte (UInt8.ofNat (digitsValue 16 [first, second])) =
      [first.toLower, second.toLower] := by
  have firstLt := digitValue?_lt firstDigit
  have secondLt := digitValue?_lt secondDigit
  rw [printHexByte, digitsValue_pair, UInt8.toNat_ofNat',
    Nat.mod_eq_of_lt (by omega),
    show
      ((digitValue? first).getD 0 * 16 + (digitValue? second).getD 0) / 16 =
        (digitValue? first).getD 0 by omega,
    show
      ((digitValue? first).getD 0 * 16 + (digitValue? second).getD 0) % 16 =
        (digitValue? second).getD 0 by omega,
    digitChar_of_isDigitOf firstDigit, digitChar_of_isDigitOf secondDigit]

end Digits

section Encoding

variable {raw : List UInt8}
variable {encoded : List Char}

/-- The digits of the bytes, one byte behind the other. -/
def hexText (raw : List UInt8) : CString :=
  raw.flatMap printHexByte

/-- Every byte is printed over the NUL of the one before it. -/
theorem base16EncodeFrom_eq
    (nonempty : raw ≠ [])
    (before behind : List Char) :
    ∃ stale,
      base16EncodeFrom (before ++ behind) before.length raw =
        before ++ (hexText raw ++ nul :: stale) := by
  induction raw generalizing before behind with
  | nil =>
      exact absurd rfl nonempty
  | cons byte rest inductionHypothesis =>
      obtain ⟨first, second, printed, _⟩ := printHexByte_spec byte
      rw [base16EncodeFrom, strcpyAt_append, hexText, List.flatMap_cons]
      cases rest with
      | nil =>
          exact ⟨_, by rw [base16EncodeFrom, List.flatMap_nil, List.append_nil]⟩
      | cons next rest =>
          have two : (printHexByte byte).length = 2 := by
            rw [printed]
            rfl
          obtain ⟨stale, written⟩ :=
            inductionHypothesis (by simp) (before ++ printHexByte byte)
              (nul :: behind.drop ((printHexByte byte).length + 1))
          rw [List.length_append, two, List.append_assoc] at written
          refine ⟨stale, ?_⟩
          rw [two, written, hexText]
          simp only [List.append_assoc]

/-- What was encoded denotes the bytes. -/
theorem hexBytes?_hexText
    (raw : List UInt8) :
    hexBytes? (hexText raw) = some raw := by
  induction raw with
  | nil =>
      rfl
  | cons byte rest inductionHypothesis =>
      obtain ⟨first, second, printed, firstDigit, secondDigit, value⟩ :=
        printHexByte_spec byte
      rw [hexText] at inductionHypothesis
      rw [hexText, List.flatMap_cons, printed]
      simp only [List.cons_append, List.nil_append, hexBytes?, firstDigit,
        secondDigit, and_self, ↓reduceIte, inductionHypothesis,
        Option.map_some, value]

/-- The text that the buffer holds behind the encoder. -/
theorem stringAt_base16Encode
    (nonempty : raw ≠ []) :
    stringAt (base16Encode raw encoded) 0 = hexText raw := by
  obtain ⟨stale, written⟩ := base16EncodeFrom_eq nonempty [] encoded
  have plain : nul ∉ hexText raw := fun member =>
    absurd ((hexBytes?_eq_some (hexBytes?_hexText raw)).2 nul member)
      (by decide)
  rw [List.nil_append, List.nil_append] at written
  rw [base16Encode]
  rw [List.length_nil] at written
  rw [written]
  exact stringAt_zero plain

/-- Digit pairs that denote bytes are printed back in lower case. -/
theorem hexText_of_hexBytes?
    {text : CString}
    (denoted : hexBytes? text = some raw) :
    hexText raw = text.map Char.toLower := by
  fun_induction hexBytes? text generalizing raw with
  | case1 =>
      cases denoted
      rfl
  | case2 =>
      cases denoted
  | case3 first second rest digits inductionHypothesis =>
      obtain ⟨later, laterDenoted, rfl⟩ := Option.map_eq_some_iff.mp denoted
      have restPrinted := inductionHypothesis laterDenoted
      rw [hexText] at restPrinted
      rw [hexText, List.flatMap_cons, printHexByte_of_pair digits.1 digits.2,
        restPrinted]
      rfl
  | case4 =>
      cases denoted

end Encoding

section Decoding

variable {first second c : Char}
variable {raw : List UInt8}
variable {text : CString}

/-- What `strtoul` skips or takes as a sign in front of the digits. -/
def Skipped (c : Char) : Prop :=
  isspace c = true ∨ c = '-' ∨ c = '+'

/-- A digit is not skipped, in either case. -/
theorem not_skipped_of_toLower
    (isDigit : isDigitOf 16 c.toLower = true) :
    ¬ Skipped c := by
  unfold Skipped isspace
  intro skipped
  simp only [Bool.or_eq_true, beq_iff_eq] at skipped
  rcases skipped with
    (((((rfl | rfl) | rfl) | rfl) | rfl) | rfl) | rfl | rfl <;>
    exact absurd isDigit (by decide)

/-- `strtoul` stops at what it neither skips nor converts. -/
theorem mem_rest_of_strtoul_pair
    (member : c ∈ [first, second])
    (notSkipped : ¬ Skipped c)
    (noDigit : isDigitOf 16 c = false) :
    c ∈ (strtoul 16 [first, second]).2 := by
  simp only [Skipped, not_or, Bool.not_eq_true] at notSkipped
  obtain ⟨noBlank, notMinus, notPlus⟩ := notSkipped
  have behindBlanks : c ∈ [first, second].dropWhile isspace :=
    mem_dropWhile_of_not member noBlank
  have behindSign := mem_scanSign_of_ne behindBlanks ⟨notMinus, notPlus⟩
  have short :
      (scanSign ([first, second].dropWhile isspace)).2.length ≤ 2 :=
    Nat.le_trans (length_scanSign_le _)
      (List.dropWhile_suffix isspace).length_le
  simp only [strtoul, scanNumeral, skipHexMark_of_short short]
  generalize (scanSign ([first, second].dropWhile isspace)).2 = body
    at behindSign
  have behindDigits : c ∈ body.dropWhile (isDigitOf 16) :=
    mem_dropWhile_of_not behindSign noDigit
  by_cases noNumber : body.takeWhile (isDigitOf 16) = []
  · simp only [noNumber, ↓reduceIte]
    exact member
  · simp only [noNumber, ↓reduceIte]
    split
    · exact behindDigits
    · exact behindDigits

/-- What is decoded without an error is made of pairs that `strtoul` takes. -/
theorem of_base16DecodeFrom_nonneg
    (succeeds : 0 ≤ (base16DecodeFrom raw text).2) :
    text.length + 2 * raw.length =
        2 * (base16DecodeFrom raw text).1.length ∧
      ∀ c ∈ text, ¬ Skipped c → isDigitOf 16 c = true := by
  fun_induction base16DecodeFrom raw text with
  | case1 raw =>
      simp
  | case2 raw last =>
      exact absurd succeeds (by simp [einval])
  | case3 raw first second rest converted stored invalid =>
      exact absurd succeeds (by simp [einval])
  | case4 raw first second rest converted stored valid inductionHypothesis =>
      obtain ⟨length, others⟩ := inductionHypothesis succeeds
      constructor
      · simp only [stored, List.length_append, List.length_cons,
          List.length_nil] at length ⊢
        omega
      · intro c member notSkipped
        by_contra noDigit
        have whole : (strtoul 16 [first, second]).2 = [] :=
          not_not.mp valid
        have notInPair : c ∉ [first, second] := fun inPair => by
          have unread :=
            mem_rest_of_strtoul_pair inPair notSkipped
              (Bool.eq_false_iff.mpr noDigit)
          rw [whole] at unread
          exact List.not_mem_nil unread
        have inRest : c ∈ rest :=
          (List.mem_append.mp
            (show c ∈ [first, second] ++ rest from member)).resolve_left
              notInPair
        exact noDigit (others c inRest notSkipped)

/-- Without blanks and signs the text denotes what is decoded. -/
theorem hexBytes?_base16Decode
    (succeeds : 0 ≤ (base16Decode text).2)
    (plain : ∀ c ∈ text, ¬ Skipped c) :
    hexBytes? text = some (base16Decode text).1 := by
  obtain ⟨length, digits⟩ := of_base16DecodeFrom_nonneg succeeds
  rw [List.length_nil] at length
  obtain ⟨bytes, denoted⟩ :=
    exists_hexBytes? (by omega) fun c member =>
      digits c member (plain c member)
  rw [denoted, base16Decode_of_hexBytes? denoted]

/-- Only the empty text is decoded to no bytes. -/
theorem base16Decode_eq_nil_iff
    (succeeds : 0 ≤ (base16Decode text).2) :
    (base16Decode text).1 = [] ↔ text = [] := by
  obtain ⟨length, _⟩ := of_base16DecodeFrom_nonneg succeeds
  rw [← List.length_eq_zero_iff, ← List.length_eq_zero_iff, base16Decode]
  rw [List.length_nil] at length
  omega

end Decoding

section RoundTrips

variable {raw : List UInt8}
variable {text : CString}
variable {encoded : List Char}

/-- Only a buffer without a text is decoded to no bytes. -/
theorem decode_nothing_iff :
    base16Decode (stringAt (base16Encode [] encoded) 0) = ([], 0) ↔
      Unfilled encoded := by
  have kept :
      stringAt (base16Encode [] encoded) 0 = [] ↔ Unfilled encoded :=
    stringAt_zero_eq_nil_iff
  rw [← kept]
  constructor
  · intro decoded
    refine (base16Decode_eq_nil_iff ?_).mp ?_
    · rw [decoded]
    · rw [decoded]
  · intro noText
    rw [noText]
    rfl

/-- Bytes are read back with their number, as far as it is an `int`. -/
theorem decode_encoded
    (nonempty : raw ≠ []) :
    base16Decode (stringAt (base16Encode raw encoded) 0) =
      (raw, toInt raw.length) := by
  rw [stringAt_base16Encode nonempty,
    base16Decode_of_hexBytes? (hexBytes?_hexText raw)]

/-- A number of bytes is returned as it is when it is an `int`. -/
theorem toInt_length_iff :
    toInt (raw.length : Int) = raw.length ↔ raw.length < 2 ^ 31 := by
  constructor
  · intro returned
    have range := toInt_range (raw.length : Int)
    omega
  · intro few
    exact toInt_of_range (by omega)

/-- Text with bytes in it is printed back when it is made of digits only. -/
theorem encode_decoded_iff
    (nonempty : text ≠ [])
    (succeeds : 0 ≤ (base16Decode text).2) :
    stringAt (base16Encode (base16Decode text).1 encoded) 0 =
        text.map Char.toLower ↔
      ∀ c ∈ text, ¬ Skipped c := by
  have someBytes : (base16Decode text).1 ≠ [] := fun noBytes =>
    nonempty ((base16Decode_eq_nil_iff succeeds).mp noBytes)
  rw [stringAt_base16Encode someBytes]
  constructor
  · intro printed c member
    have allDigits :=
      (hexBytes?_eq_some (hexBytes?_hexText (base16Decode text).1)).2
    rw [printed] at allDigits
    exact not_skipped_of_toLower
      (allDigits c.toLower (List.mem_map_of_mem member))
  · intro plain
    exact hexText_of_hexBytes? (hexBytes?_base16Decode succeeds plain)

/--
Encoding and decoding undo each other unless there is nothing to encode and
the buffer holds a text already; the number of bytes has to be an `int`, and
the decoded text must have no blank and no sign.
-/
theorem base16_round_trips_iff
    (encoded : List Char) :
    (∀ raw : List UInt8,
      base16Decode (stringAt (base16Encode raw encoded) 0) =
          (raw, (raw.length : Int)) ↔
        (raw ≠ [] ∨ Unfilled encoded) ∧ raw.length < 2 ^ 31) ∧
    ∀ text : CString,
      0 ≤ (base16Decode text).2 →
        (stringAt (base16Encode (base16Decode text).1 encoded) 0 =
            text.map Char.toLower ↔
          (text ≠ [] ∨ Unfilled encoded) ∧ ∀ c ∈ text, ¬ Skipped c) := by
  constructor
  · intro raw
    by_cases nothing : raw = []
    · subst nothing
      simpa using decode_nothing_iff
    · rw [decode_encoded nothing, Prod.mk.injEq, toInt_length_iff]
      simp only [nothing, ne_eq, not_false_eq_true, true_or, true_and]
  · intro text succeeds
    by_cases nothing : text = []
    · subst nothing
      have unread :
          stringAt (base16Encode (base16Decode []).1 encoded) 0 = [] ↔
            Unfilled encoded :=
        stringAt_zero_eq_nil_iff
      simpa using unread
    · rw [encode_decoded_iff nothing succeeds]
      simp only [nothing, ne_eq, not_false_eq_true, true_or, true_and]

/-- Two digits are read back behind the text that was there before. -/
theorem base16_round_trips_iff_of_digits :
    base16Decode (stringAt (base16Encode [10] ['x', 'y', 'z']) 0) =
        ([10], 1) ∧
      stringAt
          (base16Encode (base16Decode ['0', 'A']).1 ['x', 'y', 'z']) 0 =
        ['0', 'a'] :=
  ⟨((base16_round_trips_iff ['x', 'y', 'z']).1 [10]).mpr
      ⟨.inl (by decide), by decide⟩,
    ((base16_round_trips_iff ['x', 'y', 'z']).2 ['0', 'A']
      (by decide)).mpr
        ⟨.inl (by decide), by simp [Skipped, isspace]⟩⟩

/--
Behind the encoding of no bytes the old text of the buffer is decoded, and a
blank in a pair is printed back as a zero.
-/
theorem base16_round_trips_fail :
    base16Decode (stringAt (base16Encode [] ['A', 'B', nul]) 0) ≠ ([], 0) ∧
      0 ≤ (base16Decode [' ', '5']).2 ∧
      stringAt (base16Encode (base16Decode [' ', '5']).1 [nul]) 0 ≠
        [' ', '5'].map Char.toLower := by
  decide

end RoundTrips

end Csh.Base16
