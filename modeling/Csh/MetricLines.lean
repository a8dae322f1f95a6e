import Csh.Lib.Batches
import Csh.Lib.CNumber
import Csh.SnifferLog

namespace Csh.MetricLines

open Libc Batches
open ParamSet (ParamType)
open SnifferLog (Mpack Timestamp announced firstIndex timeMs turnsFor)

/-!
# Metric lines

`param_sniffer_log` prints each value that it decodes as a line in the text
format of Prometheus, the same for all logs.  A reader of that format, which is
a statement of what the lines are for, gets the values back.
-/

/-- What a line tells: the parameter, its node, the index, value and time. -/
structure Sample where
  name : CString
  node : Nat
  idx : Nat
  value : CString
  timeMs : Nat
  deriving Repr, DecidableEq

/-- The line that the `sprintf` calls of `param_sniffer_log` print to `tmp`. -/
def Sample.line (sample : Sample) : CString :=
  sample.name ++ ("\x7bnode=\"".toList ++ (printUnsigned sample.node ++
    ("\", idx=\"".toList ++ (printUnsigned sample.idx ++
      ("\"\x7d ".toList ++ (sample.value ++ (" ".toList ++
        (printUnsigned sample.timeMs ++ "\n".toList))))))))

section Reading

/-- Read a fixed word. -/
def expect (word text : CString) : Option CString :=
  if word.isPrefixOf text then some (text.drop word.length) else none

/-- Read a decimal number. -/
def readNumber (text : CString) : Option (Nat × CString) :=
  let digits := text.takeWhile Char.isDigit
  if digits = [] then
    none
  else
    some (digitsValue 10 digits, text.dropWhile Char.isDigit)

/-- Read up to a mark. -/
def readUpTo (mark : Char) (text : CString) : CString × CString :=
  (text.takeWhile (· != mark), text.dropWhile (· != mark))

/-- Read the sample of the first line. -/
def readSample (text : CString) : Option (Sample × CString) := do
  let (name, text) := readUpTo '\x7b' text
  let text ← expect "\x7bnode=\"".toList text
  let (node, text) ← readNumber text
  let text ← expect "\", idx=\"".toList text
  let (idx, text) ← readNumber text
  let text ← expect "\"\x7d ".toList text
  let (value, text) := readUpTo ' ' text
  let text ← expect " ".toList text
  let (timeMs, text) ← readNumber text
  let text ← expect "\n".toList text
  some (⟨name, node, idx, value, timeMs⟩, text)

/-- Read at most so many samples. -/
def readSamplesFrom : Nat → CString → Option (List Sample)
  | _, [] => some []
  | 0, _ :: _ => none
  | bound + 1, text =>
      (readSample text).bind fun first =>
        (readSamplesFrom bound first.2).map (first.1 :: ·)

/-- Read a text of nothing but samples. -/
def readSamples (text : CString) : Option (List Sample) :=
  readSamplesFrom text.length text

/-- A name without braces, and a value without blanks. -/
def Sample.Plain (sample : Sample) : Prop :=
  '\x7b' ∉ sample.name ∧ ' ' ∉ sample.value

variable {sample : Sample}
variable {samples : List Sample}
variable {text rest : CString}

theorem expect_append
    (word : CString) :
    expect word (word ++ rest) = some rest := by
  simp [expect]

/-- What `%u` prints is read up to the next character that is no digit. -/
theorem readNumber_printUnsigned
    (number : Nat)
    {c : Char}
    (next : rest.head? = some c)
    (noDigit : c.isDigit = false) :
    readNumber (printUnsigned number ++ rest) = some (number, rest) := by
  obtain ⟨nonempty, decimal, value⟩ := isNumeral_printUnsigned number
  obtain ⟨behind, rfl⟩ := List.head?_eq_some_iff.mp next
  have taken :
      (printUnsigned number ++ c :: behind).takeWhile Char.isDigit =
        printUnsigned number := by
    rw [List.takeWhile_append_of_pos decimal,
      List.takeWhile_cons_of_neg (by simp [noDigit]), List.append_nil]
  have dropped :
      (printUnsigned number ++ c :: behind).dropWhile Char.isDigit =
        c :: behind := by
    rw [List.dropWhile_append_of_pos decimal,
      List.dropWhile_cons_of_neg (by simp [noDigit])]
  simp only [readNumber, taken, dropped, if_neg nonempty, value]

theorem readUpTo_append
    {mark : Char}
    (plain : mark ∉ text)
    (next : rest.head? = some mark) :
    readUpTo mark (text ++ rest) = (text, rest) := by
  obtain ⟨behind, rfl⟩ := List.head?_eq_some_iff.mp next
  rw [readUpTo, takeWhile_append_mark plain,
    List.dropWhile_append_of_pos (bne_of_not_mem plain),
    List.dropWhile_cons_of_neg (by simp)]

/-- A line is read back as its sample. -/
theorem readSample_line
    (plain : sample.Plain) :
    readSample (sample.line ++ rest) = some (sample, rest) := by
  have number :
      ∀ (number : Nat) (word behind : CString) (c : Char),
        word.head? = some c → c.isDigit = false →
          readNumber (printUnsigned number ++ (word ++ behind)) =
            some (number, word ++ behind) := by
    intro number word behind c next noDigit
    exact
      readNumber_printUnsigned number
        (by rw [List.head?_append, next, Option.some_or]) noDigit
  simp only [readSample, Sample.line, List.append_assoc]
  rw [readUpTo_append plain.1 rfl]
  simp only [expect_append, Option.bind_eq_bind, Option.bind_some]
  rw [number _ _ _ '"' rfl rfl]
  simp only [expect_append, Option.bind_some]
  rw [number _ _ _ '"' rfl rfl]
  simp only [expect_append, Option.bind_some]
  rw [readUpTo_append plain.2 rfl]
  simp only [expect_append, Option.bind_some]
  rw [number _ _ _ '\n' rfl rfl]
  simp only [expect_append, Option.bind_some]

theorem line_ne_nil
    (sample : Sample) :
    sample.line ≠ [] := by
  simp [Sample.line]

theorem readSamplesFrom_prints
    {bound : Nat}
    (plain : ∀ sample ∈ samples, sample.Plain)
    (enough : samples.length ≤ bound) :
    readSamplesFrom bound (prints Sample.line samples) = some samples := by
  induction samples generalizing bound with
  | nil =>
      cases bound <;> rfl
  | cons first rest inductionHypothesis =>
      obtain ⟨later, rfl⟩ : ∃ later, bound = later + 1 :=
        ⟨bound - 1, by simp at enough; omega⟩
      obtain ⟨plainFirst, plainRest⟩ := List.forall_mem_cons.mp plain
      have text :
          prints Sample.line (first :: rest) =
            first.line ++ prints Sample.line rest :=
        List.flatMap_cons
      obtain ⟨c, behind, shape⟩ :=
        List.exists_cons_of_ne_nil (line_ne_nil first)
      have read := @readSample_line first (prints Sample.line rest) plainFirst
      rw [shape, List.cons_append] at read
      rw [text, shape, List.cons_append, readSamplesFrom, read,
        Option.bind_some,
        inductionHypothesis plainRest (Nat.le_of_succ_le_succ enough)]
      · rfl
      · exact List.cons_ne_nil _ _

/-- A text of plain samples is read back as just these samples. -/
theorem readSamples_prints
    (plain : ∀ sample ∈ samples, sample.Plain) :
    readSamples (prints Sample.line samples) = some samples :=
  readSamplesFrom_prints plain (length_le_length_prints line_ne_nil)

end Reading

section Decoding

variable {Reader Value : Type}

/-- A parameter with its name. -/
structure NamedParam extends SnifferLog.Param where
  name : CString
  deriving Repr, DecidableEq

/--
The conversions of the `sprintf` calls: `%u`, `PRIu64`, `%d`, `PRIi64`, `%e`
and `%.12e`.  None of them prints a blank.
-/
structure Formats (Value : Type) where
  u : Value → CString
  u64 : Value → CString
  d : Value → CString
  i64 : Value → CString
  e : Value → CString
  e12 : Value → CString
  noBlank :
    ∀ value,
      ' ' ∉ u value ∧ ' ' ∉ u64 value ∧ ' ' ∉ d value ∧ ' ' ∉ i64 value ∧
        ' ' ∉ e value ∧ ' ' ∉ e12 value

variable (mpack : Mpack Reader Value)
variable (formats : Formats Value)

/-- One value of a type is read and printed; a string is only skipped. -/
def printValue (type : ParamType) (reader : Reader) : Option CString × Reader :=
  match type with
  | .uint8 | .xint8 | .uint16 | .xint16 | .uint32 | .xint32 =>
      let (value, reader) := mpack.expectUint reader
      (some (formats.u value), reader)
  | .uint64 | .xint64 =>
      let (value, reader) := mpack.expectU64 reader
      (some (formats.u64 value), reader)
  | .int8 | .int16 | .int32 =>
      let (value, reader) := mpack.expectInt reader
      (some (formats.d value), reader)
  | .int64 =>
      let (value, reader) := mpack.expectI64 reader
      (some (formats.i64 value), reader)
  | .float =>
      let (value, reader) := mpack.expectFloat reader
      (some (formats.e value), reader)
  | .double =>
      let (value, reader) := mpack.expectDouble reader
      (some (formats.e12 value), reader)
  | .string | .data =>
      (none, mpack.discard reader)

/--
The loop over the elements, with the turns that are left.  For a string `tmp`
stays empty, and adding nothing to a log leaves it as it is.
-/
def sampleLoop
    (param : NamedParam)
    (timeMs : Nat) :
    Nat → Nat → Reader → List Sample
  | 0, _, _ => []
  | turns + 1, index, reader =>
      let (value, reader) := printValue mpack formats param.type reader
      if mpack.readerError reader then
        []
      else
        (value.map fun value =>
            ⟨param.name, param.node, index, value, timeMs⟩).toList ++
          sampleLoop param timeMs turns (index + 1) reader

/-- A call of `param_sniffer_log`. -/
structure LogCall (Reader : Type) where
  param : NamedParam
  offset : Int
  reader : Reader
  timestamp : Timestamp
  now : Nat

/-- `param_sniffer_log`, as far as the lines are concerned. -/
def paramSnifferLog (call : LogCall Reader) : List Sample :=
  let (count, elements) := announced mpack call.reader
  sampleLoop mpack formats call.param (timeMs call.timestamp call.now)
    (turnsFor call.offset count) (firstIndex call.offset) elements

section Samples

variable {mpack} {formats}
variable {type : ParamType}
variable {param : NamedParam}
variable {turns index timeMs : Nat}
variable {reader : Reader}
variable {call : LogCall Reader}

/-- What is printed of a value has no blanks. -/
theorem not_blank_mem_printValue
    {value : CString}
    (printed : (printValue mpack formats type reader).1 = some value) :
    ' ' ∉ value := by
  have noBlank := formats.noBlank
  cases type <;> simp only [printValue, Option.some.injEq] at printed
  case string | data => cases printed
  all_goals
    rw [← printed]
    simp only [noBlank _, not_false_eq_true]

/-- All samples of a call are of its parameter. -/
theorem plain_sampleLoop
    (plain : '\x7b' ∉ param.name) :
    ∀ sample ∈ sampleLoop mpack formats param timeMs turns index reader,
      sample.Plain := by
  induction turns generalizing index reader with
  | zero =>
      intro sample member
      cases member
  | succ turns inductionHypothesis =>
      intro sample member
      rw [sampleLoop] at member
      dsimp only at member
      split at member
      · cases member
      · rcases List.mem_append.mp member with first | later
        · obtain ⟨value, printed, rfl⟩ :=
            Option.map_eq_some_iff.mp (Option.mem_toList.mp first)
          exact ⟨plain, not_blank_mem_printValue printed⟩
        · exact inductionHypothesis sample later

theorem plain_paramSnifferLog
    (plain : '\x7b' ∉ call.param.name) :
    ∀ sample ∈ paramSnifferLog mpack formats call, sample.Plain :=
  plain_sampleLoop plain

end Samples

end Decoding

/-- All numbers are printed by `%u`. -/
def unsignedFormats : Formats Nat where
  u := printUnsigned
  u64 := printUnsigned
  d := printUnsigned
  i64 := printUnsigned
  e := printUnsigned
  e12 := printUnsigned
  noBlank value := by
    have digits := (isNumeral_printUnsigned value).2.1
    have noBlank : ' ' ∉ printUnsigned value :=
      fun member => by simpa using digits ' ' member
    exact ⟨noBlank, noBlank, noBlank, noBlank, noBlank, noBlank⟩

end Csh.MetricLines
