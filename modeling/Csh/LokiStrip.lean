import Csh.Lib.CString
import Csh.Lib.Transducer

namespace Csh.Loki

open Libc

/-!
# Stripping a log

`strip_str` takes the escape sequences and control characters out of a log and
turns its newlines into NULs.  It does so in one pass and in place, with nested
loops over one reading position.  What it leaves of a log is stated line by
line here: the loops are a transducer, and its output on a line depends only on
whether the line stands behind another one.
-/

/-- The escape character. -/
def esc : Char :=
  Char.ofNat 27

/-- `*read_p < 32`; the bytes from 128 on are negative as `char`. -/
def isControl (c : Char) : Bool :=
  c.toNat < 32 || 128 ≤ c.toNat

/-- The characters that are skipped behind a newline. -/
def isSpecial (c : Char) : Bool :=
  isControl c && c != esc

/-- The numbers and semicolons of an escape sequence. -/
def isParameter (c : Char) : Bool :=
  c.isDigit || c == ';'

/-- What `strip_str` has written, and `str_counter`. -/
structure Stripped where
  written : List Char
  strCounter : Nat
  deriving Repr, DecidableEq

/-- Write a character in front. -/
def Stripped.write (c : Char) (stripped : Stripped) : Stripped :=
  { stripped with written := c :: stripped.written }

/-- Write a NUL in front, and count it. -/
def Stripped.terminate (stripped : Stripped) : Stripped :=
  ⟨nul :: stripped.written, stripped.strCounter + 1⟩

/-- The main loop of `strip_str`, from `read_p` on. -/
def stripLoop : CString → Stripped
  | [] => ⟨[], 0⟩
  | c :: rest =>
      if c = esc then
        match rest with
        | '[' :: sequence =>
            -- The final character of the sequence is not looked at.
            stripLoop ((sequence.dropWhile isParameter).drop 1)
        | rest => stripLoop rest
      else if c = '\n' then
        -- The newline is the first of the special characters.
        (stripLoop (rest.dropWhile isSpecial)).terminate
      else if c = '\t' then
        (stripLoop rest).write ' '
      else if c = '"' then
        (stripLoop rest).write '\''
      else if isControl c then
        stripLoop rest
      else
        (stripLoop rest).write c
termination_by text => text.length
decreasing_by
  · have shorter := sequence.dropWhile_suffix isParameter |>.length_le
    simp only [List.length_drop, List.length_cons]
    omega
  · simp
  · have shorter := rest.dropWhile_suffix isSpecial |>.length_le
    simp only [List.length_cons]
    omega
  all_goals simp

/-- The log behind the newlines and carriage returns it starts with. -/
def skipLeading (log : CString) : CString :=
  log.dropWhile fun c => c == '\n' || c == '\r'

/--
`strip_str`: the array that holds the log afterwards, where what lies behind the
last NUL is as it was, and the number it returns.
-/
def stripStr (log : CString) : List Char × Nat :=
  let stripped := stripLoop (skipLeading log)
  (stripped.written ++
      nul :: (log ++ [nul]).drop (stripped.written.length + 1),
    if stripped.strCounter ≥ 2 then
      stripped.strCounter + 1
    else
      stripped.strCounter)

/-- Where the loops of `strip_str` are. -/
inductive StripState where
  | copying
  | escape
  | parameters
  | newline
  deriving Repr, DecidableEq

/-- The state behind a character that the main loop looks at. -/
def copyNext (c : Char) : StripState :=
  if c = esc then
    .escape
  else if c = '\n' then
    .newline
  else
    .copying

/-- What the main loop writes for a character. -/
def copyEmit (c : Char) : List Char :=
  if c = esc then
    []
  else if c = '\n' then
    [nul]
  else if c = '\t' then
    [' ']
  else if c = '"' then
    ['\'']
  else if isControl c then
    []
  else
    [c]

/-- The loops of `strip_str` as one machine. -/
def stripper : Transducer StripState Char Char where
  next state c :=
    match state with
    | .copying => copyNext c
    | .escape => if c = '[' then .parameters else copyNext c
    | .parameters => if isParameter c then .parameters else .copying
    | .newline => if isSpecial c then .newline else copyNext c
  emit state c :=
    match state with
    | .copying => copyEmit c
    | .escape => if c = '[' then [] else copyEmit c
    | .parameters => []
    | .newline => if isSpecial c then [] else copyEmit c

theorem skips_parameter
    (c : Char)
    (parameter : isParameter c = true) :
    stripper.Skips .parameters c := by
  simp [Transducer.Skips, stripper, parameter]

theorem skips_special
    (c : Char)
    (special : isSpecial c = true) :
    stripper.Skips .newline c := by
  simp [Transducer.Skips, stripper, special]

/-- The loop over the parameters ends with the final character. -/
theorem output_parameters
    (sequence : CString) :
    stripper.output .parameters sequence =
      stripper.output .copying ((sequence.dropWhile isParameter).drop 1) := by
  rw [← stripper.output_dropWhile skips_parameter sequence]
  cases rest : sequence.dropWhile isParameter with
  | nil =>
      rfl
  | cons c later =>
      have ends : isParameter c = false := by
        have := List.head?_dropWhile_not isParameter sequence
        simpa [rest] using this
      simp [stripper, ends]

/-- The loop behind a newline ends in front of what the main loop copies. -/
theorem output_newline
    (text : CString) :
    stripper.output .newline text =
      stripper.output .copying (text.dropWhile isSpecial) := by
  rw [← stripper.output_dropWhile skips_special text]
  cases rest : text.dropWhile isSpecial with
  | nil =>
      rfl
  | cons c later =>
      have ends : isSpecial c = false := by
        have := List.head?_dropWhile_not isSpecial text
        simpa [rest] using this
      simp [stripper, ends]

/-- Behind an escape character, all but `[` is read by the main loop. -/
theorem output_escape
    {rest : CString}
    (noSequence : ∀ sequence, rest ≠ '[' :: sequence) :
    stripper.output .escape rest = stripper.output .copying rest := by
  cases rest with
  | nil =>
      rfl
  | cons c later =>
      have different : c ≠ '[' := by
        rintro rfl
        exact noSequence later rfl
      simp [stripper, different]

/-- The loops of `strip_str` write what the machine writes. -/
theorem written_stripLoop
    (text : CString) :
    (stripLoop text).written = stripper.output .copying text := by
  fun_induction stripLoop text with
  | case1 =>
      rfl
  | case2 sequence inductionHypothesis =>
      rw [inductionHypothesis, ← output_parameters]
      simp [stripper, copyNext, copyEmit]
  | case3 rest noSequence inductionHypothesis =>
      rw [inductionHypothesis, ← output_escape noSequence]
      simp [stripper, copyNext, copyEmit]
  | case4 rest notEsc inductionHypothesis =>
      rw [Stripped.terminate, inductionHypothesis, ← output_newline]
      simp [stripper, copyNext, copyEmit, notEsc]
  | case5 rest notEsc notNewline inductionHypothesis =>
      rw [Stripped.write, inductionHypothesis]
      simp [stripper, copyNext, copyEmit, notEsc]
  | case6 rest notEsc notNewline notTab inductionHypothesis =>
      rw [Stripped.write, inductionHypothesis]
      simp [stripper, copyNext, copyEmit, notEsc]
  | case7 c rest notEsc notNewline notTab notQuote control
      inductionHypothesis =>
      rw [inductionHypothesis]
      simp [stripper, copyNext, copyEmit, *]
  | case8 c rest notEsc notNewline notTab notQuote control
      inductionHypothesis =>
      rw [Stripped.write, inductionHypothesis]
      simp [stripper, copyNext, copyEmit, *]

/-- `str_counter` counts the NULs, since no character that is copied is one. -/
theorem strCounter_stripLoop
    (text : CString) :
    (stripLoop text).strCounter = (stripLoop text).written.count nul := by
  fun_induction stripLoop text with
  | case1 =>
      rfl
  | case2 sequence inductionHypothesis =>
      exact inductionHypothesis
  | case3 rest noSequence inductionHypothesis =>
      exact inductionHypothesis
  | case4 rest notEsc inductionHypothesis =>
      simp [Stripped.terminate, inductionHypothesis]
  | case5 rest notEsc notNewline inductionHypothesis =>
      have copied : ' ' ≠ nul := by decide
      simpa [Stripped.write, copied] using inductionHypothesis
  | case6 rest notEsc notNewline notTab inductionHypothesis =>
      have copied : '\'' ≠ nul := by decide
      simpa [Stripped.write, copied] using inductionHypothesis
  | case7 c rest notEsc notNewline notTab notQuote control
      inductionHypothesis =>
      exact inductionHypothesis
  | case8 c rest notEsc notNewline notTab notQuote control
      inductionHypothesis =>
      have copied : c ≠ nul := by
        rintro rfl
        exact control rfl
      simpa [Stripped.write, copied] using inductionHypothesis

/--
`write_p` does not get ahead of `read_p`: for no part of a log, more is written
than has been read.
-/
theorem length_output_le
    (state : StripState)
    (text : CString) :
    (stripper.output state text).length ≤ text.length := by
  refine stripper.length_output_le (fun state c => ?_) state text
  have copied : (copyEmit c).length ≤ 1 := by
    unfold copyEmit
    split_ifs <;> simp
  cases state with
  | copying => exact copied
  | escape =>
      change (if c = '[' then _ else _ : List Char).length ≤ 1
      split
      · exact Nat.zero_le 1
      · exact copied
  | parameters => exact Nat.zero_le 1
  | newline =>
      change (if isSpecial c then _ else _ : List Char).length ≤ 1
      split
      · exact Nat.zero_le 1
      · exact copied

/-- The lines of a text that a newline terminates. -/
def terminatedLines (text : CString) : List CString :=
  (text.splitOn '\n').dropLast

/-- What stands behind the last newline. -/
def unterminatedTail (text : CString) : CString :=
  (text.splitOn '\n').getLastD []

theorem terminatedLines_of_no_newline
    {text : CString}
    (single : '\n' ∉ text) :
    terminatedLines text = [] ∧ unterminatedTail text = text := by
  simp [terminatedLines, unterminatedTail, List.splitOn_eq_singleton single]

theorem terminatedLines_append
    {line : CString}
    (single : '\n' ∉ line)
    (rest : CString) :
    terminatedLines (line ++ '\n' :: rest) = line :: terminatedLines rest ∧
      unterminatedTail (line ++ '\n' :: rest) = unterminatedTail rest := by
  obtain ⟨first, later, pieces⟩ :=
    List.exists_cons_of_ne_nil (List.splitOn_ne_nil '\n' rest)
  unfold terminatedLines unterminatedTail
  rw [List.splitOn_append_cons_self_of_not_mem single, pieces]
  simp

/-- What is left of the first line of a text. -/
def firstText (line : CString) : CString :=
  (stripLoop line).written

/-- What is left of a line that stands behind another one. -/
def laterText (line : CString) : CString :=
  (stripLoop (line.dropWhile isSpecial)).written

/-- What is left of the lines that a newline terminates. -/
def lineTexts (text : CString) : List CString :=
  match terminatedLines text with
  | [] => []
  | first :: later => firstText first :: later.map laterText

/--
What is left of the lines that are not skipped altogether: a line of special
characters behind another line is taken for a part of its newline.
-/
def keptTexts (text : CString) : List CString :=
  match terminatedLines text with
  | [] => []
  | first :: later =>
      firstText first ::
        (later.filter fun line => !line.all isSpecial).map laterText

/-- What is left behind the last newline. -/
def tailText (text : CString) : CString :=
  match terminatedLines text with
  | [] => firstText (unterminatedTail text)
  | _ :: _ => laterText (unterminatedTail text)

/-- No newline of the text is the final character of an escape sequence. -/
def SequencesEnd (text : CString) : Prop :=
  match terminatedLines text with
  | [] => True
  | first :: later =>
      stripper.final .copying first ≠ .parameters ∧
        ∀ line ∈ later, stripper.final .newline line ≠ .parameters

theorem firstText_eq_output
    (line : CString) :
    firstText line = stripper.output .copying line :=
  written_stripLoop line

theorem laterText_eq_output
    (line : CString) :
    laterText line = stripper.output .newline line := by
  rw [laterText, written_stripLoop, output_newline]

/-- Only a newline leads to the loop behind newlines. -/
theorem copyNext_ne_newline
    {c : Char}
    (different : '\n' ≠ c) :
    copyNext c ≠ .newline := by
  unfold copyNext
  split
  · simp
  · rw [if_neg (Ne.symm different)]
    simp

theorem final_ne_newline
    {line : CString}
    (single : '\n' ∉ line)
    {state : StripState}
    (elsewhere : state ≠ .newline) :
    stripper.final state line ≠ .newline := by
  induction line generalizing state with
  | nil =>
      exact elsewhere
  | cons c rest inductionHypothesis =>
      simp only [List.mem_cons, not_or] at single
      obtain ⟨different, single⟩ := single
      refine inductionHypothesis single ?_
      have copied := copyNext_ne_newline different
      cases state with
      | newline => exact absurd rfl elsewhere
      | copying => exact copied
      | escape =>
          change (if c = '[' then _ else _) ≠ _
          split <;> simp [copied]
      | parameters =>
          change (if isParameter c then _ else _) ≠ _
          split <;> simp

/-- The newline behind a line writes a NUL. -/
theorem output_line
    {state : StripState}
    {line : CString}
    (ends : stripper.final state line ≠ .parameters)
    (reached : stripper.final state line ≠ .newline)
    (rest : CString) :
    stripper.output state (line ++ '\n' :: rest) =
      stripper.output state line ++
        nul :: stripper.output .newline rest := by
  rw [stripper.output_append]
  cases final : stripper.final state line with
  | copying => rfl
  | escape => rfl
  | parameters => exact absurd final ends
  | newline => exact absurd final reached

/-- All that is written is written by the main loop. -/
theorem forall_mem_output
    {property : Char → Prop}
    {text : CString}
    (copied : ∀ c ∈ text, ∀ output ∈ copyEmit c, property output)
    (state : StripState) :
    ∀ output ∈ stripper.output state text, property output := by
  refine stripper.forall_mem_output (fun state c member output written => ?_)
    state
  cases state with
  | copying => exact copied c member output written
  | escape =>
      change output ∈ (if c = '[' then _ else _) at written
      split at written
      · cases written
      · exact copied c member output written
  | parameters => cases written
  | newline =>
      change output ∈ (if isSpecial c then _ else _) at written
      split at written
      · cases written
      · exact copied c member output written

/-- A NUL is only written for a newline. -/
theorem ne_nul_of_mem_copyEmit
    {c output : Char}
    (different : c ≠ '\n')
    (written : output ∈ copyEmit c) :
    output ≠ nul := by
  unfold copyEmit at written
  rw [if_neg different] at written
  split at written
  · cases written
  split at written
  · rw [List.mem_singleton.mp written]
    decide
  split at written
  · rw [List.mem_singleton.mp written]
    decide
  split at written
  · cases written
  · rename_i printable
    rw [List.mem_singleton.mp written]
    rintro rfl
    exact printable rfl

theorem nul_not_mem_output
    {line : CString}
    (single : '\n' ∉ line)
    (state : StripState) :
    nul ∉ stripper.output state line := by
  have copied :
      ∀ c ∈ line, ∀ output ∈ copyEmit c, output ≠ nul := by
    intro c member output written
    refine ne_nul_of_mem_copyEmit ?_ written
    rintro rfl
    exact single member
  exact fun member => forall_mem_output copied state nul member rfl

/-- Quotes are not copied. -/
theorem quote_not_mem_copyEmit
    (c : Char) :
    '"' ∉ copyEmit c := by
  intro written
  unfold copyEmit at written
  split at written
  · cases written
  split at written
  · exact absurd (List.mem_singleton.mp written) (by decide)
  split at written
  · exact absurd (List.mem_singleton.mp written) (by decide)
  split at written
  · exact absurd (List.mem_singleton.mp written) (by decide)
  · rename_i noQuote
    split at written
    · cases written
    · exact noQuote (List.mem_singleton.mp written).symm

theorem quote_not_mem_output
    (text : CString)
    (state : StripState) :
    '"' ∉ stripper.output state text := by
  have copied : ∀ c ∈ text, ∀ output ∈ copyEmit c, output ≠ '"' := by
    rintro c _ output written rfl
    exact quote_not_mem_copyEmit c written
  exact fun member => forall_mem_output copied state '"' member rfl

/-- A line of special characters behind a newline is skipped. -/
theorem skipped_of_all_special
    {line : CString}
    (special : line.all isSpecial = true) :
    stripper.final .newline line = .newline ∧
      stripper.output .newline line = [] :=
  stripper.final_of_skipped fun c member =>
    skips_special c (List.all_eq_true.mp special c member)

/-- The first other character ends the loop behind a newline. -/
theorem final_ne_newline_of_not_all_special
    {line : CString}
    (single : '\n' ∉ line)
    (other : ¬ line.all isSpecial = true) :
    stripper.final .newline line ≠ .newline := by
  induction line with
  | nil =>
      exact absurd rfl other
  | cons c rest inductionHypothesis =>
      simp only [List.mem_cons, not_or] at single
      obtain ⟨different, single⟩ := single
      by_cases special : isSpecial c = true
      · have stays : stripper.next .newline c = .newline :=
          (skips_special c special).1
        rw [Transducer.final_cons, stays]
        refine inductionHypothesis single ?_
        simpa [special] using other
      · have leaves : stripper.next .newline c ≠ .newline := by
          change (if isSpecial c then _ else copyNext c) ≠ _
          rw [if_neg special]
          exact copyNext_ne_newline different
        rw [Transducer.final_cons]
        exact final_ne_newline single leaves

/-- Line by line, what is written behind a newline. -/
theorem splitOn_output_newline
    (text : CString)
    (ends :
      ∀ line ∈ terminatedLines text,
        stripper.final .newline line ≠ .parameters) :
    (stripper.output .newline text).splitOn nul =
      ((terminatedLines text).filter fun line => !line.all isSpecial).map
          laterText ++
        [laterText (unterminatedTail text)] := by
  induction text using splitOn_induction '\n' with
  | last line single =>
      obtain ⟨lines, tail⟩ := terminatedLines_of_no_newline single
      rw [lines, tail, laterText_eq_output]
      exact List.splitOn_eq_singleton (nul_not_mem_output single _)
  | cons line rest single inductionHypothesis =>
      obtain ⟨lines, tail⟩ := terminatedLines_append single rest
      rw [lines, List.forall_mem_cons] at ends
      rw [lines, tail]
      have later := inductionHypothesis ends.2
      by_cases special : line.all isSpecial = true
      · obtain ⟨stays, silent⟩ := skipped_of_all_special special
        have skipped : stripper.next .newline '\n' = .newline ∧
            stripper.emit .newline '\n' = [] :=
          skips_special '\n' rfl
        rw [stripper.output_append, stays, silent, List.nil_append,
          Transducer.output_cons, skipped.1, skipped.2, List.nil_append,
          List.filter_cons_of_neg (by simpa using special)]
        exact later
      · have leaves := final_ne_newline_of_not_all_special single special
        rw [output_line ends.1 leaves,
          List.splitOn_append_cons_self_of_not_mem
            (nul_not_mem_output single _),
          List.filter_cons_of_pos (by simpa using special), List.map_cons,
          List.cons_append, later, laterText_eq_output line]

/-- Line by line, what `strip_str` writes. -/
theorem splitOn_written_stripLoop
    (text : CString)
    (ends : SequencesEnd text) :
    (stripLoop text).written.splitOn nul =
      keptTexts text ++ [tailText text] := by
  rw [written_stripLoop]
  induction text using splitOn_induction '\n' with
  | last line single =>
      obtain ⟨lines, tail⟩ := terminatedLines_of_no_newline single
      simp only [keptTexts, tailText, lines, tail, firstText_eq_output]
      exact List.splitOn_eq_singleton (nul_not_mem_output single _)
  | cons line rest single _ =>
      obtain ⟨lines, tail⟩ := terminatedLines_append single rest
      simp only [SequencesEnd, lines] at ends
      simp only [keptTexts, tailText, lines, tail]
      have elsewhere : StripState.copying ≠ .newline := by
        decide
      have reached := final_ne_newline single elsewhere
      rw [output_line ends.1 reached,
        List.splitOn_append_cons_self_of_not_mem (nul_not_mem_output single _),
        splitOn_output_newline rest ends.2, firstText_eq_output]
      rfl

end Csh.Loki
