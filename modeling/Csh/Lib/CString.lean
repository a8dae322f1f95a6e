import Mathlib.Data.List.TakeWhile

namespace Csh.Libc

/-!
# C strings

A C string is represented by the characters in front of its terminating NUL.
`strtok_r` is given by the token it returns and the text its save pointer is
left at; repeated calls return exactly the non-empty pieces between the
delimiters.
-/

/-- The characters of a C string, without the terminating NUL. -/
abbrev CString :=
  List Char

/-- The NUL byte, as the content of a character array. -/
def nul : Char :=
  Char.ofNat 0

/-- `isspace` in the C locale. -/
def isspace (c : Char) : Bool :=
  c == ' ' || c == '\t' || c == '\n' || c == Char.ofNat 11 ||
    c == Char.ofNat 12 || c == '\r'

/-- Append at most `n` characters of the source, as `strncat` does. -/
def strncat
    (destination source : CString)
    (n : Nat) :
    CString :=
  destination ++ source.take n

/-- `snprintf` into a buffer of `size` bytes keeps room for the NUL. -/
def snprintf
    (size : Nat)
    (text : CString) :
    CString :=
  text.take (size - 1)

/--
`strncpy` of a text without its NUL: at most `n` elements are copied, the rest
of the first `n` is filled up, and what lies behind them stays.
-/
def strncpy {α : Type}
    (filler : α)
    (n : Nat)
    (destination source : List α) :
    List α :=
  source.take n ++ List.replicate (n - source.length) filler ++
    destination.drop n

/-- `strrchr`: the index of the last occurrence of a character. -/
def strrchr (c : Char) (text : CString) : Option Nat :=
  (text.reverse.idxOf? c).map fun index => text.length - 1 - index

/-- The decimal digits that `%u` prints. -/
def printUnsigned (value : Nat) : CString :=
  Nat.toDigits 10 value

/-- The text that `%d` prints. -/
def printInt (value : Int) : CString :=
  if value < 0 then
    '-' :: printUnsigned value.natAbs
  else
    printUnsigned value.natAbs

/-- `strncmp` finds no difference in the first `n` characters. -/
def strncmpEq (n : Nat) (first second : CString) : Bool :=
  first.take n == second.take n

/-- `strstr` finds the second text in the first. -/
def strstr : CString → CString → Bool
  | [], needle => needle.isEmpty
  | c :: rest, needle => needle.isPrefixOf (c :: rest) || strstr rest needle

section Marks

variable {α : Type} [BEq α] [LawfulBEq α]
variable {text : List α}
variable {mark : α}

/-- No element of a text without the mark is the mark. -/
theorem bne_of_not_mem
    (plain : mark ∉ text) :
    ∀ value ∈ text, (value != mark) = true := by
  intro value member
  rw [bne_iff_ne]
  rintro rfl
  exact plain member

/-- A text without the mark is read to its end. -/
theorem takeWhile_of_not_mem
    (plain : mark ∉ text) :
    text.takeWhile (· != mark) = text :=
  List.takeWhile_eq_self_iff.mpr (bne_of_not_mem plain)

/-- A text is read up to the mark behind it. -/
theorem takeWhile_append_mark
    (plain : mark ∉ text)
    (behind : List α) :
    (text ++ mark :: behind).takeWhile (· != mark) = text := by
  rw [List.takeWhile_append_of_pos (bne_of_not_mem plain),
    List.takeWhile_cons_of_neg (by simp), List.append_nil]

end Marks

/-- An array reads as what stands in front of its first NUL. -/
theorem takeWhile_append_nul
    {text : CString}
    (plain : nul ∉ text)
    (behind : List Char) :
    (text ++ nul :: behind).takeWhile (· != nul) = text :=
  takeWhile_append_mark plain behind

section Tokens

variable (delimiter : Char → Bool)

/--
One call of `strtok_r`: leading delimiters are skipped, the token ends at the
next delimiter, and the save pointer is left behind that delimiter.
-/
def strtokR (text : CString) : Option CString × CString :=
  match text.dropWhile delimiter with
  | [] => (none, [])
  | c :: rest =>
      (some ((c :: rest).takeWhile fun d => !delimiter d),
        ((c :: rest).dropWhile fun d => !delimiter d).drop 1)

/--
What a buffer reads as once `strtok_r` has put its NUL: the leading delimiters
and the token.
-/
def strtokCut (text : CString) : CString :=
  text.takeWhile delimiter ++
    (text.dropWhile delimiter).takeWhile fun d => !delimiter d

/-- The non-empty pieces of a text between delimiters. -/
def tokens (text : CString) : List CString :=
  (text.splitOnP delimiter).filter fun piece => !piece.isEmpty

@[simp] theorem tokens_nil :
    tokens delimiter [] = [] :=
  rfl

/-- Leading delimiters do not contribute a token. -/
theorem tokens_cons_delimiter
    {c : Char}
    (isDelimiter : delimiter c = true)
    (text : CString) :
    tokens delimiter (c :: text) = tokens delimiter text := by
  simp [tokens, List.splitOnP_cons_eq_if_modifyHead, isDelimiter]

/-- Skipping the leading delimiters keeps every token. -/
theorem tokens_dropWhile
    (text : CString) :
    tokens delimiter (text.dropWhile delimiter) =
      tokens delimiter text := by
  induction text with
  | nil =>
      rfl
  | cons c rest inductionHypothesis =>
      by_cases isDelimiter : delimiter c = true
      · rw [List.dropWhile_cons_of_pos isDelimiter, inductionHypothesis,
          tokens_cons_delimiter delimiter isDelimiter]
      · rw [List.dropWhile_cons_of_neg isDelimiter]

/-- The pieces of a text are its first piece and the pieces behind it. -/
theorem splitOnP_eq_takeWhile_cons
    (text : CString) :
    text.splitOnP delimiter =
      (text.takeWhile fun d => !delimiter d) ::
        match text.dropWhile fun d => !delimiter d with
        | [] => []
        | _ :: later => later.splitOnP delimiter := by
  induction text with
  | nil =>
      rfl
  | cons c rest inductionHypothesis =>
      rw [List.splitOnP_cons_eq_if_modifyHead]
      by_cases isDelimiter : delimiter c = true
      · simp [isDelimiter]
      · have isDelimiter : delimiter c = false := by
          simpa using isDelimiter
        simp only [isDelimiter, Bool.false_eq_true, ↓reduceIte,
          Bool.not_false, List.takeWhile_cons_of_pos,
          List.dropWhile_cons_of_pos]
        rw [inductionHypothesis]
        rfl

/-- The first piece of a text that begins with no delimiter is a token. -/
theorem tokens_cons_of_not_delimiter
    {c : Char}
    (notDelimiter : delimiter c = false)
    (text : CString) :
    tokens delimiter (c :: text) =
      ((c :: text).takeWhile fun d => !delimiter d) ::
        tokens delimiter
          (((c :: text).dropWhile fun d => !delimiter d).drop 1) := by
  have nonempty :
      ((c :: text).takeWhile fun d => !delimiter d).isEmpty = false := by
    simp [notDelimiter]
  unfold tokens
  rw [splitOnP_eq_takeWhile_cons, List.filter_cons_of_pos (by
    simp [nonempty])]
  congr 1
  cases (c :: text).dropWhile fun d => !delimiter d with
  | nil =>
      rfl
  | cons _ later =>
      rfl

/--
`strtok_r` returns the first token, or NULL when there is none, and what it
leaves holds the remaining tokens.
-/
theorem strtokR_tokens
    (text : CString) :
    (strtokR delimiter text).1 = (tokens delimiter text).head? ∧
      tokens delimiter (strtokR delimiter text).2 =
        (tokens delimiter text).tail := by
  rw [← tokens_dropWhile delimiter text]
  unfold strtokR
  cases skipped : text.dropWhile delimiter with
  | nil =>
      simp
  | cons c rest =>
      have notDelimiter : delimiter c = false := by
        have head := List.head?_dropWhile_not delimiter text
        rw [skipped] at head
        simpa using head
      rw [tokens_cons_of_not_delimiter delimiter notDelimiter]
      simp

/-- The tokens of a text are those in front of and behind a delimiter. -/
theorem tokens_append_delimiter
    {c : Char}
    (isDelimiter : delimiter c = true)
    (leading trailing : CString) :
    tokens delimiter (leading ++ c :: trailing) =
      tokens delimiter leading ++ tokens delimiter trailing := by
  simp [tokens, List.splitOnP_append_cons _ _ isDelimiter]

/-- A text without delimiters is its own only token. -/
theorem tokens_of_no_delimiter
    {text : CString}
    (nonempty : text ≠ [])
    (noDelimiter : ∀ c ∈ text, delimiter c = false) :
    tokens delimiter text = [text] := by
  have isEmpty : text.isEmpty = false := by
    simpa using nonempty
  rw [tokens, List.splitOnP_eq_singleton noDelimiter]
  simp [isEmpty]

/-- The cut of a text that one delimiter ends is what stands before it. -/
theorem strtokCut_append_delimiter
    {c : Char}
    {text : CString}
    (nonempty : text ≠ [])
    (noDelimiter : ∀ d ∈ text, delimiter d = false)
    (isDelimiter : delimiter c = true) :
    strtokCut delimiter (text ++ [c]) = text := by
  obtain ⟨d, rest, rfl⟩ := List.exists_cons_of_ne_nil nonempty
  have head : delimiter d = false :=
    noDelimiter d (by simp)
  have kept : ∀ e ∈ d :: rest, (!delimiter e) = true := by
    intro e member
    simp [noDelimiter e member]
  simp only [strtokCut, List.cons_append, head, Bool.false_eq_true,
    not_false_eq_true, List.takeWhile_cons_of_neg, List.nil_append,
    List.dropWhile_cons_of_neg]
  rw [← List.cons_append, List.takeWhile_append_of_pos kept]
  simp [isDelimiter]

end Tokens

section SingleDelimiter

/-- A character that occurs once splits a text into two parts without it. -/
theorem exists_append_of_count_le_one
    {text : CString}
    {c : Char}
    (member : c ∈ text)
    (once : text.count c ≤ 1) :
    ∃ leading trailing,
      text = leading ++ c :: trailing ∧ c ∉ leading ∧ c ∉ trailing := by
  obtain ⟨leading, trailing, rfl⟩ := List.append_of_mem member
  rw [List.count_append, List.count_cons_self] at once
  exact
    ⟨leading, trailing, rfl,
      List.count_eq_zero.mp (by omega),
      List.count_eq_zero.mp (by omega)⟩

/-- A text without one delimiter character is its own only token. -/
theorem tokens_of_not_mem
    {text : CString}
    {c : Char}
    (nonempty : text ≠ [])
    (absent : c ∉ text) :
    tokens (· == c) text = [text] := by
  refine tokens_of_no_delimiter _ nonempty fun d member => ?_
  rw [beq_eq_false_iff_ne]
  rintro rfl
  exact absent member

theorem strtokCut_append_of_not_mem
    {text : CString}
    {c : Char}
    (nonempty : text ≠ [])
    (absent : c ∉ text) :
    strtokCut (· == c) (text ++ [c]) = text := by
  refine strtokCut_append_delimiter _ nonempty (fun d member => ?_) (by simp)
  rw [beq_eq_false_iff_ne]
  rintro rfl
  exact absent member

/-- The tokens are the pieces that are not empty. -/
theorem mem_tokens_iff
    {text piece : CString}
    {c : Char} :
    piece ∈ tokens (· == c) text ↔ piece ∈ text.splitOn c ∧ piece ≠ [] := by
  rw [tokens, List.mem_filter, List.splitOn_eq_splitOnP]
  simp

/-- Every character but the delimiter stands in one of the pieces. -/
theorem exists_mem_splitOn
    {text : CString}
    {c d : Char}
    (member : c ∈ text)
    (different : c ≠ d) :
    ∃ piece ∈ text.splitOn d, c ∈ piece := by
  induction text with
  | nil =>
      simp at member
  | cons head rest inductionHypothesis =>
      rw [List.splitOn_cons_eq_if_modifyHead]
      rcases List.mem_cons.mp member with rfl | inRest
      · rw [if_neg (by simpa using different)]
        obtain ⟨first, later, pieces⟩ :=
          List.exists_cons_of_ne_nil (List.splitOn_ne_nil d rest)
        exact ⟨c :: first, by simp [pieces], by simp⟩
      · obtain ⟨piece, inPieces, inside⟩ := inductionHypothesis inRest
        split
        · exact ⟨piece, by simp [inPieces], inside⟩
        · obtain ⟨first, later, pieces⟩ :=
            List.exists_cons_of_ne_nil (List.splitOn_ne_nil d rest)
          rw [pieces] at inPieces ⊢
          rcases List.mem_cons.mp inPieces with rfl | inLater
          · exact ⟨head :: piece, by simp, by simp [inside]⟩
          · exact ⟨piece, by simp [inLater], inside⟩

/-- A piece consists of characters of the text, without the delimiter. -/
theorem mem_of_mem_splitOn
    {text piece : CString}
    {c d : Char}
    (member : piece ∈ text.splitOn d)
    (inside : c ∈ piece) :
    c ∈ text ∧ c ≠ d := by
  induction text generalizing piece with
  | nil =>
      rw [List.splitOn_nil, List.mem_singleton] at member
      subst member
      cases inside
  | cons head rest inductionHypothesis =>
      have later :
          ∀ {piece}, piece ∈ rest.splitOn d → c ∈ piece →
            c ∈ head :: rest ∧ c ≠ d := by
        intro piece member inside
        have found := inductionHypothesis member inside
        exact ⟨List.mem_cons_of_mem _ found.1, found.2⟩
      rw [List.splitOn_cons_eq_if_modifyHead] at member
      split at member
      · rcases List.mem_cons.mp member with rfl | member
        · cases inside
        · exact later member inside
      · rename_i different
        obtain ⟨first, others, pieces⟩ :=
          List.exists_cons_of_ne_nil (List.splitOn_ne_nil d rest)
        rw [pieces] at member
        rcases List.mem_cons.mp member with rfl | member
        · rcases List.mem_cons.mp inside with rfl | inside
          · exact ⟨by simp, by simpa using different⟩
          · exact later (by rw [pieces]; exact List.mem_cons_self) inside
        · exact
            later (by rw [pieces]; exact List.mem_cons_of_mem _ member) inside

/-- A text is its first piece, or its first piece and a text behind it. -/
theorem splitOn_induction
    {motive : CString → Prop}
    (d : Char)
    (last : ∀ piece, d ∉ piece → motive piece)
    (cons : ∀ piece rest, d ∉ piece → motive rest → motive (piece ++ d :: rest))
    (text : CString) :
    motive text := by
  by_cases member : d ∈ text
  · obtain ⟨piece, rest, shape, free⟩ := List.eq_append_cons_of_mem member
    have shorter : rest.length < text.length := by
      rw [shape, List.length_append, List.length_cons]
      omega
    rw [shape]
    exact cons piece rest free (splitOn_induction d last cons rest)
  · exact last text member
termination_by text.length

/-- There is one piece more than delimiters. -/
theorem length_splitOn
    (d : Char)
    (text : CString) :
    (text.splitOn d).length = text.count d + 1 := by
  induction text using splitOn_induction d with
  | last piece free =>
      rw [List.splitOn_eq_singleton free, List.count_eq_zero_of_not_mem free]
      rfl
  | cons piece rest free inductionHypothesis =>
      rw [List.splitOn_append_cons_self_of_not_mem free, List.length_cons,
        inductionHypothesis, List.count_append, List.count_cons_self,
        List.count_eq_zero_of_not_mem free]
      omega

end SingleDelimiter

end Csh.Libc
