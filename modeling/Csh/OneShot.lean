import Csh.Lib.CBuffer
import Mathlib.Algebra.Order.Ring.Int

namespace Csh.OneShot

open Libc

/-!
# The command line of a batch

With arguments, `main` joins them in an array and executes it.  What is
subtracted from the size of the array is the distance between the array and
what `strncat` returns, not the length of the text.
-/

/-- `LINE_SIZE`. -/
def lineSize : Nat :=
  512

/-- The array `ex` and the variable `p`. -/
structure CommandLine where
  ex : List Char
  p : Int
  deriving Repr, DecidableEq

/-- `p = ex - strncat(ex, source, LINE_SIZE - p)`. -/
def CommandLine.append
    (line : CommandLine)
    (source : CString) :
    Option CommandLine := do
  let limit := (((lineSize : Int) - line.p) % 2 ^ 64).toNat
  let appended ← strncatAt line.ex 0 source limit
  pure ⟨appended.1, 0 - (appended.2 : Int)⟩

/-- One round of the loop, for the argument at the index `i`. -/
def CommandLine.addArgument
    (line : CommandLine)
    (i : Nat)
    (argument : CString) :
    Option CommandLine := do
  let spaced ← if 0 < i then line.append [' '] else some line
  spaced.append argument

/-- The loop over the arguments from the index `i` on. -/
def CommandLine.addArguments
    (line : CommandLine)
    (i : Nat) :
    List CString → Option CommandLine
  | [] => some line
  | argument :: rest => do
      let added ← line.addArgument i argument
      added.addArguments (i + 1) rest

/-- `ex` when it has been built, if nothing was written behind it. -/
def buildCommand (arguments : List CString) : Option (List Char) :=
  (CommandLine.addArguments ⟨List.replicate lineSize nul, 0⟩ 0 arguments).map
    CommandLine.ex

/-- An argument with the blank that separates it from those before it. -/
def separated (i : Nat) (argument : CString) : CString :=
  if 0 < i then ' ' :: argument else argument

/-- The arguments from the index `i` on, each behind its blank. -/
def separatedFrom (i : Nat) : List CString → CString
  | [] => []
  | argument :: rest => separated i argument ++ separatedFrom (i + 1) rest

/-- Separated arguments are arguments joined by blanks. -/
theorem separatedFrom_zero
    (arguments : List CString) :
    separatedFrom 0 arguments = [' '].intercalate arguments := by
  have behindFirst :
      ∀ (rest : List CString) (argument : CString) (i : Nat),
        argument ++ separatedFrom (i + 1) rest =
          [' '].intercalate (argument :: rest) := by
    intro rest
    induction rest with
    | nil =>
        intro argument i
        simp [separatedFrom]
    | cons next rest inductionHypothesis =>
        intro argument i
        rw [separatedFrom, separated, if_pos (Nat.succ_pos i),
          List.intercalate_cons_cons, ← inductionHypothesis next (i + 1)]
        simp
  cases arguments with
  | nil =>
      rfl
  | cons argument rest =>
      rw [← behindFirst rest argument 0]
      rfl

section Building

variable {text source : CString}
variable {arguments : List CString}

/-- The line holds a text, and `p` is zero. -/
def lineOf (text : CString) : CommandLine :=
  ⟨padded lineSize text, 0⟩

/-- The whole array is the limit, whatever it holds already. -/
theorem append_lineOf
    (inside : text.length < lineSize)
    (plain : nul ∉ text) :
    (lineOf text).append source =
      if text.length + source.length < lineSize then
        some (lineOf (text ++ source))
      else
        none := by
  have limit :
      (((lineSize : Int) - (lineOf text).p) % 2 ^ 64).toNat = lineSize :=
    show (((lineSize : Int) - 0) % 2 ^ 64).toNat = lineSize by decide
  rw [CommandLine.append, limit, lineOf, strncatAt_padded inside plain]
  by_cases short : source.length ≤ lineSize
  · rw [List.take_of_length_le short]
    split
    · rfl
    · rfl
  · rw [List.length_take, if_neg (by omega), if_neg (by omega)]
    rfl

theorem addArgument_lineOf
    {i : Nat}
    {argument : CString}
    (inside : text.length < lineSize)
    (plain : nul ∉ text) :
    (lineOf text).addArgument i argument =
      if text.length + (separated i argument).length < lineSize then
        some (lineOf (text ++ separated i argument))
      else
        none := by
  unfold CommandLine.addArgument separated
  by_cases later : 0 < i
  · simp only [if_pos later]
    rw [append_lineOf inside plain, List.length_singleton, List.length_cons]
    by_cases room : text.length + 1 < lineSize
    · have spacedInside : (text ++ [' ']).length < lineSize := by
        rw [List.length_append]
        exact room
      have spacedPlain : nul ∉ text ++ [' '] := by
        rw [List.mem_append, not_or]
        exact ⟨plain, by decide⟩
      rw [if_pos room, Option.bind_eq_bind, Option.bind_some,
        append_lineOf spacedInside spacedPlain, List.append_assoc,
        List.singleton_append, List.length_append, List.length_singleton]
      congr 2
      omega
    · rw [if_neg room, if_neg (by omega)]
      rfl
  · simp only [if_neg later]
    exact append_lineOf inside plain

theorem not_mem_separated
    {i : Nat}
    {argument : CString}
    (plain : nul ∉ argument) :
    nul ∉ separated i argument := by
  unfold separated
  split
  · rw [List.mem_cons, not_or]
    exact ⟨by decide, plain⟩
  · exact plain

/-- The arguments are joined behind the text when all of them fit. -/
theorem addArguments_lineOf
    (inside : text.length < lineSize)
    (plain : nul ∉ text)
    (argumentsPlain : ∀ argument ∈ arguments, nul ∉ argument)
    (i : Nat) :
    (lineOf text).addArguments i arguments =
      if text.length + (separatedFrom i arguments).length < lineSize then
        some (lineOf (text ++ separatedFrom i arguments))
      else
        none := by
  induction arguments generalizing text i with
  | nil =>
      rw [CommandLine.addArguments, separatedFrom, List.append_nil,
        List.length_nil, Nat.add_zero, if_pos inside]
  | cons argument rest inductionHypothesis =>
      obtain ⟨argumentPlain, restPlain⟩ :=
        List.forall_mem_cons.mp argumentsPlain
      rw [CommandLine.addArguments, addArgument_lineOf inside plain,
        separatedFrom, List.length_append]
      by_cases room :
          text.length + (separated i argument).length < lineSize
      · have addedInside :
            (text ++ separated i argument).length < lineSize := by
          rw [List.length_append]
          exact room
        have addedPlain : nul ∉ text ++ separated i argument := by
          rw [List.mem_append, not_or]
          exact ⟨plain, not_mem_separated argumentPlain⟩
        rw [if_pos room, Option.bind_eq_bind, Option.bind_some,
          inductionHypothesis addedInside addedPlain restPlain,
          List.append_assoc, List.length_append, Nat.add_assoc]
      · rw [if_neg room, if_neg (by omega)]
        rfl

/-- The array holds the joined arguments when they fit. -/
theorem buildCommand_eq
    (argumentsPlain : ∀ argument ∈ arguments, nul ∉ argument) :
    buildCommand arguments =
      if ([' '].intercalate arguments).length < lineSize then
        some (padded lineSize ([' '].intercalate arguments))
      else
        none := by
  have built :=
    @addArguments_lineOf [] arguments (by decide) (by decide) argumentsPlain 0
  rw [List.length_nil, Nat.zero_add, List.nil_append, separatedFrom_zero]
    at built
  rw [buildCommand]
  refine (congrArg (Option.map CommandLine.ex) built).trans ?_
  split
  · rfl
  · rfl

theorem not_mem_joined
    (argumentsPlain : ∀ argument ∈ arguments, nul ∉ argument) :
    nul ∉ [' '].intercalate arguments := by
  rw [← separatedFrom_zero]
  generalize 0 = i
  induction arguments generalizing i with
  | nil =>
      exact List.not_mem_nil
  | cons argument rest inductionHypothesis =>
      obtain ⟨argumentPlain, restPlain⟩ :=
        List.forall_mem_cons.mp argumentsPlain
      rw [separatedFrom, List.mem_append, not_or]
      exact ⟨not_mem_separated argumentPlain,
        inductionHypothesis restPlain (i + 1)⟩

/--
The command line stays in the array and is the joined arguments, cut at its
end, exactly for arguments that need no cut.
-/
theorem buildCommand_joins_iff
    (argumentsPlain : ∀ argument ∈ arguments, nul ∉ argument) :
    (∃ ex,
        buildCommand arguments = some ex ∧
          stringAt ex 0 =
            ([' '].intercalate arguments).take (lineSize - 1)) ↔
      ([' '].intercalate arguments).length ≤ lineSize - 1 := by
  have positive : 0 < lineSize := by decide
  rw [buildCommand_eq argumentsPlain]
  by_cases fits : ([' '].intercalate arguments).length < lineSize
  · refine iff_of_true ⟨_, if_pos fits, ?_⟩ (by omega)
    rw [stringAt_padded fits (not_mem_joined argumentsPlain),
      List.take_of_length_le (by omega)]
  · refine iff_of_false ?_ (by omega)
    rintro ⟨ex, built, _⟩
    rw [if_neg fits] at built
    cases built

/-- Two short arguments are joined. -/
theorem buildCommand_joins_of_short :
    ∃ ex,
      buildCommand ["ident".toList, "5".toList] = some ex ∧
        stringAt ex 0 =
          ([' '].intercalate ["ident".toList, "5".toList]).take
            (lineSize - 1) :=
  (buildCommand_joins_iff (by decide)).mpr (by decide)

/-- An argument as long as the array is not cut: its NUL is behind the array. -/
theorem buildCommand_overflows :
    ¬ ∃ ex,
      buildCommand [List.replicate 512 'a'] = some ex ∧
        stringAt ex 0 =
          ([' '].intercalate [List.replicate 512 'a']).take (lineSize - 1) := by
  have plain :
      ∀ argument ∈ [List.replicate 512 'a'], nul ∉ argument := by
    intro argument member inside
    rw [List.mem_singleton.mp member] at inside
    exact absurd (List.eq_of_mem_replicate inside) (by decide)
  have tooLong :
      ¬ ([' '].intercalate [List.replicate 512 'a']).length < lineSize := by
    rw [List.intercalate_singleton, List.length_replicate]
    exact Nat.lt_irrefl 512
  rintro ⟨ex, built, _⟩
  rw [buildCommand_eq plain, if_neg tooLong] at built
  cases built

end Building

end Csh.OneShot
