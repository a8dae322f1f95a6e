import Csh.ConstraintCleaning
import Csh.Lib.Checked

namespace Csh.RequireVersion

open Libc
open Checked

/-!
# The arrays of the cleaning loop

`compare_version` cleans a constraint in arrays of fixed size, at indices of
type `size_t`.  Here every write is checked against the array it goes to.  No
write misses its array; but both sizes count the terminating NUL, and the loop
may take its place.
-/

/-- `index++` of a `size_t`. -/
def sizeSucc (index : Nat) : Nat :=
  (index + 1) % 2 ^ 64

/-- `index--` of a `size_t`. -/
def sizePred (index : Nat) : Nat :=
  (index + (2 ^ 64 - 1)) % 2 ^ 64

/-- The arrays and the counters of the cleaning loop. -/
structure Arrays where
  operator : Vector Char operatorMaxlen
  constraint : Vector Char constraintMaxlen
  wildcardArr : Vector Bool numVersionParts
  cleanIdx : Nat
  dotCount : Nat

/-- The arrays in front of the cleaning loop. -/
def Arrays.start : Arrays where
  operator := ⟨#['=', '=', nul], rfl⟩
  constraint := Vector.replicate constraintMaxlen nul
  wildcardArr := Vector.replicate numVersionParts false
  cleanIdx := 0
  dotCount := 0

/-- What a part of the cleaning loop comes to. -/
inductive Outcome where
  | outside
  | refused
  | done (arrays : Arrays)

/-- Go on with a written array, if its write was inside. -/
def afterWrite
    {α : Type}
    (written : Option α)
    (next : α → Outcome) :
    Outcome :=
  match written with
  | none => .outside
  | some array => next array

/-- Zero the cells of the operator at some indices. -/
def zeroOperator :
    List Nat →
    Vector Char operatorMaxlen →
    Option (Vector Char operatorMaxlen)
  | [], operator => some operator
  | index :: indices, operator =>
      (store operator index nul).bind (zeroOperator indices)

/-- One turn of the cleaning loop, up to its `clean_idx++`. -/
def turn
    (dirtyIdx : Nat)
    (c : Char)
    (arrays : Arrays) :
    Outcome :=
  if dirtyIdx < operatorMaxlen ∧ isOperatorChar c = true then
    let cleanIdx := sizePred arrays.cleanIdx
    afterWrite (store arrays.operator dirtyIdx c) fun operator =>
      if c = '=' then
        .done { arrays with operator, cleanIdx }
      else
        -- The parts of the operator behind this one are zeroed.
        afterWrite
          (zeroOperator
            (List.range' (dirtyIdx + 1) (operatorMaxlen - (dirtyIdx + 1)))
            operator)
          fun operator => .done { arrays with operator, cleanIdx }
  else if c = 'v' ∨ c = 'V' then
    .done { arrays with cleanIdx := sizePred arrays.cleanIdx }
  else if c = '-' ∨ c = '.' then
    afterWrite (store arrays.constraint arrays.cleanIdx '.') fun constraint =>
      if numVersionParts ≤ arrays.dotCount + 1 then
        .refused
      else
        .done { arrays with constraint, dotCount := arrays.dotCount + 1 }
  else if c = '*' then
    afterWrite (store arrays.wildcardArr arrays.dotCount true)
      fun wildcardArr =>
        afterWrite (store arrays.constraint arrays.cleanIdx '0')
          fun constraint => .done { arrays with wildcardArr, constraint }
  else if c.isDigit then
    afterWrite (store arrays.constraint arrays.cleanIdx c)
      fun constraint => .done { arrays with constraint }
  else
    .refused

/-- The `clean_idx++` between two turns. -/
def Arrays.increment (arrays : Arrays) : Arrays :=
  { arrays with cleanIdx := sizeSucc arrays.cleanIdx }

/-- The cleaning loop from position `dirtyIdx` of the dirty constraint on. -/
def cleaningLoop : Nat → CString → Arrays → Outcome
  | _, [], arrays => .done arrays
  | dirtyIdx, c :: rest, arrays =>
      if arrays.cleanIdx < constraintMaxlen ∧
          arrays.dotCount < numVersionParts then
        match turn dirtyIdx c arrays with
        | .done next =>
            cleaningLoop (dirtyIdx + 1) rest next.increment
        | stopped => stopped
      else
        .done arrays

/--
No write was outside its array, and both arrays hold a NUL when they are
passed on to `sscanf` and `strcmp`.
-/
def Outcome.Safe : Outcome → Prop
  | .outside => False
  | .refused => True
  | .done arrays => nul ∈ arrays.constraint ∧ nul ∈ arrays.operator

instance (outcome : Outcome) : Decidable outcome.Safe :=
  match outcome with
  | .outside => inferInstanceAs (Decidable False)
  | .refused => inferInstanceAs (Decidable True)
  | .done arrays =>
      inferInstanceAs
        (Decidable (nul ∈ arrays.constraint ∧ nul ∈ arrays.operator))

/-- The arrays show the buffers that the loop collects. -/
structure Shows (arrays : Arrays) (state : Cleaning) : Prop where
  operator : arrays.operator.toList = state.operator
  constraint :
    arrays.constraint.toList =
      state.constraint ++
        List.replicate (constraintMaxlen - state.constraint.length) nul
  wildcardArr : arrays.wildcardArr.toList = state.wildcardArr
  cleanIdx : arrays.cleanIdx = state.constraint.length
  dotCount : arrays.dotCount = state.dotCount
  within : state.constraint.length ≤ constraintMaxlen

section Turns

variable {arrays : Arrays}
variable {state : Cleaning}
variable {dirtyIdx : Nat}
variable {c : Char}

/-- The index that is not skipped is the same one again. -/
theorem sizeSucc_sizePred
    {index : Nat}
    (small : index < 2 ^ 64) :
    sizeSucc (sizePred index) = index := by
  unfold sizeSucc sizePred
  omega

theorem zeroOperator_range'
    {start count : Nat}
    (operator : Vector Char operatorMaxlen)
    (all : start + count = operatorMaxlen) :
    ∃ zeroed,
      zeroOperator (List.range' start count) operator = some zeroed ∧
        zeroed.toList =
          operator.toList.take start ++ List.replicate count nul := by
  induction count generalizing start operator with
  | zero =>
      refine ⟨operator, rfl, ?_⟩
      rw [List.replicate_zero, List.append_nil, List.take_of_length_le]
      rw [Vector.length_toList]
      omega
  | succ count inductionHypothesis =>
      have inside : start < operatorMaxlen := by
        omega
      obtain ⟨written, stored, cells⟩ :=
        @exists_store Char operatorMaxlen operator start inside nul
      obtain ⟨zeroed, later, zeroedCells⟩ :=
        @inductionHypothesis (start + 1) written (by omega)
      refine ⟨zeroed, ?_, ?_⟩
      · rw [List.range'_succ, zeroOperator, stored]
        exact later
      · have long : start < operator.toList.length := by
          rwa [Vector.length_toList]
        rw [zeroedCells, cells, List.replicate_succ, List.take_add_one,
          List.take_set_of_le (Nat.le_refl start),
          List.getElem?_set_self long, List.append_assoc]
        rfl

/-- An operator character is written, and the others behind it are zeroed. -/
theorem Shows.turn_operator
    (shows : Shows arrays state)
    (early : dirtyIdx < operatorMaxlen)
    (isOperator : isOperatorChar c = true) :
    ∃ operator,
      turn dirtyIdx c arrays =
          .done { arrays with
            operator, cleanIdx := sizePred arrays.cleanIdx } ∧
        operator.toList = (state.putOperator dirtyIdx c).operator := by
  obtain ⟨written, stored, cells⟩ :=
    @exists_store Char operatorMaxlen arrays.operator dirtyIdx early c
  rw [shows.operator] at cells
  by_cases equals : c = '='
  · refine ⟨written, ?_, ?_⟩
    · rw [turn, if_pos ⟨early, isOperator⟩, stored]
      exact if_pos equals
    · rw [cells, Cleaning.putOperator, if_pos equals]
  · obtain ⟨zeroed, ended, zeroedCells⟩ :=
      @zeroOperator_range' (dirtyIdx + 1) (operatorMaxlen - (dirtyIdx + 1))
        written (by omega)
    refine ⟨zeroed, ?_, ?_⟩
    · rw [turn, if_pos ⟨early, isOperator⟩, stored]
      simp only [afterWrite, equals, ↓reduceIte, ended]
    · rw [zeroedCells, cells, Cleaning.putOperator, if_neg equals]

/-- A character is written behind the ones that are there. -/
theorem Shows.store_constraint
    (shows : Shows arrays state)
    (room : state.constraint.length < constraintMaxlen)
    (c : Char) :
    ∃ constraint,
      store arrays.constraint arrays.cleanIdx c = some constraint ∧
        constraint.toList =
          (state.constraint ++ [c]) ++
            List.replicate
              (constraintMaxlen - (state.constraint ++ [c]).length) nul := by
  rw [shows.cleanIdx]
  obtain ⟨written, stored, cells⟩ :=
    @exists_store Char constraintMaxlen arrays.constraint
      state.constraint.length room c
  refine ⟨written, stored, ?_⟩
  obtain ⟨free, left⟩ := Nat.exists_eq_add_of_lt room
  have before :
      constraintMaxlen - state.constraint.length = free + 1 := by
    omega
  have behind :
      constraintMaxlen - (state.constraint ++ [c]).length = free := by
    rw [List.length_append, List.length_singleton]
    omega
  rw [cells, shows.constraint, before, behind, List.replicate_succ,
    List.set_append_right _ _ (Nat.le_refl _), Nat.sub_self,
    List.append_assoc]
  rfl

/-- A written character moves the index on. -/
theorem Shows.increment
    {constraint : Vector Char constraintMaxlen}
    {wildcardArr : Vector Bool numVersionParts}
    {dotCount : Nat}
    {next : Cleaning}
    (shows : Shows arrays state)
    (room : state.constraint.length < constraintMaxlen)
    (copied : next.constraint = state.constraint ++ [c])
    (cells :
      constraint.toList =
        (state.constraint ++ [c]) ++
          List.replicate
            (constraintMaxlen - (state.constraint ++ [c]).length) nul)
    (operator : next.operator = state.operator)
    (flags : wildcardArr.toList = next.wildcardArr)
    (dots : dotCount = next.dotCount) :
    Shows
      (Arrays.increment
        { arrays with constraint, wildcardArr, dotCount }) next where
  operator := by
    rw [operator]
    exact shows.operator
  constraint := by
    rw [copied]
    exact cells
  wildcardArr := flags
  cleanIdx := by
    have small : constraintMaxlen < 2 ^ 64 := by
      decide
    rw [copied, List.length_append, List.length_singleton, Arrays.increment,
      sizeSucc, shows.cleanIdx, Nat.mod_eq_of_lt (by omega)]
  dotCount := dots
  within := by
    rw [copied, List.length_append, List.length_singleton]
    omega

/-- A character that is not copied leaves the index where it is. -/
theorem Shows.keep
    {operator : Vector Char operatorMaxlen}
    {written : List Char}
    (shows : Shows arrays state)
    (spelled : operator.toList = written) :
    Shows
      (Arrays.increment
        { arrays with operator, cleanIdx := sizePred arrays.cleanIdx })
      { state with operator := written } where
  operator := spelled
  constraint := shows.constraint
  wildcardArr := shows.wildcardArr
  cleanIdx := by
    have small : constraintMaxlen < 2 ^ 64 := by
      decide
    have within := shows.within
    rw [Arrays.increment, shows.cleanIdx]
    exact sizeSucc_sizePred (by omega)
  dotCount := shows.dotCount
  within := shows.within

/-- One turn of the loop does on the arrays what it does on the buffers. -/
theorem Shows.turn
    (shows : Shows arrays state)
    (room : state.constraint.length < constraintMaxlen)
    (few : state.dotCount < numVersionParts)
    (dirtyIdx : Nat)
    (c : Char) :
    (cleanChar dirtyIdx c state = none ∧
        RequireVersion.turn dirtyIdx c arrays = .refused) ∨
      ∃ nextState next,
        cleanChar dirtyIdx c state = some nextState ∧
          RequireVersion.turn dirtyIdx c arrays = .done next ∧
          Shows next.increment nextState := by
  by_cases operator : dirtyIdx < operatorMaxlen ∧ isOperatorChar c = true
  · obtain ⟨written, turned, spelled⟩ :=
      shows.turn_operator operator.1 operator.2
    refine .inr ⟨state.putOperator dirtyIdx c, _, ?_, turned, ?_⟩
    · rw [cleanChar, if_pos operator]
    · rw [state.putOperator_eq]
      exact shows.keep spelled
  rw [cleanChar, if_neg operator, RequireVersion.turn, if_neg operator]
  by_cases mark : c = 'v' ∨ c = 'V'
  · rw [if_pos mark, if_pos mark]
    exact .inr ⟨state, _, rfl, rfl, shows.keep shows.operator⟩
  rw [if_neg mark, if_neg mark]
  by_cases separator : c = '-' ∨ c = '.'
  · obtain ⟨constraint, stored, cells⟩ := shows.store_constraint room '.'
    rw [if_pos separator, if_pos separator, stored, shows.dotCount]
    by_cases many : numVersionParts ≤ state.dotCount + 1
    · simp only [afterWrite, many, ↓reduceIte, true_and, true_or]
    · simp only [afterWrite, many, ↓reduceIte]
      exact .inr ⟨_, _, rfl, rfl,
        shows.increment room rfl cells rfl shows.wildcardArr rfl⟩
  rw [if_neg separator, if_neg separator]
  by_cases star : c = '*'
  · obtain ⟨wildcardArr, flagged, flags⟩ :=
      @exists_store Bool numVersionParts arrays.wildcardArr
        state.dotCount few true
    obtain ⟨constraint, stored, cells⟩ := shows.store_constraint room '0'
    rw [shows.wildcardArr] at flags
    rw [if_pos star, if_pos star, shows.dotCount, flagged, stored]
    exact .inr ⟨_, _, rfl, rfl,
      shows.increment room rfl cells rfl flags rfl⟩
  rw [if_neg star, if_neg star]
  by_cases digit : c.isDigit = true
  · obtain ⟨constraint, stored, cells⟩ := shows.store_constraint room c
    rw [if_pos digit, if_pos digit, stored]
    exact .inr ⟨_, _, rfl, rfl,
      shows.increment room rfl cells rfl shows.wildcardArr shows.dotCount⟩
  · rw [if_neg digit, if_neg digit]
    exact .inl ⟨rfl, rfl⟩

/-- The loop does on the arrays what it does on the buffers. -/
theorem Shows.cleaningLoop
    (shows : Shows arrays state)
    (dirtyIdx : Nat)
    (text : CString) :
    (cleanConstraint dirtyIdx text state = none ∧
        RequireVersion.cleaningLoop dirtyIdx text arrays = .refused) ∨
      ∃ lastState last,
        cleanConstraint dirtyIdx text state = some lastState ∧
          RequireVersion.cleaningLoop dirtyIdx text arrays = .done last ∧
          Shows last lastState := by
  induction text generalizing dirtyIdx arrays state with
  | nil =>
      exact .inr ⟨state, arrays, rfl, rfl, shows⟩
  | cons c rest inductionHypothesis =>
      rw [cleanConstraint, RequireVersion.cleaningLoop, shows.cleanIdx,
        shows.dotCount]
      by_cases goesOn :
          state.constraint.length < constraintMaxlen ∧
            state.dotCount < numVersionParts
      · rw [if_pos goesOn, if_pos goesOn]
        rcases shows.turn goesOn.1 goesOn.2 dirtyIdx c with
          ⟨refused, turned⟩ | ⟨nextState, next, cleaned, turned, onward⟩
        · rw [refused, turned]
          exact .inl ⟨rfl, rfl⟩
        · rw [cleaned, turned]
          exact inductionHypothesis onward (dirtyIdx + 1)
      · rw [if_neg goesOn, if_neg goesOn]
        exact .inr ⟨state, arrays, rfl, rfl, shows⟩

end Turns

/-- The operators that clear the characters behind them. -/
def clearsBehind (c : Char) : Bool :=
  isOperatorChar c && c != '='

/--
The operator array is filled to its last cell: the third character is an
operator character, and the second one is, or the default is not cleared.
-/
def operatorFilled : CString → Bool
  | first :: second :: third :: _ =>
      isOperatorChar third && (isOperatorChar second || !clearsBehind first)
  | _ => false

section Termination

variable {constraintDirty : CString}

theorem Arrays.start_shows :
    Shows Arrays.start Cleaning.start where
  operator := rfl
  constraint := Vector.toList_replicate
  wildcardArr := Vector.toList_replicate
  cleanIdx := rfl
  dotCount := rfl
  within := Nat.zero_le _

/-- What is copied to the constraint is no NUL. -/
theorem copiedAs_ne_nul
    {c d : Char}
    (copied : copiedAs c = some d) :
    d ≠ nul := by
  rintro rfl
  unfold copiedAs at copied
  split at copied
  · cases copied
  · split at copied
    · cases copied
    · split at copied
      · next digit =>
          rw [Option.some.inj copied] at digit
          cases digit
      · cases copied

/-- The constraint array keeps a NUL while fewer characters are copied. -/
theorem Shows.nul_mem_constraint_iff
    {arrays : Arrays}
    (shows : Shows arrays (cleanedBuffers constraintDirty)) :
    nul ∈ arrays.constraint ↔
      (constraintDirty.filterMap copiedAs).length < constraintMaxlen := by
  have noNul :
      nul ∉ (cleanedBuffers constraintDirty).constraint := by
    rw [constraint_cleanedBuffers]
    intro member
    obtain ⟨c, _, copied⟩ :=
      List.mem_filterMap.mp (List.mem_of_mem_take member)
    exact copiedAs_ne_nul copied rfl
  rw [← Vector.mem_toList_iff, shows.constraint, List.mem_append,
    or_iff_right noNul, List.mem_replicate, constraint_cleanedBuffers,
    List.length_take]
  simp only [and_true]
  omega

/-- The operator array keeps its NUL when its last cell is not written. -/
theorem nul_mem_operatorBehind_iff :
    ∀ first ∈ operatorMarks, ∀ second ∈ operatorMarks,
      ∀ third ∈ operatorMarks,
        (nul ∈ operatorBehind first second third ↔
          (third = none ∨
            (second = none ∧ (first.any clearsBehind) = true))) := by
  decide

/-- The marks tell whether the operator array is filled. -/
theorem operatorFilled_iff
    (text : CString) :
    operatorFilled text = true ↔
      ¬ (markAt text 2 = none ∨
        (markAt text 1 = none ∧
          ((markAt text 0).any clearsBehind) = true)) := by
  have clears :
      ∀ c : Char,
        ((Option.filter isOperatorChar c).any clearsBehind) =
          clearsBehind c := by
    intro c
    rw [Option.filter_some]
    unfold clearsBehind
    cases isOperator : isOperatorChar c <;> simp [isOperator]
  rcases text with _ | ⟨first, _ | ⟨second, _ | ⟨third, rest⟩⟩⟩ <;>
    simp [operatorFilled, markAt, clears, Option.filter_eq_none_iff]
  cases isOperatorChar second <;> simp

/--
The arrays are safe exactly for the refused constraints and for those that
leave both arrays the cell of their NUL.
-/
theorem cleaningLoop_safe_iff
    (constraintDirty : CString) :
    (cleaningLoop 0 constraintDirty Arrays.start).Safe ↔
      Refused constraintDirty ∨
        ((constraintDirty.filterMap copiedAs).length < constraintMaxlen ∧
          operatorFilled constraintDirty = false) := by
  have ran := Arrays.start_shows.cleaningLoop 0 constraintDirty
  by_cases refused : Refused constraintDirty
  · rcases ran with ⟨_, ran⟩ | ⟨_, _, cleaned, _, _⟩
    · rw [ran]
      exact iff_of_true trivial (.inl refused)
    · rw [cleanConstraint_of_refused refused] at cleaned
      cases cleaned
  · rw [cleanConstraint_of_not_refused refused] at ran
    rcases ran with ⟨cleaned, _⟩ | ⟨state, last, cleaned, ran, shows⟩
    · cases cleaned
    obtain rfl := Option.some.inj cleaned
    have operatorCells :
        nul ∈ last.operator ↔ operatorFilled constraintDirty = false := by
      rw [← Vector.mem_toList_iff, shows.operator, operator_cleanedBuffers,
        nul_mem_operatorBehind_iff _ (markAt_mem _ _) _ (markAt_mem _ _) _
          (markAt_mem _ _),
        ← Bool.not_eq_true, operatorFilled_iff, not_not]
    rw [ran, or_iff_right refused, Outcome.Safe, shows.nul_mem_constraint_iff,
      operatorCells]

/-- Eighteen digits fill the constraint array. -/
theorem cleaningLoop_unsafe_on_digits :
    ¬ ∀ constraintDirty : CString,
      (cleaningLoop 0 constraintDirty Arrays.start).Safe := by
  intro safe
  have full := safe (List.replicate 18 '9')
  exact absurd full (by decide +kernel)

end Termination

end Csh.RequireVersion
