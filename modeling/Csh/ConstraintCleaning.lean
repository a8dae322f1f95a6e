import Csh.VersionConstraint

namespace Csh.RequireVersion

open Libc

/-!
# What the cleaning of a constraint does

The loop of `compare_version` comes to the characters up to the one that fills
the constraint array.  It refuses some of them, and too many separators; else
every character changes the buffers in its own way, whatever stands around it.
-/

/-- The two separators of parts. -/
def isSeparator (c : Char) : Bool :=
  c == '-' || c == '.'

/-- What a character is copied as, if it takes a cell of the constraint. -/
def copiedAs (c : Char) : Option Char :=
  if isSeparator c then
    some '.'
  else if c = '*' then
    some '0'
  else if c.isDigit then
    some c
  else
    none

/-- The characters that the loop comes to with so many cells left. -/
def reached : CString → Nat → CString
  | [], _ => []
  | c :: rest, cells =>
      if cells = 0 then
        []
      else
        c :: reached rest (if (copiedAs c).isSome then cells - 1 else cells)

/-- The characters that are not refused at an index. -/
def isAllowed (index : Nat) (c : Char) : Bool :=
  (copiedAs c).isSome || c == 'v' || c == 'V' ||
    (decide (index < operatorMaxlen) && isOperatorChar c)

/-- The part of a constraint that the loop comes to. -/
def reachedPart (constraintDirty : CString) : CString :=
  reached constraintDirty constraintMaxlen

/-- The constraints that the cleaning loop refuses. -/
inductive Refused (constraintDirty : CString) : Prop where
  | character
      {leading rest : CString}
      {c : Char}
      (comes : reachedPart constraintDirty = leading ++ c :: rest)
      (strange : isAllowed leading.length c = false)
  | separators
      (many : 3 ≤ (reachedPart constraintDirty).countP isSeparator)

/-- What an allowed character does to the buffers. -/
def Cleaning.advance
    (dirtyIdx : Nat)
    (c : Char)
    (state : Cleaning) :
    Cleaning where
  constraint := state.constraint ++ (copiedAs c).toList
  operator :=
    if dirtyIdx < operatorMaxlen ∧ isOperatorChar c = true then
      (state.putOperator dirtyIdx c).operator
    else
      state.operator
  dotCount := if isSeparator c then state.dotCount + 1 else state.dotCount
  wildcardArr :=
    if c = '*' then
      state.wildcardArr.set state.dotCount true
    else
      state.wildcardArr

/-- What allowed characters do, from an index on. -/
def Cleaning.advanceAll : Nat → CString → Cleaning → Cleaning
  | _, [], state => state
  | dirtyIdx, c :: rest, state =>
      advanceAll (dirtyIdx + 1) rest (state.advance dirtyIdx c)

section Characters

variable {c : Char}
variable {dirtyIdx : Nat}
variable {state : Cleaning}

theorem copiedAs_of_isOperatorChar
    (isOperator : isOperatorChar c = true) :
    copiedAs c = none ∧ isSeparator c = false ∧ c ≠ '*' := by
  simp only [isOperatorChar, Bool.or_eq_true, beq_iff_eq] at isOperator
  rcases isOperator with ((rfl | rfl) | rfl) | rfl <;> decide

/-- Putting an operator character changes the operator buffer only. -/
theorem Cleaning.putOperator_eq
    (state : Cleaning)
    (dirtyIdx : Nat)
    (c : Char) :
    state.putOperator dirtyIdx c =
      { state with
        operator := (state.putOperator dirtyIdx c).operator } := by
  unfold Cleaning.putOperator
  split <;> rfl

/-- A turn of the loop refuses the character, or advances the buffers. -/
theorem cleanChar_eq
    (dirtyIdx : Nat)
    (c : Char)
    (state : Cleaning) :
    cleanChar dirtyIdx c state =
      if isAllowed dirtyIdx c = true ∧
          (isSeparator c = true → state.dotCount + 1 < 3) then
        some (state.advance dirtyIdx c)
      else
        none := by
  by_cases operator : dirtyIdx < operatorMaxlen ∧ isOperatorChar c = true
  · obtain ⟨notCopied, notSeparator, notStar⟩ :=
      copiedAs_of_isOperatorChar operator.2
    rw [cleanChar, if_pos operator, state.putOperator_eq]
    simp [isAllowed, operator, Cleaning.advance, notCopied, notSeparator,
      notStar]
  · rw [cleanChar, if_neg operator]
    by_cases mark : c = 'v' ∨ c = 'V'
    · have notCopied : copiedAs c = none ∧ isSeparator c = false ∧ c ≠ '*' := by
        rcases mark with rfl | rfl <;> decide
      have allowed : isAllowed dirtyIdx c = true := by
        rcases mark with rfl | rfl <;> simp [isAllowed]
      simp [mark, allowed, Cleaning.advance, operator, notCopied]
    · rw [if_neg mark]
      rw [not_or] at mark
      by_cases separator : c = '-' ∨ c = '.'
      · have isSeparator : isSeparator c = true := by
          rcases separator with rfl | rfl <;> decide
        have notStar : c ≠ '*' := by
          rcases separator with rfl | rfl <;> decide
        have copied : copiedAs c = some '.' := by
          simp [copiedAs, isSeparator]
        have allowed : isAllowed dirtyIdx c = true := by
          simp [isAllowed, copied]
        rw [if_pos separator]
        by_cases many : numVersionParts ≤ state.dotCount + 1
        · have notFew : ¬ state.dotCount + 1 < 3 := Nat.not_lt.mpr many
          simp [many, isSeparator, notFew]
        · have few : state.dotCount + 1 < 3 := Nat.lt_of_not_le many
          simp [many, isSeparator, few, allowed, Cleaning.advance, operator,
            copied, notStar]
      · have notSeparator : isSeparator c = false := by
          simpa [isSeparator] using separator
        rw [if_neg separator]
        by_cases star : c = '*'
        · subst star
          simp [isAllowed, copiedAs, Cleaning.advance, operator, notSeparator]
        · by_cases digit : c.isDigit = true
          · simp [isAllowed, copiedAs, Cleaning.advance, operator,
              notSeparator, star, digit]
          · simp [isAllowed, copiedAs, operator, notSeparator, star, digit,
              mark]

end Characters

/-- The texts refused from an index on, with cells left and dots so far. -/
def RefusedFrom
    (dirtyIdx cells dots : Nat)
    (text : CString) :
    Prop :=
  (∃ leading c rest,
      reached text cells = leading ++ c :: rest ∧
        isAllowed (dirtyIdx + leading.length) c = false) ∨
    3 ≤ dots + (reached text cells).countP isSeparator

section Loop

variable {dirtyIdx cells dots : Nat}
variable {text rest : CString}
variable {c : Char}

theorem not_refusedFrom_nil
    (few : dots < 3) :
    ¬ RefusedFrom dirtyIdx cells dots [] := by
  rintro (⟨leading, c, rest, comes, _⟩ | many)
  · simp [reached] at comes
  · simp only [reached, List.countP_nil] at many
    omega

/-- The first character refuses the text, or one behind it does. -/
theorem refusedFrom_cons_iff
    (room : cells ≠ 0) :
    RefusedFrom dirtyIdx cells dots (c :: rest) ↔
      isAllowed dirtyIdx c = false ∨
        RefusedFrom (dirtyIdx + 1)
          (if (copiedAs c).isSome then cells - 1 else cells)
          (if isSeparator c then dots + 1 else dots) rest := by
  have comes :
      reached (c :: rest) cells =
        c :: reached rest
          (if (copiedAs c).isSome then cells - 1 else cells) := by
    rw [reached, if_neg room]
  have counted :
      dots +
          (reached (c :: rest) cells).countP isSeparator =
        (if isSeparator c then dots + 1 else dots) +
          (reached rest
            (if (copiedAs c).isSome then cells - 1 else cells)).countP
            isSeparator := by
    rw [comes, List.countP_cons]
    cases isSeparator c with
    | false =>
        simp
    | true =>
        simp only [↓reduceIte]
        omega
  rw [RefusedFrom, counted, comes, RefusedFrom, ← or_assoc]
  refine or_congr_left ?_
  constructor
  · rintro ⟨leading, d, later, same, strange⟩
    cases leading with
    | nil =>
        obtain ⟨rfl, rfl⟩ := List.cons.inj same
        exact .inl strange
    | cons first leading =>
        obtain ⟨rfl, behind⟩ := List.cons.inj same
        refine .inr ⟨leading, d, later, behind, ?_⟩
        rwa [List.length_cons, Nat.add_comm leading.length, ← Nat.add_assoc]
          at strange
  · rintro (strange | ⟨leading, d, later, same, strange⟩)
    · exact ⟨[], c, _, rfl, strange⟩
    · refine ⟨c :: leading, d, later, by rw [same]; rfl, ?_⟩
      rwa [List.length_cons, Nat.add_comm leading.length, ← Nat.add_assoc]

theorem length_advance
    (state : Cleaning) :
    (state.advance dirtyIdx c).constraint.length =
      state.constraint.length + (copiedAs c).toList.length :=
  List.length_append

theorem length_toList_copiedAs
    (c : Char) :
    (copiedAs c).toList.length = if (copiedAs c).isSome then 1 else 0 := by
  cases copiedAs c <;> rfl

theorem dotCount_advance
    (state : Cleaning) :
    (state.advance dirtyIdx c).dotCount =
      if isSeparator c then state.dotCount + 1 else state.dotCount :=
  rfl

theorem wildcardArr_advance
    (state : Cleaning) :
    (state.advance dirtyIdx c).wildcardArr =
      if c = '*' then
        state.wildcardArr.set state.dotCount true
      else
        state.wildcardArr :=
  rfl

theorem dotCount_advance_lt
    {state : Cleaning}
    (few : state.dotCount < 3)
    (fewer : isSeparator c = true → state.dotCount + 1 < 3) :
    (state.advance dirtyIdx c).dotCount < 3 := by
  rw [dotCount_advance]
  by_cases separator : isSeparator c = true
  · rw [if_pos separator]
    exact fewer separator
  · rw [if_neg separator]
    exact few

/-- The loop refuses the text, or advances over all that it comes to. -/
theorem cleanConstraint_eq
    (text : CString)
    {state : Cleaning}
    (room : state.constraint.length + cells = constraintMaxlen)
    (few : state.dotCount < 3) :
    (RefusedFrom dirtyIdx cells state.dotCount text ∧
        cleanConstraint dirtyIdx text state = none) ∨
      (¬ RefusedFrom dirtyIdx cells state.dotCount text ∧
        cleanConstraint dirtyIdx text state =
          some (state.advanceAll dirtyIdx (reached text cells))) := by
  induction text generalizing dirtyIdx cells state with
  | nil =>
      exact .inr ⟨not_refusedFrom_nil few, rfl⟩
  | cons c rest inductionHypothesis =>
      by_cases full : cells = 0
      · subst full
        have goesOn :
            ¬ (state.constraint.length < constraintMaxlen ∧
              state.dotCount < numVersionParts) := by
          omega
        refine .inr ⟨?_, ?_⟩
        · rintro (⟨leading, d, later, comes, _⟩ | many)
          · simp [reached] at comes
          · simp only [reached, ↓reduceIte, List.countP_nil] at many
            omega
        · rw [cleanConstraint, if_neg goesOn]
          rfl
      · have goesOn :
            state.constraint.length < constraintMaxlen ∧
              state.dotCount < numVersionParts :=
          ⟨by omega, few⟩
        rw [refusedFrom_cons_iff full, cleanConstraint, if_pos goesOn]
        by_cases allowed : isAllowed dirtyIdx c = true
        · have onward := @length_advance dirtyIdx c state
          have copies := length_toList_copiedAs c
          by_cases fewer : isSeparator c = true → state.dotCount + 1 < 3
          · have turn :
                cleanChar dirtyIdx c state =
                  some (state.advance dirtyIdx c) := by
              rw [cleanChar_eq, if_pos ⟨allowed, fewer⟩]
            have behind :=
              @inductionHypothesis (dirtyIdx + 1)
                (if (copiedAs c).isSome then cells - 1 else cells)
                (state.advance dirtyIdx c)
                (by split at copies <;> split <;> first | omega | contradiction)
                (dotCount_advance_lt few fewer)
            simpa only [turn, allowed, Bool.true_eq_false, false_or, reached,
              full, ↓reduceIte, dotCount_advance, Cleaning.advanceAll]
              using behind
          · have turn : cleanChar dirtyIdx c state = none := by
              rw [cleanChar_eq, if_neg fun both => fewer both.2]
            rw [Classical.not_imp] at fewer
            refine .inl ⟨.inr (.inr ?_), by rw [turn]⟩
            simp only [fewer.1, ↓reduceIte]
            omega
        · have turn : cleanChar dirtyIdx c state = none := by
            rw [cleanChar_eq, if_neg fun both => allowed both.1]
          rw [Bool.not_eq_true] at allowed
          exact .inl ⟨.inl allowed, by rw [turn]⟩

end Loop

/-- The buffers behind the loop, of a constraint that it does not refuse. -/
def cleanedBuffers (constraintDirty : CString) : Cleaning :=
  Cleaning.start.advanceAll 0 (reachedPart constraintDirty)

section Start

variable {constraintDirty : CString}

theorem refused_iff :
    Refused constraintDirty ↔
      RefusedFrom 0 constraintMaxlen 0 constraintDirty := by
  constructor
  · intro refused
    cases refused with
    | character comes strange =>
        exact .inl ⟨_, _, _, comes, by rwa [Nat.zero_add]⟩
    | separators many =>
        exact .inr (by rwa [Nat.zero_add])
  · rintro (⟨leading, c, rest, comes, strange⟩ | many)
    · exact .character comes (by rwa [Nat.zero_add] at strange)
    · exact .separators (by rwa [Nat.zero_add] at many)

/-- The loop returns `false` on the refused constraints. -/
theorem cleanConstraint_of_refused
    (refused : Refused constraintDirty) :
    cleanConstraint 0 constraintDirty Cleaning.start = none := by
  rcases @cleanConstraint_eq 0 constraintMaxlen constraintDirty
      Cleaning.start (Nat.zero_add _) (by decide)
    with ⟨_, stopped⟩ | ⟨notRefused, _⟩
  · exact stopped
  · exact absurd (refused_iff.mp refused) notRefused

/-- The loop ends on all other constraints. -/
theorem cleanConstraint_of_not_refused
    (notRefused : ¬ Refused constraintDirty) :
    cleanConstraint 0 constraintDirty Cleaning.start =
      some (cleanedBuffers constraintDirty) := by
  rcases @cleanConstraint_eq 0 constraintMaxlen constraintDirty
      Cleaning.start (Nat.zero_add _) (by decide)
    with ⟨refused, _⟩ | ⟨_, ended⟩
  · exact absurd (refused_iff.mpr refused) notRefused
  · exact ended

end Start

/-!
## The constraint array

Every copied character takes one cell, and the loop leaves when all are taken.
-/

section Copies

variable {cells : Nat}

theorem constraint_advanceAll
    (dirtyIdx : Nat)
    (text : CString)
    (state : Cleaning) :
    (state.advanceAll dirtyIdx text).constraint =
      state.constraint ++ text.filterMap copiedAs := by
  induction text generalizing dirtyIdx state with
  | nil =>
      exact (List.append_nil _).symm
  | cons c rest inductionHypothesis =>
      rw [Cleaning.advanceAll, inductionHypothesis, Cleaning.advance,
        List.append_assoc, List.filterMap_cons]
      cases copiedAs c <;> rfl

/-- The loop copies as much as there are cells. -/
theorem filterMap_reached
    (text : CString)
    (cells : Nat) :
    (reached text cells).filterMap copiedAs =
      (text.filterMap copiedAs).take cells := by
  induction text generalizing cells with
  | nil =>
      exact List.take_nil.symm
  | cons c rest inductionHypothesis =>
      cases cells with
      | zero =>
          rfl
      | succ cells =>
          rw [reached, if_neg (Nat.succ_ne_zero cells), List.filterMap_cons,
            List.filterMap_cons, inductionHypothesis]
          cases copiedAs c <;> rfl

/-- The constraint array holds the first copied characters. -/
theorem constraint_cleanedBuffers
    (constraintDirty : CString) :
    (cleanedBuffers constraintDirty).constraint =
      (constraintDirty.filterMap copiedAs).take constraintMaxlen := by
  rw [cleanedBuffers, constraint_advanceAll, reachedPart, filterMap_reached]
  rfl

/-- The loop comes to at least as many characters as there are cells. -/
theorem take_reached
    {count : Nat}
    (text : CString)
    (few : count ≤ cells) :
    (reached text cells).take count = text.take count := by
  induction text generalizing cells count with
  | nil =>
      rfl
  | cons c rest inductionHypothesis =>
      cases count with
      | zero =>
          rfl
      | succ count =>
          rw [reached, if_neg (by omega), List.take_succ_cons,
            List.take_succ_cons, inductionHypothesis]
          split <;> omega

end Copies

/-!
## The operator array

The operator depends on the first three characters alone: each of them is an
operator character, or changes nothing.
-/

/-- The operator character at an index, if there is one. -/
def markAt (text : CString) (index : Nat) : Option Char :=
  text[index]?.filter isOperatorChar

/-- What a character at an index makes of the operator array. -/
def putMark (index : Nat) (operator : List Char) : Option Char → List Char
  | none => operator
  | some c => ({ Cleaning.start with operator }.putOperator index c).operator

/-- The operator array behind the marks at the first three indices. -/
def operatorBehind (first second third : Option Char) : List Char :=
  putMark 2 (putMark 1 (putMark 0 Cleaning.start.operator first) second) third

/-- All that can stand at an index, as far as the operator is concerned. -/
def operatorMarks : List (Option Char) :=
  [none, some '<', some '>', some '=', some '!']

section Marks

theorem markAt_mem
    (text : CString)
    (index : Nat) :
    markAt text index ∈ operatorMarks := by
  unfold markAt
  cases text[index]? with
  | none =>
      decide
  | some c =>
      by_cases isOperator : isOperatorChar c = true
      · rw [Option.filter_some, if_pos isOperator]
        simp only [isOperatorChar, Bool.or_eq_true, beq_iff_eq] at isOperator
        rcases isOperator with ((rfl | rfl) | rfl) | rfl <;> decide
      · rw [Option.filter_some, if_neg isOperator]
        decide

theorem operator_advance
    {dirtyIdx : Nat}
    (early : dirtyIdx < operatorMaxlen)
    (c : Char)
    (state : Cleaning) :
    (state.advance dirtyIdx c).operator =
      putMark dirtyIdx state.operator (Option.filter isOperatorChar c) := by
  by_cases isOperator : isOperatorChar c = true
  · rw [Option.filter_some, if_pos isOperator, Cleaning.advance,
      if_pos ⟨early, isOperator⟩, putMark, Cleaning.putOperator,
      Cleaning.putOperator]
    by_cases equals : c = '='
    · rw [if_pos equals, if_pos equals]
    · rw [if_neg equals, if_neg equals]
  · rw [Option.filter_some, if_neg isOperator, Cleaning.advance,
      if_neg fun both => isOperator both.2, putMark]

theorem operator_advance_of_late
    {dirtyIdx : Nat}
    (late : operatorMaxlen ≤ dirtyIdx)
    (c : Char)
    (state : Cleaning) :
    (state.advance dirtyIdx c).operator = state.operator := by
  rw [Cleaning.advance, if_neg fun both => absurd both.1 (Nat.not_lt.mpr late)]

theorem operator_advanceAll_of_late
    {dirtyIdx : Nat}
    (late : operatorMaxlen ≤ dirtyIdx)
    (text : CString)
    (state : Cleaning) :
    (state.advanceAll dirtyIdx text).operator = state.operator := by
  induction text generalizing dirtyIdx state with
  | nil =>
      rfl
  | cons c rest inductionHypothesis =>
      rw [Cleaning.advanceAll, inductionHypothesis (Nat.le_succ_of_le late),
        operator_advance_of_late late]

/-- The operator array depends on the first three characters. -/
theorem operator_cleanedBuffers
    (constraintDirty : CString) :
    (cleanedBuffers constraintDirty).operator =
      operatorBehind
        (markAt constraintDirty 0)
        (markAt constraintDirty 1)
        (markAt constraintDirty 2) := by
  have same :
      ∀ index, index < 3 →
        markAt constraintDirty index =
          markAt (reachedPart constraintDirty) index := by
    intro index early
    have taken :=
      congrArg (·[index]?)
        (take_reached constraintDirty (Nat.le_of_ble_eq_true rfl :
          3 ≤ constraintMaxlen))
    simp only [List.getElem?_take, early, ↓reduceIte] at taken
    rw [markAt, markAt, reachedPart, taken]
  rw [same 0 (by decide), same 1 (by decide), same 2 (by decide),
    cleanedBuffers]
  rcases reachedPart constraintDirty with
    _ | ⟨first, _ | ⟨second, _ | ⟨third, rest⟩⟩⟩
  · rfl
  · exact operator_advance (by decide) first _
  · simp only [Cleaning.advanceAll]
    rw [operator_advance (by decide), operator_advance (by decide)]
    rfl
  · simp only [Cleaning.advanceAll]
    rw [operator_advanceAll_of_late (by decide), operator_advance (by decide),
      operator_advance (by decide), operator_advance (by decide)]
    rfl

end Marks

end Csh.RequireVersion
