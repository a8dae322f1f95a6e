import Csh.VersionConstraint
import Mathlib.Algebra.Order.Ring.Int

namespace Csh.RequireVersion

open Libc

/-!
# One version text under every operator

A text without operator characters is cleaned in the same way whatever stands
in front of it, so that the operators compare the same two scaled sums.
-/

namespace Operator

variable {α : Type}
variable [LinearOrder α]

theorem ge_holds_iff
    {left right : α} :
    Operator.ge.Holds left right ↔ ¬ Operator.lt.Holds left right :=
  not_lt.symm

theorem le_holds_iff
    {left right : α} :
    Operator.le.Holds left right ↔ ¬ Operator.gt.Holds left right :=
  not_lt.symm

theorem ne_holds_iff
    {left right : α} :
    Operator.ne.Holds left right ↔ ¬ Operator.eq.Holds left right :=
  Iff.rfl

/-- Two values compare as less, equal or greater, and as one of these only. -/
theorem count_holds
    (left right : α) :
    [decide (Operator.lt.Holds left right),
        decide (Operator.eq.Holds left right),
        decide (Operator.gt.Holds left right)].count true = 1 := by
  rcases lt_trichotomy left right with less | rfl | greater
  · simp [Holds, less, less.ne, less.not_gt]
  · simp [Holds]
  · simp [Holds, greater, greater.ne', greater.not_gt]

end Operator

/-- What `compare_version` says of a text under each operator and without one. -/
structure Verdicts where
  under : Operator → Bool
  alone : Bool

/-- The text is rejected. -/
def Verdicts.Rejected (verdicts : Verdicts) : Prop :=
  (∀ operator, verdicts.under operator = false) ∧ verdicts.alone = false

/-- The verdicts are those of one comparison. -/
structure Verdicts.Consistent (verdicts : Verdicts) : Prop where
  exactlyOne :
    [verdicts.under .lt, verdicts.under .eq, verdicts.under .gt].count
      true = 1
  ge : verdicts.under .ge = !verdicts.under .lt
  le : verdicts.under .le = !verdicts.under .gt
  ne : verdicts.under .ne = !verdicts.under .eq
  alone : verdicts.alone = verdicts.under .eq

/--
The verdicts on a text; each run of `compare_version` has its own stack behind
the constraint buffer.
-/
def verdicts
    (beyond : CString → CString)
    (version : Version)
    (text : CString) :
    Verdicts where
  under operator :=
    compareVersion (beyond (operator.text ++ text)) version
      (operator.text ++ text)
  alone := compareVersion (beyond text) version text

/-- What the cleaning loop makes of a text, unless it rejects it. -/
def cleanedForm (text : CString) : Option CString :=
  (cleanConstraint 0 text Cleaning.start).map Cleaning.constraint

/-- The text has no character an operator is made of. -/
def NoOperator (text : CString) : Prop :=
  ∀ c ∈ text, isOperatorChar c = false

section Cleaning

variable {text : CString}
variable {operator : List Char}

/-- Without operator characters the operator stays and decides nothing. -/
theorem cleanChar_with_operator
    {c : Char}
    (plain : isOperatorChar c = false)
    (first second : Nat)
    (state : Cleaning) :
    cleanChar first c { state with operator := operator } =
      (cleanChar second c state).map fun cleaned =>
        { cleaned with operator := operator } := by
  unfold cleanChar
  simp only [plain, Bool.false_eq_true, and_false, if_false]
  split_ifs <;> rfl

/--
The cleaning of a plain text is the same at every position and behind every
operator.
-/
theorem cleanConstraint_with_operator
    (plain : NoOperator text)
    (first second : Nat)
    (state : Cleaning) :
    cleanConstraint first text { state with operator := operator } =
      (cleanConstraint second text state).map fun cleaned =>
        { cleaned with operator := operator } := by
  induction text generalizing first second state with
  | nil =>
      rfl
  | cons c rest inductionHypothesis =>
      have plainHead : isOperatorChar c = false :=
        plain c List.mem_cons_self
      have plainRest : NoOperator rest :=
        fun d member => plain d (List.mem_cons_of_mem _ member)
      unfold cleanConstraint
      split
      · rw [cleanChar_with_operator plainHead first second state]
        cases cleanChar second c state with
        | none =>
            rfl
        | some next =>
            exact inductionHypothesis plainRest _ _ next
      · rfl

/-- An operator as it stands in its array. -/
def Operator.padded (operator : Operator) : CString :=
  operator.text ++
    List.replicate (operatorMaxlen - operator.text.length) nul

theorem Operator.takeWhile_padded
    (operator : Operator) :
    (operator.padded.takeWhile fun c => c != nul) = operator.text := by
  cases operator <;> decide

/-- Behind an operator a plain text is cleaned as without one. -/
theorem cleanConstraint_behind
    (operator : Operator)
    (plain : NoOperator text) :
    cleanConstraint 0 (operator.text ++ text) Cleaning.start =
      (cleanConstraint 0 text Cleaning.start).map fun cleaned =>
        { cleaned with operator := operator.padded } :=
  (cleanConstraint_operator operator text).trans
    (cleanConstraint_with_operator plain _ _ _)

/-- Without an operator the array holds the one for equality. -/
theorem cleanConstraint_alone
    (plain : NoOperator text) :
    cleanConstraint 0 text Cleaning.start =
      (cleanConstraint 0 text Cleaning.start).map fun cleaned =>
        { cleaned with operator := Operator.eq.padded } :=
  cleanConstraint_with_operator plain 0 0 Cleaning.start

/-- An accepted plain text is compared as it is cleaned. -/
theorem compareVersion_of_cleaned
    {state : Cleaning}
    (beyond : CString)
    (version : Version)
    (short : state.constraint.length < constraintMaxlen)
    {whole : CString}
    {comparison : Operator}
    (cleaned :
      cleanConstraint 0 whole Cleaning.start =
        some { state with operator := comparison.padded }) :
    compareVersion beyond version whole =
      decide
        (comparison.Holds
          (scaledSum state.wildcardArr version.parts scalingFactors)
          (scaledSum state.wildcardArr
            (scanVersion state.constraint).parts scalingFactors)) := by
  rw [Bool.eq_iff_iff, decide_eq_true_iff, ← evaluateOperator_text]
  simp only [compareVersion, cleaned, short, if_true,
    Operator.takeWhile_padded]

end Cleaning

section Verdicts

variable {beyond : CString → CString}
variable {version : Version}
variable {text : CString}

/-- What the cleaning loop rejects is rejected under every operator. -/
theorem verdicts_rejected
    (plain : NoOperator text)
    (refused : cleanConstraint 0 text Cleaning.start = none) :
    (verdicts beyond version text).Rejected := by
  refine ⟨fun operator => ?_, ?_⟩
  · have behind := cleanConstraint_behind operator plain
    rw [refused, Option.map_none] at behind
    simp [verdicts, compareVersion, behind]
  · simp [verdicts, compareVersion, refused]

/-- The verdicts on a text that is cleaned compare the same two sums. -/
theorem verdicts_consistent
    {state : Cleaning}
    (plain : NoOperator text)
    (accepted : cleanConstraint 0 text Cleaning.start = some state)
    (short : state.constraint.length < constraintMaxlen) :
    (verdicts beyond version text).Consistent := by
  have behind := fun operator => @cleanConstraint_behind text operator plain
  have alone := cleanConstraint_alone plain
  simp only [accepted, Option.map_some] at behind alone
  have under :=
    fun operator =>
      compareVersion_of_cleaned (beyond (operator.text ++ text)) version short
        (behind operator)
  have withoutOne :=
    compareVersion_of_cleaned (beyond text) version short
      (accepted.trans alone)
  refine ⟨?_, ?_, ?_, ?_, ?_⟩
  · simp only [verdicts, under]
    exact Operator.count_holds _ _
  · simp only [verdicts, under, Operator.ge_holds_iff, decide_not]
  · simp only [verdicts, under, Operator.le_holds_iff, decide_not]
  · simp only [verdicts, under, Operator.ne_holds_iff, decide_not]
  · simp only [verdicts, under, withoutOne]

end Verdicts

/--
A text without operator characters is rejected under every operator, or all
verdicts on it are those of one comparison.
-/
theorem verdicts_rejected_or_consistent
    (beyond : CString → CString)
    (version : Version)
    (text : CString)
    (plain : NoOperator text)
    (short : ∀ cleaned ∈ cleanedForm text, cleaned.length < constraintMaxlen) :
    (verdicts beyond version text).Rejected ∨
      (verdicts beyond version text).Consistent := by
  cases accepted : cleanConstraint 0 text Cleaning.start with
  | none =>
      exact .inl (verdicts_rejected plain accepted)
  | some state =>
      refine .inr (verdicts_consistent plain accepted (short _ ?_))
      rw [cleanedForm, accepted]
      rfl

/-- The version 3.5.27 against the text `v3-5-*`. -/
theorem verdicts_of_wildcard_text :
    NoOperator ['v', '3', '-', '5', '-', '*'] ∧
      ((verdicts (fun _ => []) ⟨3, 5, 27⟩
            ['v', '3', '-', '5', '-', '*']).Rejected ∨
        (verdicts (fun _ => []) ⟨3, 5, 27⟩
          ['v', '3', '-', '5', '-', '*']).Consistent) := by
  have plain : NoOperator ['v', '3', '-', '5', '-', '*'] := by
    simp [NoOperator, isOperatorChar]
  refine ⟨plain, verdicts_rejected_or_consistent _ _ _ plain ?_⟩
  intro cleaned isCleaned
  obtain rfl : ['3', '.', '5', '.', '0'] = cleaned :=
    Option.mem_some.mp isCleaned
  decide

end Csh.RequireVersion
