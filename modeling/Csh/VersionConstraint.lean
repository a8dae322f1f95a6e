import Csh.RequireVersion
import Mathlib.Data.Prod.Lex

namespace Csh.RequireVersion

open Libc

/-!
# What a well-formed constraint means

A constraint is an optional operator, an optional `v` and one to three parts.
It stands for a comparison in the lexicographic order of the versions, cut off
before the first wildcard.  `compare_version` decides a comparison of scaled
sums instead; the two are related part by part, and they differ exactly when
the parts behind the deciding one outweigh it.
-/

/-- The six comparison operators. -/
inductive Operator where
  | eq
  | ne
  | ge
  | le
  | gt
  | lt
  deriving Repr, DecidableEq

namespace Operator

/-- An operator as it is written. -/
def text : Operator → CString
  | .eq => ['=', '=']
  | .ne => ['!', '=']
  | .ge => ['>', '=']
  | .le => ['<', '=']
  | .gt => ['>']
  | .lt => ['<']

/-- The comparison an operator stands for. -/
def Holds
    {α : Type}
    [LinearOrder α]
    (operator : Operator)
    (left right : α) :
    Prop :=
  match operator with
  | .eq => left = right
  | .ne => left ≠ right
  | .ge => right ≤ left
  | .le => left ≤ right
  | .gt => right < left
  | .lt => left < right

instance
    {α : Type}
    [LinearOrder α]
    (operator : Operator)
    (left right : α) :
    Decidable (operator.Holds left right) :=
  match operator with
  | .eq => inferInstanceAs (Decidable (left = right))
  | .ne => inferInstanceAs (Decidable (left ≠ right))
  | .ge => inferInstanceAs (Decidable (right ≤ left))
  | .le => inferInstanceAs (Decidable (left ≤ right))
  | .gt => inferInstanceAs (Decidable (right < left))
  | .lt => inferInstanceAs (Decidable (left < right))

end Operator

/-- One part of a constraint: `*` or a decimal of one to four digits. -/
inductive Part where
  | wildcard
  | number
      (digits : CString)
      (nonempty : digits ≠ [])
      (short : digits.length ≤ 4)
      (decimal : ∀ c ∈ digits, c.isDigit = true)

namespace Part

/-- A part as it is written. -/
def text : Part → CString
  | .wildcard => ['*']
  | .number digits .. => digits

/-- The digits the cleaning loop keeps of a part. -/
def cleaned : Part → CString
  | .wildcard => ['0']
  | .number digits .. => digits

/-- The number of a part; a wildcard counts as its placeholder. -/
def value (part : Part) : Int :=
  digitsValue 10 part.cleaned

/-- The part is `*`. -/
def isWildcard : Part → Bool
  | .wildcard => true
  | .number .. => false

end Part

/-- What separates two parts. -/
inductive Separator where
  | dot
  | dash
  deriving Repr, DecidableEq

/-- A separator as it is written. -/
def Separator.char : Separator → Char
  | .dot => '.'
  | .dash => '-'

/-- The optional `v` in front of the parts. -/
inductive Mark where
  | lower
  | upper
  deriving Repr, DecidableEq

/-- The mark as it is written. -/
def Mark.char : Mark → Char
  | .lower => 'v'
  | .upper => 'V'

/-- A well-formed constraint of one to three parts. -/
structure Constraint where
  operator : Option Operator
  mark : Option Mark
  first : Part
  others : List (Separator × Part)
  few : others.length ≤ 2

namespace Constraint

/-- A constraint without an operator asks for equality. -/
def meaning (constraint : Constraint) : Operator :=
  constraint.operator.getD .eq

/-- The parts behind the first one, each with its separator. -/
def othersText (others : List (Separator × Part)) : CString :=
  others.flatMap fun other => other.1.char :: other.2.text

/-- A constraint as it is written. -/
def text (constraint : Constraint) : CString :=
  (constraint.operator.map Operator.text).getD [] ++
    ((constraint.mark.map fun mark => [mark.char]).getD [] ++
      (constraint.first.text ++ othersText constraint.others))

/-- The parts that are written, from major on. -/
def parts (constraint : Constraint) : List Part :=
  constraint.first :: constraint.others.map Prod.snd

/-- The number of a part; a missing one counts as zero. -/
def partValue (constraint : Constraint) (index : Nat) : Int :=
  (constraint.parts[index]?.map Part.value).getD 0

/-- The version a constraint names. -/
def version (constraint : Constraint) : Version where
  major := constraint.partValue 0
  minor := constraint.partValue 1
  patch := constraint.partValue 2

/-- Whether a part is a wildcard; a missing one is none. -/
def partIsWildcard (constraint : Constraint) (index : Nat) : Bool :=
  (constraint.parts[index]?.map Part.isWildcard).getD false

/-- The wildcard flags of the three parts. -/
def wildcards (constraint : Constraint) : List Bool :=
  [constraint.partIsWildcard 0, constraint.partIsWildcard 1,
    constraint.partIsWildcard 2]

/-- The number of parts in front of the first wildcard. -/
def compared (constraint : Constraint) : Nat :=
  constraint.wildcards.idxOf true

end Constraint

namespace Version

/-- The hierarchical order of versions: major, then minor, then patch. -/
def key (version : Version) : Int ×ₗ Int ×ₗ Int :=
  toLex (version.major, toLex (version.minor, version.patch))

/-- Keep the first `count` parts and count the others as zero. -/
def cutOff (count : Nat) (version : Version) : Version where
  major := if 0 < count then version.major else 0
  minor := if 1 < count then version.minor else 0
  patch := if 2 < count then version.patch else 0

/-- All parts in one number, as the scaling factors weigh them. -/
def scaled (version : Version) : Int :=
  version.major * 1000000 + version.minor * 1000 + version.patch

end Version

/-- A constraint holds of a version in the order up to the first wildcard. -/
def Constraint.Holds
    (constraint : Constraint)
    (version : Version) :
    Prop :=
  constraint.meaning.Holds
    (version.cutOff constraint.compared).key
    (constraint.version.cutOff constraint.compared).key

instance
    (constraint : Constraint)
    (version : Version) :
    Decidable (constraint.Holds version) :=
  inferInstanceAs (Decidable (Operator.Holds _ _ _))

section Scaling

/-- The scaled difference at the first part in which two versions differ. -/
def leadingDifference (left right : Version) : Int :=
  if left.major ≠ right.major then
    (left.major - right.major) * 1000000
  else if left.minor ≠ right.minor then
    (left.minor - right.minor) * 1000
  else
    left.patch - right.patch

/-- The scaled difference of the parts behind the deciding one. -/
def trailingDifference (left right : Version) : Int :=
  if left.major ≠ right.major then
    (left.minor - right.minor) * 1000 + (left.patch - right.patch)
  else if left.minor ≠ right.minor then
    left.patch - right.patch
  else
    0

/--
The parts behind the deciding one leave its verdict alone: they do not cancel
it for `==` and `!=`, and do not turn or cancel it for the orderings.
-/
def Operator.Undisturbed
    (operator : Operator)
    (leading trailing : Int) :
    Prop :=
  match operator with
  | .eq | .ne =>
      leading ≠ 0 → trailing ≠ -leading
  | .ge | .lt =>
      (0 < leading → -leading ≤ trailing) ∧
        (leading < 0 → trailing < -leading)
  | .gt | .le =>
      (0 < leading → -leading < trailing) ∧
        (leading < 0 → trailing ≤ -leading)

/-- The scaled difference of two versions is made of the two differences. -/
theorem scaled_sub_scaled
    (left right : Version) :
    left.scaled - right.scaled =
      leadingDifference left right + trailingDifference left right := by
  unfold Version.scaled leadingDifference trailingDifference
  split
  · omega
  · split <;> omega

/-- The deciding difference has the sign of the lexicographic comparison. -/
theorem key_lt_key_iff
    (left right : Version) :
    left.key < right.key ↔ leadingDifference left right < 0 := by
  simp only [Version.key, Prod.Lex.toLex_lt_toLex, leadingDifference]
  split
  · omega
  · split <;> omega

/-- Versions have the same key when no part differs. -/
theorem key_eq_key_iff
    (left right : Version) :
    left.key = right.key ↔ leadingDifference left right = 0 := by
  simp only [Version.key, EmbeddingLike.apply_eq_iff_eq, Prod.mk.injEq,
    leadingDifference]
  split
  · omega
  · split <;> omega

/-- Exchanging the versions turns the deciding difference. -/
theorem leadingDifference_swap
    (left right : Version) :
    leadingDifference right left = -leadingDifference left right := by
  unfold leadingDifference
  split <;> split <;> (try split) <;> (try split) <;> omega

/-- No part differs behind a comparison that no part decides. -/
theorem trailingDifference_of_leading_zero
    {left right : Version}
    (undecided : leadingDifference left right = 0) :
    trailingDifference left right = 0 := by
  unfold leadingDifference at undecided
  unfold trailingDifference
  split at undecided
  · omega
  · split at undecided
    · omega
    · simp_all

/--
Comparing the scaled sums is comparing the versions exactly when the parts
behind the deciding one do not disturb it.
-/
theorem scaled_holds_iff_key_holds_iff
    (operator : Operator)
    (left right : Version) :
    (operator.Holds left.scaled right.scaled ↔
        operator.Holds left.key right.key) ↔
      operator.Undisturbed
        (leadingDifference left right)
        (trailingDifference left right) := by
  have difference := scaled_sub_scaled left right
  have less := key_lt_key_iff left right
  have greater := key_lt_key_iff right left
  rw [leadingDifference_swap left right] at greater
  have equal := key_eq_key_iff left right
  have undecided :=
    @trailingDifference_of_leading_zero left right
  generalize leadingDifference left right = leading at *
  generalize trailingDifference left right = trailing at *
  cases operator with
  | eq =>
      simp only [Operator.Holds, Operator.Undisturbed, equal]
      omega
  | ne =>
      simp only [Operator.Holds, Operator.Undisturbed, ne_eq, equal]
      omega
  | ge =>
      simp only [Operator.Holds, Operator.Undisturbed, ← not_lt, less]
      omega
  | le =>
      simp only [Operator.Holds, Operator.Undisturbed, ← not_lt, greater]
      omega
  | gt =>
      simp only [Operator.Holds, Operator.Undisturbed, greater]
      omega
  | lt =>
      simp only [Operator.Holds, Operator.Undisturbed, less]
      omega

end Scaling

section Cleaning

/-- A digit is copied to the cleaned constraint. -/
theorem cleanChar_of_isDigit
    {c : Char}
    (isDigit : c.isDigit = true)
    (dirtyIdx : Nat)
    (state : Cleaning) :
    cleanChar dirtyIdx c state =
      some { state with constraint := state.constraint ++ [c] } := by
  have notOperator : isOperatorChar c = false := by
    simp [isOperatorChar, ne_of_isDigit isDigit]
  simp [cleanChar, notOperator, isDigit, ne_of_isDigit isDigit]

/-- Digits are copied as long as they fit the buffer. -/
theorem cleanConstraint_digits
    {digits rest : CString}
    {state : Cleaning}
    (decimal : ∀ c ∈ digits, c.isDigit = true)
    (fits : state.constraint.length + digits.length ≤ constraintMaxlen)
    (fewDots : state.dotCount < numVersionParts)
    (dirtyIdx : Nat) :
    cleanConstraint dirtyIdx (digits ++ rest) state =
      cleanConstraint (dirtyIdx + digits.length) rest
        { state with constraint := state.constraint ++ digits } := by
  induction digits generalizing dirtyIdx state with
  | nil =>
      simp
  | cons c digits inductionHypothesis =>
      have isDigit : c.isDigit = true :=
        decimal c (by simp)
      have room : state.constraint.length < constraintMaxlen := by
        simp only [List.length_cons] at fits
        omega
      simp only [List.cons_append, cleanConstraint, room, fewDots, and_self,
        ↓reduceIte, cleanChar_of_isDigit isDigit]
      have later :=
        @inductionHypothesis
          { state with constraint := state.constraint ++ [c] }
          (fun d member => decimal d (by simp [member]))
          (by
            simp only [List.length_cons] at fits
            simp only [List.length_append, List.length_cons, List.length_nil]
            omega)
          fewDots (dirtyIdx + 1)
      rw [later]
      simp [Nat.add_comm, Nat.add_left_comm]

/-- The effect of one part on the buffers. -/
def Cleaning.putPart
    (state : Cleaning)
    (part : Part) :
    Cleaning :=
  { state with
    constraint := state.constraint ++ part.cleaned
    wildcardArr :=
      if part.isWildcard then
        state.wildcardArr.set state.dotCount true
      else
        state.wildcardArr }

/-- The effect of one separator on the buffers. -/
def Cleaning.putDot (state : Cleaning) : Cleaning :=
  { state with
    constraint := state.constraint ++ ['.']
    dotCount := state.dotCount + 1 }

/-- A part has at most four digits. -/
theorem Part.length_cleaned_le
    (part : Part) :
    part.cleaned.length ≤ 4 := by
  cases part with
  | wildcard =>
      simp [Part.cleaned]
  | number digits nonempty short decimal =>
      exact short

/-- What the cleaning keeps of a part is made of digits. -/
theorem Part.isDigit_of_mem_cleaned
    (part : Part) :
    ∀ c ∈ part.cleaned, c.isDigit = true := by
  cases part with
  | wildcard =>
      simp [Part.cleaned]
  | number digits nonempty short decimal =>
      exact decimal

/-- The cleaning keeps something of every part. -/
theorem Part.cleaned_ne_nil
    (part : Part) :
    part.cleaned ≠ [] := by
  cases part with
  | wildcard =>
      simp [Part.cleaned]
  | number digits nonempty short decimal =>
      exact nonempty

/-- The loop runs over one part. -/
theorem cleanConstraint_part
    {rest : CString}
    {state : Cleaning}
    (part : Part)
    (fits : state.constraint.length + 4 ≤ constraintMaxlen)
    (fewDots : state.dotCount < numVersionParts)
    (dirtyIdx : Nat) :
    cleanConstraint dirtyIdx (part.text ++ rest) state =
      cleanConstraint (dirtyIdx + part.text.length) rest
        (state.putPart part) := by
  have room : state.constraint.length < constraintMaxlen := by
    omega
  cases part with
  | wildcard =>
      simp [Part.text, cleanConstraint, room, fewDots, cleanChar,
        isOperatorChar, Cleaning.putPart, Part.cleaned, Part.isWildcard]
  | number digits nonempty short decimal =>
      simp only [Part.text]
      rw [cleanConstraint_digits decimal (by omega) fewDots]
      rfl

/-- The loop runs over one separator. -/
theorem cleanConstraint_separator
    {rest : CString}
    {state : Cleaning}
    (separator : Separator)
    (fits : state.constraint.length < constraintMaxlen)
    (fewDots : state.dotCount + 1 < numVersionParts)
    (dirtyIdx : Nat) :
    cleanConstraint dirtyIdx (separator.char :: rest) state =
      cleanConstraint (dirtyIdx + 1) rest state.putDot := by
  have currentDots : state.dotCount < numVersionParts := by
    omega
  have notFull : ¬ numVersionParts ≤ state.dotCount + 1 := by
    omega
  cases separator <;>
    simp [Separator.char, cleanConstraint, fits, currentDots, cleanChar,
      isOperatorChar, notFull, Cleaning.putDot]

/-- The buffers behind the operator and the mark of a constraint. -/
def Constraint.opened (constraint : Constraint) : Cleaning :=
  { Cleaning.start with
    operator :=
      constraint.meaning.text ++
        List.replicate (operatorMaxlen - constraint.meaning.text.length) nul }

/-- The operator in front of a constraint ends up NUL-terminated. -/
theorem cleanConstraint_operator
    (operator : Operator)
    (rest : CString) :
    cleanConstraint 0 (operator.text ++ rest) Cleaning.start =
      cleanConstraint operator.text.length rest
        { Cleaning.start with
          operator :=
            operator.text ++
              List.replicate (operatorMaxlen - operator.text.length) nul } := by
  cases operator <;>
    simp [Operator.text, cleanConstraint, Cleaning.start, constraintMaxlen,
      numVersionParts, cleanChar, isOperatorChar, operatorMaxlen,
      defaultOperator, Cleaning.putOperator]

/-- The mark is skipped. -/
theorem cleanConstraint_mark
    {rest : CString}
    {state : Cleaning}
    (mark : Mark)
    (fits : state.constraint.length < constraintMaxlen)
    (fewDots : state.dotCount < numVersionParts)
    (dirtyIdx : Nat) :
    cleanConstraint dirtyIdx (mark.char :: rest) state =
      cleanConstraint (dirtyIdx + 1) rest state := by
  cases mark <;>
    simp [Mark.char, cleanConstraint, fits, fewDots, cleanChar,
      isOperatorChar]

/-- The loop runs over the operator and the mark of a constraint. -/
theorem cleanConstraint_opening
    (constraint : Constraint) :
    ∃ dirtyIdx,
      cleanConstraint 0 constraint.text Cleaning.start =
        cleanConstraint dirtyIdx
          (constraint.first.text ++ Constraint.othersText constraint.others)
          constraint.opened := by
  have afterOperator :
      ∃ dirtyIdx,
        cleanConstraint 0 constraint.text Cleaning.start =
          cleanConstraint dirtyIdx
            ((constraint.mark.map fun mark => [mark.char]).getD [] ++
              (constraint.first.text ++
                Constraint.othersText constraint.others))
            constraint.opened := by
    unfold Constraint.text Constraint.opened Constraint.meaning
    cases constraint.operator with
    | none =>
        exact ⟨0, rfl⟩
    | some operator =>
        exact ⟨_, cleanConstraint_operator operator _⟩
  obtain ⟨dirtyIdx, reached⟩ := afterOperator
  rw [reached]
  cases constraint.mark with
  | none =>
      exact ⟨dirtyIdx, rfl⟩
  | some mark =>
      exact ⟨dirtyIdx + 1, cleanConstraint_mark mark
        (by simp [Constraint.opened, Cleaning.start, constraintMaxlen])
        (by simp [Constraint.opened, Cleaning.start, numVersionParts])
        dirtyIdx⟩

/-- The effect of the parts behind the first one on the buffers. -/
def Cleaning.putOthers
    (state : Cleaning)
    (others : List (Separator × Part)) :
    Cleaning :=
  others.foldl (fun state other => state.putDot.putPart other.2) state

/-- The loop runs over the parts behind the first one to the end. -/
theorem cleanConstraint_others
    {state : Cleaning}
    (others : List (Separator × Part))
    (fits : state.constraint.length + 5 * others.length ≤ constraintMaxlen)
    (fewDots : state.dotCount + others.length < numVersionParts)
    (dirtyIdx : Nat) :
    cleanConstraint dirtyIdx (Constraint.othersText others) state =
      some (state.putOthers others) := by
  induction others generalizing dirtyIdx state with
  | nil =>
      rfl
  | cons other others inductionHypothesis =>
      simp only [List.length_cons] at fits fewDots
      have keptShort := other.2.length_cleaned_le
      have dotLength :
          state.putDot.constraint.length = state.constraint.length + 1 := by
        simp [Cleaning.putDot]
      have partLength :
          (state.putDot.putPart other.2).constraint.length =
            state.constraint.length + 1 + other.2.cleaned.length := by
        simp [Cleaning.putDot, Cleaning.putPart, Nat.add_assoc, Nat.add_comm]
      have dots :
          (state.putDot.putPart other.2).dotCount = state.dotCount + 1 :=
        rfl
      have written :
          Constraint.othersText (other :: others) =
            other.1.char :: (other.2.text ++ Constraint.othersText others) := by
        simp [Constraint.othersText]
      rw [written,
        cleanConstraint_separator other.1 (by omega) (by omega),
        cleanConstraint_part other.2 (by omega)
          (by simp only [Cleaning.putDot]; omega),
        inductionHypothesis (by omega) (by omega)]
      rfl

/-- The buffers at the end of the cleaning loop. -/
def Constraint.cleanedState (constraint : Constraint) : Cleaning :=
  (constraint.opened.putPart constraint.first).putOthers constraint.others

/-- The loop accepts every well-formed constraint. -/
theorem cleanConstraint_text
    (constraint : Constraint) :
    cleanConstraint 0 constraint.text Cleaning.start =
      some constraint.cleanedState := by
  obtain ⟨dirtyIdx, opened⟩ := cleanConstraint_opening constraint
  have few := constraint.few
  have keptShort := constraint.first.length_cleaned_le
  have firstLength :
      (constraint.opened.putPart constraint.first).constraint.length =
        constraint.first.cleaned.length := by
    simp [Constraint.opened, Cleaning.start, Cleaning.putPart]
  have firstDots :
      (constraint.opened.putPart constraint.first).dotCount = 0 :=
    rfl
  have openedLength : constraint.opened.constraint.length = 0 :=
    rfl
  have openedDots : constraint.opened.dotCount = 0 :=
    rfl
  rw [opened,
    cleanConstraint_part constraint.first
      (by simp [openedLength, constraintMaxlen])
      (by simp [openedDots, numVersionParts]),
    cleanConstraint_others constraint.others
      (by rw [firstLength, constraintMaxlen]; omega)
      (by rw [firstDots, numVersionParts]; omega)]
  rfl

end Cleaning

section Comparison

/-- What the cleaning keeps of a part is scanned as its number. -/
theorem scanInt_cleaned
    {rest : CString}
    (part : Part)
    (ahead : NoDigitAhead 10 rest) :
    scanInt (part.cleaned ++ rest) = some (part.value, rest) := by
  have bound : digitsValue 10 part.cleaned < 10 ^ part.cleaned.length :=
    digitsValue_lt_pow fun c member => by
      simp [part.isDigit_of_mem_cleaned c member]
  have atMost : 10 ^ part.cleaned.length ≤ 10 ^ 4 :=
    Nat.pow_le_pow_right (by omega) part.length_cleaned_le
  exact scanInt_digits part.cleaned_ne_nil part.isDigit_of_mem_cleaned
    (by omega) ahead

/-- The cleaned text of a constraint: its parts with dots between them. -/
theorem cleanedState_constraint
    (constraint : Constraint) :
    constraint.cleanedState.constraint =
      constraint.first.cleaned ++
        constraint.others.flatMap fun other => '.' :: other.2.cleaned := by
  have putOthers :
      ∀ (others : List (Separator × Part)) (state : Cleaning),
        (state.putOthers others).constraint =
          state.constraint ++
            others.flatMap fun other => '.' :: other.2.cleaned := by
    intro others
    induction others with
    | nil =>
        simp [Cleaning.putOthers]
    | cons other others inductionHypothesis =>
        intro state
        have step := inductionHypothesis (state.putDot.putPart other.2)
        simp only [Cleaning.putOthers, List.foldl_cons] at step ⊢
        rw [step]
        simp [Cleaning.putDot, Cleaning.putPart]
  rw [Constraint.cleanedState, putOthers]
  simp [Constraint.opened, Cleaning.start, Cleaning.putPart]

/-- A constraint has one, two or three parts. -/
theorem Constraint.others_cases
    (constraint : Constraint) :
    constraint.others = [] ∨
      (∃ second, constraint.others = [second]) ∨
        ∃ second third, constraint.others = [second, third] := by
  have few := constraint.few
  rcases shape : constraint.others with _ | ⟨second, _ | ⟨third, _ | ⟨_, _⟩⟩⟩
  · exact Or.inl rfl
  · exact Or.inr (Or.inl ⟨second, rfl⟩)
  · exact Or.inr (Or.inr ⟨second, third, rfl⟩)
  · simp [shape] at few

/-- The cleaned text is scanned as the version the constraint names. -/
theorem scanVersion_cleanedState
    (constraint : Constraint) :
    scanVersion constraint.cleanedState.constraint = constraint.version := by
  have ended : NoDigitAhead 10 [] := by
    simp [NoDigitAhead]
  have dotAhead : ∀ rest, NoDigitAhead 10 ('.' :: rest) := by
    simp [NoDigitAhead]
  rw [cleanedState_constraint]
  unfold Constraint.version Constraint.partValue Constraint.parts
  rcases constraint.others_cases with
    others | ⟨second, others⟩ | ⟨second, third, others⟩
  · have first := scanInt_cleaned constraint.first ended
    simp only [List.append_nil] at first
    simp [scanVersion, others, first]
  · have first := fun rest => scanInt_cleaned constraint.first (dotAhead rest)
    have last := scanInt_cleaned second.2 ended
    simp only [List.append_nil] at last
    simp [scanVersion, others, first, last]
  · have first := fun rest => scanInt_cleaned constraint.first (dotAhead rest)
    have middle := fun rest => scanInt_cleaned second.2 (dotAhead rest)
    have last := scanInt_cleaned third.2 ended
    simp only [List.append_nil] at last
    simp [scanVersion, others, first, middle, last]

/-- The flags of the cleaning loop are the wildcards of the constraint. -/
theorem cleanedState_wildcardArr
    (constraint : Constraint) :
    constraint.cleanedState.wildcardArr = constraint.wildcards := by
  unfold Constraint.cleanedState Constraint.wildcards
    Constraint.partIsWildcard Constraint.parts
  rcases constraint.others_cases with
    others | ⟨second, others⟩ | ⟨second, third, others⟩
  · cases firstWild : constraint.first.isWildcard <;>
      simp [others, Cleaning.putOthers, Cleaning.putPart, Constraint.opened,
        Cleaning.start, numVersionParts, firstWild, List.replicate]
  · cases firstWild : constraint.first.isWildcard <;>
      cases secondWild : second.2.isWildcard <;>
      simp [others, Cleaning.putOthers, Cleaning.putPart, Cleaning.putDot,
        Constraint.opened, Cleaning.start, numVersionParts, firstWild,
        secondWild, List.replicate]
  · cases firstWild : constraint.first.isWildcard <;>
      cases secondWild : second.2.isWildcard <;>
      cases thirdWild : third.2.isWildcard <;>
      simp [others, Cleaning.putOthers, Cleaning.putPart, Cleaning.putDot,
        Constraint.opened, Cleaning.start, numVersionParts, firstWild,
        secondWild, thirdWild, List.replicate]

/-- The operator bytes of a cleaned constraint spell its operator. -/
theorem cleanedState_operator
    (constraint : Constraint) :
    (constraint.cleanedState.operator.takeWhile fun c => c != nul) =
      constraint.meaning.text := by
  have kept :
      ∀ (others : List (Separator × Part)) (state : Cleaning),
        (state.putOthers others).operator = state.operator := by
    intro others
    induction others with
    | nil =>
        intro state
        rfl
    | cons other others inductionHypothesis =>
        intro state
        exact inductionHypothesis (state.putDot.putPart other.2)
  have opened :
      constraint.cleanedState.operator = constraint.opened.operator :=
    kept constraint.others _
  rw [opened, Constraint.opened]
  cases constraint.meaning <;> decide

/-- The buffer of a cleaned constraint keeps its NUL. -/
theorem cleanedState_terminated
    (constraint : Constraint) :
    constraint.cleanedState.constraint.length < constraintMaxlen := by
  have firstShort := constraint.first.length_cleaned_le
  rw [cleanedState_constraint]
  rcases constraint.others_cases with
    others | ⟨second, others⟩ | ⟨second, third, others⟩
  · simp only [others, List.flatMap_nil, List.append_nil, constraintMaxlen]
    omega
  · have secondShort := second.2.length_cleaned_le
    simp [others, constraintMaxlen]
    omega
  · have secondShort := second.2.length_cleaned_le
    have thirdShort := third.2.length_cleaned_le
    simp [others, constraintMaxlen]
    omega

/-- The scaled sum stops where the constraint has its first wildcard. -/
theorem scaledSum_wildcards
    (constraint : Constraint)
    (version : Version) :
    scaledSum constraint.wildcards version.parts scalingFactors =
      (version.cutOff constraint.compared).scaled := by
  unfold Constraint.compared Constraint.wildcards
  cases constraint.partIsWildcard 0 <;>
    cases constraint.partIsWildcard 1 <;>
    cases constraint.partIsWildcard 2 <;>
    simp only [List.idxOf_cons] <;>
    simp [scaledSum, Version.parts, scalingFactors, Version.cutOff,
      Version.scaled, Int.add_assoc]

/-- The operator chain decides the comparison the operator stands for. -/
theorem evaluateOperator_text
    (operator : Operator)
    (versionScaled constraintScaled : Int) :
    evaluateOperator operator.text versionScaled constraintScaled = true ↔
      operator.Holds versionScaled constraintScaled := by
  cases operator <;>
    simp [evaluateOperator, Operator.text, Operator.Holds]

/-- On a well-formed constraint the code compares scaled sums. -/
theorem compareVersion_iff_scaled
    (beyond : CString)
    (version : Version)
    (constraint : Constraint) :
    compareVersion beyond version constraint.text = true ↔
      constraint.meaning.Holds
        (version.cutOff constraint.compared).scaled
        (constraint.version.cutOff constraint.compared).scaled := by
  simp only [compareVersion, cleanConstraint_text,
    cleanedState_terminated constraint, ↓reduceIte,
    scanVersion_cleanedState, cleanedState_wildcardArr,
    cleanedState_operator, scaledSum_wildcards, evaluateOperator_text]

/--
`compare_version` follows the lexicographic order of the version and the
constraint exactly when the scaled parts behind the deciding one do not
outweigh it.
-/
theorem compareVersion_iff_holds_iff
    (beyond : CString)
    (version : Version)
    (constraint : Constraint) :
    (compareVersion beyond version constraint.text = true ↔
        constraint.Holds version) ↔
      constraint.meaning.Undisturbed
        (leadingDifference
          (version.cutOff constraint.compared)
          (constraint.version.cutOff constraint.compared))
        (trailingDifference
          (version.cutOff constraint.compared)
          (constraint.version.cutOff constraint.compared)) := by
  rw [compareVersion_iff_scaled]
  exact scaled_holds_iff_key_holds_iff _ _ _

/-- Parts below a thousand never outweigh a part in front of them. -/
theorem undisturbed_of_small_parts
    {left right : Version}
    (leftMinor : 0 ≤ left.minor ∧ left.minor < 1000)
    (leftPatch : 0 ≤ left.patch ∧ left.patch < 1000)
    (rightMinor : 0 ≤ right.minor ∧ right.minor < 1000)
    (rightPatch : 0 ≤ right.patch ∧ right.patch < 1000)
    (operator : Operator) :
    operator.Undisturbed
      (leadingDifference left right)
      (trailingDifference left right) := by
  have bounded :
      (0 < leadingDifference left right →
          -leadingDifference left right < trailingDifference left right) ∧
        (leadingDifference left right < 0 →
          trailingDifference left right < -leadingDifference left right) := by
    unfold leadingDifference trailingDifference
    split
    · omega
    · split <;> omega
  obtain ⟨positive, negative⟩ := bounded
  cases operator <;> simp only [Operator.Undisturbed] <;> omega

/-- The constraint `==1.1000`. -/
def fourDigitMinor : Constraint where
  operator := some .eq
  mark := none
  first := .number ['1'] (by decide) (by decide) (List.all_eq_true.mp rfl)
  others :=
    [(.dot,
      .number ['1', '0', '0', '0'] (by decide) (by decide)
        (List.all_eq_true.mp rfl))]
  few := by decide

/-- Version 2.0.0 is accepted as 1.1000. -/
theorem compareVersion_accepts_other_version :
    ¬ ∀ (version : Version) (constraint : Constraint),
      0 ≤ version.major → 0 ≤ version.minor → 0 ≤ version.patch →
        (compareVersion [] version constraint.text = true ↔
          constraint.Holds version) := by
  intro agrees
  have claimed :=
    agrees ⟨2, 0, 0⟩ fourDigitMinor (by decide) (by decide) (by decide)
  have accepted :
      compareVersion [] ⟨2, 0, 0⟩ fourDigitMinor.text = true := by
    decide
  have different : ¬ fourDigitMinor.Holds ⟨2, 0, 0⟩ := by
    decide
  exact different (claimed.mp accepted)

end Comparison

end Csh.RequireVersion
