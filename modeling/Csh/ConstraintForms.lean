import Csh.ConstraintCleaning
import Mathlib.Data.List.Basic

namespace Csh.RequireVersion

open Libc

/-!
# Malformed constraints

`compare_version` leaves the form of a constraint to its cleaning loop and to
`sscanf`.  What it refuses is set against the form a constraint should have:
all other malformed constraints are satisfied by some version.
-/

/-- The operators as they may be written. -/
def operatorTexts : List CString :=
  [[], ['='], ['=', '='], ['!', '='], ['>', '='], ['<', '='], ['>'], ['<']]

/-- The marks as they may be written. -/
def markTexts : List CString :=
  [[], ['v'], ['V']]

/-- A part of a constraint: a decimal number of any size, or `*`. -/
def IsPart (text : CString) : Prop :=
  text = ['*'] ∨ (text ≠ [] ∧ ∀ c ∈ text, c.isDigit = true)

/-- An optional operator, an optional `v` and one to three parts. -/
structure IsForm
    (operator mark first : CString)
    (others : List (Char × CString)) :
    Prop where
  operator : operator ∈ operatorTexts
  mark : mark ∈ markTexts
  first : IsPart first
  separators : ∀ other ∈ others, isSeparator other.1 = true
  parts : ∀ other ∈ others, IsPart other.2
  few : others.length ≤ 2

/-- The constraints of the documented form. -/
def WellFormed (constraintDirty : CString) : Prop :=
  ∃ operator mark first others,
    IsForm operator mark first others ∧
      constraintDirty =
        operator ++ (mark ++ (first ++
          others.flatMap fun other => other.1 :: other.2))

/-- The operator that the marks at the first three indices spell. -/
def spelledBy : Option Char → Option Char → Option Char → Option Operator
  | some '<', none, _ => some .lt
  | some '>', none, _ => some .gt
  | some '<', some '=', none => some .le
  | some '>', some '=', none => some .ge
  | some '!', some '=', none => some .ne
  | none, none, none => some .eq
  | none, some '=', none => some .eq
  | some '=', none, none => some .eq
  | some '=', some '=', none => some .eq
  | _, _, _ => none

/-- The operator that `strcmp` finds, if it finds one. -/
def spelledOperator (constraintDirty : CString) : Option Operator :=
  spelledBy
    (markAt constraintDirty 0)
    (markAt constraintDirty 1)
    (markAt constraintDirty 2)

/-- The text in front of the first separator. -/
def partOf (text : CString) : CString :=
  text.takeWhile fun c => !isSeparator c

/-- The text behind the first separator. -/
def behindPart (text : CString) : CString :=
  (text.dropWhile fun c => !isSeparator c).tail

/-- What is compared of the first part. -/
def firstPart (constraintDirty : CString) : CString :=
  partOf (reachedPart constraintDirty)

/-- What is compared of the second part. -/
def secondPart (constraintDirty : CString) : CString :=
  partOf (behindPart (reachedPart constraintDirty))

/-- `INT_MIN`. -/
def intMin : Int :=
  -2 ^ 31

/-- `INT_MAX`. -/
def intMax : Int :=
  2 ^ 31 - 1

/-- A version whose parts are of type `int`. -/
def Version.IsInt (version : Version) : Prop :=
  ∀ part ∈ version.parts, intMin ≤ part ∧ part ≤ intMax

instance (version : Version) : Decidable version.IsInt :=
  inferInstanceAs
    (Decidable (∀ part ∈ version.parts, intMin ≤ part ∧ part ≤ intMax))

/-- The comparisons that no value meets with itself. -/
def Operator.Strict (operator : Operator) : Prop :=
  operator = .ne ∨ operator = .lt ∨ operator = .gt

/-- The constraints that no version satisfies. -/
inductive Rejected (constraintDirty : CString) : Prop where
  | refused
      (refused : Refused constraintDirty)
  | unknownOperator
      (unknown : spelledOperator constraintDirty = none)
  | firstWildcard
      {operator : Operator}
      (spelled : spelledOperator constraintDirty = some operator)
      (strict : operator.Strict)
      (wildcard : '*' ∈ firstPart constraintDirty)
  | leastMajor
      (spelled : spelledOperator constraintDirty = some .lt)
      (wildcard : '*' ∈ secondPart constraintDirty)
      (least :
        atoi ((firstPart constraintDirty).filterMap copiedAs) = intMin)
  | greatestMajor
      (spelled : spelledOperator constraintDirty = some .gt)
      (wildcard : '*' ∈ secondPart constraintDirty)
      (greatest :
        atoi ((firstPart constraintDirty).filterMap copiedAs) = intMax)

/-!
## The operator
-/

section Operator

/-- The operator array spells what the marks say. -/
theorem operatorBehind_spelledBy :
    ∀ first ∈ operatorMarks, ∀ second ∈ operatorMarks,
      ∀ third ∈ operatorMarks, ∀ operator : Operator,
        ((operatorBehind first second third).takeWhile fun c => c != nul) =
            operator.text ↔
          spelledBy first second third = some operator := by
  intro first firstMark second secondMark third thirdMark operator
  revert first second third
  cases operator <;> decide

theorem operator_cleanedBuffers_spelled
    (constraintDirty : CString)
    (operator : Operator) :
    ((cleanedBuffers constraintDirty).operator.takeWhile fun c => c != nul) =
        operator.text ↔
      spelledOperator constraintDirty = some operator := by
  rw [operator_cleanedBuffers]
  exact operatorBehind_spelledBy _ (markAt_mem _ _) _ (markAt_mem _ _) _
    (markAt_mem _ _) operator

/-- Any other text than the six operators is never satisfied. -/
theorem evaluateOperator_of_unknown
    {text : CString}
    (unknown : ∀ operator : Operator, text ≠ operator.text)
    (versionScaled constraintScaled : Int) :
    evaluateOperator text versionScaled constraintScaled = false := by
  have eq := unknown .eq
  have ne := unknown .ne
  have ge := unknown .ge
  have le := unknown .le
  have gt := unknown .gt
  have lt := unknown .lt
  simp only [Operator.text] at eq ne ge le gt lt
  rw [evaluateOperator, if_neg eq, if_neg ne, if_neg ge, if_neg le, if_neg gt,
    if_neg lt]

end Operator

/-!
## The wildcards
-/

section Wildcards

variable {dirtyIdx index : Nat}
variable {text : CString}
variable {state : Cleaning}
variable {c : Char}

theorem wildcardArr_advance_of_ne
    (other : index ≠ state.dotCount) :
    (state.advance dirtyIdx c).wildcardArr[index]? =
      state.wildcardArr[index]? := by
  rw [wildcardArr_advance]
  split
  · exact List.getElem?_set_ne other.symm
  · rfl

/-- The flags of earlier parts stay as they are. -/
theorem wildcardArr_advanceAll_of_lt
    (earlier : index < state.dotCount) :
    (state.advanceAll dirtyIdx text).wildcardArr[index]? =
      state.wildcardArr[index]? := by
  induction text generalizing dirtyIdx state with
  | nil =>
      rfl
  | cons c rest inductionHypothesis =>
      have later : index < (state.advance dirtyIdx c).dotCount := by
        rw [dotCount_advance]
        split <;> omega
      rw [Cleaning.advanceAll, inductionHypothesis later,
        wildcardArr_advance_of_ne (Nat.ne_of_lt earlier)]

/-- The flag of the current part is set by a `*` in it. -/
theorem wildcardArr_advanceAll_current
    {flag : Bool}
    (current : state.wildcardArr[state.dotCount]? = some flag) :
    (state.advanceAll dirtyIdx text).wildcardArr[state.dotCount]? =
      some (flag || decide ('*' ∈ partOf text)) := by
  induction text generalizing dirtyIdx state flag with
  | nil =>
      simpa [Cleaning.advanceAll, partOf] using current
  | cons c rest inductionHypothesis =>
      by_cases separator : isSeparator c = true
      · have notStar : c ≠ '*' := by
          rintro rfl
          cases separator
        have dots :
            (state.advance dirtyIdx c).dotCount = state.dotCount + 1 := by
          rw [dotCount_advance, if_pos separator]
        rw [Cleaning.advanceAll,
          wildcardArr_advanceAll_of_lt (by omega), partOf,
          List.takeWhile_cons_of_neg (by simp [separator])]
        simpa [Cleaning.advance, notStar] using current
      · have dots :
            (state.advance dirtyIdx c).dotCount = state.dotCount := by
          rw [dotCount_advance, if_neg separator]
        have flagged :
            (state.advance dirtyIdx c).wildcardArr[
                (state.advance dirtyIdx c).dotCount]? =
              some (flag || decide ('*' = c)) := by
          have inside : state.dotCount < state.wildcardArr.length :=
            (List.getElem?_eq_some_iff.mp current).1
          rw [dots]
          by_cases star : '*' = c
          · simp [Cleaning.advance, ← star, List.getElem?_set_self inside]
          · simp [Cleaning.advance, star, Ne.symm star, current]
        rw [Cleaning.advanceAll, ← dots, inductionHypothesis flagged, partOf,
          partOf, List.takeWhile_cons_of_pos (by simp [separator])]
        simp only [List.mem_cons, Bool.decide_or, Bool.or_assoc]

/-- The flag of the next part is set by a `*` behind the first separator. -/
theorem wildcardArr_advanceAll_next
    {flag : Bool}
    (next : state.wildcardArr[state.dotCount + 1]? = some flag) :
    (state.advanceAll dirtyIdx text).wildcardArr[state.dotCount + 1]? =
      some (flag || decide ('*' ∈ partOf (behindPart text))) := by
  induction text generalizing dirtyIdx state with
  | nil =>
      simpa [Cleaning.advanceAll, partOf, behindPart] using next
  | cons c rest inductionHypothesis =>
      have kept :
          (state.advance dirtyIdx c).wildcardArr[state.dotCount + 1]? =
            some flag := by
        rw [wildcardArr_advance_of_ne (Nat.succ_ne_self _), next]
      by_cases separator : isSeparator c = true
      · have dots :
            (state.advance dirtyIdx c).dotCount = state.dotCount + 1 := by
          rw [dotCount_advance, if_pos separator]
        rw [← dots] at kept
        rw [Cleaning.advanceAll, ← dots,
          wildcardArr_advanceAll_current kept, behindPart,
          List.dropWhile_cons_of_neg (by simp [separator]), List.tail_cons]
      · have dots :
            (state.advance dirtyIdx c).dotCount = state.dotCount := by
          rw [dotCount_advance, if_neg separator]
        rw [← dots] at kept
        rw [Cleaning.advanceAll, ← dots, inductionHypothesis kept, behindPart,
          behindPart, List.dropWhile_cons_of_pos (by simp [separator])]

theorem length_wildcardArr_advanceAll
    (dirtyIdx : Nat)
    (text : CString)
    (state : Cleaning) :
    (state.advanceAll dirtyIdx text).wildcardArr.length =
      state.wildcardArr.length := by
  induction text generalizing dirtyIdx state with
  | nil =>
      rfl
  | cons c rest inductionHypothesis =>
      rw [Cleaning.advanceAll, inductionHypothesis, wildcardArr_advance]
      split
      · exact List.length_set
      · rfl

/-- The flags of the three parts, in front of the scaled sum. -/
theorem exists_wildcardArr
    (constraintDirty : CString) :
    ∃ third,
      (cleanedBuffers constraintDirty).wildcardArr =
        [decide ('*' ∈ firstPart constraintDirty),
          decide ('*' ∈ secondPart constraintDirty), third] := by
  have three :
      (cleanedBuffers constraintDirty).wildcardArr.length = 3 :=
    length_wildcardArr_advanceAll 0 (reachedPart constraintDirty)
      Cleaning.start
  have first :=
    @wildcardArr_advanceAll_current 0 (reachedPart constraintDirty)
      Cleaning.start false rfl
  have second :=
    @wildcardArr_advanceAll_next 0 (reachedPart constraintDirty)
      Cleaning.start false rfl
  obtain ⟨firstFlag, secondFlag, thirdFlag, flags⟩ :=
    List.length_eq_three.mp three
  rw [cleanedBuffers] at flags
  rw [flags] at first second
  obtain rfl := Option.some.inj first
  obtain rfl := Option.some.inj second
  refine ⟨thirdFlag, ?_⟩
  rw [cleanedBuffers, flags, Bool.false_or, Bool.false_or]
  rfl

end Wildcards

/-!
## The scanned version
-/

section Scan

variable {text rest : CString}

theorem scanInt_range
    {value : Int}
    (scanned : scanInt text = some (value, rest)) :
    intMin ≤ value ∧ value ≤ intMax := by
  obtain ⟨numeral, _, read⟩ := Option.map_eq_some_iff.mp scanned
  have range := toInt_range (toLong (numeral.value 10))
  rw [(Prod.mk.inj read).1] at range
  unfold intMin intMax
  omega

theorem isInt_iff
    (version : Version) :
    version.IsInt ↔
      (intMin ≤ version.major ∧ version.major ≤ intMax) ∧
        (intMin ≤ version.minor ∧ version.minor ≤ intMax) ∧
          (intMin ≤ version.patch ∧ version.patch ≤ intMax) := by
  simp [Version.IsInt, Version.parts]

/-- `sscanf` stores numbers of type `int`. -/
theorem scanVersion_isInt
    (text : CString) :
    (scanVersion text).IsInt := by
  have zero : intMin ≤ 0 ∧ (0 : Int) ≤ intMax := by
    decide
  rw [isInt_iff]
  unfold scanVersion
  split
  · exact ⟨zero, zero, zero⟩
  · next major rest first =>
      have majorRange := scanInt_range first
      split
      · exact ⟨majorRange, zero, zero⟩
      · next minor rest second =>
          have minorRange := scanInt_range second
          split
          · exact ⟨majorRange, minorRange, zero⟩
          · next third =>
              exact ⟨majorRange, minorRange, scanInt_range third⟩
      · next second =>
          exact ⟨majorRange, scanInt_range second, zero⟩
  · next first =>
      exact ⟨scanInt_range first, zero, zero⟩

/-- The major part is what `atoi` reads. -/
theorem major_scanVersion
    (text : CString) :
    (scanVersion text).major = atoi text := by
  rw [atoi_eq_scanInt]
  unfold scanVersion
  split
  · next first =>
      rw [first]
      rfl
  · next first =>
      rw [first]
      split <;> (try split) <;> rfl
  · next first =>
      rw [first]
      rfl

/-- The minor part is zero, or a number behind the first dot. -/
theorem minor_scanVersion
    (text : CString) :
    (scanVersion text).minor = 0 ∨
      ∃ major rest unread,
        scanInt text = some (major, '.' :: rest) ∧
          scanInt rest = some ((scanVersion text).minor, unread) := by
  unfold scanVersion
  split
  · exact .inl rfl
  · next major rest first =>
      split
      · exact .inl rfl
      · next minor unread second =>
          refine .inr ⟨major, rest, '.' :: unread, first, ?_⟩
          split <;> exact second
      · next minor unread _ second =>
          exact .inr ⟨major, rest, unread, first, second⟩
  · exact .inl rfl

/-- A major part at an end of `int` leaves few digits to the minor part. -/
theorem minor_of_extreme_major
    (fits : text.length ≤ constraintMaxlen)
    (extreme :
      (scanVersion text).major = intMin ∨
        (scanVersion text).major = intMax) :
    intMin < (scanVersion text).minor ∧
      (scanVersion text).minor < intMax := by
  rcases minor_scanVersion text with zero | ⟨major, rest, unread, first, second⟩
  · rw [zero]
    decide
  · rw [major_scanVersion, atoi_eq_scanInt, first] at extreme
    obtain ⟨majorCount, majorFits, majorSmall⟩ := exists_count_of_scanInt first
    obtain ⟨minorCount, minorFits, minorSmall⟩ :=
      exists_count_of_scanInt second
    simp only [Option.map_some, Option.getD_some, intMin, intMax] at extreme
    rw [List.length_cons] at majorFits
    unfold constraintMaxlen at fits
    unfold intMin intMax
    omega

end Scan

/-!
## The comparison
-/

section Comparison

/-- The scaled sum stops at the first wildcard. -/
theorem scaledSum_flags
    (first second third : Bool)
    (version : Version) :
    scaledSum [first, second, third] version.parts scalingFactors =
      if first then
        0
      else
        version.major * 1000000 +
          if second then
            0
          else
            version.minor * 1000 + if third then 0 else version.patch := by
  cases first <;> cases second <;> cases third <;>
    simp [scaledSum, Version.parts, scalingFactors]

theorem Operator.Strict.not_holds
    {operator : Operator}
    (strict : operator.Strict)
    (sum : Int) :
    ¬ operator.Holds sum sum := by
  rcases strict with rfl | rfl | rfl
  · exact fun differs => differs rfl
  · exact lt_irrefl sum
  · exact lt_irrefl sum

/-- Moving the major part moves the scaled sum by as many millions. -/
theorem scaledSum_major
    (second third : Bool)
    (version : Version)
    (shift : Int) :
    scaledSum [false, second, third]
        { version with major := version.major + shift }.parts
        scalingFactors =
      scaledSum [false, second, third] version.parts scalingFactors +
        shift * 1000000 := by
  simp only [scaledSum_flags, Bool.false_eq_true, ↓reduceIte]
  rw [Int.add_mul, Int.add_right_comm]

/-- Moving the minor part moves the scaled sum by as many thousands. -/
theorem scaledSum_minor
    (third : Bool)
    (version : Version)
    (shift : Int) :
    scaledSum [false, false, third]
        { version with minor := version.minor + shift }.parts
        scalingFactors =
      scaledSum [false, false, third] version.parts scalingFactors +
        shift * 1000 := by
  simp only [scaledSum_flags, Bool.false_eq_true, ↓reduceIte]
  omega

/-- Some version lies on a side of a scanned one that `int` leaves room on. -/
theorem exists_beside
    {second third : Bool}
    {scanned : Version}
    {shift last : Int}
    (isInt : scanned.IsInt)
    (side : (shift = -1 ∧ last = intMin) ∨ (shift = 1 ∧ last = intMax))
    (room : second = true → scanned.major ≠ last)
    (minor : scanned.major = last → scanned.minor ≠ last) :
    ∃ version : Version,
      version.IsInt ∧
        ∃ distance : Int,
          0 < distance ∧
            scaledSum [false, second, third] version.parts scalingFactors =
              scaledSum [false, second, third] scanned.parts
                  scalingFactors +
                shift * distance := by
  have range := (isInt_iff scanned).mp isInt
  by_cases atEnd : scanned.major = last
  · obtain rfl : second = false :=
      Bool.eq_false_iff.mpr fun wild => room wild atEnd
    have inside := minor atEnd
    refine
      ⟨{ scanned with minor := scanned.minor + shift }, ?_, 1000,
        by decide, scaledSum_minor third scanned shift⟩
    rw [isInt_iff]
    simp only
    omega
  · refine
      ⟨{ scanned with major := scanned.major + shift }, ?_, 1000000,
        by decide, scaledSum_major second third scanned shift⟩
    rw [isInt_iff]
    simp only
    omega

/-- Some version is on the right side of a scanned one. -/
theorem exists_holds
    {operator : Operator}
    {first second third : Bool}
    {scanned : Version}
    (isInt : scanned.IsInt)
    (compared : operator.Strict → first = false)
    (lower : operator = .lt → second = true → scanned.major ≠ intMin)
    (upper : operator = .gt → second = true → scanned.major ≠ intMax)
    (minor :
      scanned.major = intMin ∨ scanned.major = intMax →
        intMin < scanned.minor ∧ scanned.minor < intMax) :
    ∃ version : Version,
      version.IsInt ∧
        operator.Holds
          (scaledSum [first, second, third] version.parts scalingFactors)
          (scaledSum [first, second, third] scanned.parts
            scalingFactors) := by
  cases operator with
  | eq =>
      exact ⟨scanned, isInt, rfl⟩
  | ge =>
      exact ⟨scanned, isInt, le_refl _⟩
  | le =>
      exact ⟨scanned, isInt, le_refl _⟩
  | ne =>
      rw [compared (.inl rfl)]
      have range := (isInt_iff scanned).mp isInt
      by_cases greatest : scanned.major = intMax
      · refine
          ⟨{ scanned with major := scanned.major + -1 }, ?_, ?_⟩
        · rw [isInt_iff]
          simp only [greatest, intMin, intMax] at range ⊢
          omega
        · rw [Operator.Holds, scaledSum_major]
          omega
      · refine
          ⟨{ scanned with major := scanned.major + 1 }, ?_, ?_⟩
        · rw [isInt_iff]
          simp only
          omega
        · rw [Operator.Holds, scaledSum_major]
          omega
  | lt =>
      rw [compared (.inr (.inl rfl))]
      obtain ⟨version, inRange, distance, positive, moved⟩ :=
        @exists_beside second third scanned (-1) intMin isInt
          (.inl ⟨rfl, rfl⟩) (lower rfl)
          fun atEnd => (minor (.inl atEnd)).1.ne'
      refine ⟨version, inRange, ?_⟩
      rw [Operator.Holds, moved]
      omega
  | gt =>
      rw [compared (.inr (.inr rfl))]
      obtain ⟨version, inRange, distance, positive, moved⟩ :=
        @exists_beside second third scanned 1 intMax isInt
          (.inr ⟨rfl, rfl⟩) (upper rfl)
          fun atEnd => (minor (.inr atEnd)).2.ne
      refine ⟨version, inRange, ?_⟩
      rw [Operator.Holds, moved]
      omega

variable {constraintDirty : CString}

/-- The text that `sscanf` comes to. -/
def scannedText (beyond constraintDirty : CString) : CString :=
  if (cleanedBuffers constraintDirty).constraint.length < constraintMaxlen then
    (cleanedBuffers constraintDirty).constraint
  else
    (cleanedBuffers constraintDirty).constraint ++ beyond

/-- A constraint that is not refused has its two sums compared. -/
theorem compareVersion_iff
    (notRefused : ¬ Refused constraintDirty)
    (beyond : CString)
    (version : Version) :
    compareVersion beyond version constraintDirty = true ↔
      ∃ operator,
        spelledOperator constraintDirty = some operator ∧
          operator.Holds
            (scaledSum (cleanedBuffers constraintDirty).wildcardArr
              version.parts scalingFactors)
            (scaledSum (cleanedBuffers constraintDirty).wildcardArr
              (scanVersion (scannedText beyond constraintDirty)).parts
              scalingFactors) := by
  rw [compareVersion, cleanConstraint_of_not_refused notRefused]
  simp only [← apply_ite scanVersion]
  rw [← scannedText]
  by_cases known : ∃ operator, spelledOperator constraintDirty = some operator
  · obtain ⟨operator, spelled⟩ := known
    have text :=
      (operator_cleanedBuffers_spelled constraintDirty operator).mpr spelled
    rw [text, evaluateOperator_text, spelled]
    simp only [Option.some.injEq, exists_eq_left']
  · rw [evaluateOperator_of_unknown fun operator text =>
      known
        ⟨operator,
          (operator_cleanedBuffers_spelled constraintDirty operator).mp text⟩]
    refine iff_of_false (by decide) ?_
    rintro ⟨operator, spelled, _⟩
    exact known ⟨operator, spelled⟩

theorem copiedAs_of_isSeparator
    {c : Char}
    (separator : isSeparator c = true) :
    copiedAs c = some '.' := by
  rw [copiedAs, if_pos separator]

/-- A second part has a dot in front of it in the scanned text. -/
theorem exists_scannedText
    {c : Char}
    (inSecond : c ∈ secondPart constraintDirty)
    (beyond : CString) :
    ∃ more,
      scannedText beyond constraintDirty =
        (firstPart constraintDirty).filterMap copiedAs ++ '.' :: more := by
  have cells :
      (cleanedBuffers constraintDirty).constraint =
        (reachedPart constraintDirty).filterMap copiedAs :=
    constraint_advanceAll 0 (reachedPart constraintDirty) Cleaning.start
  have dots :
      ∃ more,
        (reachedPart constraintDirty).filterMap copiedAs =
          (firstPart constraintDirty).filterMap copiedAs ++ '.' :: more := by
    have parted :=
      @List.takeWhile_append_dropWhile _ (fun c => !isSeparator c)
        (reachedPart constraintDirty)
    unfold secondPart behindPart at inSecond
    cases behind :
        (reachedPart constraintDirty).dropWhile fun c => !isSeparator c with
    | nil =>
        rw [behind] at inSecond
        cases inSecond
    | cons separator rest =>
        have isSeparator : isSeparator separator = true := by
          have stops :=
            List.head?_dropWhile_not (fun c => !isSeparator c)
              (reachedPart constraintDirty)
          rw [behind] at stops
          simpa using stops
        rw [behind] at parted
        have shape :
            reachedPart constraintDirty =
              firstPart constraintDirty ++ separator :: rest :=
          parted.symm
        refine
          ⟨rest.filterMap copiedAs,
            (congrArg (List.filterMap copiedAs) shape).trans ?_⟩
        rw [List.filterMap_append, List.filterMap_cons,
          copiedAs_of_isSeparator isSeparator]
  obtain ⟨more, dotted⟩ := dots
  rw [scannedText, cells, dotted]
  split
  · exact ⟨more, rfl⟩
  · exact ⟨more ++ beyond, by rw [List.append_assoc, List.cons_append]⟩

/-- The major part of a constraint with a second part. -/
theorem major_of_second
    {c : Char}
    (inSecond : c ∈ secondPart constraintDirty)
    (beyond : CString) :
    (scanVersion (scannedText beyond constraintDirty)).major =
      atoi ((firstPart constraintDirty).filterMap copiedAs) := by
  have stops : Stops '.' := ⟨by decide, by decide, by decide⟩
  obtain ⟨more, dotted⟩ := exists_scannedText inSecond beyond
  rw [major_scanVersion, dotted, atoi_eq_scanInt, atoi_eq_scanInt,
    scanInt_append_stop stops, Option.map_map]
  rfl

/-- No version satisfies a rejected constraint. -/
theorem Rejected.compareVersion_eq_false
    {version : Version}
    (rejected : Rejected constraintDirty)
    (isInt : version.IsInt)
    (beyond : CString) :
    compareVersion beyond version constraintDirty = false := by
  by_cases refused : Refused constraintDirty
  · rw [compareVersion, cleanConstraint_of_refused refused]
  rw [← Bool.not_eq_true, compareVersion_iff refused]
  rintro ⟨operator, spelled, holds⟩
  have range := (isInt_iff version).mp isInt
  obtain ⟨third, flags⟩ := exists_wildcardArr constraintDirty
  rw [flags, scaledSum_flags, scaledSum_flags] at holds
  cases rejected with
  | refused stops =>
      exact refused stops
  | unknownOperator unknown =>
      rw [unknown] at spelled
      cases spelled
  | firstWildcard asked strict wildcard =>
      obtain rfl := Option.some.inj (asked.symm.trans spelled)
      rw [decide_eq_true wildcard, if_pos rfl, if_pos rfl] at holds
      exact strict.not_holds 0 holds
  | leastMajor asked wildcard least =>
      obtain rfl := Option.some.inj (asked.symm.trans spelled)
      rw [decide_eq_true wildcard, major_of_second wildcard, least] at holds
      simp only [Operator.Holds, ↓reduceIte] at holds
      split at holds <;> omega
  | greatestMajor asked wildcard greatest =>
      obtain rfl := Option.some.inj (asked.symm.trans spelled)
      rw [decide_eq_true wildcard, major_of_second wildcard, greatest]
        at holds
      simp only [Operator.Holds, ↓reduceIte] at holds
      split at holds <;> omega

/-- Some version satisfies a constraint that is not rejected. -/
theorem exists_compareVersion
    (notRejected : ¬ Rejected constraintDirty) :
    ∃ version : Version,
      version.IsInt ∧
        compareVersion [] version constraintDirty = true := by
  have notRefused : ¬ Refused constraintDirty :=
    fun refused => notRejected (.refused refused)
  obtain ⟨operator, spelled⟩ :
      ∃ operator, spelledOperator constraintDirty = some operator := by
    cases spelled : spelledOperator constraintDirty with
    | none =>
        exact absurd (.unknownOperator spelled) notRejected
    | some operator =>
        exact ⟨operator, rfl⟩
  obtain ⟨third, flags⟩ := exists_wildcardArr constraintDirty
  have fits : (scannedText [] constraintDirty).length ≤ constraintMaxlen := by
    rw [scannedText, List.append_nil, ite_self, constraint_cleanedBuffers]
    exact List.length_take_le _ _
  obtain ⟨version, isInt, holds⟩ :=
    @exists_holds operator (decide ('*' ∈ firstPart constraintDirty))
      (decide ('*' ∈ secondPart constraintDirty)) third
      (scanVersion (scannedText [] constraintDirty))
      (scanVersion_isInt _)
      (fun strict =>
        decide_eq_false fun wildcard =>
          notRejected (.firstWildcard spelled strict wildcard))
      (fun asked wildcard least => by
        have inSecond := of_decide_eq_true wildcard
        rw [major_of_second inSecond] at least
        rw [asked] at spelled
        exact notRejected (.leastMajor spelled inSecond least))
      (fun asked wildcard greatest => by
        have inSecond := of_decide_eq_true wildcard
        rw [major_of_second inSecond] at greatest
        rw [asked] at spelled
        exact notRejected (.greatestMajor spelled inSecond greatest))
      (minor_of_extreme_major fits)
  refine ⟨version, isInt, ?_⟩
  rw [compareVersion_iff notRefused, flags]
  exact ⟨operator, spelled, holds⟩

/--
That only well-formed constraints are satisfied holds exactly of the
well-formed and of the rejected ones.
-/
theorem satisfied_wellFormed_iff
    (constraintDirty : CString) :
    (∀ beyond version,
        version.IsInt →
          compareVersion beyond version constraintDirty = true →
            WellFormed constraintDirty) ↔
      WellFormed constraintDirty ∨ Rejected constraintDirty := by
  constructor
  · intro onlyWellFormed
    by_contra neither
    rw [not_or] at neither
    obtain ⟨version, isInt, satisfied⟩ := exists_compareVersion neither.2
    exact neither.1 (onlyWellFormed [] version isInt satisfied)
  · rintro (wellFormed | rejected) beyond version isInt satisfied
    · exact wellFormed
    · rw [rejected.compareVersion_eq_false isInt] at satisfied
      cases satisfied

/-- The last character is a digit or `*`. -/
def EndsInPart (text : CString) : Prop :=
  ∃ c, text.getLast? = some c ∧ (c = '*' ∨ c.isDigit = true)

theorem EndsInPart.append
    {text : CString}
    (ends : EndsInPart text)
    (leading : CString) :
    EndsInPart (leading ++ text) := by
  obtain ⟨c, last, kind⟩ := ends
  exact ⟨c, by rw [List.getLast?_append, last, Option.some_or], kind⟩

theorem IsPart.endsInPart
    {text : CString}
    (isPart : IsPart text) :
    EndsInPart text := by
  rcases isPart with rfl | ⟨nonempty, decimal⟩
  · exact ⟨'*', rfl, .inl rfl⟩
  · exact
      ⟨text.getLast nonempty, List.getLast?_eq_some_getLast nonempty,
        .inr (decimal _ (List.getLast_mem nonempty))⟩

/-- A well-formed constraint ends in a part. -/
theorem WellFormed.endsInPart
    (wellFormed : WellFormed constraintDirty) :
    EndsInPart constraintDirty := by
  obtain ⟨operator, mark, first, others, form, rfl⟩ := wellFormed
  have behind :
      ∀ (others : List (Char × CString)) (first : CString),
        IsPart first →
          (∀ other ∈ others, IsPart other.2) →
            EndsInPart
              (first ++ others.flatMap fun other => other.1 :: other.2) := by
    intro others
    induction others with
    | nil =>
        intro first isPart _
        rw [List.flatMap_nil, List.append_nil]
        exact isPart.endsInPart
    | cons other others inductionHypothesis =>
        intro first _ areParts
        have later :=
          inductionHypothesis other.2 (areParts other List.mem_cons_self)
            fun part member => areParts part (List.mem_cons_of_mem _ member)
        rw [List.flatMap_cons]
        exact (later.append [other.1]).append first
  exact ((behind others first form.first form.parts).append mark).append
    operator

/-- Version 3.0.0 satisfies the malformed constraint `3.`. -/
theorem compareVersion_accepts_malformed :
    ¬ ∀ beyond version constraintDirty,
      version.IsInt →
        compareVersion beyond version constraintDirty = true →
          WellFormed constraintDirty := by
  intro onlyWellFormed
  obtain ⟨c, last, ending⟩ :=
    (onlyWellFormed [] ⟨3, 0, 0⟩ ['3', '.'] (by decide)
      (by decide)).endsInPart
  obtain rfl := Option.some.inj last
  exact absurd ending (by decide)

end Comparison

end Csh.RequireVersion
