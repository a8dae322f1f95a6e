import Csh.Lib.CNumber

namespace Csh.RequireVersion

open Libc

/-!
# Version constraints

`compare_version` cleans the constraint character by character, scans the
cleaned text with `sscanf` and compares two scaled sums.  The constraint is
kept as the characters written so far, since every write goes to the next
position of the zeroed buffer.
-/

/-- `version_t`. -/
structure Version where
  major : Int
  minor : Int
  patch : Int
  deriving Repr, DecidableEq

/-- `NUM_VERSION_PARTS`. -/
def numVersionParts : Nat :=
  3

/-- `CONSTRAINT_MAXLEN`, the size of `">=v9999.9999.9999"` with its NUL. -/
def constraintMaxlen : Nat :=
  18

/-- `DEFAULT_OPERATOR`. -/
def defaultOperator : CString :=
  ['=', '=']

/-- `OPERATOR_MAXLEN`, the size of the default operator with its NUL. -/
def operatorMaxlen : Nat :=
  defaultOperator.length + 1

/-- The buffers and counters of the cleaning loop. -/
structure Cleaning where
  constraint : CString
  operator : List Char
  dotCount : Nat
  wildcardArr : List Bool
  deriving Repr, DecidableEq

/-- The buffers in front of the cleaning loop. -/
def Cleaning.start : Cleaning where
  constraint := []
  operator := defaultOperator ++ [nul]
  dotCount := 0
  wildcardArr := List.replicate numVersionParts false

/-- The characters an operator is made of. -/
def isOperatorChar (c : Char) : Bool :=
  c == '<' || c == '>' || c == '=' || c == '!'

/-- Put an operator character; all but `=` clear what is behind them. -/
def Cleaning.putOperator
    (state : Cleaning)
    (dirtyIdx : Nat)
    (c : Char) :
    Cleaning :=
  let written := state.operator.set dirtyIdx c
  if c = '=' then
    { state with operator := written }
  else
    { state with
      operator :=
        written.take (dirtyIdx + 1) ++
          List.replicate (operatorMaxlen - (dirtyIdx + 1)) nul }

/-- One turn of the cleaning loop; `none` is its `return false`. -/
def cleanChar
    (dirtyIdx : Nat)
    (c : Char)
    (state : Cleaning) :
    Option Cleaning :=
  if dirtyIdx < operatorMaxlen ∧ isOperatorChar c = true then
    some (state.putOperator dirtyIdx c)
  else if c = 'v' ∨ c = 'V' then
    some state
  else if c = '-' ∨ c = '.' then
    if numVersionParts ≤ state.dotCount + 1 then
      none
    else
      some { state with
        constraint := state.constraint ++ ['.']
        dotCount := state.dotCount + 1 }
  else if c = '*' then
    some { state with
      constraint := state.constraint ++ ['0']
      wildcardArr := state.wildcardArr.set state.dotCount true }
  else if c.isDigit then
    some { state with constraint := state.constraint ++ [c] }
  else
    none

/-- The cleaning loop from position `dirtyIdx` of the dirty constraint on. -/
def cleanConstraint :
    Nat → CString → Cleaning → Option Cleaning
  | _, [], state => some state
  | dirtyIdx, c :: rest, state =>
      if state.constraint.length < constraintMaxlen ∧
          state.dotCount < numVersionParts then
        match cleanChar dirtyIdx c state with
        | none => none
        | some next => cleanConstraint (dirtyIdx + 1) rest next
      else
        some state

/-- `sscanf(text, "%d.%d.%d", ...)` into parts that were zero before. -/
def scanVersion (text : CString) : Version :=
  match scanInt text with
  | none => ⟨0, 0, 0⟩
  | some (major, '.' :: rest) =>
      match scanInt rest with
      | none => ⟨major, 0, 0⟩
      | some (minor, '.' :: rest) =>
          match scanInt rest with
          | none => ⟨major, minor, 0⟩
          | some (patch, _) => ⟨major, minor, patch⟩
      | some (minor, _) => ⟨major, minor, 0⟩
  | some (major, _) => ⟨major, 0, 0⟩

/-- `scaling_factors`. -/
def scalingFactors : List Int :=
  [1000000, 1000, 1]

/-- The parts of a version, from major to patch. -/
def Version.parts (version : Version) : List Int :=
  [version.major, version.minor, version.patch]

/--
The sum of the scaled parts in front of the first wildcard.  A part is an
`int`, so that the sum stays far inside `long`.
-/
def scaledSum : List Bool → List Int → List Int → Int
  | wildcard :: wildcards, part :: parts, factor :: factors =>
      if wildcard then
        0
      else
        part * factor + scaledSum wildcards parts factors
  | _, _, _ => 0

/-- The chain of `strcmp` on the operator; an unknown one is never satisfied. -/
def evaluateOperator
    (operator : CString)
    (versionScaled constraintScaled : Int) :
    Bool :=
  if operator = ['=', '='] then
    versionScaled == constraintScaled
  else if operator = ['!', '='] then
    versionScaled != constraintScaled
  else if operator = ['>', '='] then
    constraintScaled ≤ versionScaled
  else if operator = ['<', '='] then
    versionScaled ≤ constraintScaled
  else if operator = ['>'] then
    constraintScaled < versionScaled
  else if operator = ['<'] then
    versionScaled < constraintScaled
  else
    false

/--
`compare_version`; its `verbose` flag only adds a message and is left out.
A constraint that fills its buffer has no NUL of its own, and `sscanf` goes on
with the text `beyond` that the stack holds behind it.
-/
def compareVersion
    (beyond : CString)
    (version : Version)
    (constraintDirty : CString) :
    Bool :=
  match cleanConstraint 0 constraintDirty Cleaning.start with
  | none => false
  | some state =>
      let constraintVersion :=
        if state.constraint.length < constraintMaxlen then
          scanVersion state.constraint
        else
          scanVersion (state.constraint ++ beyond)
      evaluateOperator
        (state.operator.takeWhile fun c => c != nul)
        (scaledSum state.wildcardArr version.parts scalingFactors)
        (scaledSum state.wildcardArr constraintVersion.parts scalingFactors)

end Csh.RequireVersion
