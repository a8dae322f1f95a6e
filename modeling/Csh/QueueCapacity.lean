import Csh.ValueList

namespace Csh.ParamSet

open Libc Interaction ParamOffsets

/-!
# Commands that do not fit the queue

The texts the command takes for its offsets fill the queue entry by entry.  A
bracketed list fails at the first entry that does not fit; a single value is
broadcast without looking, so that entries get lost and the command succeeds.
-/

section Taken

variable {Value : Type}
variable {lib : Libparam Value}
variable {memory : Memory}
variable {param : Param}
variable {offsets : List Int}
variable {args texts : List CString}

/-- The text that the command takes for each offset. -/
def takenTexts
    (before : Nat → Char)
    (expected : Nat) :
    List CString → Option (List CString)
  | [] => none
  | first :: rest =>
      if Broadcasts (before 0) first then
        some (List.replicate expected first)
      else
        bracketedTexts before 0 (first :: rest)

/-- One text is taken for each offset, and no list for a single offset. -/
def Taken
    (before : Nat → Char)
    (expected : Nat)
    (args texts : List CString) :
    Prop :=
  parseSlashValues args [1, expected] = true ∧
    takenTexts before expected args = some texts ∧
    texts.length = expected ∧
    (expected = 1 → ∀ first ∈ args.head?, '[' ∉ first)

theorem taken_of_broadcasts
    {before : Nat → Char}
    {expected : Nat}
    {first : CString}
    {rest : List CString}
    (counted : parseSlashValues (first :: rest) [1, expected] = true)
    (broadcasts : Broadcasts (before 0) first) :
    Taken before expected (first :: rest) texts ↔
      texts = List.replicate expected first := by
  constructor
  · rintro ⟨_, taken, _⟩
    rw [takenTexts, if_pos broadcasts] at taken
    exact (Option.some.inj taken).symm
  · rintro rfl
    refine ⟨counted, ?_, List.length_replicate, ?_⟩
    · rw [takenTexts, if_pos broadcasts]
    · rintro - _ ⟨⟩
      exact broadcasts.1

theorem convert_replicate
    {text : CString}
    {value : Value}
    (converted : lib.paramStrToValue param.type text = some value)
    (count : Nat) :
    convert lib param (List.replicate count text) =
      some (List.replicate count value) := by
  induction count with
  | zero =>
      rfl
  | succ count inductionHypothesis =>
      rw [List.replicate_succ, List.replicate_succ]
      exact convert_cons_eq_some_iff.mpr
        ⟨value, _, converted, inductionHypothesis, rfl⟩

theorem exists_of_convert_replicate
    {text : CString}
    {values : List Value}
    {count : Nat}
    (positive : 0 < count)
    (converts :
      convert lib param (List.replicate count text) = some values) :
    ∃ value,
      lib.paramStrToValue param.type text = some value ∧
        values = List.replicate count value := by
  obtain ⟨count, rfl⟩ := Nat.exists_eq_succ_of_ne_zero positive.ne'
  have all := converts
  rw [List.replicate_succ] at converts
  obtain ⟨value, later, converted, _, rfl⟩ :=
    convert_cons_eq_some_iff.mp converts
  rw [convert_replicate converted] at all
  exact ⟨value, converted, (Option.some.inj all).symm⟩

/-- A broadcasting first argument fills the queue with what fits. -/
theorem filledQueue_of_broadcasts
    {first : CString}
    {rest : List CString}
    (counted : parseSlashValues (first :: rest) [1, offsets.length] = true)
    (broadcasts : Broadcasts (memory.byteBefore 0) first) :
    filledQueue lib memory param offsets (first :: rest) =
      (lib.paramStrToValue param.type first).map fun value =>
        addToEvery lib param offsets value [] := by
  rw [filledQueue, if_pos counted, valueLoop_of_broadcasts broadcasts]

/-- Other arguments fill it with the entries of the taken texts, if all fit. -/
theorem filledQueue_of_bracketed
    {first : CString}
    {rest : List CString}
    {queue : List (QueueEntry Value)}
    (bracketed : ¬ Broadcasts (memory.byteBefore 0) first) :
    filledQueue lib memory param offsets (first :: rest) = some queue ↔
      ∃ texts values,
        Taken memory.byteBefore offsets.length (first :: rest) texts ∧
          convert lib param texts = some values ∧
          Fits lib [] (entriesFor param offsets values) ∧
          queue = entriesFor param offsets values := by
  have loop :=
    @valueLoop_bracketed_iff Value lib memory param offsets 0 [] queue
      (first :: rest) (by
        rintro - _ ⟨⟩
        exact bracketed)
  simp only [Nat.zero_add, List.drop_zero, List.nil_append] at loop
  rw [filledQueue]
  split
  · rename_i counted
    rw [loop]
    constructor
    · rintro ⟨texts, values, taken, count, single, converts, fits, rfl⟩
      refine
        ⟨texts, values, ⟨counted, ?_, count, single⟩, converts, fits, rfl⟩
      rw [takenTexts, if_neg bracketed]
      exact taken
    · rintro ⟨texts, values, ⟨_, taken, count, single⟩, converts, fits, rfl⟩
      rw [takenTexts, if_neg bracketed] at taken
      exact ⟨texts, values, taken, count, single, converts, fits, rfl⟩
  · rename_i notCounted
    simp only [reduceCtorEq, false_iff]
    rintro ⟨texts, values, ⟨counted, _⟩, _⟩
    exact notCounted counted

end Taken

section Capacity

variable {Value : Type}

/--
A run is complete: success means that one entry for each offset, with the
value taken for it, was delivered, and an entry that does not fit means an
error without a delivery.
-/
structure Complete
    (lib : Libparam Value)
    (memory : Memory)
    (param : Param)
    (offsets : List Int)
    (args : List CString)
    (trace : List (Step (SetAnswer Value)))
    (result : SlashResult) :
    Prop where
  success :
    result = .success →
      ∃ texts values,
        Taken memory.byteBefore offsets.length args texts ∧
          convert lib param texts = some values ∧
          deliveries trace = [entriesFor param offsets values]
  refused :
    ∀ texts values,
      Taken memory.byteBefore offsets.length args texts →
        convert lib param texts = some values →
          ¬ Fits lib [] (entriesFor param offsets values) →
            deliveries trace = [] ∧ result.isError = true

/-- An error without a delivery is complete. -/
theorem Complete.of_error
    {lib : Libparam Value}
    {memory : Memory}
    {param : Param}
    {offsets : List Int}
    {args : List CString}
    {trace : List (Step (SetAnswer Value))}
    {result : SlashResult}
    (failed : deliveries trace = [] ∧ result.isError = true) :
    Complete lib memory param offsets args trace result := by
  refine ⟨?_, fun _ _ _ _ _ => failed⟩
  rintro rfl
  exact absurd failed.2 (by decide)

/-- The single value is broadcast to more offsets than the queue has room for. -/
def Overflows
    (lib : Libparam Value)
    (memory : Memory)
    (param : Param)
    (offsets : List Int)
    (args : List CString) :
    Prop :=
  ∃ first rest value,
    args = first :: rest ∧
      parseSlashValues args [1, offsets.length] = true ∧
      Broadcasts (memory.byteBefore 0) first ∧
      lib.paramStrToValue param.type first = some value ∧
      ¬ Fits lib [] (offsets.map fun offset => ⟨param, offset, value⟩)

theorem filledQueue_nil
    {lib : Libparam Value}
    {memory : Memory}
    {param : Param}
    {offsets : List Int} :
    filledQueue lib memory param offsets [] = none := by
  simp [filledQueue, valueLoop]

theorem AcceptedTarget.length_pos
    {lib : Libparam Value}
    {memory : Memory}
    {options : SetOptions}
    {target : CString}
    {param : Param}
    {offsets : List Int}
    (accepted : AcceptedTarget lib memory options target param offsets) :
    0 < offsets.length := by
  obtain ⟨offsetToken, _, parsed, _⟩ := accepted
  refine List.length_pos_iff.mpr ?_
  unfold offsetArray at parsed
  split at parsed
  · obtain rfl := Option.some.inj parsed
    simp
  · split at parsed
    · simp at parsed
    · rintro rfl
      split at parsed
      · simp at parsed
      · rename_i nonempty
        split at parsed
        · simp at parsed
        · exact nonempty (Option.some.inj parsed)

section Delivered

variable {lib : Libparam Value}
variable {memory : Memory}
variable {param : Param}
variable {offsets : List Int}
variable {args : List CString}
variable {trace : List (Step (SetAnswer Value))}
variable {result : SlashResult}

/-- A run that delivers one fitting entry for each value taken is complete. -/
theorem Complete.of_delivered
    {texts : List CString}
    {values : List Value}
    (taken : Taken memory.byteBefore offsets.length args texts)
    (converts : convert lib param texts = some values)
    (fits : Fits lib [] (entriesFor param offsets values))
    (delivered : deliveries trace = [entriesFor param offsets values])
    (unique :
      ∀ others,
        Taken memory.byteBefore offsets.length args others →
          others = texts) :
    Complete lib memory param offsets args trace result := by
  refine ⟨fun _ => ⟨texts, values, taken, converts, delivered⟩, ?_⟩
  intro otherTexts otherValues otherTaken otherConverts overflow
  obtain rfl := unique otherTexts otherTaken
  obtain rfl : values = otherValues :=
    Option.some.inj (converts.symm.trans otherConverts)
  exact (overflow fits).elim

end Delivered

/--
Every run is complete exactly when no single value is broadcast to more
offsets than the queue has room for.
-/
theorem cmdSet_complete_iff
    {lib : Libparam Value}
    {memory : Memory}
    {options : SetOptions}
    {target : CString}
    {param : Param}
    {offsets : List Int}
    (accepted : AcceptedTarget lib memory options target param offsets)
    (timeout : Nat)
    (args : List CString) :
    (∀ trace result,
        Runs (cmdSet lib memory timeout (some (options, target :: args)))
            trace result →
          Complete lib memory param offsets args trace result) ↔
      ¬ Overflows lib memory param offsets args := by
  constructor
  · rintro complete
      ⟨first, rest, value, rfl, counted, broadcasts, converted, overflow⟩
    have filled :
        filledQueue lib memory param offsets (first :: rest) =
          some (addToEvery lib param offsets value []) := by
      rw [filledQueue_of_broadcasts counted broadcasts, converted]
      rfl
    obtain ⟨trace, run, delivered⟩ :=
      @exists_runs_cmdSet _ _ _ timeout _ _ _ _ _ _ accepted filled
    have refused :=
      (complete trace _ run).refused _ _
        ((taken_of_broadcasts counted broadcasts).mpr rfl)
        (convert_replicate converted _)
        (by rwa [entriesFor_replicate])
    exact absurd refused.2 (by decide)
  · intro noOverflow trace result run
    have outcome := deliveries_of_runs_cmdSet accepted run
    cases filled : filledQueue lib memory param offsets args with
    | none =>
        rw [filled] at outcome
        exact .of_error outcome
    | some queue =>
        rw [filled] at outcome
        cases args with
        | nil =>
            simp [filledQueue_nil] at filled
        | cons first rest =>
            by_cases broadcasts : Broadcasts (memory.byteBefore 0) first
            · have counted :
                  parseSlashValues (first :: rest) [1, offsets.length] =
                    true := by
                by_contra notCounted
                simp [filledQueue, notCounted] at filled
              have taken :=
                fun texts =>
                  @taken_of_broadcasts texts _ _ _ _ counted broadcasts
              rw [filledQueue_of_broadcasts counted broadcasts] at filled
              obtain ⟨value, converted, rfl⟩ :=
                Option.map_eq_some_iff.mp filled
              have fits :
                  Fits lib []
                    (offsets.map fun offset => ⟨param, offset, value⟩) := by
                by_contra overflow
                exact noOverflow
                  ⟨first, rest, value, rfl, counted, broadcasts, converted,
                    overflow⟩
              rw [addToEvery_eq_append_iff.mpr fits, List.nil_append,
                ← entriesFor_replicate] at outcome
              rw [← entriesFor_replicate] at fits
              exact
                .of_delivered ((taken _).mpr rfl)
                  (convert_replicate converted _) fits outcome.1
                  fun others => (taken others).mp
            · obtain ⟨texts, values, taken, converts, fits, rfl⟩ :=
                (filledQueue_of_bracketed broadcasts).mp filled
              exact
                .of_delivered taken converts fits outcome.1
                  fun _ otherTaken =>
                    Option.some.inj (otherTaken.2.1.symm.trans taken.2.1)

/-- An array of three elements on the local node. -/
def localArray : Param where
  id := 10
  node := 0
  type := .uint8
  arraySize := 3
  readonly := false

/-- Decimal values, one parameter and a queue that may have a capacity. -/
def boundedLib (capacity : Option Nat) : Libparam Int where
  paramListFindId _ _ := none
  paramListFindName _ _ := some localArray
  paramStrToValue _ text := (scanInt text).map Prod.fst
  valueBytes _ _ := 1
  room queue _ := capacity.all (queue.length < ·)

def zeroMemory : Memory where
  delimitor := nul
  byteBefore _ := nul
  offsetBehind := 0

def plainOptions : SetOptions where
  node := 0
  server := 0
  ackWithPull := true
  force := false

theorem localArray_accepted
    (capacity : Option Nat) :
    AcceptedTarget (boundedLib capacity) zeroMemory plainOptions
      "array".toList localArray [0, 1, 2] := by
  have brackets :
      paramGetOffsetString "array".toList = some ("array".toList, none) := by
    decide
  have notNumber : (strtoul 10 "array".toList).2 ≠ [] := by
    decide
  have found :
      parseParamOffsetString (boundedLib capacity)
          (toInt plainOptions.node) "array".toList =
        some (localArray, none) := by
    simp only [parseParamOffsetString, brackets, paramParseFromStr,
      notNumber, and_false, ↓reduceIte]
    rfl
  exact ⟨none, found, by decide, by decide, by decide⟩

/-- With room for three entries every run of `set array 5` is complete. -/
theorem cmdSet_complete_of_room :
    ¬ Overflows (boundedLib (some 3)) zeroMemory localArray [0, 1, 2]
        ["5".toList] ∧
      ∀ trace result,
        Runs
            (cmdSet (boundedLib (some 3)) zeroMemory 1000
              (some (plainOptions, ["array".toList, "5".toList])))
            trace result →
          Complete (boundedLib (some 3)) zeroMemory localArray [0, 1, 2]
            ["5".toList] trace result := by
  have fits :
      ¬ Overflows (boundedLib (some 3)) zeroMemory localArray [0, 1, 2]
        ["5".toList] := by
    rintro ⟨first, rest, value, _, _, _, _, overflow⟩
    exact overflow (by simp [Fits, boundedLib])
  refine ⟨fits, ?_⟩
  exact
    (cmdSet_complete_iff (localArray_accepted (some 3)) 1000
      ["5".toList]).mpr fits

/-- With room for two entries `set array 5` loses one and succeeds. -/
theorem cmdSet_loses_entry :
    ¬ ∀ (lib : Libparam Int) (memory : Memory) (options : SetOptions)
        (target : CString) (param : Param) (offsets : List Int)
        (timeout : Nat) (args : List CString),
      AcceptedTarget lib memory options target param offsets →
        ∀ trace result,
          Runs (cmdSet lib memory timeout (some (options, target :: args)))
              trace result →
            Complete lib memory param offsets args trace result := by
  intro complete
  obtain ⟨trace, run, _⟩ :=
    @exists_runs_cmdSet _ _ _ 1000 _ _ _ _ ["5".toList]
      [⟨localArray, 0, 5⟩, ⟨localArray, 1, 5⟩] (localArray_accepted (some 2))
      (by decide)
  have claimed :=
    complete _ _ _ _ _ _ _ _ (localArray_accepted (some 2)) trace _ run
  have refused :=
    claimed.refused ["5".toList, "5".toList, "5".toList] [5, 5, 5]
      ⟨by decide, by decide, by decide, by decide⟩ (by decide)
      (by simp [Fits, entriesFor, boundedLib])
  exact absurd refused.2 (by decide)

end Capacity

end Csh.ParamSet
