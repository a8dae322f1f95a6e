import Csh.ParamSet

namespace Csh.ParamSet

open Libc Interaction ParamOffsets

/-!
# How value arguments are assigned

The value loop takes its arguments in one of two ways.  A first argument that
has no opening bracket and does not end with a closing one is assigned to
every offset, and entries that do not fit are lost.  Otherwise the arguments
up to the first that ends with a closing bracket are assigned one by one, and
their number and every added entry are checked.
-/

/-- The argument ends with a closing bracket. -/
def closes (before : Char) (arg : CString) : Bool :=
  lastByte before arg == ']'

/-- The text of an argument that is converted to a value. -/
def valueText (before : Char) (arg : CString) : CString :=
  let behind := if arg.contains '[' then arg.drop 1 else arg
  if closes before arg then behind.dropLast else behind

/-- The argument is taken as one value for every offset. -/
def Broadcasts (before : Char) (arg : CString) : Prop :=
  '[' ∉ arg ∧ closes before arg = false

instance (before : Char) (arg : CString) :
    Decidable (Broadcasts before arg) :=
  inferInstanceAs (Decidable (_ ∧ _))

/-- The texts of the arguments up to the first that closes, if one does. -/
def bracketedTexts
    (before : Nat → Char) :
    Nat → List CString → Option (List CString)
  | _, [] => none
  | index, arg :: rest =>
      if closes (before index) arg then
        some [valueText (before index) arg]
      else
        (bracketedTexts before (index + 1) rest).map
          (valueText (before index) arg :: ·)

section Reading

theorem lastByte_drop
    {arg : CString}
    {before : Char}
    (nonempty : arg ≠ []) :
    lastByte (arg.head?.getD nul) arg.tail = lastByte before arg := by
  obtain ⟨c, rest, rfl⟩ := List.exists_cons_of_ne_nil nonempty
  cases rest with
  | nil =>
      rfl
  | cons d later =>
      simp [lastByte, List.getLast?_cons]

/-- An argument is refused as a list for a single offset, or read. -/
theorem readValueArg_eq
    (before : Char)
    (expected iterations : Nat)
    (arg : CString) :
    readValueArg before expected iterations arg =
      if '[' ∈ arg ∧ expected = 1 then
        none
      else
        some {
          text := valueText before arg
          shouldBreak := !closes before arg
          singleValueFlag :=
            decide (Broadcasts before arg) && iterations == 0
        } := by
  by_cases opens : '[' ∈ arg
  · have sameLast := @lastByte_drop arg before (List.ne_nil_of_mem opens)
    by_cases single : expected = 1
    · simp [readValueArg, opens, single]
    · by_cases closing : lastByte before arg = ']'
      · rw [closing] at sameLast
        simp [readValueArg, valueText, closes, Broadcasts, opens, single,
          sameLast, closing]
      · rw [← sameLast] at closing
        simp [readValueArg, valueText, closes, Broadcasts, opens, single,
          ← sameLast, closing]
  · by_cases closing : lastByte before arg = ']'
    · simp [readValueArg, valueText, closes, Broadcasts, opens, closing]
    · simp [readValueArg, valueText, closes, Broadcasts, opens, closing]

end Reading

section Loop

variable {Value : Type}
variable {lib : Libparam Value}
variable {memory : Memory}
variable {param : Param}
variable {offsets : List Int}

/-- Every entry still fits behind the ones before it. -/
def Fits
    (lib : Libparam Value) :
    List (QueueEntry Value) → List (QueueEntry Value) → Prop
  | _, [] => True
  | queue, entry :: rest =>
      lib.room queue entry = true ∧ Fits lib (queue ++ [entry]) rest

/-- The entries that assign values to offsets, in their order. -/
def entriesFor
    (param : Param)
    (offsets : List Int)
    (values : List Value) :
    List (QueueEntry Value) :=
  List.zipWith (fun offset value => ⟨param, offset, value⟩) offsets values

/-- The values of texts, if all of them convert. -/
def convert
    (lib : Libparam Value)
    (param : Param)
    (texts : List CString) :
    Option (List Value) :=
  texts.mapM (lib.paramStrToValue param.type)

/-- One turn of the loop on an argument of a bracketed list. -/
theorem valueLoop_cons_of_bracketed
    {iterations : Nat}
    {queue result : List (QueueEntry Value)}
    {arg : CString}
    {rest : List CString}
    (bracketed :
      ¬ (Broadcasts (memory.byteBefore iterations) arg ∧ iterations = 0)) :
    valueLoop lib memory param offsets iterations queue (arg :: rest) =
        some result ↔
      ¬ ('[' ∈ arg ∧ offsets.length = 1) ∧
        ∃ value,
          lib.paramStrToValue param.type
              (valueText (memory.byteBefore iterations) arg) = some value ∧
            iterations ≤ offsets.length ∧
            lib.room queue
              ⟨param, offsets.getD iterations memory.offsetBehind, value⟩ =
                true ∧
            if closes (memory.byteBefore iterations) arg then
              iterations + 1 = offsets.length ∧
                result = queue ++
                  [⟨param, offsets.getD iterations memory.offsetBehind,
                    value⟩]
            else
              valueLoop lib memory param offsets (iterations + 1)
                (queue ++
                  [⟨param, offsets.getD iterations memory.offsetBehind,
                    value⟩])
                rest = some result := by
  have notSingle :
      (decide (Broadcasts (memory.byteBefore iterations) arg) &&
        iterations == 0) = false := by
    by_contra single
    simp only [Bool.not_eq_false, Bool.and_eq_true, decide_eq_true_eq,
      beq_iff_eq] at single
    exact bracketed single
  rw [valueLoop, readValueArg_eq]
  by_cases refused : '[' ∈ arg ∧ offsets.length = 1
  · simp [refused]
  · rw [if_neg refused]
    simp only [notSingle]
    cases lib.paramStrToValue param.type
      (valueText (memory.byteBefore iterations) arg) with
    | none =>
        simp
    | some value =>
        simp only [Option.some.injEq, exists_eq_left']
        generalize
          (⟨param, offsets.getD iterations memory.offsetBehind, value⟩ :
            QueueEntry Value) = entry
        by_cases tooMany : offsets.length < iterations
        · simp [tooMany]
        · have inBounds : iterations ≤ offsets.length :=
            Nat.le_of_not_lt tooMany
          by_cases room : lib.room queue entry = true
          · by_cases closing :
                closes (memory.byteBefore iterations) arg = true
            · by_cases last : iterations + 1 = offsets.length
              · simp [paramQueueAdd, refused, tooMany, inBounds, room,
                  closing, last, @eq_comm _ result]
              · simp [paramQueueAdd, tooMany, room, closing, last]
            · simp [paramQueueAdd, refused, tooMany, inBounds, room, closing]
          · simp [paramQueueAdd, tooMany, room]

theorem convert_cons_eq_some_iff
    {text : CString}
    {texts : List CString}
    {values : List Value} :
    convert lib param (text :: texts) = some values ↔
      ∃ value later,
        lib.paramStrToValue param.type text = some value ∧
          convert lib param texts = some later ∧
          values = value :: later := by
  simp only [convert, List.mapM_cons, Option.bind_eq_bind,
    Option.bind_eq_some_iff, Option.pure_def, Option.some.injEq]
  constructor
  · rintro ⟨value, converted, later, laterConverted, rfl⟩
    exact ⟨value, later, converted, laterConverted, rfl⟩
  · rintro ⟨value, later, converted, laterConverted, rfl⟩
    exact ⟨value, converted, later, laterConverted, rfl⟩

/-- The first text is that of the first argument, the others follow it. -/
theorem bracketedTexts_cons_eq_some_iff
    {before : Nat → Char}
    {index : Nat}
    {arg : CString}
    {rest texts : List CString} :
    bracketedTexts before index (arg :: rest) = some texts ↔
      ∃ later,
        texts = valueText (before index) arg :: later ∧
          if closes (before index) arg then
            later = []
          else
            bracketedTexts before (index + 1) rest = some later := by
  rw [bracketedTexts]
  split
  · simp [eq_comm]
  · simp only [Option.map_eq_some_iff]
    constructor
    · rintro ⟨later, followed, rfl⟩
      exact ⟨later, rfl, followed⟩
    · rintro ⟨later, rfl, followed⟩
      exact ⟨later, followed, rfl⟩

theorem entriesFor_drop
    {index : Nat}
    (inBounds : index < offsets.length)
    (outside : Int)
    (value : Value)
    (later : List Value) :
    entriesFor param (offsets.drop index) (value :: later) =
      ⟨param, offsets.getD index outside, value⟩ ::
        entriesFor param (offsets.drop (index + 1)) later := by
  rw [List.drop_eq_getElem_cons inBounds, List.getD_eq_getElem?_getD,
    List.getElem?_eq_getElem inBounds]
  rfl

theorem length_bracketedTexts_pos
    {before : Nat → Char}
    {index : Nat}
    {args texts : List CString}
    (taken : bracketedTexts before index args = some texts) :
    0 < texts.length := by
  cases args with
  | nil =>
      simp [bracketedTexts] at taken
  | cons arg rest =>
      obtain ⟨later, rfl, _⟩ := bracketedTexts_cons_eq_some_iff.mp taken
      simp

/--
Behind a first argument that does not broadcast, the loop succeeds exactly
when the texts up to the closing bracket are as many as the offsets left, all
convert, and all their entries fit.
-/
theorem valueLoop_bracketed_iff
    {iterations : Nat}
    {queue result : List (QueueEntry Value)}
    {args : List CString}
    (bracketed :
      iterations = 0 →
        ∀ first ∈ args.head?, ¬ Broadcasts (memory.byteBefore 0) first) :
    valueLoop lib memory param offsets iterations queue args = some result ↔
      ∃ texts values,
        bracketedTexts memory.byteBefore iterations args = some texts ∧
          iterations + texts.length = offsets.length ∧
          (offsets.length = 1 → ∀ first ∈ args.head?, '[' ∉ first) ∧
          convert lib param texts = some values ∧
          Fits lib queue
            (entriesFor param (offsets.drop iterations) values) ∧
          result =
            queue ++ entriesFor param (offsets.drop iterations) values := by
  induction args generalizing iterations queue with
  | nil =>
      simp [valueLoop, bracketedTexts]
  | cons arg rest inductionHypothesis =>
      have notSingle :
          ¬ (Broadcasts (memory.byteBefore iterations) arg ∧
            iterations = 0) := by
        rintro ⟨broadcasts, rfl⟩
        exact bracketed rfl arg (by simp) broadcasts
      have later :=
        fun queue => @inductionHypothesis (iterations + 1) queue
          (fun zero => absurd zero (Nat.succ_ne_zero iterations))
      have entry :=
        fun inBounds =>
          @entriesFor_drop Value param offsets iterations inBounds
            memory.offsetBehind
      rw [valueLoop_cons_of_bracketed notSingle]
      simp only [bracketedTexts_cons_eq_some_iff, List.head?_cons,
        Option.mem_some_iff, forall_eq']
      by_cases closing : closes (memory.byteBefore iterations) arg = true
      · simp only [closing, ↓reduceIte]
        constructor
        · rintro ⟨single, value, converted, _, room, last, rfl⟩
          refine
            ⟨_, [value], ⟨[], rfl, rfl⟩, last, fun one opens =>
              single ⟨opens, one⟩, convert_cons_eq_some_iff.mpr
                ⟨value, [], converted, rfl, rfl⟩, ?_⟩
          rw [entry (by omega)]
          exact ⟨⟨room, by simp [entriesFor, Fits]⟩, by simp [entriesFor]⟩
        · rintro ⟨_, values, ⟨_, rfl, rfl⟩, last, single, converts, fits, rfl⟩
          obtain ⟨value, _, converted, done, rfl⟩ :=
            convert_cons_eq_some_iff.mp converts
          simp only [List.length_singleton] at last
          obtain rfl : [] = _ := by
            simpa [convert] using done
          rw [entry (by omega)] at fits ⊢
          refine
            ⟨fun refused => single refused.2 refused.1, value, converted,
              by omega, fits.1, last, ?_⟩
          simp [entriesFor]
      · simp only [closing, Bool.false_eq_true, ↓reduceIte, later]
        constructor
        · rintro ⟨single, value, converted, _, room, texts, values, taken,
            count, _, converts, fits, rfl⟩
          refine
            ⟨_, value :: values, ⟨texts, rfl, taken⟩, ?_, fun one opens =>
              single ⟨opens, one⟩, convert_cons_eq_some_iff.mpr
                ⟨value, values, converted, converts, rfl⟩, ?_⟩
          · simp only [List.length_cons]
            omega
          · rw [entry (by omega)]
            exact ⟨⟨room, fits⟩, by simp⟩
        · rintro ⟨_, _, ⟨texts, rfl, taken⟩, count, single, converts, fits,
            rfl⟩
          obtain ⟨value, values, converted, laterConverts, rfl⟩ :=
            convert_cons_eq_some_iff.mp converts
          have someText := length_bracketedTexts_pos taken
          simp only [List.length_cons] at count
          rw [entry (by omega)] at fits ⊢
          exact
            ⟨fun refused => single refused.2 refused.1, value, converted,
              by omega, fits.1, texts, values, taken, by omega,
              fun one => by omega, laterConverts, fits.2, by simp⟩

theorem entriesFor_replicate
    (value : Value) :
    entriesFor param offsets (List.replicate offsets.length value) =
      offsets.map fun offset => ⟨param, offset, value⟩ := by
  induction offsets with
  | nil =>
      rfl
  | cons offset rest inductionHypothesis =>
      rw [List.length_cons, List.replicate_succ, List.map_cons,
        ← inductionHypothesis]
      rfl

theorem length_addToEvery_le
    (value : Value)
    (queue : List (QueueEntry Value)) :
    (addToEvery lib param offsets value queue).length ≤
      queue.length + offsets.length := by
  induction offsets generalizing queue with
  | nil =>
      simp [addToEvery]
  | cons offset rest inductionHypothesis =>
      have later :=
        inductionHypothesis
          ((paramQueueAdd lib queue ⟨param, offset, value⟩).getD queue)
      have added :
          ((paramQueueAdd lib queue ⟨param, offset, value⟩).getD
            queue).length ≤ queue.length + 1 := by
        unfold paramQueueAdd
        split <;> simp
      simp only [addToEvery, List.foldl_cons, List.length_cons] at later ⊢
      omega

/-- Adding a value for every offset loses nothing when all entries fit. -/
theorem addToEvery_eq_append_iff
    {value : Value}
    {queue : List (QueueEntry Value)} :
    addToEvery lib param offsets value queue =
        queue ++ offsets.map (fun offset => ⟨param, offset, value⟩) ↔
      Fits lib queue (offsets.map fun offset => ⟨param, offset, value⟩) := by
  induction offsets generalizing queue with
  | nil =>
      simp [addToEvery, Fits]
  | cons offset rest inductionHypothesis =>
      have later :=
        @inductionHypothesis (queue ++ [⟨param, offset, value⟩])
      by_cases room : lib.room queue ⟨param, offset, value⟩ = true
      · simp only [List.append_assoc, List.singleton_append] at later
        simpa [addToEvery, Fits, paramQueueAdd, room] using later
      · -- A refused entry is missing at the end: the queue is too short.
        have short :=
          @length_addToEvery_le Value lib param rest value queue
        simp only [List.map_cons, Fits, room, Bool.false_eq_true, false_and,
          iff_false]
        intro same
        have length := congrArg List.length same
        simp only [addToEvery, List.foldl_cons, paramQueueAdd, room,
          Bool.false_eq_true, ↓reduceIte, Option.getD_none,
          List.length_append, List.length_cons, List.length_map]
          at length short
        omega

theorem valueText_of_broadcasts
    {before : Char}
    {arg : CString}
    (broadcasts : Broadcasts before arg) :
    valueText before arg = arg := by
  simp [valueText, broadcasts.1, broadcasts.2]

/-- A broadcasting first argument is all that is looked at. -/
theorem valueLoop_of_broadcasts
    {first : CString}
    (broadcasts : Broadcasts (memory.byteBefore 0) first)
    (rest : List CString) :
    valueLoop lib memory param offsets 0 [] (first :: rest) =
      (lib.paramStrToValue param.type first).map fun value =>
        addToEvery lib param offsets value [] := by
  rw [valueLoop, readValueArg_eq, valueText_of_broadcasts broadcasts]
  cases converted : lib.paramStrToValue param.type first with
  | none =>
      simp [broadcasts.1, converted]
  | some value =>
      simp [broadcasts.1, converted, broadcasts]

end Loop

section Command

variable {Value : Type}
variable {lib : Libparam Value}
variable {memory : Memory}
variable {timeout : Nat}
variable {options : SetOptions}
variable {param : Param}
variable {offsets : List Int}
variable {target : CString}
variable {args : List CString}
variable {trace : List (Step (SetAnswer Value))}
variable {result : SlashResult}

/-- The target names a parameter that may be set, and offsets of it. -/
def AcceptedTarget
    (lib : Libparam Value)
    (memory : Memory)
    (options : SetOptions)
    (target : CString)
    (param : Param)
    (offsets : List Int) :
    Prop :=
  ∃ offsetToken,
    parseParamOffsetString lib (toInt options.node) target =
        some (param, offsetToken) ∧
      offsetArray memory param offsetToken = some offsets ∧
      (param.arraySize = 1 → offsets.length ≤ 1) ∧
      (param.readonly = true → options.force = true)

/-- The queue that the value arguments fill, if they are accepted. -/
def filledQueue
    (lib : Libparam Value)
    (memory : Memory)
    (param : Param)
    (offsets : List Int)
    (args : List CString) :
    Option (List (QueueEntry Value)) :=
  if parseSlashValues args [1, offsets.length] then
    valueLoop lib memory param offsets 0 [] args
  else
    none

/-- The queues that were applied or pushed. -/
def deliveries
    (trace : List (Step (SetAnswer Value))) :
    List (List (QueueEntry Value)) :=
  trace.filterMap fun step =>
    match step.request with
    | .resetTimestamp _ => none
    | .paramQueueApply queue => some queue
    | .paramPushQueue queue _ _ _ => some queue

theorem setValues_eq
    (timeout : Nat)
    (options : SetOptions) :
    setValues lib memory timeout options param offsets args =
      match filledQueue lib memory param offsets args with
      | none => pure .einval
      | some queue => deliver timeout options param queue := by
  by_cases noValue : args = []
  · subst noValue
    simp [setValues, filledQueue, valueLoop]
  · by_cases counted :
        parseSlashValues args [1, offsets.length] = true
    · have filled :
          filledQueue lib memory param offsets args =
            valueLoop lib memory param offsets 0 [] args :=
        if_pos counted
      have accepted :
          ¬ parseSlashValues args [1, offsets.length] = false := by
        simp [counted]
      rw [filled]
      exact (if_neg noValue).trans (if_neg accepted)
    · simp [setValues, filledQueue, noValue, counted]

/-- Behind an accepted target the values are all that matters. -/
theorem runs_cmdSet_iff
    (accepted : AcceptedTarget lib memory options target param offsets) :
    Runs (cmdSet lib memory timeout (some (options, target :: args)))
        trace result ↔
      ∃ later,
        trace = ⟨.resetTimestamp param, ()⟩ :: later ∧
          Runs (setValues lib memory timeout options param offsets args)
            later result := by
  obtain ⟨offsetToken, found, parsed, arraySize, writable⟩ := accepted
  have notScalar : ¬ (param.arraySize = 1 ∧ 1 < offsets.length) := by
    rintro ⟨scalar, several⟩
    have single := arraySize scalar
    omega
  have notReadonly :
      ¬ (param.readonly = true ∧ options.force = false) := by
    rintro ⟨readonly, unforced⟩
    simp [writable readonly] at unforced
  simp only [cmdSet, found, parsed, notScalar, notReadonly, ↓reduceIte,
    runs_ask_bind_iff]
  constructor
  · rintro ⟨_, later, rfl, run⟩
    exact ⟨later, rfl, run⟩
  · rintro ⟨later, rfl, run⟩
    exact ⟨(), later, rfl, run⟩

theorem deliveries_of_runs_deliver
    {queue : List (QueueEntry Value)}
    (run : Runs (deliver timeout options param queue) trace result) :
    deliveries trace = [queue] ∧
      (result = .success ∨ result = .eio) := by
  unfold deliver at run
  split at run
  · obtain ⟨answer, rfl, rfl⟩ := runs_ask_return_iff.mp run
    exact ⟨rfl, .inl rfl⟩
  · obtain ⟨answer, later, rfl, rest⟩ := runs_ask_bind_iff.mp run
    split at rest
    · obtain ⟨rfl, rfl⟩ := runs_pure_iff.mp rest
      exact ⟨rfl, .inr rfl⟩
    · obtain ⟨rfl, rfl⟩ := runs_pure_iff.mp rest
      exact ⟨rfl, .inl rfl⟩

theorem exists_runs_deliver
    (timeout : Nat)
    (options : SetOptions)
    (param : Param)
    (queue : List (QueueEntry Value)) :
    ∃ trace,
      Runs (deliver timeout options param queue) trace .success ∧
        deliveries trace = [queue] := by
  by_cases isLocal : param.node = 0
  · refine ⟨[⟨.paramQueueApply queue, (0 : Int)⟩], ?_, rfl⟩
    rw [deliver, if_pos isLocal]
    exact .call _ (.done _)
  · let dest :=
      if 0 < options.server then options.server else toInt options.node
    refine
      ⟨[⟨.paramPushQueue queue dest timeout options.ackWithPull, (0 : Int)⟩],
        ?_, rfl⟩
    rw [deliver, if_neg isLocal]
    exact .call _ (.done _)

/-- A command delivers the queue it filled once, or fails without one. -/
theorem deliveries_of_runs_cmdSet
    (accepted : AcceptedTarget lib memory options target param offsets)
    (run :
      Runs (cmdSet lib memory timeout (some (options, target :: args)))
        trace result) :
    match filledQueue lib memory param offsets args with
    | none => deliveries trace = [] ∧ result.isError = true
    | some queue =>
        deliveries trace = [queue] ∧
          (result = .success ∨ result = .eio) := by
  obtain ⟨later, rfl, rest⟩ := (runs_cmdSet_iff accepted).mp run
  rw [setValues_eq] at rest
  cases filled : filledQueue lib memory param offsets args with
  | none =>
      simp only [filled] at rest ⊢
      obtain ⟨rfl, rfl⟩ := runs_pure_iff.mp rest
      exact ⟨rfl, rfl⟩
  | some queue =>
      simp only [filled] at rest ⊢
      have delivered := deliveries_of_runs_deliver rest
      exact delivered

/-- A filled queue can be delivered, and then the command succeeds. -/
theorem exists_runs_cmdSet
    {queue : List (QueueEntry Value)}
    (accepted : AcceptedTarget lib memory options target param offsets)
    (filled : filledQueue lib memory param offsets args = some queue) :
    ∃ trace,
      Runs (cmdSet lib memory timeout (some (options, target :: args)))
          trace .success ∧
        deliveries trace = [queue] := by
  obtain ⟨later, run, delivered⟩ :=
    exists_runs_deliver timeout options param queue
  refine ⟨⟨.resetTimestamp param, ()⟩ :: later, ?_, delivered⟩
  refine (runs_cmdSet_iff accepted).mpr ⟨later, rfl, ?_⟩
  rw [setValues_eq, filled]
  exact run

end Command

end Csh.ParamSet
