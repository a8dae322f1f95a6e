import Csh.ValueForms

namespace Csh.ParamSet

open Libc Interaction ParamOffsets

/-!
# What the value loop reads

The loop of `cmd_set` looks at the last character of every argument that it
comes to and at one entry of the offset array for every value that it adds.
Here it keeps a log of these indices and of the texts that it hands to the
conversion.
-/

/-- What the loop looks at, and what it hands to `param_str_to_value`. -/
inductive LoopEvent where
  | character (index : Int)
  | paramStrToValue (type : ParamType) (text : CString)
  | offset (index : Nat)
  deriving Repr, DecidableEq

/-- The index is not negative, or below the number of offsets. -/
def LoopEvent.Inside (expectedValueAmount : Nat) : LoopEvent → Prop
  | .character index => 0 ≤ index
  | .paramStrToValue _ _ => True
  | .offset index => index < expectedValueAmount

instance (expected : Nat) :
    (event : LoopEvent) → Decidable (event.Inside expected)
  | .character index => inferInstanceAs (Decidable (0 ≤ index))
  | .paramStrToValue _ _ => inferInstanceAs (Decidable True)
  | .offset index => inferInstanceAs (Decidable (index < expected))

/-- The index `strlen(arg)-1`. -/
def lastIndex (arg : CString) : Int :=
  arg.length - 1

/-- What is looked at to take the brackets off an argument. -/
def bracketLooks
    (expectedValueAmount : Nat)
    (arg : CString) :
    List LoopEvent :=
  if arg.contains '[' then
    if expectedValueAmount = 1 then
      []
    else
      [.character (lastIndex (arg.drop 1))]
  else
    [.character (lastIndex arg)]

section Log

variable {Value : Type}

/-- `valueLoop` with its log. -/
def loggedLoop
    (lib : Libparam Value)
    (memory : Memory)
    (param : Param)
    (offsets : List Int) :
    Nat → List (QueueEntry Value) → List CString →
      List LoopEvent × Option (List (QueueEntry Value))
  | _, _, [] => ([], none)
  | iterations, queue, arg :: rest =>
      let looked := bracketLooks offsets.length arg
      match readValueArg (memory.byteBefore iterations) offsets.length
        iterations arg with
      | none => (looked, none)
      | some read =>
          let handed := looked ++ [.paramStrToValue param.type read.text]
          match lib.paramStrToValue param.type read.text with
          | none => (handed, none)
          | some value =>
              if read.singleValueFlag then
                (handed ++ (List.range offsets.length).map .offset,
                  some (addToEvery lib param offsets value queue))
              else if offsets.length < iterations then
                (handed, none)
              else
                let added := handed ++ [.offset iterations]
                match paramQueueAdd lib queue
                  ⟨param, offsets.getD iterations memory.offsetBehind,
                    value⟩ with
                | none => (added, none)
                | some queue =>
                    if read.shouldBreak then
                      let later :=
                        loggedLoop lib memory param offsets (iterations + 1)
                          queue rest
                      (added ++ later.1, later.2)
                    else if iterations + 1 ≠ offsets.length then
                      (added, none)
                    else
                      (added, some queue)

/-- The log of `cmd_set` behind an accepted target. -/
def setEvents
    (lib : Libparam Value)
    (memory : Memory)
    (param : Param)
    (offsets : List Int)
    (args : List CString) :
    List LoopEvent :=
  if parseSlashValues args [1, offsets.length] then
    (loggedLoop lib memory param offsets 0 [] args).1
  else
    []

variable {lib : Libparam Value}
variable {memory : Memory}
variable {param : Param}
variable {offsets : List Int}
variable {iterations : Nat}
variable {queue : List (QueueEntry Value)}
variable {arg : CString}

/-- The log changes nothing. -/
theorem loggedLoop_result
    (args : List CString) :
    (loggedLoop lib memory param offsets iterations queue args).2 =
      valueLoop lib memory param offsets iterations queue args := by
  induction args generalizing iterations queue with
  | nil =>
      rfl
  | cons arg rest inductionHypothesis =>
      rw [loggedLoop, valueLoop]
      cases readValueArg (memory.byteBefore iterations) offsets.length
        iterations arg with
      | none =>
          rfl
      | some read =>
          dsimp only
          cases lib.paramStrToValue param.type read.text with
          | none =>
              rfl
          | some value =>
              dsimp only
              rw [apply_ite Prod.snd, apply_ite Prod.snd]
              cases paramQueueAdd lib queue
                ⟨param, offsets.getD iterations memory.offsetBehind,
                  value⟩ with
              | none =>
                  rfl
              | some longer =>
                  dsimp only
                  rw [apply_ite Prod.snd, apply_ite Prod.snd,
                    inductionHypothesis]

theorem bracketLooks_inside_iff :
    (∀ event ∈ bracketLooks offsets.length arg,
        event.Inside offsets.length) ↔
      ('[' ∈ arg ∧ offsets.length = 1) ∨ (arg ≠ [] ∧ arg ≠ ['[']) := by
  by_cases opens : '[' ∈ arg
  · obtain ⟨c, rest, rfl⟩ :=
      List.exists_cons_of_ne_nil (List.ne_nil_of_mem opens)
    by_cases single : offsets.length = 1
    · simp [bracketLooks, opens, single]
    · have lone : c :: rest = ['['] ↔ rest = [] := by
        constructor
        · rintro ⟨⟩
          rfl
        · rintro rfl
          rw [List.mem_singleton.mp opens]
      have behind : rest ≠ [] ↔ 0 ≤ lastIndex rest := by
        rw [← List.length_pos_iff, lastIndex]
        omega
      have looked :
          bracketLooks offsets.length (c :: rest) =
            [.character (lastIndex rest)] := by
        rw [bracketLooks, if_pos (by simpa using opens), if_neg single]
        rfl
      simp only [looked, List.mem_singleton, forall_eq, LoopEvent.Inside,
        ← behind, single, and_false, false_or, ne_eq, lone, reduceCtorEq,
        not_false_eq_true, true_and]
  · have notLone : arg ≠ ['['] := by
      rintro rfl
      exact opens (List.mem_singleton_self _)
    have looked :
        bracketLooks offsets.length arg = [.character (lastIndex arg)] :=
      if_neg (by simpa using opens)
    have behind : arg ≠ [] ↔ 0 ≤ lastIndex arg := by
      rw [← List.length_pos_iff, lastIndex]
      omega
    simp only [looked, List.mem_singleton, forall_eq, LoopEvent.Inside,
      ← behind, opens, false_and, false_or, ne_eq, notLone,
      not_false_eq_true, and_true]

/-- One turn of the loop leaves its log in front of that of the others. -/
theorem loggedLoop_cons_log
    {rest : List CString}
    (accepted : ¬ ('[' ∈ arg ∧ offsets.length = 1))
    (inBounds : iterations ≤ offsets.length) :
    (loggedLoop lib memory param offsets iterations queue (arg :: rest)).1 =
      let text := valueText (memory.byteBefore iterations) arg
      bracketLooks offsets.length arg ++ .paramStrToValue param.type text ::
        match lib.paramStrToValue param.type text with
        | none => []
        | some value =>
            let entry : QueueEntry Value :=
              ⟨param, offsets.getD iterations memory.offsetBehind, value⟩
            if Broadcasts (memory.byteBefore iterations) arg ∧
                iterations = 0 then
              (List.range offsets.length).map .offset
            else
              .offset iterations ::
                if lib.room queue entry = true ∧
                    closes (memory.byteBefore iterations) arg = false then
                  (loggedLoop lib memory param offsets (iterations + 1)
                    (queue ++ [entry]) rest).1
                else
                  [] := by
  rw [loggedLoop, readValueArg_eq, if_neg accepted]
  dsimp only
  cases lib.paramStrToValue param.type
    (valueText (memory.byteBefore iterations) arg) with
  | none =>
      rfl
  | some value =>
      simp only [Bool.and_eq_true, decide_eq_true_eq, beq_iff_eq,
        if_neg (Nat.not_lt.mpr inBounds)]
      by_cases single :
          Broadcasts (memory.byteBefore iterations) arg ∧ iterations = 0
      · simp only [if_pos single, List.append_assoc, List.singleton_append]
      · simp only [if_neg single, paramQueueAdd]
        generalize
          (⟨param, offsets.getD iterations memory.offsetBehind, value⟩ :
            QueueEntry Value) = entry
        by_cases room : lib.room queue entry = true
        · by_cases closing : closes (memory.byteBefore iterations) arg = true
          · by_cases last : iterations + 1 = offsets.length
            · simp [room, closing, last]
            · simp [room, closing, last]
          · simp [room, closing]
        · simp [room]

/-- One turn of the loop reads inside. -/
theorem loggedLoop_cons_inside_iff
    {rest : List CString}
    (accepted : ¬ ('[' ∈ arg ∧ offsets.length = 1))
    (inBounds : iterations ≤ offsets.length) :
    (∀ event ∈
          (loggedLoop lib memory param offsets iterations queue
            (arg :: rest)).1,
        event.Inside offsets.length) ↔
      (arg ≠ [] ∧ arg ≠ ['[']) ∧
        (¬ (Broadcasts (memory.byteBefore iterations) arg ∧
            iterations = 0) →
          ∀ value,
            lib.paramStrToValue param.type
                (valueText (memory.byteBefore iterations) arg) = some value →
              iterations < offsets.length ∧
                (lib.room queue
                      ⟨param, offsets.getD iterations memory.offsetBehind,
                        value⟩ = true ∧
                    closes (memory.byteBefore iterations) arg = false →
                  ∀ event ∈
                      (loggedLoop lib memory param offsets (iterations + 1)
                        (queue ++
                          [⟨param,
                            offsets.getD iterations memory.offsetBehind,
                            value⟩])
                        rest).1,
                    event.Inside offsets.length)) := by
  have looks := @bracketLooks_inside_iff offsets arg
  simp only [accepted, false_or] at looks
  rw [loggedLoop_cons_log accepted inBounds]
  dsimp only
  rw [List.forall_mem_append, List.forall_mem_cons, looks]
  refine and_congr_right fun _ => ?_
  simp only [LoopEvent.Inside, true_and]
  cases lib.paramStrToValue param.type
    (valueText (memory.byteBefore iterations) arg) with
  | none =>
      simp
  | some value =>
      simp only [Option.some.injEq, forall_eq']
      by_cases single :
          Broadcasts (memory.byteBefore iterations) arg ∧ iterations = 0
      · rw [if_pos single]
        refine iff_of_true ?_ fun notSingle => absurd single notSingle
        intro event member
        obtain ⟨index, inRange, rfl⟩ := List.mem_map.mp member
        exact List.mem_range.mp inRange
      · rw [if_neg single, List.forall_mem_cons]
        simp only [single, not_false_eq_true, forall_const]
        refine and_congr_right fun _ => ?_
        split
        · rename_i goesOn
          simp only [goesOn, and_self, forall_const]
        · rename_i stops
          simp only [stops, IsEmpty.forall_iff, List.not_mem_nil,
            implies_true]

/--
The loop goes on behind these arguments: the first one opens a list for
several offsets, none is empty or closes it, and their values convert and fit.
-/
structure GoesOn
    (lib : Libparam Value)
    (param : Param)
    (offsets : List Int)
    (iterations : Nat)
    (queue : List (QueueEntry Value))
    (args : List CString) :
    Prop where
  opens : iterations = 0 → ∀ first ∈ args.head?, '[' ∈ first
  several : ∀ arg ∈ args, ¬ ('[' ∈ arg ∧ offsets.length = 1)
  staysOpen : ∀ arg ∈ args, arg ≠ [] ∧ arg.getLast? ≠ some ']'
  filled :
    ∃ values,
      convert lib param (args.map (valueText nul)) = some values ∧
        Fits lib queue (entriesFor param (offsets.drop iterations) values)

/-- An argument at this index for which something outside is read. -/
inductive LooksOutside
    (lib : Libparam Value)
    (param : Param)
    (offsets : List Int)
    (index : Nat) :
    CString → Prop where
  | empty : LooksOutside lib param offsets index []
  | loneBracket
      (several : offsets.length ≠ 1) :
      LooksOutside lib param offsets index ['[']
  | behindOffsets
      {arg : CString}
      {value : Value}
      (full : index = offsets.length)
      (several : ¬ ('[' ∈ arg ∧ offsets.length = 1))
      (converted :
        lib.paramStrToValue param.type (valueText nul arg) = some value) :
      LooksOutside lib param offsets index arg

theorem looksOutside_iff
    {index : Nat}
    (nonempty : arg ≠ [])
    (notLone : arg ≠ ['['])
    (several : ¬ ('[' ∈ arg ∧ offsets.length = 1)) :
    LooksOutside lib param offsets index arg ↔
      index = offsets.length ∧
        ∃ value,
          lib.paramStrToValue param.type (valueText nul arg) = some value := by
  constructor
  · intro looks
    cases looks with
    | empty =>
        exact absurd rfl nonempty
    | loneBracket _ =>
        exact absurd rfl notLone
    | behindOffsets full _ converted =>
        exact ⟨full, _, converted⟩
  · rintro ⟨full, value, converted⟩
    exact .behindOffsets full several converted

/-- The list is refused before its last character is looked at. -/
theorem loggedLoop_log_of_refused
    {rest : List CString}
    (refused : '[' ∈ arg ∧ offsets.length = 1) :
    (loggedLoop lib memory param offsets iterations queue
      (arg :: rest)).1 = [] := by
  rw [loggedLoop, readValueArg_eq, if_pos refused]
  simp [bracketLooks, refused]

theorem not_looksOutside_of_refused
    {index : Nat}
    (refused : '[' ∈ arg ∧ offsets.length = 1) :
    ¬ LooksOutside lib param offsets index arg := by
  intro looks
  cases looks with
  | empty =>
      exact List.not_mem_nil refused.1
  | loneBracket several =>
      exact several refused.2
  | behindOffsets full several converted =>
      exact several refused

/-- The loop comes to an argument for which something outside is read. -/
def ReadsOutsideFrom
    (lib : Libparam Value)
    (param : Param)
    (offsets : List Int)
    (iterations : Nat)
    (queue : List (QueueEntry Value))
    (args : List CString) :
    Prop :=
  ∃ earlier arg rest,
    args = earlier ++ arg :: rest ∧
      iterations + earlier.length ≤ offsets.length ∧
      GoesOn lib param offsets iterations queue earlier ∧
      LooksOutside lib param offsets (iterations + earlier.length) arg

theorem goesOn_nil :
    GoesOn lib param offsets iterations queue [] where
  opens := by simp
  several := by simp
  staysOpen := by simp
  filled := ⟨[], rfl, by simp [entriesFor, Fits]⟩

theorem goesOn_cons_iff
    {rest : List CString}
    (inBounds : iterations < offsets.length)
    (outside : Int) :
    GoesOn lib param offsets iterations queue (arg :: rest) ↔
      (iterations = 0 → '[' ∈ arg) ∧
        ¬ ('[' ∈ arg ∧ offsets.length = 1) ∧
        (arg ≠ [] ∧ arg.getLast? ≠ some ']') ∧
        ∃ value,
          lib.paramStrToValue param.type (valueText nul arg) = some value ∧
            lib.room queue ⟨param, offsets.getD iterations outside, value⟩ =
              true ∧
            GoesOn lib param offsets (iterations + 1)
              (queue ++ [⟨param, offsets.getD iterations outside, value⟩])
              rest := by
  have entries :=
    @entriesFor_drop Value param offsets iterations inBounds outside
  constructor
  · rintro ⟨opens, several, staysOpen, values, converts, fits⟩
    rw [List.forall_mem_cons] at several staysOpen
    rw [List.map_cons] at converts
    obtain ⟨value, later, converted, laterConverts, rfl⟩ :=
      convert_cons_eq_some_iff.mp converts
    rw [entries] at fits
    exact
      ⟨fun start => opens start arg rfl, several.1, staysOpen.1, value,
        converted, fits.1, fun start => absurd start (Nat.succ_ne_zero _),
        several.2, staysOpen.2, later, laterConverts, fits.2⟩
  · rintro ⟨opens, several, staysOpen, value, converted, room, later⟩
    obtain ⟨values, converts, fits⟩ := later.filled
    refine
      ⟨?_, List.forall_mem_cons.mpr ⟨several, later.several⟩,
        List.forall_mem_cons.mpr ⟨staysOpen, later.staysOpen⟩,
        value :: values, ?_, ?_⟩
    · rintro start _ ⟨⟩
      exact opens start
    · exact
        convert_cons_eq_some_iff.mpr
          ⟨value, values, converted, converts, rfl⟩
    · rw [entries]
      exact ⟨room, fits⟩

/-- Either the first argument is looked outside of, or the loop goes on. -/
theorem readsOutsideFrom_cons_iff
    {rest : List CString}
    (inBounds : iterations ≤ offsets.length)
    (outside : Int) :
    ReadsOutsideFrom lib param offsets iterations queue (arg :: rest) ↔
      LooksOutside lib param offsets iterations arg ∨
        iterations < offsets.length ∧
          (iterations = 0 → '[' ∈ arg) ∧
          ¬ ('[' ∈ arg ∧ offsets.length = 1) ∧
          (arg ≠ [] ∧ arg.getLast? ≠ some ']') ∧
          ∃ value,
            lib.paramStrToValue param.type (valueText nul arg) =
                some value ∧
              lib.room queue
                  ⟨param, offsets.getD iterations outside, value⟩ = true ∧
              ReadsOutsideFrom lib param offsets (iterations + 1)
                (queue ++ [⟨param, offsets.getD iterations outside, value⟩])
                rest := by
  constructor
  · rintro ⟨earlier, last, behind, shape, reached, goesOn, looks⟩
    cases earlier with
    | nil =>
        obtain ⟨rfl, rfl⟩ := List.cons.inj shape
        exact .inl looks
    | cons first earlier =>
        obtain ⟨rfl, rfl⟩ := List.cons.inj shape
        rw [List.length_cons] at reached looks
        have below : iterations < offsets.length := by omega
        obtain ⟨opens, several, staysOpen, value, converted, room, later⟩ :=
          (goesOn_cons_iff below outside).mp goesOn
        refine
          .inr ⟨below, opens, several, staysOpen, value, converted, room,
            earlier, last, behind, rfl, by omega, later, ?_⟩
        rwa [Nat.add_right_comm, Nat.add_assoc]
  · rintro (looks | ⟨below, opens, several, staysOpen, value, converted, room,
      earlier, last, behind, rfl, reached, later, looks⟩)
    · exact ⟨[], arg, rest, rfl, inBounds, goesOn_nil, looks⟩
    · refine
        ⟨arg :: earlier, last, behind, rfl, ?_,
          (goesOn_cons_iff below outside).mpr
            ⟨opens, several, staysOpen, value, converted, room, later⟩, ?_⟩
      · rw [List.length_cons]
        omega
      · rwa [List.length_cons, Nat.add_comm earlier.length, ← Nat.add_assoc]

/--
From any turn on the loop reads inside if and only if it does not come to an
argument for which something outside is read.
-/
theorem loggedLoop_inside_iff
    {args : List CString}
    (inBounds : iterations ≤ offsets.length)
    (someOffset : 0 < offsets.length) :
    (∀ event ∈
          (loggedLoop lib memory param offsets iterations queue args).1,
        event.Inside offsets.length) ↔
      ¬ ReadsOutsideFrom lib param offsets iterations queue args := by
  induction args generalizing iterations queue with
  | nil =>
      refine iff_of_true (by simp [loggedLoop]) ?_
      rintro ⟨earlier, arg, rest, shape, _⟩
      simp at shape
  | cons arg rest inductionHypothesis =>
      rw [readsOutsideFrom_cons_iff inBounds memory.offsetBehind]
      by_cases refused : '[' ∈ arg ∧ offsets.length = 1
      · rw [loggedLoop_log_of_refused refused]
        refine iff_of_true (by simp) ?_
        rintro (looks | later)
        · exact not_looksOutside_of_refused refused looks
        · exact later.2.2.1 refused
      · have sameText :
            arg ≠ [] →
              valueText (memory.byteBefore iterations) arg =
                valueText nul arg :=
          valueText_eq
        rw [loggedLoop_cons_inside_iff refused inBounds]
        constructor
        · rintro ⟨⟨nonempty, notLone⟩, turn⟩ (looks | ⟨below, opens, _,
            staysOpen, value, converted, room, later⟩)
          · obtain ⟨full, value, converted⟩ :=
              (looksOutside_iff nonempty notLone refused).mp looks
            have below :=
              (turn (fun single => by omega) value
                (by rw [sameText nonempty, converted])).1
            omega
          · have notSingle :
                ¬ (Broadcasts (memory.byteBefore iterations) arg ∧
                  iterations = 0) :=
              fun single => single.1.1 (opens single.2)
            have inside :=
              (turn notSingle value
                (by rw [sameText nonempty, converted])).2
                ⟨room, (closes_eq_false_iff nonempty).mpr staysOpen.2⟩
            exact (inductionHypothesis below).mp inside later
        · intro inside
          rw [not_or] at inside
          obtain ⟨notOutside, noneLater⟩ := inside
          have nonempty : arg ≠ [] := by
            rintro rfl
            exact notOutside .empty
          have notLone : arg ≠ ['['] := by
            rintro rfl
            exact notOutside
              (.loneBracket fun one => refused ⟨by simp, one⟩)
          refine ⟨⟨nonempty, notLone⟩, fun notSingle value converted => ?_⟩
          rw [sameText nonempty] at converted
          have below : iterations < offsets.length := by
            by_contra full
            exact notOutside
              (.behindOffsets (by omega) refused converted)
          refine ⟨below, fun ⟨room, staysOpen⟩ => ?_⟩
          refine (inductionHypothesis below).mpr fun later => ?_
          refine
            noneLater
              ⟨below, fun start => ?_, refused,
                ⟨nonempty, (closes_eq_false_iff nonempty).mp staysOpen⟩,
                value, converted, room, later⟩
          by_contra noOpen
          exact notSingle ⟨⟨noOpen, staysOpen⟩, start⟩

/-- `cmd_set` comes to an argument for which something outside is read. -/
def ReadsOutside
    (lib : Libparam Value)
    (param : Param)
    (offsets : List Int)
    (args : List CString) :
    Prop :=
  parseSlashValues args [1, offsets.length] = true ∧
    ReadsOutsideFrom lib param offsets 0 [] args

/-- The loop gets behind the offsets only where the count stops. -/
theorem length_eq_hundred
    {earlier rest : List CString}
    (counted :
      parseSlashValues (earlier ++ arg :: rest) [1, offsets.length] = true)
    (someOffset : 0 < offsets.length)
    (full : earlier.length = offsets.length) :
    offsets.length = 100 := by
  simp only [parseSlashValues, List.contains_iff_mem, List.length_append,
    List.length_cons, List.mem_cons, List.not_mem_nil, or_false] at counted
  omega

/--
All reads are inside if and only if `cmd_set` does not come to an empty
argument, a lone opening bracket or an argument behind the last offset.
-/
theorem cmdSet_readsInside_iff
    {options : SetOptions}
    {target : CString}
    (accepted : AcceptedTarget lib memory options target param offsets)
    (args : List CString) :
    (∀ event ∈ setEvents lib memory param offsets args,
        event.Inside offsets.length) ↔
      ¬ ReadsOutside lib param offsets args := by
  unfold setEvents ReadsOutside
  by_cases counted : parseSlashValues args [1, offsets.length] = true
  · rw [if_pos counted,
      loggedLoop_inside_iff (Nat.zero_le _) accepted.length_pos]
    simp only [counted, true_and]
  · rw [if_neg counted]
    simp [counted]

end Log

/-- `set array 5` reads inside. -/
theorem cmdSet_readsInside_single :
    ¬ ReadsOutside (boundedLib none) localArray [0, 1, 2] ["5".toList] ∧
      ∀ event ∈
          setEvents (boundedLib none) zeroMemory localArray [0, 1, 2]
            ["5".toList],
        event.Inside 3 := by
  have inside :
      ∀ event ∈
          setEvents (boundedLib none) zeroMemory localArray [0, 1, 2]
            ["5".toList],
        event.Inside 3 := by
    decide
  exact
    ⟨(cmdSet_readsInside_iff (localArray_accepted none) ["5".toList]).mp
      inside, inside⟩

/-- `set array ""` looks at the character in front of the empty argument. -/
theorem cmdSet_reads_in_front :
    ¬ ∀ (lib : Libparam Int) (memory : Memory) (options : SetOptions)
        (target : CString) (param : Param) (offsets : List Int)
        (args : List CString),
      AcceptedTarget lib memory options target param offsets →
        ∀ event ∈ setEvents lib memory param offsets args,
          event.Inside offsets.length := by
  intro inside
  have looked :=
    inside _ _ _ _ _ _ [[]] (localArray_accepted none) (.character (-1))
      (by decide)
  exact absurd looked (by decide)

section Texts

variable {Value : Type}
variable {lib : Libparam Value}
variable {memory : Memory}
variable {param : Param}
variable {offsets : List Int}
variable {options : SetOptions}
variable {target arg : CString}

/-- The size of `valuebuf`, to which the values of `cmd_set` are converted. -/
def valuebufSize : Nat := 128

/-- The calls of `param_str_to_value`. -/
def conversions (events : List LoopEvent) : List (ParamType × CString) :=
  events.filterMap fun event =>
    match event with
    | .paramStrToValue type text => some (type, text)
    | _ => none

/--
The argument alone is handed to the conversion, whatever is converted stays
inside `valuebuf`, and the value arrives if the queue has room for it.
-/
structure ArrivesUnchanged
    (lib : Libparam Value)
    (memory : Memory)
    (timeout : Nat)
    (options : SetOptions)
    (target : CString)
    (param : Param)
    (offsets : List Int)
    (arg : CString) :
    Prop where
  handed :
    conversions (setEvents lib memory param offsets [arg]) =
      [(param.type, arg)]
  inside :
    ∀ call ∈ conversions (setEvents lib memory param offsets [arg]),
      lib.valueBytes call.1 call.2 ≤ valuebufSize
  arrives :
    ∀ value,
      lib.paramStrToValue param.type arg = some value →
        lib.room [] ⟨param, -1, value⟩ = true →
          ∀ trace result,
            Runs (cmdSet lib memory timeout (some (options, [target, arg])))
                trace result →
              deliveries trace = [[⟨param, -1, value⟩]]

theorem AcceptedTarget.offsets_of_text
    (accepted : AcceptedTarget lib memory options target param offsets)
    (isText : param.type = .string ∨ param.type = .data) :
    offsets = [-1] := by
  obtain ⟨offsetToken, _, parsed, _⟩ := accepted
  rw [offsetArray, if_pos isText.symm] at parsed
  exact (Option.some.inj parsed).symm

/-- A single argument without an opening bracket is handed on once. -/
theorem conversions_single
    (noOpen : '[' ∉ arg)
    (one : offsets.length = 1) :
    conversions (setEvents lib memory param offsets [arg]) =
      [(param.type, valueText (memory.byteBefore 0) arg)] := by
  have counted : parseSlashValues [arg] [1, offsets.length] = true := by
    simp [parseSlashValues]
  have looked :
      bracketLooks offsets.length arg = [.character (lastIndex arg)] :=
    if_neg (by simpa using noOpen)
  rw [setEvents, if_pos counted,
    loggedLoop_cons_log (fun refused => noOpen refused.1) (Nat.zero_le _),
    looked]
  dsimp only [List.singleton_append, conversions, List.filterMap_cons]
  refine congrArg _ ?_
  rw [one]
  split
  · rfl
  · split
    · rfl
    · split
      · rfl
      · rfl

/--
A value for a string arrives unchanged if and only if it has no opening
bracket, does not end with a closing one and fits `valuebuf`.
-/
theorem cmdSet_arrivesUnchanged_iff
    (accepted : AcceptedTarget lib memory options target param offsets)
    (isText : param.type = .string ∨ param.type = .data)
    (nonempty : arg ≠ [])
    (timeout : Nat) :
    ArrivesUnchanged lib memory timeout options target param offsets arg ↔
      '[' ∉ arg ∧ arg.getLast? ≠ some ']' ∧
        lib.valueBytes param.type arg ≤ valuebufSize := by
  obtain rfl := accepted.offsets_of_text isText
  have counted : parseSlashValues [arg] [1, 1] = true := by
    simp [parseSlashValues]
  constructor
  · rintro ⟨handed, inside, _⟩
    have fits : lib.valueBytes param.type arg ≤ valuebufSize := by
      rw [handed] at inside
      exact inside (param.type, arg) (List.mem_singleton_self _)
    by_cases opens : '[' ∈ arg
    · have log : setEvents lib memory param [-1] [arg] = [] := by
        simp [setEvents, loggedLoop, readValueArg_eq, bracketLooks, opens]
      rw [log] at handed
      cases handed
    · refine ⟨opens, fun closed => ?_, fits⟩
      rw [conversions_single opens rfl] at handed
      have same : valueText (memory.byteBefore 0) arg = arg :=
        congrArg Prod.snd (List.cons.inj handed).1
      have shorter := congrArg List.length same
      have someCharacter := List.length_pos_iff.mpr nonempty
      simp only [valueText, (closes_iff nonempty).mpr closed, ↓reduceIte,
        List.contains_eq_mem, opens, decide_false, Bool.false_eq_true,
        List.length_dropLast] at shorter
      omega
  · rintro ⟨noOpen, staysOpen, fits⟩
    have broadcasts : Broadcasts (memory.byteBefore 0) arg :=
      ⟨noOpen, (closes_eq_false_iff nonempty).mpr staysOpen⟩
    have handed :
        conversions (setEvents lib memory param [-1] [arg]) =
          [(param.type, arg)] := by
      rw [conversions_single noOpen rfl, valueText_of_broadcasts broadcasts]
    refine ⟨handed, ?_, fun value converted room trace result run => ?_⟩
    · rw [handed]
      rintro call (_ | ⟨_, ⟨⟩⟩)
      exact fits
    · have outcome := deliveries_of_runs_cmdSet accepted run
      have filled :
          filledQueue lib memory param [-1] [arg] =
            some [⟨param, -1, value⟩] := by
        rw [filledQueue_of_broadcasts counted broadcasts, converted]
        simp [addToEvery, paramQueueAdd, room]
      rw [filled] at outcome
      exact outcome.1

end Texts

/-- A string on the local node. -/
def localString : Param where
  id := 11
  node := 0
  type := .string
  arraySize := 64
  readonly := false

/-- Texts as values, one parameter and a queue without a capacity. -/
def textLib : Libparam CString where
  paramListFindId _ _ := none
  paramListFindName _ _ := some localString
  paramStrToValue _ text := some text
  valueBytes _ text := text.length + 1
  room _ _ := true

theorem localString_accepted :
    AcceptedTarget textLib zeroMemory plainOptions "text".toList localString
      [-1] := by
  have brackets :
      paramGetOffsetString "text".toList = some ("text".toList, none) := by
    decide
  have notNumber : (strtoul 10 "text".toList).2 ≠ [] := by
    decide
  have found :
      parseParamOffsetString textLib (toInt plainOptions.node)
          "text".toList =
        some (localString, none) := by
    simp only [parseParamOffsetString, brackets, paramParseFromStr,
      notNumber, and_false, ↓reduceIte]
    rfl
  exact ⟨none, found, by decide, by decide, by decide⟩

/-- `set text a]b` arrives unchanged. -/
theorem cmdSet_arrives_inner_bracket :
    ArrivesUnchanged textLib zeroMemory 1000 plainOptions "text".toList
      localString [-1] "a]b".toList :=
  (cmdSet_arrivesUnchanged_iff localString_accepted (.inl rfl) (by decide)
    1000).mpr ⟨by decide, by decide, by decide⟩

/-- `set text a]` hands `a` to the conversion. -/
theorem cmdSet_strips_closing :
    ¬ ∀ (lib : Libparam CString) (memory : Memory) (options : SetOptions)
        (target : CString) (param : Param) (offsets : List Int)
        (timeout : Nat) (arg : CString),
      AcceptedTarget lib memory options target param offsets →
        param.type = .string ∨ param.type = .data →
          arg ≠ [] →
            ArrivesUnchanged lib memory timeout options target param offsets
              arg := by
  intro arrives
  have arrived :=
    arrives _ _ _ _ _ _ 1000 "a]".toList localString_accepted (.inl rfl)
      (by decide)
  exact absurd arrived.handed (by decide)

end Csh.ParamSet
