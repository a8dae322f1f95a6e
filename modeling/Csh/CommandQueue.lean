import Csh.Lib.History
import Csh.ParamSet

namespace Csh.CommandQueue

open Libc Interaction History

/-!
# The queue of the cmd commands

`cmd new` starts the global `param_queue`, `cmd add` appends to it, `cmd run`
sends it and `cmd done` leaves it.  What libparam does with its list of
parameters, with the bytes of an entry and with the network is a call with a
free answer; adding an entry appends its bytes or fails without a change.
-/

/-- `param_queue_type_e`. -/
inductive QueueType where
  | empty
  | get
  | set
  deriving Repr, DecidableEq

/-- A `csp_timestamp_t`. -/
structure Timestamp where
  tvSec : Nat
  tvNsec : Nat
  deriving Repr, DecidableEq

/-- `param_queue_t`: the first `used` bytes of the buffer are its entries. -/
structure ParamQueue where
  buffer : List UInt8
  type : QueueType
  used : Nat
  version : Int
  lastTimestamp : Timestamp
  name : List Char
  used_le : used ≤ buffer.length

/-- `param_queue` when the shell starts. -/
def ParamQueue.initial (paramServerMtu nameSize : Nat) : ParamQueue where
  buffer := List.replicate paramServerMtu 0
  type := .empty
  used := 0
  version := 2
  lastTimestamp := ⟨0, 0⟩
  name := List.replicate nameSize nul
  used_le := Nat.zero_le _

/-- The bytes of an entry that still fits the queue. -/
abbrev Entry (queue : ParamQueue) : Type :=
  { bytes : List UInt8 // queue.used + bytes.length ≤ queue.buffer.length }

/-- The queue with one more entry. -/
def ParamQueue.append (queue : ParamQueue) (entry : Entry queue) :
    ParamQueue where
  buffer :=
    queue.buffer.take queue.used ++ entry.val ++
      queue.buffer.drop (queue.used + entry.val.length)
  type := queue.type
  used := queue.used + entry.val.length
  version := queue.version
  lastTimestamp := queue.lastTimestamp
  name := queue.name
  used_le := by
    rw [List.length_append, List.length_append,
      List.length_take_of_le queue.used_le]
    exact Nat.le_add_right _ _

/-- What `cmd_add` reads of a `param_t`, and the id that its entry is for. -/
structure ListedParam where
  id : Nat
  name : CString
  node : Nat
  mask : Nat
  type : ParamSet.ParamType
  deriving Repr, DecidableEq

/-- The functions and the bits of libparam that are free of side effects. -/
structure ParamLibrary (Value : Type) where
  paramMaskstrToMask : CString → Nat
  strmatch : CString → CString → Bool
  paramStrToValue : ParamSet.ParamType → CString → Option Value
  pmReadonly : Nat
  pmHwreg : Nat

/-- The options of `cmd run`. -/
structure RunOptions where
  timeout : Nat
  server : Nat
  hwid : Nat
  ackWithPull : Bool
  prio : Int
  deriving Repr, DecidableEq

/-- What the commands ask of libparam. -/
inductive QueueCall (Value : Type) where
  | paramListFindId (node id : Int)
  | paramListFindName (node : Int) (name : CString)
  | paramListIterate
  | resetTimestamp (param : ListedParam)
  | paramQueueAdd
      (queue : ParamQueue)
      (param : ListedParam)
      (offset : Int)
      (value : Option Value)
  | paramPushQueue (queue : ParamQueue) (options : RunOptions)
  | paramPullQueue (queue : ParamQueue) (options : RunOptions)

/-- The answers; `paramListIterate` gives the parameters it goes through. -/
abbrev QueueAnswer {Value : Type} : QueueCall Value → Type
  | .paramListFindId _ _ => Option ListedParam
  | .paramListFindName _ _ => Option ListedParam
  | .paramListIterate => List ListedParam
  | .resetTimestamp _ => Unit
  | .paramQueueAdd queue _ _ _ => Option (Entry queue)
  | .paramPushQueue _ _ => Int
  | .paramPullQueue _ _ => Int

/-- A program over these calls. -/
abbrev QueueProg (Value α : Type) : Type :=
  Prog (@QueueAnswer Value) α

/-- The options of `cmd new`. -/
structure NewOptions where
  paramver : Int
  deriving Repr, DecidableEq

/-- The options of `cmd add`. -/
structure AddOptions where
  node : Nat
  includeMaskStr : Option CString
  excludeMaskStr : Option CString
  force : Bool
  deriving Repr, DecidableEq

section Commands

variable {Value : Type}

/-- Make one of the calls. -/
abbrev request (call : QueueCall Value) :
    QueueProg Value (QueueAnswer call) :=
  Prog.ask call

/-- The type that `cmd new` is asked for. -/
def queueTypeOf (kind : CString) : Option QueueType :=
  if strncmpEq 4 kind "get".toList then
    some .get
  else if strncmpEq 4 kind "set".toList then
    some .set
  else
    none

/-- `cmd_new`: the type is set before the name is looked for. -/
def cmdNew
    (parsed : Parsed NewOptions)
    (queue : ParamQueue) :
    SlashResult × ParamQueue :=
  match parsed with
  | none => (.einval, queue)
  | some (_, []) => (.einval, queue)
  | some (options, kind :: rest) =>
      match queueTypeOf kind with
      | none => (.einval, queue)
      | some type =>
          let queue := { queue with type := type }
          match rest with
          | [] => (.einval, queue)
          | name :: _ =>
              (.success,
                { queue with
                  name := strncpy nul (queue.name.length - 1) queue.name name
                  used := 0
                  version := options.paramver
                  lastTimestamp := ⟨0, 0⟩
                  used_le := Nat.zero_le _ })

/-- `param_slash_parse`: the parameter and the offset. -/
def paramSlashParse
    (arg : CString)
    (node : Int) :
    QueueProg Value (Option ListedParam × Int) := do
  let isBracket := fun c : Char => c == '['
  let token := (strtokR isBracket (strtokR isBracket arg).2).1
  let offset := ((token.bind scanInt).map Prod.fst).getD (-1)
  let name := strtokCut isBracket arg
  let number := strtoul 10 name
  if number.2 = [] then do
    let param : Option ListedParam ←
      request (.paramListFindId node (toInt number.1))
    pure (param, offset)
  else do
    let param : Option ListedParam ← request (.paramListFindName node name)
    pure (param, offset)

/-- Add one entry; a full queue is only reported. -/
def addEntry
    (queue : ParamQueue)
    (param : ListedParam)
    (offset : Int)
    (value : Option Value) :
    QueueProg Value ParamQueue := do
  let added : Option (Entry queue) ←
    request (.paramQueueAdd queue param offset value)
  match added with
  | some entry => pure (queue.append entry)
  | none => pure queue

/-- `cmd_add` on a queue of type SET. -/
def addValue
    (lib : ParamLibrary Value)
    (options : AddOptions)
    (name : CString)
    (values : List CString)
    (queue : ParamQueue) :
    QueueProg Value (SlashResult × ParamQueue) := do
  let found ← paramSlashParse name (toInt options.node)
  match found.1 with
  | none => pure (.einval, queue)
  | some param =>
      if param.mask &&& lib.pmReadonly ≠ 0 ∧ options.force = false then
        pure (.einval, queue)
      else
        match values with
        | [] => pure (.einval, queue)
        | text :: _ =>
            match lib.paramStrToValue param.type text with
            | none => pure (.einval, queue)
            | some value => do
                let _ ← request (.resetTimestamp param)
                let queue ← addEntry queue param found.2 (some value)
                pure (.success, queue)

/-- A parameter that `cmd_add` adds to a queue of type GET. -/
def isAdded
    (lib : ParamLibrary Value)
    (options : AddOptions)
    (name : CString)
    (param : ListedParam) :
    Bool :=
  let allMask := 0xFFFFFFFF
  let includeMask :=
    (options.includeMaskStr.map lib.paramMaskstrToMask).getD allMask
  let excludeMask :=
    (options.excludeMaskStr.map lib.paramMaskstrToMask).getD lib.pmHwreg
  lib.strmatch param.name name && param.node == options.node &&
    param.mask &&& excludeMask == 0 &&
    (includeMask == allMask || param.mask &&& includeMask != 0)

/-- The loop of `cmd_add` over the list of parameters. -/
def addMatching
    (lib : ParamLibrary Value)
    (options : AddOptions)
    (name : CString) :
    List ListedParam → ParamQueue → QueueProg Value ParamQueue
  | [], queue => pure queue
  | param :: rest, queue =>
      if isAdded lib options name param then do
        let queue ← addEntry queue param (-1) none
        addMatching lib options name rest queue
      else
        addMatching lib options name rest queue

/-- `cmd_add`. -/
def cmdAdd
    (lib : ParamLibrary Value)
    (parsed : Parsed AddOptions)
    (queue : ParamQueue) :
    QueueProg Value (SlashResult × ParamQueue) :=
  match parsed with
  | none => pure (.einval, queue)
  | some (_, []) => pure (.einval, queue)
  | some (options, name :: values) =>
      match queue.type with
      | .set => addValue lib options name values queue
      | .get => do
          let params : List ListedParam ← request .paramListIterate
          let queue ← addMatching lib options name params queue
          pure (.success, queue)
      | .empty => pure (.success, queue)

/-- `cmd_run`. -/
def cmdRun
    (parsed : Parsed RunOptions)
    (queue : ParamQueue) :
    QueueProg Value (SlashResult × ParamQueue) :=
  match parsed with
  | none => pure (.einval, queue)
  | some (options, _) =>
      match queue.type with
      | .set => do
          let pushed : Int ← request (.paramPushQueue queue options)
          if pushed < 0 then
            pure (.eio, queue)
          else
            pure (.success, queue)
      | .get => do
          let pulled : Int ← request (.paramPullQueue queue options)
          if pulled ≠ 0 then
            pure (.eio, queue)
          else
            pure (.success, queue)
      | .empty => pure (.success, queue)

/-- `cmd_done`. -/
def cmdDone (queue : ParamQueue) : SlashResult × ParamQueue :=
  (.success, { queue with type := .empty })

/-- One of the four commands, with what the parser hands it. -/
inductive QueueCommand where
  | new (parsed : Parsed NewOptions)
  | add (parsed : Parsed AddOptions)
  | run (parsed : Parsed RunOptions)
  | done

/-- The command as a program. -/
def QueueCommand.program
    (lib : ParamLibrary Value)
    (command : QueueCommand)
    (queue : ParamQueue) :
    QueueProg Value (SlashResult × ParamQueue) :=
  match command with
  | .new parsed => pure (cmdNew parsed queue)
  | .add parsed => cmdAdd lib parsed queue
  | .run parsed => cmdRun parsed queue
  | .done => pure (cmdDone queue)

end Commands

/-!
## Sessions
-/

/-- An entry that was added, with the type and version it was added under. -/
structure AddedEntry where
  type : QueueType
  version : Int
  bytes : List UInt8
  deriving DecidableEq

/-- One command of a session: the queue around it, its calls and its result. -/
structure QueueStep (Value : Type) where
  before : ParamQueue
  command : QueueCommand
  trace : List (Step (@QueueAnswer Value))
  result : SlashResult
  after : ParamQueue

section Sessions

variable {Value : Type}

/-- The entry that a call added, if it did. -/
def addedEntry? : Step (@QueueAnswer Value) → Option AddedEntry
  | ⟨.paramQueueAdd queue _ _ _, some entry⟩ =>
      some ⟨queue.type, queue.version, entry.val⟩
  | _ => none

/-- The entries that a run added. -/
def addedEntries (trace : List (Step (@QueueAnswer Value))) :
    List AddedEntry :=
  trace.filterMap addedEntry?

/-- The entries since the last successful `cmd new`, behind one more command. -/
def logAfter
    (log : List AddedEntry)
    (command : QueueCommand)
    (trace : List (Step (@QueueAnswer Value)))
    (result : SlashResult) :
    List AddedEntry :=
  match command, result with
  | .new _, .success => []
  | _, _ => log ++ addedEntries trace

/-- The entries that were added since the last successful `cmd new`. -/
def entriesSinceNew (steps : List (QueueStep Value)) : List AddedEntry :=
  steps.foldl
    (fun log step => logAfter log step.command step.trace step.result) []

/-- The queue behind the steps. -/
def queueAfter (start : ParamQueue) (steps : List (QueueStep Value)) :
    ParamQueue :=
  (steps.getLast?.map QueueStep.after).getD start

/-- Each step is a run of its command on the queue that the last one left. -/
def IsSession
    (lib : ParamLibrary Value)
    (start : ParamQueue)
    (steps : List (QueueStep Value)) :
    Prop :=
  ∀ earlier step later, steps = earlier ++ step :: later →
    step.before = queueAfter start earlier ∧
      Runs (step.command.program lib step.before) step.trace
        (step.result, step.after)

/-- The entries in a queue that is in use were added under its type. -/
def Unmixed (queue : ParamQueue) (log : List AddedEntry) : Prop :=
  queue.type ≠ .empty →
    queue.buffer.take queue.used = log.flatMap AddedEntry.bytes ∧
      ∀ entry ∈ log,
        entry.type = queue.type ∧ entry.version = queue.version

/--
No command that fails changes the queue, and behind every command the queue
is unmixed.
-/
def Orderly (start : ParamQueue) (steps : List (QueueStep Value)) : Prop :=
  (∀ step ∈ steps, step.result.isError = true → step.after = step.before) ∧
    ∀ earlier, earlier <+: steps →
      Unmixed (queueAfter start earlier) (entriesSinceNew earlier)

/--
A `cmd new` for a kind of queue other than the present one, without a name for
the command.
-/
def RetypesUnnamed (queue : ParamQueue) (command : QueueCommand) : Prop :=
  ∃ options kind type,
    command = .new (some (options, [kind])) ∧
      queueTypeOf kind = some type ∧ type ≠ queue.type

theorem queueAfter_append_singleton
    {start : ParamQueue}
    {steps : List (QueueStep Value)}
    {step : QueueStep Value} :
    queueAfter start (steps ++ [step]) = step.after := by
  simp [queueAfter]

theorem entriesSinceNew_append_singleton
    {steps : List (QueueStep Value)}
    {step : QueueStep Value} :
    entriesSinceNew (steps ++ [step]) =
      logAfter (entriesSinceNew steps) step.command step.trace
        step.result := by
  simp [entriesSinceNew]

end Sessions

/-!
## What a command does to the queue
-/

/-- The run appended its entries under the type and version of the queue. -/
structure Extends
    {Value : Type}
    (before : ParamQueue)
    (trace : List (Step (@QueueAnswer Value)))
    (after : ParamQueue) :
    Prop where
  type_eq : after.type = before.type
  version_eq : after.version = before.version
  contents :
    after.buffer.take after.used =
      before.buffer.take before.used ++
        (addedEntries trace).flatMap AddedEntry.bytes
  under : ∀ entry ∈ addedEntries trace,
    entry.type = before.type ∧ entry.version = before.version

section Programs

variable {Value : Type}
variable {lib : ParamLibrary Value}
variable {before middle after : ParamQueue}
variable {trace later : List (Step (@QueueAnswer Value))}
variable {result : SlashResult}

theorem Extends.refl
    (addsNothing : addedEntries trace = []) :
    Extends before trace before where
  type_eq := rfl
  version_eq := rfl
  contents := by simp [addsNothing]
  under := by simp [addsNothing]

theorem Extends.trans
    (first : Extends before trace middle)
    (second : Extends middle later after) :
    Extends before (trace ++ later) after where
  type_eq := second.type_eq.trans first.type_eq
  version_eq := second.version_eq.trans first.version_eq
  contents := by
    rw [second.contents, first.contents, addedEntries, addedEntries,
      addedEntries, List.filterMap_append, List.flatMap_append,
      List.append_assoc]
  under := by
    intro entry member
    rw [addedEntries, List.filterMap_append] at member
    rcases List.mem_append.mp member with inFirst | inSecond
    · exact first.under entry inFirst
    · obtain ⟨sameType, sameVersion⟩ := second.under entry inSecond
      exact
        ⟨sameType.trans first.type_eq, sameVersion.trans first.version_eq⟩

theorem take_append
    (queue : ParamQueue)
    (entry : Entry queue) :
    (queue.append entry).buffer.take (queue.append entry).used =
      queue.buffer.take queue.used ++ entry.val := by
  have front :
      (queue.buffer.take queue.used ++ entry.val).length =
        queue.used + entry.val.length := by
    rw [List.length_append, List.length_take_of_le queue.used_le]
  change
    ((queue.buffer.take queue.used ++ entry.val) ++ _).take
      (queue.used + entry.val.length) = _
  exact List.take_left' front

theorem extends_addEntry
    {param : ListedParam}
    {offset : Int}
    {value : Option Value}
    (run : Runs (addEntry before param offset value) trace after) :
    Extends before trace after := by
  obtain ⟨added, later, rfl, rest⟩ := runs_ask_bind_iff.mp run
  cases added with
  | none =>
      obtain ⟨rfl, rfl⟩ := runs_pure_iff.mp rest
      exact .refl rfl
  | some entry =>
      obtain ⟨rfl, rfl⟩ := runs_pure_iff.mp rest
      refine ⟨rfl, rfl, ?_, ?_⟩
      · rw [take_append]
        simp [addedEntries, addedEntry?]
      · simp [addedEntries, addedEntry?]

/-- The induction is on the list of parameters. -/
theorem extends_addMatching
    {options : AddOptions}
    {name : CString}
    {params : List ListedParam}
    (run : Runs (addMatching lib options name params before) trace after) :
    Extends before trace after := by
  induction params generalizing before trace with
  | nil =>
      obtain ⟨rfl, rfl⟩ := runs_pure_iff.mp run
      exact .refl rfl
  | cons param rest inductionHypothesis =>
      rw [addMatching] at run
      split at run
      · obtain ⟨first, middle, later, rfl, added, others⟩ :=
          runs_bind_iff.mp run
        exact (extends_addEntry added).trans (inductionHypothesis others)
      · exact inductionHypothesis run

theorem addsNothing_paramSlashParse
    {arg : CString}
    {node : Int}
    {found : Option ListedParam × Int}
    (run : Runs (paramSlashParse arg node) trace found) :
    addedEntries trace = [] := by
  unfold paramSlashParse at run
  dsimp only at run
  split at run
  · obtain ⟨answer, rfl, _⟩ := runs_ask_return_iff.mp run
    rfl
  · obtain ⟨answer, rfl, _⟩ := runs_ask_return_iff.mp run
    rfl

/-- A run that fails leaves the queue, and any other extends it. -/
structure AddsOrFails
    (before : ParamQueue)
    (trace : List (Step (@QueueAnswer Value)))
    (result : SlashResult)
    (after : ParamQueue) :
    Prop where
  grows : Extends before trace after
  failed : result.isError = true → after = before

theorem AddsOrFails.unchanged
    (addsNothing : addedEntries trace = []) :
    AddsOrFails before trace result before where
  grows := .refl addsNothing
  failed _ := rfl

/-- Calls in front that add nothing change nothing. -/
theorem AddsOrFails.behind
    (behind : AddsOrFails before later result after)
    (addsNothing : addedEntries trace = []) :
    AddsOrFails before (trace ++ later) result after where
  grows := (Extends.refl addsNothing).trans behind.grows
  failed := behind.failed

theorem AddsOrFails.cons
    {step : Step (@QueueAnswer Value)}
    (behind : AddsOrFails before later result after)
    (addsNothing : addedEntry? step = none) :
    AddsOrFails before (step :: later) result after := by
  have singleton : addedEntries [step] = [] := by
    simp [addedEntries, addsNothing]
  exact behind.behind singleton

/-- A command that adds and then succeeds extends the queue. -/
theorem addsOrFails_success
    {adding : QueueProg Value ParamQueue}
    (run :
      Runs (adding >>= fun queue => pure (.success, queue)) trace
        (result, after))
    (grows :
      ∀ first middle, Runs adding first middle →
        Extends before first middle) :
    AddsOrFails before trace result after := by
  obtain ⟨first, middle, last, rfl, added, done⟩ := runs_bind_iff.mp run
  obtain ⟨rfl, same⟩ := runs_pure_iff.mp done
  obtain ⟨rfl, rfl⟩ := Prod.mk.inj same
  rw [List.append_nil]
  exact ⟨grows first after added, fun isError => absurd isError (by decide)⟩

/-- A return that made no call leaves the queue. -/
theorem addsOrFails_pure
    {returned : SlashResult}
    (run :
      Runs (pure (returned, before) : QueueProg Value _) trace
        (result, after)) :
    AddsOrFails before trace result after := by
  obtain ⟨rfl, same⟩ := runs_pure_iff.mp run
  obtain ⟨rfl, rfl⟩ := Prod.mk.inj same
  exact .unchanged rfl

theorem addsOrFails_addValue
    {options : AddOptions}
    {name : CString}
    {values : List CString}
    (run :
      Runs (addValue lib options name values before) trace
        (result, after)) :
    AddsOrFails before trace result after := by
  obtain ⟨parsing, found, rest, rfl, parsed, looked⟩ := runs_bind_iff.mp run
  refine .behind ?_ (addsNothing_paramSlashParse parsed)
  split at looked
  · exact addsOrFails_pure looked
  split at looked
  · exact addsOrFails_pure looked
  split at looked
  · exact addsOrFails_pure looked
  split at looked
  · exact addsOrFails_pure looked
  obtain ⟨answer, adding, rfl, added⟩ := runs_ask_bind_iff.mp looked
  refine .cons ?_ rfl
  exact addsOrFails_success added fun _ _ => extends_addEntry

theorem addsOrFails_cmdAdd
    {parsed : Parsed AddOptions}
    (run : Runs (cmdAdd lib parsed before) trace (result, after)) :
    AddsOrFails before trace result after := by
  unfold cmdAdd at run
  split at run
  · exact addsOrFails_pure run
  · exact addsOrFails_pure run
  split at run
  · exact addsOrFails_addValue run
  · obtain ⟨params, adding, rfl, added⟩ := runs_ask_bind_iff.mp run
    refine .cons ?_ rfl
    exact addsOrFails_success added fun _ _ => extends_addMatching
  · exact addsOrFails_pure run

theorem addsOrFails_cmdRun
    {parsed : Parsed RunOptions}
    (run :
      Runs (cmdRun parsed before : QueueProg Value _) trace
        (result, after)) :
    AddsOrFails before trace result after := by
  unfold cmdRun at run
  split at run
  · exact addsOrFails_pure run
  split at run
  · obtain ⟨pushed, later, rfl, answered⟩ := runs_ask_bind_iff.mp run
    refine .cons ?_ rfl
    split at answered
    · exact addsOrFails_pure answered
    · exact addsOrFails_pure answered
  · obtain ⟨pulled, later, rfl, answered⟩ := runs_ask_bind_iff.mp run
    refine .cons ?_ rfl
    split at answered
    · exact addsOrFails_pure answered
    · exact addsOrFails_pure answered
  · exact addsOrFails_pure run

end Programs

/-!
## The invariant of a session
-/

/-- The entries in the queue are those of the log, and of its type if any. -/
structure Keeps (queue : ParamQueue) (log : List AddedEntry) : Prop where
  contents :
    queue.buffer.take queue.used = log.flatMap AddedEntry.bytes
  version : ∀ entry ∈ log, entry.version = queue.version
  type : queue.type ≠ .empty → ∀ entry ∈ log, entry.type = queue.type

section Invariant

variable {Value : Type}
variable {lib : ParamLibrary Value}
variable {queue before after : ParamQueue}
variable {log : List AddedEntry}
variable {command : QueueCommand}
variable {trace : List (Step (@QueueAnswer Value))}
variable {result : SlashResult}

theorem Keeps.unmixed
    (keeps : Keeps queue log) :
    Unmixed queue log := by
  intro inUse
  exact
    ⟨keeps.contents, fun entry member =>
      ⟨keeps.type inUse entry member, keeps.version entry member⟩⟩

theorem keeps_initial
    (paramServerMtu nameSize : Nat) :
    Keeps (.initial paramServerMtu nameSize) [] where
  contents := rfl
  version := by simp
  type := by simp

/-- A run that extends the queue extends the log by the same entries. -/
theorem Keeps.extends
    (keeps : Keeps before log)
    (grows : Extends before trace after) :
    Keeps after (log ++ addedEntries trace) where
  contents := by
    rw [grows.contents, keeps.contents, List.flatMap_append]
  version := by
    intro entry member
    rw [grows.version_eq]
    rcases List.mem_append.mp member with inLog | isNew
    · exact keeps.version entry inLog
    · exact (grows.under entry isNew).2
  type := by
    intro inUse entry member
    rw [grows.type_eq] at inUse ⊢
    rcases List.mem_append.mp member with inLog | isNew
    · exact keeps.type inUse entry inLog
    · exact (grows.under entry isNew).1

/-- What `cmd new` does: nothing, a new queue, or a type without a name. -/
theorem cmdNew_cases
    (parsed : Parsed NewOptions)
    (queue : ParamQueue) :
    cmdNew parsed queue = (.einval, queue) ∨
      ((cmdNew parsed queue).1 = .success ∧
        (cmdNew parsed queue).2.used = 0) ∨
      ∃ options kind type,
        parsed = some (options, [kind]) ∧ queueTypeOf kind = some type ∧
          cmdNew parsed queue = (.einval, { queue with type := type }) := by
  unfold cmdNew
  split
  · exact Or.inl rfl
  · exact Or.inl rfl
  rename_i options kind rest
  split
  · exact Or.inl rfl
  rename_i type isType
  cases rest with
  | nil =>
      exact Or.inr (Or.inr ⟨options, kind, type, rfl, isType, rfl⟩)
  | cons name others =>
      exact Or.inr (Or.inl ⟨rfl, rfl⟩)

theorem Keeps.of_addsOrFails
    (keeps : Keeps before log)
    (effect : AddsOrFails before trace result after)
    (isLog : logAfter log command trace result = log ++ addedEntries trace) :
    Keeps after (logAfter log command trace result) ∧
      (result.isError = true → after = before) := by
  rw [isLog]
  exact ⟨keeps.extends effect.grows, effect.failed⟩

/-- A command that does not retype the queue unnamed keeps what is kept. -/
theorem Keeps.step
    (keeps : Keeps before log)
    (run : Runs (command.program lib before) trace (result, after))
    (named : ¬ RetypesUnnamed before command) :
    Keeps after (logAfter log command trace result) ∧
      (result.isError = true → after = before) := by
  cases command with
  | new parsed =>
      obtain ⟨rfl, same⟩ := runs_pure_iff.mp run
      rcases cmdNew_cases parsed before with
        unchanged | ⟨succeeds, isEmpty⟩ |
          ⟨options, kind, type, rfl, isType, retyped⟩
      · rw [unchanged] at same
        obtain ⟨rfl, rfl⟩ := Prod.mk.inj same
        exact keeps.of_addsOrFails (.unchanged rfl) rfl
      · rw [← same] at succeeds isEmpty
        dsimp only at succeeds isEmpty
        subst succeeds
        refine ⟨⟨?_, by simp [logAfter], by simp [logAfter]⟩,
          fun isError => absurd isError (by decide)⟩
        rw [isEmpty]
        rfl
      · have sameType : type = before.type := by
          by_contra different
          exact named ⟨options, kind, type, rfl, isType, different⟩
        subst sameType
        rw [retyped] at same
        obtain ⟨rfl, rfl⟩ := Prod.mk.inj same
        exact keeps.of_addsOrFails (.unchanged rfl) rfl
  | add parsed =>
      exact keeps.of_addsOrFails (addsOrFails_cmdAdd run) rfl
  | run parsed =>
      exact keeps.of_addsOrFails (addsOrFails_cmdRun run) rfl
  | done =>
      obtain ⟨rfl, same⟩ := runs_pure_iff.mp run
      obtain ⟨rfl, rfl⟩ := Prod.mk.inj same
      refine ⟨?_, fun isError => absurd isError (by decide)⟩
      have sameLog :
          logAfter log .done ([] : List (Step (@QueueAnswer Value)))
              .success =
            log :=
        List.append_nil log
      rw [sameLog]
      exact ⟨keeps.contents, keeps.version, fun inUse => absurd rfl inUse⟩

/-- An unnamed `cmd new` for another kind fails and changes the type. -/
theorem changes_of_retypesUnnamed
    (run : Runs (command.program lib before) trace (result, after))
    (retypes : RetypesUnnamed before command) :
    result.isError = true ∧ after ≠ before := by
  obtain ⟨options, kind, type, rfl, isType, different⟩ := retypes
  obtain ⟨_, same⟩ := runs_pure_iff.mp run
  rw [cmdNew] at same
  simp only [isType] at same
  obtain ⟨rfl, rfl⟩ := Prod.mk.inj same
  exact ⟨rfl, fun unchanged => different (congrArg ParamQueue.type unchanged)⟩

end Invariant

section Sessions

variable {Value : Type}
variable {lib : ParamLibrary Value}
variable {start : ParamQueue}
variable {steps : List (QueueStep Value)}

theorem IsSession.of_append
    {later : List (QueueStep Value)}
    (session : IsSession lib start (steps ++ later)) :
    IsSession lib start steps := by
  rintro earlier step rest rfl
  exact session earlier step (rest ++ later) (by simp)

theorem isSession_nil :
    IsSession lib start [] := by
  intro earlier step later shape
  simp at shape

theorem IsSession.concat
    {step : QueueStep Value}
    (session : IsSession lib start steps)
    (isBefore : step.before = queueAfter start steps)
    (run :
      Runs (step.command.program lib step.before) step.trace
        (step.result, step.after)) :
    IsSession lib start (steps ++ [step]) := by
  intro earlier other later shape
  rcases split_append_singleton_iff.mp shape with
    ⟨rfl, rfl, rfl⟩ | ⟨rest, rfl, rfl⟩
  · exact ⟨isBefore, run⟩
  · exact session earlier other rest rfl

/-- The induction is on the session from its end. -/
theorem keeps_session
    (session : IsSession lib start steps)
    (startKeeps : Keeps start [])
    (named : ∀ step ∈ steps, ¬ RetypesUnnamed step.before step.command) :
    Keeps (queueAfter start steps) (entriesSinceNew steps) ∧
      ∀ step ∈ steps,
        step.result.isError = true → step.after = step.before := by
  induction steps using List.reverseRecOn with
  | nil =>
      exact ⟨startKeeps, by simp⟩
  | append_singleton earlier step inductionHypothesis =>
      obtain ⟨keeps, failed⟩ :=
        inductionHypothesis session.of_append fun other member =>
          named other (List.mem_append_left _ member)
      obtain ⟨isBefore, run⟩ := session earlier step [] rfl
      rw [← isBefore] at keeps
      obtain ⟨keepsStep, failedStep⟩ :=
        keeps.step run (named step (by simp))
      rw [queueAfter_append_singleton, entriesSinceNew_append_singleton]
      refine ⟨keepsStep, fun other member => ?_⟩
      rcases List.mem_append.mp member with inEarlier | isStep
      · exact failed other inEarlier
      · rw [List.mem_singleton.mp isStep]
        exact failedStep

end Sessions

/-- A session of the shell on the queue it starts with. -/
structure QueueSession {Value : Type} (lib : ParamLibrary Value) where
  paramServerMtu : Nat
  nameSize : Nat
  steps : List (QueueStep Value)
  isSession : IsSession lib (.initial paramServerMtu nameSize) steps

/--
A session is orderly if and only if none of its commands asks for another kind
of queue without a name.
-/
theorem orderly_iff_no_retypesUnnamed
    {Value : Type}
    (lib : ParamLibrary Value)
    (session : QueueSession lib) :
    Orderly (.initial session.paramServerMtu session.nameSize)
        session.steps ↔
      ∀ step ∈ session.steps, ¬ RetypesUnnamed step.before step.command := by
  have startKeeps := keeps_initial session.paramServerMtu session.nameSize
  constructor
  · rintro ⟨failed, _⟩ step member retypes
    obtain ⟨earlier, later, shape⟩ := List.append_of_mem member
    obtain ⟨isError, changed⟩ :=
      changes_of_retypesUnnamed (session.isSession earlier step later shape).2
        retypes
    exact changed (failed step member isError)
  · intro named
    refine ⟨(keeps_session session.isSession startKeeps named).2, ?_⟩
    intro earlier isPrefix
    obtain ⟨later, shape⟩ := isPrefix
    have earlierSession :
        IsSession lib (.initial session.paramServerMtu session.nameSize)
          earlier := by
      apply IsSession.of_append
      rw [shape]
      exact session.isSession
    apply Keeps.unmixed
    refine (keeps_session earlierSession startKeeps ?_).1
    intro step member
    apply named
    rw [← shape]
    exact List.mem_append_left _ member

/-- `cmd new` as a step of a session. -/
def newStep
    (parsed : Parsed NewOptions)
    (before : ParamQueue) :
    QueueStep Nat where
  before := before
  command := .new parsed
  trace := []
  result := (cmdNew parsed before).1
  after := (cmdNew parsed before).2

/-- A library without masks that knows no text of a value. -/
def plainLibrary : ParamLibrary Nat where
  paramMaskstrToMask _ := 0
  strmatch name pattern := name == pattern
  paramStrToValue _ _ := none
  pmReadonly := 1
  pmHwreg := 2

/-- `cmd new set x`, and then `cmd new get` without a name. -/
def unnamedSession : QueueSession plainLibrary where
  paramServerMtu := 4
  nameSize := 4
  steps :=
    let named := newStep (some (⟨2⟩, ["set".toList, ['x']])) (.initial 4 4)
    [named, newStep (some (⟨2⟩, ["get".toList])) named.after]
  isSession :=
    IsSession.concat
      (IsSession.concat isSession_nil rfl (runs_pure_iff.mpr ⟨rfl, rfl⟩)) rfl
      (runs_pure_iff.mpr ⟨rfl, rfl⟩)

/-- The second command fails and leaves a queue of type GET. -/
theorem unnamed_new_changes_type :
    ¬ Orderly
        (.initial unnamedSession.paramServerMtu unnamedSession.nameSize)
        unnamedSession.steps := by
  rintro ⟨failed, _⟩
  have unchanged :=
    congrArg ParamQueue.type
      (failed _ (List.mem_cons_of_mem _ List.mem_cons_self) (by decide))
  exact absurd unchanged (by decide)

end Csh.CommandQueue
