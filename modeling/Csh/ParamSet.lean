import Csh.Lib.Interaction
import Csh.ParamOffsets
import Csh.Slash

namespace Csh.ParamSet

open Libc Interaction ParamOffsets

/-!
# The set command

`cmd_set` looks its target up, parses the offsets, fills a queue with one
value for each offset and applies the queue or pushes it to the node.  What
libparam does is a parameter: how a parameter is found, how a text becomes a
value, and whether an entry still fits the queue.
-/

/-- The types of parameters. -/
inductive ParamType where
  | uint8
  | uint16
  | uint32
  | uint64
  | int8
  | int16
  | int32
  | int64
  | xint8
  | xint16
  | xint32
  | xint64
  | float
  | double
  | string
  | data
  deriving Repr, DecidableEq

/-- What `cmd_set` reads of a `param_t`; `readonly` is its `PM_READONLY` bit. -/
structure Param where
  id : Nat
  node : Nat
  type : ParamType
  arraySize : Nat
  readonly : Bool
  deriving Repr, DecidableEq

/-- One value for one element of a parameter, as a queue holds it. -/
structure QueueEntry (Value : Type) where
  param : Param
  offset : Int
  value : Value
  deriving Repr, DecidableEq

/--
The functions of libparam that `cmd_set` calls without side effects.
`valueBytes` is how many bytes `param_str_to_value` writes to its buffer.
-/
structure Libparam (Value : Type) where
  paramListFindId : Int → Int → Option Param
  paramListFindName : Int → CString → Option Param
  paramStrToValue : ParamType → CString → Option Value
  valueBytes : ParamType → CString → Nat
  room : List (QueueEntry Value) → QueueEntry Value → Bool

/--
What is read outside the objects of the command: the uninitialised slice
delimitor, the byte in front of the value argument of each index, and the
integer behind the offset array.
-/
structure Memory where
  delimitor : Char
  byteBefore : Nat → Char
  offsetBehind : Int

/-- The options of `set` that are used; `--paramver` and `--prio` are not. -/
structure SetOptions where
  node : Nat
  server : Int
  ackWithPull : Bool
  force : Bool
  deriving Repr, DecidableEq

/-- What `cmd_set` does to the parameter and to its surroundings. -/
inductive SetCall (Value : Type) where
  | resetTimestamp (param : Param)
  | paramQueueApply (queue : List (QueueEntry Value))
  | paramPushQueue
      (queue : List (QueueEntry Value))
      (dest : Int)
      (timeout : Nat)
      (ackWithPull : Bool)
  deriving Repr, DecidableEq

/-- The two deliveries of a queue answer with a code, negative on failure. -/
abbrev SetAnswer (Value : Type) : SetCall Value → Type
  | .resetTimestamp _ => Unit
  | .paramQueueApply _ => Int
  | .paramPushQueue _ _ _ _ => Int

section Targets

variable {Value : Type}

/-- `param_parse_from_str`: a number is an id, anything else a name. -/
def paramParseFromStr
    (lib : Libparam Value)
    (node : Int)
    (arg : CString) :
    Option Param :=
  let converted := strtoul 10 arg
  let id := toInt converted.1
  if id ≠ 2 ^ 31 - 1 ∧ converted.2 = [] then
    lib.paramListFindId node id
  else
    lib.paramListFindName node arg

/-- `parse_param_offset_string`: the parameter and the offset string. -/
def parseParamOffsetString
    (lib : Libparam Value)
    (node : Int)
    (target : CString) :
    Option (Param × Option CString) :=
  match paramGetOffsetString target with
  | none => none
  | some (name, offsetToken) =>
      (paramParseFromStr lib node name).map
        fun param => (param, offsetToken)

/-- `hasDuplicates`. -/
def hasDuplicates : List Int → Bool
  | [] => false
  | offset :: rest => rest.contains offset || hasDuplicates rest

/--
The offsets of a command.  Strings and data have the single offset `-1`.  No
offset at all makes `realloc` return NULL, which is taken as out of memory.
-/
def offsetArray
    (memory : Memory)
    (param : Param)
    (offsetToken : Option CString) :
    Option (List Int) :=
  if param.type = .data ∨ param.type = .string then
    some [-1]
  else
    match paramOffsetsParseFromStr memory.delimitor param.arraySize
      offsetToken with
    | none => none
    | some offsets =>
        if offsets = [] then
          none
        else if hasDuplicates offsets then
          none
        else
          some offsets

end Targets

section Values

variable {Value : Type}

/-- `parse_slash_values`: the arguments are counted up to one hundred. -/
def parseSlashValues
    (values : List CString)
    (expected : List Nat) :
    Bool :=
  expected.contains (min values.length 100)

/-- `arg[strlen(arg)-1]`, which is the byte in front of an empty text. -/
def lastByte (before : Char) (arg : CString) : Char :=
  arg.getLast?.getD before

/--
One value argument without its brackets.  `shouldBreak` stays set as long as
no closing bracket was found, and `singleValueFlag` marks a broadcast.
-/
structure ValueArg where
  text : CString
  shouldBreak : Bool
  singleValueFlag : Bool
  deriving Repr, DecidableEq

/-- Take the brackets off the value argument at index `iterations`. -/
def readValueArg
    (before : Char)
    (expectedValueAmount iterations : Nat)
    (arg : CString) :
    Option ValueArg :=
  if arg.contains '[' then
    if expectedValueAmount = 1 then
      none
    else
      let behind := arg.drop 1
      if lastByte (arg.headD nul) behind = ']' then
        some ⟨behind.dropLast, false, false⟩
      else
        some ⟨behind, true, false⟩
  else if lastByte before arg = ']' then
    some ⟨arg.dropLast, false, false⟩
  else
    some ⟨arg, true, iterations == 0⟩

/-- `param_queue_add`: the entry is appended or the queue left as it was. -/
def paramQueueAdd
    (lib : Libparam Value)
    (queue : List (QueueEntry Value))
    (entry : QueueEntry Value) :
    Option (List (QueueEntry Value)) :=
  if lib.room queue entry then
    some (queue ++ [entry])
  else
    none

/-- The loop of a single value, which does not look at what `add` returns. -/
def addToEvery
    (lib : Libparam Value)
    (param : Param)
    (offsets : List Int)
    (value : Value)
    (queue : List (QueueEntry Value)) :
    List (QueueEntry Value) :=
  offsets.foldl
    (fun queue offset =>
      (paramQueueAdd lib queue ⟨param, offset, value⟩).getD queue)
    queue

/-- The loop over the value arguments; `none` is an error return. -/
def valueLoop
    (lib : Libparam Value)
    (memory : Memory)
    (param : Param)
    (offsets : List Int) :
    Nat → List (QueueEntry Value) → List CString →
      Option (List (QueueEntry Value))
  | _, _, [] => none
  | iterations, queue, arg :: rest =>
      match readValueArg (memory.byteBefore iterations) offsets.length
        iterations arg with
      | none => none
      | some read =>
          match lib.paramStrToValue param.type read.text with
          | none => none
          | some value =>
              if read.singleValueFlag then
                some (addToEvery lib param offsets value queue)
              else if offsets.length < iterations then
                none
              else
                match paramQueueAdd lib queue
                  ⟨param, offsets.getD iterations memory.offsetBehind,
                    value⟩ with
                | none => none
                | some queue =>
                    if read.shouldBreak then
                      valueLoop lib memory param offsets (iterations + 1)
                        queue rest
                    else if iterations + 1 ≠ offsets.length then
                      none
                    else
                      some queue

/-- Deliver the queue: local parameters are set directly. -/
def deliver
    (timeout : Nat)
    (options : SetOptions)
    (param : Param)
    (queue : List (QueueEntry Value)) :
    Prog (SetAnswer Value) SlashResult :=
  if param.node = 0 then do
    let _ ← Prog.ask (.paramQueueApply queue)
    pure .success
  else do
    let dest := if 0 < options.server then options.server else toInt options.node
    let answer ←
      Prog.ask (.paramPushQueue queue dest timeout options.ackWithPull)
    if (answer : Int) < 0 then
      pure .eio
    else
      pure .success

/-- The part of `cmd_set` behind the target. -/
def setValues
    (lib : Libparam Value)
    (memory : Memory)
    (timeout : Nat)
    (options : SetOptions)
    (param : Param)
    (offsets : List Int)
    (values : List CString) :
    Prog (SetAnswer Value) SlashResult :=
  if values = [] then
    pure .einval
  else if parseSlashValues values [1, offsets.length] = false then
    pure .einval
  else
    match valueLoop lib memory param offsets 0 [] values with
    | none => pure .einval
    | some queue => deliver timeout options param queue

/-- `cmd_set`; `timeout` is `slash_dfl_timeout`. -/
def cmdSet
    (lib : Libparam Value)
    (memory : Memory)
    (timeout : Nat)
    (parsed : Parsed SetOptions) :
    Prog (SetAnswer Value) SlashResult :=
  match parsed with
  | none => pure .einval
  | some (_, []) => pure .einval
  | some (options, target :: values) =>
      match parseParamOffsetString lib (toInt options.node) target with
      | none => pure .einval
      | some (param, offsetToken) => do
          let _ ← Prog.ask (.resetTimestamp param)
          match offsetArray memory param offsetToken with
          | none => pure .einval
          | some offsets =>
              if param.arraySize = 1 ∧ 1 < offsets.length then
                pure .einval
              else if param.readonly ∧ options.force = false then
                pure .einval
              else
                setValues lib memory timeout options param offsets values

end Values

end Csh.ParamSet
