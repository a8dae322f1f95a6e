import Csh.Lib.CNumber

namespace Csh.ParamOffsets

open Libc

/-!
# Targets of parameter commands

`set` takes a target `name` or `name[item,...]`.  The brackets are taken apart
by `param_get_offset_string`, the items by `param_offsets_parse_from_str`, and
an item with a colon by `param_slash_parse_slice`.  A failing function gives
`none`; which negative code it returns is never looked at.
-/

/-- `INT_MIN`, the mark of a slice bound that was not given. -/
def intMin : Int :=
  -2 ^ 31

/-- What the two `sscanf` calls of a slice leave behind. -/
structure SliceScan where
  count : Nat
  delimitor : Char
  startIndex : Int
  endIndex : Int
  deriving Repr, DecidableEq

/-- `sscanf(token, "%d%c%d", start_index, &_slice_delimitor, end_index)`. -/
def firstScan
    (token : CString)
    (before : SliceScan) :
    SliceScan :=
  match scanInt token with
  | none =>
      { before with count := 0 }
  | some (start, []) =>
      { before with count := 1, startIndex := start }
  | some (start, delimitor :: rest) =>
      match scanInt rest with
      | none =>
          { before with
            count := 2
            delimitor := delimitor
            startIndex := start }
      | some (stop, _) =>
          { count := 3
            delimitor := delimitor
            startIndex := start
            endIndex := stop }

/-- `sscanf(token, "%c%d", &_slice_delimitor, end_index)`. -/
def secondScan
    (token : CString)
    (before : SliceScan) :
    SliceScan :=
  match token with
  | [] =>
      { before with count := 0 }
  | delimitor :: rest =>
      match scanInt rest with
      | none =>
          { before with count := 1, delimitor := delimitor }
      | some (stop, _) =>
          { before with count := 2, delimitor := delimitor, endIndex := stop }

/-- The check behind a slice that lacks its second bound. -/
def secondArgValid (token : CString) : Bool :=
  let first := strtokR (· == ':') token
  let second := strtokR (· == ':') first.2
  match first.1, second.1 with
  | some arg, none =>
      !((strtoul 10 arg).1 == 0 && arg != ['0'])
  | some _, some _ => false
  | none, _ => true

/--
`param_slash_parse_slice` on a token that is not NULL, from the bounds its
caller has set; `garbage` is what the uninitialised `_slice_delimitor` holds.
The flag `slice_detected` is not read by the caller and left out.
-/
def paramSlashParseSlice
    (garbage : Char)
    (token : CString)
    (startIndex endIndex : Int) :
    Option (Int × Int) :=
  let first := firstScan token ⟨0, garbage, startIndex, endIndex⟩
  let second :=
    if first.count = 0 then
      secondScan token first
    else
      { first with count := 0 }
  if second.delimitor = ':' then
    if (first.count = 2 ∨ second.count = 1) ∧ secondArgValid token = false then
      none
    else
      some (second.startIndex, second.endIndex)
  else if 0 < second.count then
    none
  else if 2 ≤ first.count then
    none
  else if 0 < second.count ∧ second.delimitor = ']' then
    none
  else
    some (second.startIndex, second.endIndex)

/--
`param_get_offset_string`: the name its argument is cut to and the offset
string, where `none` inside is the NULL of a target without brackets.
-/
def paramGetOffsetString
    (arg : CString) :
    Option (CString × Option CString) :=
  let first := strtokR (· == '[') arg
  let name := strtokCut (· == '[') arg
  match (strtokR (· == '[') first.2).1 with
  | none => some (name, none)
  | some token =>
      if token.getLast? ≠ some ']' then
        none
      else
        let cut := strtokCut (· == ']') token
        if 1 < token.length - cut.length then
          none
        else
          some (name, some cut)

/-- A slice bound with its default, counted from the end when negative. -/
def resolveBound (arraySize : Nat) (default bound : Int) : Int :=
  let given := if bound ≠ intMin then bound else default
  if given < 0 then arraySize + given else given

/-- The offsets from `start` up to but not including `stop`. -/
def offsetRange (start stop : Int) : List Int :=
  (List.range (stop - start).toNat).map fun index : Nat => start + index

/-- Store offsets one by one behind the stored ones, as long as they fit. -/
def storeOffsets
    (arraySize : Nat) :
    List Int → List Int → Option (List Int)
  | stored, [] => some stored
  | stored, offset :: rest =>
      if arraySize ≤ stored.length then
        none
      else
        storeOffsets arraySize (stored ++ [offset]) rest

/-- An index without a colon, counted from the end when negative. -/
def resolveIndex (arraySize : Nat) (value : Int) : Int :=
  if value < 0 then value + arraySize else value

/-- One turn of the loop of `param_offsets_parse_from_str`. -/
def parseToken
    (garbage : Char)
    (arraySize : Nat)
    (stored : List Int)
    (token : CString) :
    Option (List Int) :=
  if arraySize ≤ stored.length then
    none
  else if token.contains ':' then
    match paramSlashParseSlice garbage token intMin intMin with
    | none => none
    | some (startIndex, endIndex) =>
        let start := resolveBound arraySize 0 startIndex
        let stop := resolveBound arraySize arraySize endIndex
        if start < 0 then
          none
        else if stop < 0 then
          none
        else if stop ≤ start then
          none
        else if arraySize < stop then
          none
        else
          storeOffsets arraySize stored (offsetRange start stop)
  else
    some (stored ++ [resolveIndex arraySize (atoi token)])

/--
`param_offsets_parse_from_str`: the offsets written to `offset_array`, whose
number is `*expected_value_amount`.
-/
def paramOffsetsParseFromStr
    (garbage : Char)
    (arraySize : Nat) :
    Option CString → Option (List Int)
  | none => some ((List.range arraySize).map fun index : Nat => (index : Int))
  | some arg =>
      (tokens (· == ',') arg).foldlM (parseToken garbage arraySize) []

/--
The bracket and offset parsing of a target: the name and the offsets of a
parameter of `arraySize` elements.
-/
def parseTarget
    (garbage : Char)
    (arraySize : Nat)
    (target : CString) :
    Option (CString × List Int) :=
  match paramGetOffsetString target with
  | none => none
  | some (name, offsetString) =>
      (paramOffsetsParseFromStr garbage arraySize offsetString).map
        fun offsets => (name, offsets)

end Csh.ParamOffsets
