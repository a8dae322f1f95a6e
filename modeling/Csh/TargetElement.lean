import Csh.CommandQueue
import Csh.QueueCapacity
import Csh.TargetGrammar

namespace Csh.TargetElement

open Libc Interaction ParamOffsets ParamSet CommandQueue

/-!
# One target for two commands

`set` and `cmd add` look a target up in the same list of parameters, but read
what stands in its brackets with different parsers.  Here is when `cmd add`
reaches the element that `set` selects.
-/

/-- A question to the list of parameters. -/
inductive Lookup where
  | id (node id : Int)
  | name (node : Int) (name : CString)
  deriving Repr, DecidableEq

/-- The list of parameters, and what the two commands see of a `param_t`. -/
structure ParamList (P : Type) where
  find : Lookup → Option P
  set : P → Param
  listed : P → ListedParam
  same :
    ∀ entry,
      (listed entry).id = (set entry).id ∧
        (listed entry).node = (set entry).node

/-- `INT_MAX`. -/
def intMax : Int :=
  2 ^ 31 - 1

/-- The question of `param_parse_from_str`; `INT_MAX` is taken for an error. -/
def setLookup (node : Int) (name : CString) : Lookup :=
  let number := strtoul 10 name
  if toInt number.1 ≠ intMax ∧ number.2 = [] then
    .id node (toInt number.1)
  else
    .name node name

/-- The question of `param_slash_parse`. -/
def addLookup (node : Int) (name : CString) : Lookup :=
  let number := strtoul 10 name
  if number.2 = [] then
    .id node (toInt number.1)
  else
    .name node name

/-- The name in front of the first bracket, as both commands cut it. -/
def targetName (target : CString) : CString :=
  strtokCut (· == '[') target

section Lists

variable {P Value : Type}

/-- libparam with this list of parameters. -/
def ParamList.libparam
    (list : ParamList P)
    (lib : Libparam Value) :
    Libparam Value :=
  { lib with
    paramListFindId := fun node id => (list.find (.id node id)).map list.set
    paramListFindName := fun node name =>
      (list.find (.name node name)).map list.set }

/-- The list answers the questions of `cmd add`. -/
def ParamList.Answers
    (list : ParamList P) :
    Step (@QueueAnswer Value) → Prop
  | ⟨.paramListFindId node id, answer⟩ =>
      answer = (list.find (.id node id)).map list.listed
  | ⟨.paramListFindName node name, answer⟩ =>
      answer = (list.find (.name node name)).map list.listed
  | _ => True

/-- The parameter and the offset that an entry is added for. -/
def addedFor? (step : Step (@QueueAnswer Value)) : Option (ListedParam × Int) :=
  match step.request with
  | .paramQueueAdd _ param offset _ => some (param, offset)
  | _ => none

/--
`set` accepts the target as one element of a numeric array: `offset` is the
only offset, and in the array.
-/
structure SelectsElement
    (list : ParamList P)
    (memory : Memory)
    (node : Nat)
    (target : CString)
    (entry : P)
    (offset : Int) :
    Prop where
  numeric : (list.set entry).type ≠ .string ∧ (list.set entry).type ≠ .data
  isArray : 1 < (list.set entry).arraySize
  selected :
    ∃ name offsetToken,
      paramGetOffsetString target = some (name, offsetToken) ∧
        list.find (setLookup (toInt node) name) = some entry ∧
        offsetArray memory (list.set entry) offsetToken = some [offset]
  inArray : InArray (list.set entry).arraySize offset

/--
`cmd add` with the target on a queue of type SET: whenever it may set the
parameter and the value is one, it adds an entry for this parameter and
offset, and no other.
-/
def AddsElement
    (list : ParamList P)
    (node : Nat)
    (target : CString)
    (entry : P)
    (offset : Int) :
    Prop :=
  ∀ (Value : Type) (lib : ParamLibrary Value) (options : AddOptions)
    (text : CString) (rest : List CString) (queue : ParamQueue)
    (trace : List (Step (@QueueAnswer Value)))
    (result : SlashResult × ParamQueue),
    options.node = node →
      queue.type = .set →
        ((list.listed entry).mask &&& lib.pmReadonly = 0 ∨
            options.force = true) →
          (lib.paramStrToValue (list.listed entry).type text).isSome →
            Runs (cmdAdd lib (some (options, target :: text :: rest)) queue)
                trace result →
              (∀ step ∈ trace, list.Answers step) →
                trace.filterMap addedFor? = [(list.listed entry, offset)]

/-- The offset that `sscanf` reads behind the first bracket. -/
def scannedOffset (target : CString) : Int :=
  (((tokens (· == '[') target)[1]?.bind scanInt).map Prod.fst).getD (-1)

/-- The brackets begin with an integer that is not negative. -/
def StartsWithIndex (target : CString) : Prop :=
  ∃ body value rest,
    Opened target body ∧ scanInt body = some (value, rest) ∧ 0 ≤ value

/--
The list gives `cmd add` the parameter also where its name is a number for
`INT_MAX`, which `set` looks up as a name.
-/
def FoundByBoth
    (list : ParamList P)
    (node : Nat)
    (target : CString)
    (entry : P) :
    Prop :=
  toInt (strtoul 10 (targetName target)).1 = intMax →
    (strtoul 10 (targetName target)).2 = [] →
      (list.find (.id (toInt node) intMax)).map list.listed =
        some (list.listed entry)

end Lists

section Offsets

variable {target body : CString}
variable {arraySize : Nat}
variable {offset : Int}

theorem stops_closing :
    Stops ']' :=
  ⟨by decide, by decide, by decide⟩

theorem stops_comma :
    Stops ',' :=
  ⟨by decide, by decide, by decide⟩

/-- What `strtok_r` cuts off begins with a delimiter. -/
theorem exists_append_strtokCut
    (delimiter : Char)
    (text : CString) :
    ∃ more,
      text = strtokCut (· == delimiter) text ++ more ∧
        (more = [] ∨ ∃ later, more = delimiter :: later) := by
  refine
    ⟨(text.dropWhile (· == delimiter)).dropWhile (fun c => !(c == delimiter)),
      ?_, ?_⟩
  · rw [strtokCut, List.append_assoc, List.takeWhile_append_dropWhile,
      List.takeWhile_append_dropWhile]
  · cases behind :
      (text.dropWhile (· == delimiter)).dropWhile
        (fun c => !(c == delimiter)) with
    | nil =>
        exact .inl rfl
    | cons c later =>
        have stopped :=
          List.head?_dropWhile_not (fun c => !(c == delimiter))
            (text.dropWhile (· == delimiter))
        rw [behind] at stopped
        have isDelimiter : c = delimiter := by
          simpa using stopped
        exact .inr ⟨later, by rw [isDelimiter]⟩

/-- The offset is read from the text that `set` splits into items. -/
theorem scannedOffset_of_opened
    (opened : Opened target body) :
    scannedOffset target = ((scanInt body).map Prod.fst).getD (-1) := by
  obtain ⟨token, second, _, _, cut⟩ := opened
  have found : (tokens (· == '[') target)[1]? = some token := by
    rw [← second]
    cases tokens (· == '[') target with
    | nil =>
        rfl
    | cons first later =>
        simp [List.head?_eq_getElem?]
  obtain ⟨more, shape, ends⟩ := exists_append_strtokCut ']' token
  rw [← cut] at shape
  rw [scannedOffset, found, Option.bind_some]
  rcases ends with rfl | ⟨later, rfl⟩
  · rw [shape, List.append_nil]
  · rw [shape, scanInt_append_stop stops_closing, Option.map_map]
    rfl

/-- A text that is read as one item is that item, but for commas. -/
theorem exists_append_of_tokens
    {item : CString}
    (single : tokens (· == ',') body = [item]) :
    body.head? = some ',' ∨
      ∃ more,
        body = item ++ more ∧ (more = [] ∨ ∃ later, more = ',' :: later) := by
  cases body with
  | nil =>
      simp at single
  | cons c rest =>
      by_cases comma : c = ','
      · exact .inl (by rw [comma]; rfl)
      · right
        rw [tokens_cons_of_not_delimiter _ (by simpa using comma)] at single
        have first := (List.cons.inj single).1
        obtain ⟨more, shape, ends⟩ := exists_append_strtokCut ',' (c :: rest)
        refine ⟨more, ?_, ends⟩
        have cut : strtokCut (· == ',') (c :: rest) = item := by
          rw [strtokCut, List.takeWhile_cons_of_neg (by simpa using comma),
            List.dropWhile_cons_of_neg (by simpa using comma), List.nil_append,
            first]
        rwa [cut] at shape

theorem eq_of_offsetRange
    {start stop : Int}
    (single : offsetRange start stop = [offset]) :
    start = offset := by
  have length := congrArg List.length single
  rw [length_offsetRange, List.length_singleton] at length
  rw [offsetRange, length] at single
  simpa using single

/-- The element that an item denotes, from the number that it begins with. -/
theorem offset_of_denotes
    {item rest : CString}
    {value : Int}
    (denotes : Denotes arraySize item [offset])
    (scanned : scanInt item = some (value, rest)) :
    offset = resolveIndex arraySize value ∨ value = intMin ∧ offset = 0 := by
  generalize single : [offset] = offsets at denotes
  cases denotes with
  | index noColon =>
      left
      rw [atoi_eq_scanInt, scanned] at single
      exact (List.cons.inj single).1
  | @slice startIndex endIndex colon read start_nonneg nonempty inRange =>
      have start := eq_of_offsetRange single.symm
      have starts : startIndex = value := by
        cases read with
        | closed first second =>
            rw [scanned] at first
            simp only [Option.some.injEq, Prod.mk.injEq] at first
            exact first.1.symm
        | openEnd first missing lone =>
            rw [scanned] at first
            simp only [Option.some.injEq, Prod.mk.injEq] at first
            exact first.1.symm
        | openStart second =>
            simp [scanInt_colon] at scanned
        | whole missing lone =>
            simp [scanInt_colon] at scanned
      rw [starts, resolveBound] at start
      unfold resolveIndex
      by_cases unset : value = intMin
      · rw [if_neg (not_not.mpr unset), if_neg (by decide)] at start
        exact .inr ⟨unset, start.symm⟩
      · rw [if_pos unset] at start
        left
        rw [← start, Int.add_comm]

/-- It is read as that element if and only if it begins with its index. -/
theorem scanned_eq_iff_of_denotes
    {item : CString}
    (denotes : Denotes arraySize item [offset])
    (inArray : InArray arraySize offset) :
    ((scanInt item).map Prod.fst).getD (-1) = offset ↔
      ∃ value rest, scanInt item = some (value, rest) ∧ 0 ≤ value := by
  obtain ⟨nonneg, below⟩ := inArray
  cases scanned : scanInt item with
  | none =>
      simp only [Option.map_none, Option.getD_none, reduceCtorEq, false_and,
        exists_false, iff_false]
      omega
  | some read =>
      obtain ⟨value, rest⟩ := read
      have element := offset_of_denotes denotes scanned
      simp only [Option.map_some, Option.getD_some, Option.some.injEq,
        Prod.mk.injEq]
      constructor
      · intro same
        exact ⟨value, rest, ⟨rfl, rfl⟩, by omega⟩
      · rintro ⟨_, _, ⟨rfl, rfl⟩, starts⟩
        rcases element with rfl | ⟨unset, rfl⟩
        · rw [resolveIndex, if_neg (by omega)]
        · rw [unset] at starts
          exact absurd starts (by decide)

/-- A single offset is that of a single item. -/
theorem exists_item_of_reads
    (reads : Reads arraySize body [offset]) :
    ∃ item,
      tokens (· == ',') body = [item] ∧ Denotes arraySize item [offset] := by
  obtain ⟨parts, denoted, flattened, _⟩ := reads
  generalize tokens (· == ',') body = items at denoted ⊢
  cases denoted with
  | nil =>
      simp at flattened
  | @cons item part items parts denotes others =>
      have nonempty := denotes.ne_nil
      rw [List.flatten_cons] at flattened
      obtain ⟨first, later, rfl⟩ := List.exists_cons_of_ne_nil nonempty
      obtain ⟨rfl, behind⟩ := List.cons.inj flattened
      obtain ⟨rfl, nothing⟩ := List.append_eq_nil_iff.mp behind.symm
      have noItem : items = [] := by
        by_contra further
        exact (flatten_ne_nil_iff others).mpr further nothing
      exact ⟨item, by rw [noItem], denotes⟩

/--
What `cmd add` scans is the element that the items denote if and only if they
begin with its index.
-/
theorem scanned_eq_iff_of_reads
    (reads : Reads arraySize body [offset])
    (inArray : InArray arraySize offset) :
    ((scanInt body).map Prod.fst).getD (-1) = offset ↔
      ∃ value rest, scanInt body = some (value, rest) ∧ 0 ≤ value := by
  obtain ⟨item, tokensAre, denotes⟩ := exists_item_of_reads reads
  rcases exists_append_of_tokens tokensAre with comma | ⟨more, shape, ends⟩
  · obtain ⟨rest, rfl⟩ := List.head?_eq_some_iff.mp comma
    have none : scanInt (',' :: rest) = none :=
      scanInt_cons_eq_none stops_comma.noBlank stops_comma.noSign
        stops_comma.noDigit rest
    have nonneg := inArray.1
    simp only [none, Option.map_none, Option.getD_none, reduceCtorEq,
      false_and, exists_false, iff_false]
    omega
  · have byItem := scanned_eq_iff_of_denotes denotes inArray
    rcases ends with rfl | ⟨later, rfl⟩
    · rwa [shape, List.append_nil]
    · rw [shape, scanInt_append_stop stops_comma, Option.map_map]
      refine Iff.trans byItem ?_
      simp only [Option.map_eq_some_iff, Prod.mk.injEq, Prod.exists]
      constructor
      · rintro ⟨value, rest, scanned, starts⟩
        exact ⟨value, _, ⟨value, rest, scanned, rfl, rfl⟩, starts⟩
      · rintro ⟨_, _, ⟨value, rest, scanned, rfl, rfl⟩, starts⟩
        exact ⟨value, rest, scanned, starts⟩

end Offsets

section Lookups

variable {P Value : Type}
variable {list : ParamList P}
variable {memory : Memory}
variable {node : Nat}
variable {target : CString}
variable {entry : P}
variable {offset : Int}
variable {trace : List (Step (@QueueAnswer Value))}

/-- A single element of an array is selected in brackets. -/
theorem SelectsElement.exists_body
    (selects : SelectsElement list memory node target entry offset) :
    list.find (setLookup (toInt node) (targetName target)) = some entry ∧
      ∃ body,
        Opened target body ∧
          Reads (list.set entry).arraySize body [offset] := by
  obtain ⟨name, offsetToken, brackets, found, parsed⟩ := selects.selected
  have numeric :
      ¬ ((list.set entry).type = .data ∨ (list.set entry).type = .string) := by
    rintro (isData | isString)
    · exact selects.numeric.2 isData
    · exact selects.numeric.1 isString
  have offsets :
      paramOffsetsParseFromStr memory.delimitor (list.set entry).arraySize
          offsetToken =
        some [offset] := by
    rw [offsetArray, if_neg numeric] at parsed
    cases read :
      paramOffsetsParseFromStr memory.delimitor (list.set entry).arraySize
        offsetToken with
    | none =>
        simp [read] at parsed
    | some stored =>
        simp only [read, Option.ite_none_left_eq_some, Option.some.injEq]
          at parsed
        rw [parsed.2.2]
  obtain ⟨rfl, shape⟩ := paramGetOffsetString_eq_some_iff.mp brackets
  refine ⟨found, ?_⟩
  cases offsetToken with
  | none =>
      have length := congrArg List.length (Option.some.inj offsets)
      rw [List.length_map, List.length_range, List.length_singleton] at length
      have several := selects.isArray
      omega
  | some body =>
      exact
        ⟨body, shape, paramOffsetsParseFromStr_eq_some_iff.mp offsets⟩

/-- What `cmd add` scans is the selected element if it begins with its index. -/
theorem SelectsElement.scannedOffset_eq_iff
    (selects : SelectsElement list memory node target entry offset) :
    scannedOffset target = offset ↔ StartsWithIndex target := by
  obtain ⟨_, body, opened, reads⟩ := selects.exists_body
  rw [scannedOffset_of_opened opened,
    scanned_eq_iff_of_reads reads selects.inArray]
  constructor
  · rintro ⟨value, rest, scanned, starts⟩
    exact ⟨body, value, rest, opened, scanned, starts⟩
  · rintro ⟨other, value, rest, otherOpened, scanned, starts⟩
    obtain ⟨token, second, _, _, rfl⟩ := opened
    obtain ⟨otherToken, otherSecond, _, _, rfl⟩ := otherOpened
    obtain rfl := Option.some.inj (second.symm.trans otherSecond)
    exact ⟨value, rest, scanned, starts⟩

/-- The two questions differ for `INT_MAX` only. -/
theorem SelectsElement.found_iff
    (selects : SelectsElement list memory node target entry offset) :
    (list.find (addLookup (toInt node) (targetName target))).map
          list.listed =
        some (list.listed entry) ↔
      FoundByBoth list node target entry := by
  have found := selects.exists_body.1
  unfold addLookup FoundByBoth
  unfold setLookup at found
  simp only at found ⊢
  by_cases number : (strtoul 10 (targetName target)).2 = []
  · by_cases isMax : toInt (strtoul 10 (targetName target)).1 = intMax
    · simp [number, isMax]
    · rw [if_pos ⟨isMax, number⟩] at found
      simp [number, isMax, found]
  · rw [if_neg (fun both => number both.2)] at found
    simp [number, found]

/-- `param_slash_parse` asks its question and scans the offset. -/
theorem paramSlashParse_answered
    {result : Option ListedParam × Int}
    (run : Runs (paramSlashParse target (toInt node)) trace result)
    (answered : ∀ step ∈ trace, list.Answers step) :
    result =
        ((list.find (addLookup (toInt node) (targetName target))).map
          list.listed, scannedOffset target) ∧
      trace.filterMap addedFor? = [] := by
  have token :
      (strtokR (· == '[') (strtokR (· == '[') target).2).1 =
        (tokens (· == '[') target)[1]? := by
    obtain ⟨_, remaining⟩ := strtokR_tokens (· == '[') target
    obtain ⟨second, _⟩ :=
      strtokR_tokens (· == '[') (strtokR (· == '[') target).2
    rw [second, remaining]
    cases tokens (· == '[') target with
    | nil =>
        rfl
    | cons first later =>
        simp [List.head?_eq_getElem?]
  unfold paramSlashParse at run
  simp only [token] at run
  unfold addLookup targetName
  by_cases number : (strtoul 10 (strtokCut (· == '[') target)).2 = []
  · simp only [if_pos number] at run ⊢
    obtain ⟨answer, rfl, rfl⟩ := runs_ask_return_iff.mp run
    have found := answered _ List.mem_cons_self
    exact ⟨Prod.ext found rfl, rfl⟩
  · simp only [if_neg number] at run ⊢
    obtain ⟨answer, rfl, rfl⟩ := runs_ask_return_iff.mp run
    have found := answered _ List.mem_cons_self
    exact ⟨Prod.ext found rfl, rfl⟩

/-- What `cmd add` adds an entry for, if it does. -/
def addition
    (lib : ParamLibrary Value)
    (options : AddOptions)
    (text : CString)
    (param : ListedParam)
    (offset : Int) :
    List (ListedParam × Int) :=
  if param.mask &&& lib.pmReadonly ≠ 0 ∧ options.force = false then
    []
  else
    match lib.paramStrToValue param.type text with
    | none => []
    | some _ => [(param, offset)]

/-- A run adds an entry for the parameter and the offset that were looked up. -/
theorem added_of_answered
    {lib : ParamLibrary Value}
    {options : AddOptions}
    {text : CString}
    {rest : List CString}
    {queue : ParamQueue}
    {result : SlashResult × ParamQueue}
    (isSet : queue.type = .set)
    (run :
      Runs (cmdAdd lib (some (options, target :: text :: rest)) queue) trace
        result)
    (answered : ∀ step ∈ trace, list.Answers step) :
    trace.filterMap addedFor? =
      match
        (list.find (addLookup (toInt options.node) (targetName target))).map
          list.listed with
      | none => []
      | some param =>
          addition lib options text param (scannedOffset target) := by
  simp only [cmdAdd, isSet] at run
  obtain ⟨asking, found, later, rfl, asked, adding⟩ := runs_bind_iff.mp run
  simp only [List.forall_mem_append] at answered
  obtain ⟨rfl, nothing⟩ := paramSlashParse_answered asked answered.1
  rw [List.filterMap_append, nothing, List.nil_append]
  cases param :
    (list.find (addLookup (toInt options.node) (targetName target))).map
      list.listed with
  | none =>
      simp only [param] at adding ⊢
      obtain ⟨rfl, rfl⟩ := runs_pure_iff.mp adding
      rfl
  | some param' =>
      simp only [param] at adding ⊢
      unfold addition
      split at adding
      · rename_i refused
        obtain ⟨rfl, rfl⟩ := runs_pure_iff.mp adding
        rw [if_pos refused]
        rfl
      · rename_i allowed
        rw [if_neg allowed]
        cases converted : lib.paramStrToValue param'.type text with
        | none =>
            simp only [converted] at adding ⊢
            obtain ⟨rfl, rfl⟩ := runs_pure_iff.mp adding
            rfl
        | some value =>
            simp only [converted] at adding ⊢
            obtain ⟨_, behind, rfl, entering⟩ := runs_ask_bind_iff.mp adding
            obtain ⟨entered, next, _, rfl, entry, done⟩ :=
              runs_bind_iff.mp entering
            obtain ⟨rfl, rfl⟩ := runs_pure_iff.mp done
            obtain ⟨added, _, rfl, kept⟩ := runs_ask_bind_iff.mp entry
            split at kept
            · obtain ⟨rfl, rfl⟩ := runs_pure_iff.mp kept
              rfl
            · obtain ⟨rfl, rfl⟩ := runs_pure_iff.mp kept
              rfl

/-- Every question has the answer of the list. -/
theorem exists_answer
    (list : ParamList P)
    (request : QueueCall Value) :
    ∃ answer, list.Answers ⟨request, answer⟩ := by
  cases request with
  | paramListFindId node id =>
      exact ⟨_, rfl⟩
  | paramListFindName node name =>
      exact ⟨_, rfl⟩
  | paramListIterate =>
      exact ⟨[], trivial⟩
  | resetTimestamp param =>
      exact ⟨(), trivial⟩
  | paramQueueAdd queue param offset value =>
      exact ⟨none, trivial⟩
  | paramPushQueue queue options =>
      exact ⟨(0 : Int), trivial⟩
  | paramPullQueue queue options =>
      exact ⟨(0 : Int), trivial⟩

/-- libparam that takes every text for a value and no parameter for readonly. -/
def permissive : ParamLibrary Unit where
  paramMaskstrToMask _ := 0
  strmatch _ _ := true
  paramStrToValue _ _ := some ()
  pmReadonly := 0
  pmHwreg := 0

/-- The entry of `cmd add` is for what it has looked up and scanned. -/
theorem addsElement_iff
    (list : ParamList P)
    (node : Nat)
    (target : CString)
    (entry : P)
    (offset : Int) :
    AddsElement list node target entry offset ↔
      (list.find (addLookup (toInt node) (targetName target))).map
            list.listed =
          some (list.listed entry) ∧
        scannedOffset target = offset := by
  constructor
  · intro adds
    let options : AddOptions := ⟨node, none, none, true⟩
    let queue : ParamQueue := { ParamQueue.initial 0 0 with type := .set }
    obtain ⟨trace, result, run, answered⟩ :=
      exists_runs_of_answers (exists_answer list)
        (cmdAdd permissive (some (options, [target, []])) queue)
    have added := adds Unit permissive options [] [] queue trace result rfl rfl
      (.inr rfl) rfl run answered
    rw [added_of_answered rfl run answered] at added
    cases found :
      (list.find (addLookup (toInt node) (targetName target))).map
        list.listed with
    | none =>
        rw [show options.node = node from rfl, found] at added
        cases added
    | some param =>
        rw [show options.node = node from rfl, found] at added
        simp [addition, permissive] at added
        exact ⟨congrArg some added.1, added.2⟩
  · rintro ⟨found, scanned⟩ Value lib options text rest queue trace result rfl
      isSet writable converts run answered
    rw [added_of_answered isSet run answered, found]
    obtain ⟨value, converted⟩ := Option.isSome_iff_exists.mp converts
    have allowed :
        ¬ ((list.listed entry).mask &&& lib.pmReadonly ≠ 0 ∧
            options.force = false) := by
      rintro ⟨readonly, unforced⟩
      rcases writable with plain | forced
      · exact readonly plain
      · simp [unforced] at forced
    simp only [addition, if_neg allowed, converted, scanned]

/--
Of a target that `set` takes for one element, `cmd add` adds this element if
and only if the brackets begin with its index and both find the parameter.
-/
theorem addsElement_iff_startsWithIndex
    (list : ParamList P)
    (memory : Memory)
    (node : Nat)
    (target : CString)
    (entry : P)
    (offset : Int)
    (selects : SelectsElement list memory node target entry offset) :
    AddsElement list node target entry offset ↔
      StartsWithIndex target ∧ FoundByBoth list node target entry := by
  rw [addsElement_iff, selects.found_iff, selects.scannedOffset_eq_iff,
    and_comm]

/-- Such a target is one that `cmd_set` accepts. -/
theorem SelectsElement.acceptedTarget
    (selects : SelectsElement list memory node target entry offset)
    (lib : Libparam Value)
    (options : SetOptions)
    (sameNode : options.node = node)
    (writable : (list.set entry).readonly = true → options.force = true) :
    AcceptedTarget (list.libparam lib) memory options target (list.set entry)
      [offset] := by
  obtain ⟨name, offsetToken, brackets, found, parsed⟩ := selects.selected
  refine ⟨offsetToken, ?_, parsed, fun _ => le_refl _, writable⟩
  unfold setLookup intMax at found
  simp only [parseParamOffsetString, brackets, paramParseFromStr, sameNode,
    ParamList.libparam]
  by_cases isId :
      toInt (strtoul 10 name).1 ≠ 2 ^ 31 - 1 ∧ (strtoul 10 name).2 = []
  · rw [if_pos isId] at found
    rw [if_pos isId, found]
    rfl
  · rw [if_neg isId] at found
    rw [if_neg isId, found]
    rfl

end Lookups

/-- An array of three elements that is found under every name. -/
def oneArray : ParamList Unit where
  find lookup :=
    match lookup with
    | .id _ _ => none
    | .name _ _ => some ()
  set _ := localArray
  listed _ := ⟨10, "array".toList, 0, 0, .uint8⟩
  same _ := ⟨rfl, rfl⟩

theorem selects_index
    {target name body : CString}
    {offset : Int}
    (brackets : paramGetOffsetString target = some (name, some body))
    (isName : (strtoul 10 name).2 ≠ [])
    (parsed :
      offsetArray zeroMemory (oneArray.set ()) (some body) = some [offset])
    (inArray : InArray 3 offset) :
    SelectsElement oneArray zeroMemory 0 target () offset where
  numeric := ⟨by decide, by decide⟩
  isArray := by decide
  selected := by
    refine ⟨name, some body, brackets, ?_, parsed⟩
    rw [setLookup, if_neg (fun both => isName both.2)]
    rfl
  inArray := inArray

/-- `array[1]` is the same element for both commands. -/
theorem array_second_agrees :
    SelectsElement oneArray zeroMemory 0 "array[1]".toList () 1 ∧
      (AddsElement oneArray 0 "array[1]".toList () 1 ↔
        StartsWithIndex "array[1]".toList ∧
          FoundByBoth oneArray 0 "array[1]".toList ()) := by
  have selects :
      SelectsElement oneArray zeroMemory 0 "array[1]".toList () 1 :=
    @selects_index _ "array".toList ['1'] _ (by decide) (by decide)
      (by decide) ⟨by decide, by decide⟩
  exact ⟨selects, addsElement_iff_startsWithIndex _ _ _ _ _ _ selects⟩

/-- `array[-1]` is the last element for `set`, and no element for `cmd add`. -/
theorem array_last_differs :
    ¬ ∀ (list : ParamList Unit) (memory : Memory) (node : Nat)
        (target : CString) (entry : Unit) (offset : Int),
      SelectsElement list memory node target entry offset →
        AddsElement list node target entry offset := by
  intro agrees
  have selects :
      SelectsElement oneArray zeroMemory 0 "array[-1]".toList () 2 :=
    @selects_index _ "array".toList ['-', '1'] _ (by decide) (by decide)
      (by decide) ⟨by decide, by decide⟩
  have adds := agrees _ _ _ _ _ _ selects
  have scanned := ((addsElement_iff _ _ _ _ _).mp adds).2
  exact absurd scanned (by decide)

end Csh.TargetElement
