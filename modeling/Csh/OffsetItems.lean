import Csh.TargetGrammar
import Mathlib.Data.List.Forall2

namespace Csh.ParamOffsets

open Libc

/-!
# Lists of indexes and slices

An offset string that is a list of canonical items: what each item denotes,
from either end of the array as in Python, and what the parser leaves in the
array that it is handed, also where it gives up in the middle.
-/

/-- An index, or a slice whose bounds may be missing. -/
inductive OffsetItem where
  | index (value : Int)
  | slice (start stop : Option Int)
  deriving Repr, DecidableEq

/-- A slice bound as it is written. -/
def boundText (bound : Option Int) : CString :=
  (bound.map printInt).getD []

/-- A bound from either end of the array, or its default. -/
def fromEitherEnd (arraySize : Nat) (default : Int) : Option Int → Int
  | none => default
  | some bound => if bound < 0 then bound + arraySize else bound

namespace OffsetItem

/-- An item as it is written, with canonical decimal numbers. -/
def text : OffsetItem → CString
  | .index value => printInt value
  | .slice start stop => boundText start ++ ':' :: boundText stop

/-- An index of the array, or a slice with bounds that an `int` can hold. -/
def WellFormed (arraySize : Nat) : OffsetItem → Prop
  | .index value => -(arraySize : Int) ≤ value ∧ value < arraySize
  | .slice start stop =>
      (∀ bound ∈ start, -2 ^ 31 < bound ∧ bound < 2 ^ 31) ∧
        ∀ bound ∈ stop, -2 ^ 31 < bound ∧ bound < 2 ^ 31

/-- A slice selects elements of the array, and at least one. -/
def InRange (arraySize : Nat) : OffsetItem → Prop
  | .index _ => True
  | .slice start stop =>
      0 ≤ fromEitherEnd arraySize 0 start ∧
        fromEitherEnd arraySize 0 start <
          fromEitherEnd arraySize arraySize stop ∧
        fromEitherEnd arraySize arraySize stop ≤ arraySize

/-- The offsets of an item, in order. -/
def offsets (arraySize : Nat) : OffsetItem → List Int
  | .index value => [if value < 0 then value + arraySize else value]
  | .slice start stop =>
      offsetRange (fromEitherEnd arraySize 0 start)
        (fromEitherEnd arraySize arraySize stop)

/-- An offset string of items. -/
def listText (items : List OffsetItem) : CString :=
  [','].intercalate (items.map text)

end OffsetItem

/-- `offset_array` with the indexes stored to so far. -/
structure OffsetArray where
  cells : List Int
  stores : List Nat
  currentIndex : Nat
  deriving Repr, DecidableEq

namespace OffsetArray

/-- The array that `cmd_set` allocates and fills with `INT_MIN`. -/
def fresh (arraySize : Nat) : OffsetArray where
  cells := List.replicate arraySize intMin
  stores := []
  currentIndex := 0

/-- `offset_array[current_index++] = offset`. -/
def put (offset : Int) (array : OffsetArray) : OffsetArray where
  cells := array.cells.set array.currentIndex offset
  stores := array.stores ++ [array.currentIndex]
  currentIndex := array.currentIndex + 1

/-- The store of a slice, which looks for room first. -/
def putChecked
    (arraySize : Nat)
    (array : OffsetArray)
    (offset : Int) :
    Except OffsetArray OffsetArray :=
  if arraySize ≤ array.currentIndex then
    .error array
  else
    .ok (array.put offset)

end OffsetArray

/-- One turn of the parser's loop, with the array as it is left on failure. -/
def parseTokenInto
    (garbage : Char)
    (arraySize : Nat)
    (array : OffsetArray)
    (token : CString) :
    Except OffsetArray OffsetArray :=
  if arraySize ≤ array.currentIndex then
    .error array
  else if token.contains ':' then
    match paramSlashParseSlice garbage token intMin intMin with
    | none => .error array
    | some (startIndex, endIndex) =>
        let start := resolveBound arraySize 0 startIndex
        let stop := resolveBound arraySize arraySize endIndex
        if start < 0 then
          .error array
        else if stop < 0 then
          .error array
        else if stop ≤ start then
          .error array
        else if arraySize < stop then
          .error array
        else
          (offsetRange start stop).foldlM
            (OffsetArray.putChecked arraySize) array
  else
    .ok (array.put (resolveIndex arraySize (atoi token)))

/--
`param_offsets_parse_from_str` on the array.  On success `currentIndex` is
`*expected_value_amount`.
-/
def paramOffsetsParseInto
    (garbage : Char)
    (arraySize : Nat) :
    Option CString → Except OffsetArray OffsetArray
  | none =>
      .ok
        ((List.range arraySize).foldl
          (fun array index => array.put (index : Nat))
          (OffsetArray.fresh arraySize))
  | some arg =>
      (tokens (· == ',') arg).foldlM (parseTokenInto garbage arraySize)
        (OffsetArray.fresh arraySize)

/-- The array that a call leaves, whether it succeeds or not. -/
def arrayLeft : Except OffsetArray OffsetArray → OffsetArray
  | .ok array => array
  | .error array => array

section Stores

variable {arraySize : Nat}
variable {array : OffsetArray}
variable {stored : List Int}

/-- All stores are inside an array of this size. -/
def OffsetArray.Inside (arraySize : Nat) (array : OffsetArray) : Prop :=
  ∀ index ∈ array.stores, index < arraySize

/-- The array has this size and begins with the stored offsets. -/
structure OffsetArray.Holds
    (arraySize : Nat)
    (array : OffsetArray)
    (stored : List Int) :
    Prop where
  size : array.cells.length = arraySize
  current : array.currentIndex = stored.length
  fits : stored.length ≤ arraySize
  front : array.cells.take stored.length = stored
  inside : array.Inside arraySize

theorem holds_fresh
    (arraySize : Nat) :
    (OffsetArray.fresh arraySize).Holds arraySize [] where
  size := List.length_replicate
  current := rfl
  fits := Nat.zero_le _
  front := rfl
  inside := by
    simp [OffsetArray.Inside, OffsetArray.fresh]

theorem OffsetArray.Holds.put
    (holds : array.Holds arraySize stored)
    (room : stored.length < arraySize)
    (offset : Int) :
    (array.put offset).Holds arraySize (stored ++ [offset]) where
  size := by
    simp [OffsetArray.put, holds.size]
  current := by
    simp [OffsetArray.put, holds.current]
  fits := by
    rw [List.length_append, List.length_singleton]
    exact room
  front := by
    have inCells : stored.length < array.cells.length := by
      rw [holds.size]
      exact room
    simp only [OffsetArray.put, holds.current, List.length_append,
      List.length_singleton]
    rw [List.take_add_one, List.take_set_of_le (le_refl _), holds.front]
    simp [List.getElem?_set_self inCells]
  inside := by
    intro index member
    rcases List.mem_append.mp member with old | new
    · exact holds.inside index old
    · rw [List.mem_singleton.mp new, holds.current]
      exact room

/-- A run on the array that ends as the run on the stored offsets. -/
inductive Tracks
    (arraySize : Nat) :
    Except OffsetArray OffsetArray → Option (List Int) → Prop where
  | accepted
      {array : OffsetArray}
      {stored : List Int}
      (holds : array.Holds arraySize stored) :
      Tracks arraySize (.ok array) (some stored)
  | refused
      {array : OffsetArray}
      (inside : array.Inside arraySize) :
      Tracks arraySize (.error array) none

theorem Tracks.foldlM
    {α : Type}
    {stepInto : OffsetArray → α → Except OffsetArray OffsetArray}
    {step : List Int → α → Option (List Int)}
    (tracked :
      ∀ array stored item,
        array.Holds arraySize stored →
          Tracks arraySize (stepInto array item) (step stored item))
    (items : List α)
    (holds : array.Holds arraySize stored) :
    Tracks arraySize (items.foldlM stepInto array)
      (items.foldlM step stored) := by
  induction items generalizing array stored with
  | nil =>
      exact .accepted holds
  | cons item items inductionHypothesis =>
      rw [List.foldlM_cons, List.foldlM_cons]
      have turn := tracked array stored item holds
      generalize stepInto array item = outcome at turn ⊢
      generalize step stored item = read at turn ⊢
      cases turn with
      | accepted later =>
          exact inductionHypothesis later
      | refused inside =>
          exact .refused inside

theorem storeOffsets_eq_foldlM
    (offsets : List Int) :
    storeOffsets arraySize stored offsets =
      offsets.foldlM
        (fun stored offset =>
          if arraySize ≤ stored.length then
            none
          else
            some (stored ++ [offset])) stored := by
  induction offsets generalizing stored with
  | nil =>
      rfl
  | cons offset rest inductionHypothesis =>
      rw [List.foldlM_cons, storeOffsets]
      split
      · rfl
      · exact inductionHypothesis

theorem tracks_putChecked
    (array : OffsetArray)
    (stored : List Int)
    (offset : Int)
    (holds : array.Holds arraySize stored) :
    Tracks arraySize (array.putChecked arraySize offset)
      (if arraySize ≤ stored.length then
        none
      else
        some (stored ++ [offset])) := by
  rw [OffsetArray.putChecked, holds.current]
  split
  · exact .refused holds.inside
  · exact .accepted (holds.put (by omega) offset)

/-- One turn of the loop leaves the offsets in the array. -/
theorem tracks_parseToken
    (garbage : Char)
    (array : OffsetArray)
    (stored : List Int)
    (token : CString)
    (holds : array.Holds arraySize stored) :
    Tracks arraySize (parseTokenInto garbage arraySize array token)
      (parseToken garbage arraySize stored token) := by
  unfold parseTokenInto parseToken
  rw [holds.current]
  split
  · exact .refused holds.inside
  · split
    · cases paramSlashParseSlice garbage token intMin intMin with
      | none =>
          exact .refused holds.inside
      | some bounds =>
          simp only
          split_ifs
          · exact .refused holds.inside
          · exact .refused holds.inside
          · exact .refused holds.inside
          · exact .refused holds.inside
          · rw [storeOffsets_eq_foldlM]
            exact Tracks.foldlM tracks_putChecked _ holds
    · exact .accepted (holds.put (by omega) _)

/-- The offsets of the whole array, stored one by one. -/
theorem holds_range
    (count : Nat)
    (fits : count ≤ arraySize) :
    ((List.range count).foldl
        (fun array index => array.put (index : Nat))
        (OffsetArray.fresh arraySize)).Holds
      arraySize ((List.range count).map fun index : Nat => (index : Int)) := by
  induction count with
  | zero =>
      exact holds_fresh arraySize
  | succ count inductionHypothesis =>
      have earlier := inductionHypothesis (by omega)
      rw [List.range_succ, List.foldl_append, List.map_append]
      exact earlier.put (by rwa [List.length_map, List.length_range]) count

/-- The parser leaves the offsets it returns in the array. -/
theorem tracks_paramOffsetsParse
    (garbage : Char)
    (arraySize : Nat)
    (arg : Option CString) :
    Tracks arraySize (paramOffsetsParseInto garbage arraySize arg)
      (paramOffsetsParseFromStr garbage arraySize arg) := by
  cases arg with
  | none =>
      exact .accepted (holds_range arraySize (le_refl _))
  | some arg =>
      exact
        Tracks.foldlM (tracks_parseToken garbage) _ (holds_fresh arraySize)

theorem Tracks.holds
    {outcome : Except OffsetArray OffsetArray}
    {read : Option (List Int)}
    (tracked : Tracks arraySize outcome read)
    (accepted : outcome = .ok array) :
    ∃ stored, read = some stored ∧ array.Holds arraySize stored := by
  subst accepted
  cases tracked with
  | accepted holds =>
      exact ⟨_, rfl, holds⟩

theorem Tracks.exists_ok
    {outcome : Except OffsetArray OffsetArray}
    (tracked : Tracks arraySize outcome (some stored)) :
    ∃ array, outcome = .ok array := by
  cases tracked with
  | accepted holds =>
      exact ⟨_, rfl⟩

/-- Whatever the parser is given, it stores inside the array. -/
theorem inside_arrayLeft
    (garbage : Char)
    (arraySize : Nat)
    (arg : Option CString) :
    (arrayLeft (paramOffsetsParseInto garbage arraySize arg)).Inside
      arraySize := by
  have tracked := tracks_paramOffsetsParse garbage arraySize arg
  generalize paramOffsetsParseInto garbage arraySize arg = outcome at tracked ⊢
  generalize paramOffsetsParseFromStr garbage arraySize arg = read at tracked
  cases tracked with
  | accepted holds =>
      exact holds.inside
  | refused inside =>
      exact inside

end Stores

section Items

variable {arraySize : Nat}
variable {item : OffsetItem}
variable {items : List OffsetItem}

theorem not_mem_printInt
    {c : Char}
    (noSign : c ≠ '-')
    (noDigit : c.isDigit = false)
    (value : Int) :
    c ∉ printInt value := by
  intro member
  rcases mem_printInt member with sign | digit
  · exact noSign sign
  · simp [noDigit] at digit

theorem not_mem_boundText
    {c : Char}
    (noSign : c ≠ '-')
    (noDigit : c.isDigit = false)
    (bound : Option Int) :
    c ∉ boundText bound := by
  cases bound with
  | none =>
      simp [boundText]
  | some value =>
      exact not_mem_printInt noSign noDigit value

theorem printInt_ne_nil
    (value : Int) :
    printInt value ≠ [] := by
  unfold printInt
  split
  · exact List.cons_ne_nil _ _
  · exact (isNumeral_printUnsigned _).1

theorem OffsetItem.text_ne_nil
    (item : OffsetItem) :
    item.text ≠ [] := by
  cases item with
  | index value =>
      exact printInt_ne_nil value
  | slice start stop =>
      simp [OffsetItem.text]

theorem OffsetItem.comma_not_mem_text
    (item : OffsetItem) :
    ',' ∉ item.text := by
  cases item with
  | index value =>
      exact not_mem_printInt (by decide) (by decide) value
  | slice start stop =>
      have before := not_mem_boundText (c := ',') (by decide) (by decide) start
      have behind := not_mem_boundText (c := ',') (by decide) (by decide) stop
      simp [OffsetItem.text, before, behind]

/-- The items of a list are found again. -/
theorem tokens_listText
    (nonempty : items ≠ []) :
    tokens (· == ',') (OffsetItem.listText items) =
      items.map OffsetItem.text := by
  have pieces :
      (OffsetItem.listText items).splitOn ',' =
        items.map OffsetItem.text := by
    refine List.splitOn_intercalate ',' ?_ (by simpa using nonempty)
    intro piece member
    obtain ⟨item, _, rfl⟩ := List.mem_map.mp member
    exact item.comma_not_mem_text
  rw [tokens, ← List.splitOn_eq_splitOnP, pieces, List.filter_eq_self]
  intro piece member
  obtain ⟨item, _, rfl⟩ := List.mem_map.mp member
  simpa using item.text_ne_nil

/-- A number in front of a colon leaves a lone piece. -/
theorem lonePiece_printInt
    {value : Int}
    (above : -2 ^ 31 < value)
    (below : value < 2 ^ 31) :
    LonePiece (printInt value ++ [':']) := by
  have pieces :
      tokens (· == ':') (printInt value ++ [':']) = [printInt value] := by
    rw [tokens_append_delimiter _ (by simp),
      tokens_of_not_mem (printInt_ne_nil value)
        (not_mem_printInt (by decide) (by decide) value)]
    rfl
  rw [LonePiece, pieces]
  rcases eq_or_ne value 0 with rfl | nonzero
  · exact .inr (by decide)
  · left
    have scanned := @scanNumeral_printInt [] value (by simp [NoDigitAhead])
    have digits := (isNumeral_printUnsigned value.natAbs).2.2
    rw [List.append_nil] at scanned
    simp only [strtoul, scanned, digits, value_printInt]
    rw [if_neg (by omega)]
    simp only
    omega

/-- A slice is read as its bounds. -/
theorem sliceRead_text
    {start stop : Option Int}
    (wellFormed : (OffsetItem.slice start stop).WellFormed arraySize) :
    SliceRead (OffsetItem.slice start stop).text (start.getD intMin)
      (stop.getD intMin) := by
  obtain ⟨startBounds, stopBounds⟩ := wellFormed
  have colonAhead : ∀ rest, NoDigitAhead 10 (':' :: rest) := by
    simp [NoDigitAhead]
  have ended : NoDigitAhead 10 [] := by
    simp [NoDigitAhead]
  have readStop :
      ∀ bound ∈ stop, scanInt (printInt bound) = some (bound, []) := by
    intro bound member
    obtain ⟨above, below⟩ := stopBounds bound member
    have scanned := scanInt_printInt above.le below ended
    rwa [List.append_nil] at scanned
  cases start with
  | none =>
      cases stop with
      | none =>
          exact .whole (by decide) trivial
      | some stop =>
          exact .openStart (readStop stop rfl)
  | some start =>
      obtain ⟨above, below⟩ := startBounds start rfl
      have readStart := fun rest =>
        scanInt_printInt above.le below (colonAhead rest)
      cases stop with
      | none =>
          exact .openEnd (readStart []) (by decide)
            (lonePiece_printInt above below)
      | some stop =>
          exact .closed (readStart _) (readStop stop rfl)

theorem SliceRead.unique
    {text : CString}
    {start stop otherStart otherStop : Int}
    (colon : ':' ∈ text)
    (read : SliceRead text start stop)
    (other : SliceRead text otherStart otherStop) :
    otherStart = start ∧ otherStop = stop := by
  have first := (@paramSlashParseSlice_eq_some_iff nul _ _ _ colon).mpr read
  have second := (@paramSlashParseSlice_eq_some_iff nul _ _ _ colon).mpr other
  rw [first] at second
  simpa [eq_comm] using second

/-- A bound that was read is counted from either end. -/
theorem resolveBound_getD
    {bound : Option Int}
    (bounds : ∀ value ∈ bound, -2 ^ 31 < value ∧ value < 2 ^ 31)
    {default : Int}
    (fromStart : 0 ≤ default) :
    resolveBound arraySize default (bound.getD intMin) =
      fromEitherEnd arraySize default bound := by
  cases bound with
  | none =>
      simp [resolveBound, fromEitherEnd, fromStart.not_gt]
  | some value =>
      have given : value ≠ intMin := by
        have above := (bounds value rfl).1
        rw [intMin]
        omega
      simp only [resolveBound, fromEitherEnd, Option.getD_some, given, ne_eq,
        not_false_eq_true, if_true]
      split
      · exact Int.add_comm _ _
      · rfl

/-- An index of the array is read as itself. -/
theorem atoi_printInt
    {value : Int}
    (above : -2 ^ 31 ≤ value)
    (below : value < 2 ^ 31) :
    atoi (printInt value) = value := by
  have scanned :=
    @scanInt_printInt [] value above below (by simp [NoDigitAhead])
  rw [List.append_nil] at scanned
  rw [atoi_eq_scanInt, scanned]
  rfl

/-- An index denotes the element it counts to from either end. -/
theorem denotes_index_iff
    {value : Int}
    {offsets : List Int}
    (above : -2 ^ 31 ≤ value)
    (below : value < 2 ^ 31) :
    Denotes arraySize (printInt value) offsets ↔
      offsets = [if value < 0 then value + arraySize else value] := by
  have noColon : ':' ∉ printInt value :=
    not_mem_printInt (by decide) (by decide) value
  have resolved :
      resolveIndex arraySize (atoi (printInt value)) =
        if value < 0 then value + arraySize else value := by
    rw [atoi_printInt above below, resolveIndex]
  rw [← resolved]
  constructor
  · rintro (_ | ⟨colon, _, _, _, _⟩)
    · rfl
    · exact absurd colon noColon
  · rintro rfl
    exact .index noColon

/-- An item denotes its offsets, if it is in range. -/
theorem denotes_text_iff
    {offsets : List Int}
    (int : arraySize < 2 ^ 31)
    (wellFormed : item.WellFormed arraySize) :
    Denotes arraySize item.text offsets ↔
      item.InRange arraySize ∧ offsets = item.offsets arraySize := by
  cases item with
  | index value =>
      obtain ⟨above, below⟩ := wellFormed
      refine (denotes_index_iff (by omega) (by omega)).trans ?_
      exact (and_iff_right trivial).symm
  | slice start stop =>
      have read := sliceRead_text wellFormed
      have colon : ':' ∈ (OffsetItem.slice start stop).text := by
        simp [OffsetItem.text]
      have startIs :
          resolveBound arraySize 0 (start.getD intMin) =
            fromEitherEnd arraySize 0 start :=
        resolveBound_getD wellFormed.1 (le_refl _)
      have stopIs :
          resolveBound arraySize arraySize (stop.getD intMin) =
            fromEitherEnd arraySize arraySize stop :=
        resolveBound_getD wellFormed.2 (by omega)
      constructor
      · rintro (noColon | ⟨_, other, start_nonneg, nonempty, inRange⟩)
        · exact absurd colon noColon
        · obtain ⟨rfl, rfl⟩ := read.unique colon other
          rw [startIs, stopIs] at nonempty
          rw [startIs] at start_nonneg
          rw [stopIs] at inRange
          refine ⟨⟨start_nonneg, nonempty, inRange⟩, ?_⟩
          rw [startIs, stopIs]
          rfl
      · rintro ⟨⟨start_nonneg, nonempty, inRange⟩, rfl⟩
        rw [← startIs] at start_nonneg nonempty
        rw [← stopIs] at nonempty inRange
        have denotes := Denotes.slice colon read start_nonneg nonempty inRange
        rwa [startIs, stopIs] at denotes

/-- The items of a list denote their offsets, if all are in range. -/
theorem forall₂_denotes_iff
    {parts : List (List Int)}
    (int : arraySize < 2 ^ 31)
    (wellFormed : ∀ item ∈ items, item.WellFormed arraySize) :
    List.Forall₂ (Denotes arraySize) (items.map OffsetItem.text) parts ↔
      (∀ item ∈ items, item.InRange arraySize) ∧
        parts = items.map (OffsetItem.offsets arraySize) := by
  induction items generalizing parts with
  | nil =>
      simp [List.forall₂_nil_left_iff]
  | cons item items inductionHypothesis =>
      have head := wellFormed item List.mem_cons_self
      have tail := fun parts =>
        @inductionHypothesis parts fun other member =>
          wellFormed other (List.mem_cons_of_mem _ member)
      simp only [List.map_cons, List.forall₂_cons_left_iff,
        denotes_text_iff int head, tail, List.forall_mem_cons]
      constructor
      · rintro ⟨_, _, ⟨inRange, rfl⟩, ⟨others, rfl⟩, rfl⟩
        exact ⟨⟨inRange, others⟩, rfl⟩
      · rintro ⟨⟨inRange, others⟩, rfl⟩
        exact ⟨_, _, ⟨inRange, rfl⟩, ⟨others, rfl⟩, rfl⟩

/-- A list of items is read as all their offsets, if they are in range. -/
theorem reads_listText_iff
    {offsets : List Int}
    (int : arraySize < 2 ^ 31)
    (nonempty : items ≠ [])
    (wellFormed : ∀ item ∈ items, item.WellFormed arraySize) :
    Reads arraySize (OffsetItem.listText items) offsets ↔
      (∀ item ∈ items, item.InRange arraySize) ∧
        offsets = items.flatMap (OffsetItem.offsets arraySize) ∧
        offsets.length ≤ arraySize := by
  unfold Reads
  rw [tokens_listText nonempty]
  simp only [forall₂_denotes_iff int wellFormed]
  constructor
  · rintro ⟨_, ⟨inRange, rfl⟩, rfl, fits⟩
    exact ⟨inRange, by rw [List.flatMap], fits⟩
  · rintro ⟨inRange, rfl, fits⟩
    exact ⟨_, ⟨inRange, rfl⟩, by rw [List.flatMap], fits⟩

end Items

/--
A list of canonical items is accepted exactly when its slices are in range and
its offsets fit; the array then begins with them, one behind the other.  No
string makes the parser store outside the array.
-/
theorem paramOffsetsParseInto_listText
    (garbage : Char)
    (arraySize : Nat)
    (int : arraySize < 2 ^ 31)
    (items : List OffsetItem)
    (nonempty : items ≠ [])
    (wellFormed : ∀ item ∈ items, item.WellFormed arraySize) :
    ((∃ array,
          paramOffsetsParseInto garbage arraySize
              (some (OffsetItem.listText items)) =
            .ok array) ↔
        (∀ item ∈ items, item.InRange arraySize) ∧
          (items.flatMap (OffsetItem.offsets arraySize)).length ≤
            arraySize) ∧
      (∀ array,
        paramOffsetsParseInto garbage arraySize
              (some (OffsetItem.listText items)) =
            .ok array →
          array.currentIndex =
              (items.flatMap (OffsetItem.offsets arraySize)).length ∧
            array.cells.take array.currentIndex =
              items.flatMap (OffsetItem.offsets arraySize)) ∧
      ∀ arg,
        (arrayLeft (paramOffsetsParseInto garbage arraySize arg)).Inside
          arraySize := by
  have reads :=
    fun offsets =>
      (@paramOffsetsParseFromStr_eq_some_iff arraySize garbage
        (OffsetItem.listText items) offsets).trans
          (reads_listText_iff int nonempty wellFormed)
  have tracked :=
    tracks_paramOffsetsParse garbage arraySize
      (some (OffsetItem.listText items))
  refine ⟨⟨?_, ?_⟩, ?_, inside_arrayLeft garbage arraySize⟩
  · rintro ⟨array, accepted⟩
    obtain ⟨stored, read, _⟩ := tracked.holds accepted
    obtain ⟨inRange, rfl, fits⟩ := (reads stored).mp read
    exact ⟨inRange, fits⟩
  · rintro ⟨inRange, fits⟩
    have read := (reads _).mpr ⟨inRange, rfl, fits⟩
    rw [read] at tracked
    exact tracked.exists_ok
  · intro array accepted
    obtain ⟨stored, read, holds⟩ := tracked.holds accepted
    obtain ⟨_, rfl, _⟩ := (reads stored).mp read
    refine ⟨holds.current, ?_⟩
    rw [holds.current]
    exact holds.front

/-- The items `2:-1` and `-1` of an array of five elements. -/
theorem paramOffsetsParseInto_slice_and_last :
    (∀ item ∈ [OffsetItem.slice (some 2) (some (-1)), .index (-1)],
        item.WellFormed 5) ∧
      ((∃ array,
            paramOffsetsParseInto ' ' 5
                (some
                  (OffsetItem.listText
                    [.slice (some 2) (some (-1)), .index (-1)])) =
              .ok array) ↔
          (∀ item ∈ [OffsetItem.slice (some 2) (some (-1)), .index (-1)],
              item.InRange 5) ∧
            ([OffsetItem.slice (some 2) (some (-1)), .index (-1)].flatMap
                (OffsetItem.offsets 5)).length ≤
              5) := by
  have wellFormed :
      ∀ item ∈ [OffsetItem.slice (some 2) (some (-1)), .index (-1)],
        item.WellFormed 5 := by
    simp [OffsetItem.WellFormed]
  exact
    ⟨wellFormed,
      (paramOffsetsParseInto_listText ' ' 5 (by decide) _ (by simp)
        wellFormed).1⟩

end Csh.ParamOffsets
