import Csh.BinFile

namespace Csh.Spaceboot

open Libc

/-!
# What the validation of a file reads

`is_valid_binary` looks for markers at the end of a file, copies three strings
without knowing where they end, and takes addresses from fixed places, of a
file that has four bytes or more.  Here it keeps a log of every index that it
reads and of every string that it stores.
-/

/-- A byte that is read, or a string that is copied to an array of 33 bytes. -/
inductive ImageEvent where
  | read (index : Int)
  | stored (source : List UInt8)
  deriving Repr, DecidableEq

/--
The byte lies in the file; the array has a NUL behind the copy of at most 32
bytes, whatever it held before.
-/
def ImageEvent.Safe (len : Nat) : ImageEvent → Prop
  | .read index => 0 ≤ index ∧ index < len
  | .stored source =>
      ∀ array : List UInt8,
        array.length = 32 + 1 → 0 ∈ strncpy 0 32 array source

/-- The reads of some bytes from an index on. -/
def readsFrom (index : Int) (count : Nat) : List ImageEvent :=
  (List.range count).map fun offset : Nat => .read (index + offset)

/-- The backward search compares until it finds the marker. -/
def searchReads (image : Image) : List Int → List ImageEvent
  | [] => []
  | position :: later =>
      readsFrom position 4 ++
        if image.hasMarker position beginMarker then
          []
        else
          searchReads image later

/-- The positions of the backward search. -/
def searchWindow (image : Image) : List Int :=
  (List.range 249).map fun step : Nat => (image.len : Int) - 9 - step

/-- The words at these offsets are read until one lies in the slot. -/
def entryWordReads
    (binf : BinInfo)
    (image : Image) :
    List Nat → List ImageEvent
  | [] => []
  | offset :: later =>
      readsFrom offset 4 ++
        if binf.inSlot (image.word offset) then
          []
        else
          entryWordReads binf image later

/-- The reads of `BinInfo.hasEntry`. -/
def entryReads (binf : BinInfo) (image : Image) : List ImageEvent :=
  if binf.fits image.len then
    entryWordReads binf image entryOffsets
  else
    []

/-- `identStrings` with its log: `strncpy` reads, stores, and `strlen` reads. -/
def loggedStrings
    (image : Image) :
    Nat → Int → BinFileIdent → List ImageEvent × BinFileIdent
  | 0, _, ident => ([], ident)
  | toGo + 1, identIter, ident =>
      if identIter < image.len - 4 then
        let text := image.text identIter
        let ident := ident.setString (3 - (toGo + 1)) text
        let later :=
          loggedStrings image toGo (identIter + text.length + 1)
            { ident with valid := true }
        (readsFrom identIter (min 32 (text.length + 1)) ++
          .stored text :: (readsFrom identIter (text.length + 1) ++ later.1),
          later.2)
      else
        ([], ident)

/-- `isValidImage` with its log. -/
def loggedValidImage
    (binf : BinInfo)
    (image : Image)
    (uninitialised : BinFileIdent) :
    List ImageEvent × Bool × BinFileIdent :=
  let ident := { uninitialised with valid := false }
  let atEnd := readsFrom (image.len - 4) 4
  if image.hasMarker (image.len - 4) endMarker then
    let atEnd := atEnd ++ readsFrom (image.len - 8) 4
    let ident := { ident with stext := image.word (image.len - 8) }
    if binf.inSlot ident.stext && binf.fits image.len then
      let searched := atEnd ++ searchReads image (searchWindow image)
      match findIdentBegin image with
      | some identBegin =>
          if identBegin < image.len - 4 then
            let strings := loggedStrings image 3 identBegin ident
            (searched ++ strings.1, true, strings.2)
          else
            (searched ++ entryReads binf image, binf.hasEntry image, ident)
      | none =>
          (searched ++ entryReads binf image, binf.hasEntry image, ident)
    else
      (atEnd, false, ident)
  else
    (atEnd ++ entryReads binf image, binf.hasEntry image, ident)

section Log

variable {binf : BinInfo}
variable {image : Image}

theorem loggedStrings_result
    (toGo : Nat)
    (identIter : Int)
    (ident : BinFileIdent) :
    (loggedStrings image toGo identIter ident).2 =
      identStrings image toGo identIter ident := by
  induction toGo generalizing identIter ident with
  | zero =>
      rfl
  | succ toGo inductionHypothesis =>
      rw [loggedStrings, identStrings]
      split
      · exact inductionHypothesis _ _
      · rfl

/-- The log changes nothing. -/
theorem loggedValidImage_result
    (binf : BinInfo)
    (image : Image)
    (uninitialised : BinFileIdent) :
    (loggedValidImage binf image uninitialised).2 =
      isValidImage binf image uninitialised := by
  unfold loggedValidImage isValidImage
  dsimp only
  split
  · split
    · cases findIdentBegin image with
      | none =>
          rfl
      | some identBegin =>
          dsimp only
          split
          · exact Prod.ext rfl (loggedStrings_result _ _ _)
          · rfl
    · rfl
  · rfl

/-- Every event of the log is safe. -/
def AllSafe (image : Image) (events : List ImageEvent) : Prop :=
  ∀ event ∈ events, event.Safe image.len

theorem allSafe_append_iff
    {first second : List ImageEvent} :
    AllSafe image (first ++ second) ↔
      AllSafe image first ∧ AllSafe image second :=
  List.forall_mem_append

theorem allSafe_cons_iff
    {event : ImageEvent}
    {events : List ImageEvent} :
    AllSafe image (event :: events) ↔
      event.Safe image.len ∧ AllSafe image events :=
  List.forall_mem_cons

@[simp] theorem allSafe_nil :
    AllSafe image [] := by
  simp [AllSafe]

theorem allSafe_readsFrom_iff
    {index : Int}
    {count : Nat}
    (some_ : 0 < count) :
    AllSafe image (readsFrom index count) ↔
      0 ≤ index ∧ index + count ≤ image.len := by
  simp only [AllSafe, readsFrom, List.forall_mem_map, List.mem_range,
    ImageEvent.Safe]
  constructor
  · intro inside
    have first := inside 0 some_
    have last := inside (count - 1) (by omega)
    omega
  · intro inside offset below
    omega

/-- A copied string is terminated for certain if it is shorter than 32. -/
theorem safe_stored_iff
    {source : List UInt8}
    (noNul : 0 ∉ source) :
    (ImageEvent.stored source).Safe image.len ↔ source.length < 32 := by
  constructor
  · intro terminated
    by_contra long
    have stored := terminated (List.replicate (32 + 1) 255) (by simp)
    rw [strncpy, Nat.sub_eq_zero_of_le (Nat.le_of_not_lt long),
      List.replicate_zero, List.append_nil, List.mem_append] at stored
    rcases stored with copied | kept
    · exact noNul (List.mem_of_mem_take copied)
    · exact absurd (List.eq_of_mem_replicate (List.mem_of_mem_drop kept))
        (by decide)
  · intro short array _
    have padded : 0 ∈ List.replicate (32 - source.length) (0 : UInt8) :=
      List.mem_replicate.mpr ⟨by omega, rfl⟩
    rw [strncpy]
    exact List.mem_append_left _ (List.mem_append_right _ padded)

end Log

/--
What stands behind the begin marker can be read as strings: as many as are
still looked for end with a NUL and are shorter than 32 bytes, up to the last
four bytes of the file.
-/
def StringsInside : Nat → List UInt8 → Prop
  | 0, _ => True
  | toGo + 1, rest =>
      4 < rest.length →
        ∃ text later,
          rest = text ++ 0 :: later ∧ 0 ∉ text ∧ text.length < 32 ∧
            StringsInside toGo later

/-- The words that are read lie in the file. -/
def EntryInside (binf : BinInfo) (image : Image) : Prop :=
  binf.fits image.len = true →
    8 ≤ image.len ∧ (binf.inSlot (image.word 4) = true ∨ 712 ≤ image.len)

/-- The last begin marker that the search reaches. -/
structure LastBegin (image : Image) (position : Nat) : Prop where
  before_end : position + 9 ≤ image.len
  reached : image.len ≤ position + 257
  isBegin : image.hasMarker position beginMarker = true
  last :
    ∀ later : Nat,
      position < later →
        later + 9 ≤ image.len → image.hasMarker later beginMarker = false

/-- The file ends with the end marker. -/
def Image.EndsWithMarker (image : Image) : Prop :=
  image.hasMarker (image.len - 4) endMarker = true

instance (image : Image) : Decidable image.EndsWithMarker :=
  inferInstanceAs (Decidable (_ = true))

/-- The address in front of the end marker, and the length, suit the slot. -/
def BinInfo.SuitsTrailer (binf : BinInfo) (image : Image) : Prop :=
  binf.inSlot (image.word (image.len - 8)) = true ∧
    binf.fits image.len = true

/-- The files that are validated without reading or storing outside. -/
inductive ReadsSafely (binf : BinInfo) (image : Image) : Prop where
  | entry
      (noEnd : ¬ image.EndsWithMarker)
      (entry : EntryInside binf image)
  | otherSlot
      (isEnd : image.EndsWithMarker)
      (long : 8 ≤ image.len)
      (other : ¬ binf.SuitsTrailer image)
  | noBegin
      (isEnd : image.EndsWithMarker)
      (long : 257 ≤ image.len)
      (noBegin :
        ∀ position : Nat,
          position + 9 ≤ image.len →
            image.len ≤ position + 257 →
              image.hasMarker position beginMarker = false)
      (entry : EntryInside binf image)
  | strings
      (isEnd : image.EndsWithMarker)
      {position : Nat}
      (begins : LastBegin image position)
      (strings : StringsInside 3 (image.data.drop (position + 4)))

section Conditions

variable {binf : BinInfo}
variable {image : Image}

/-- The memory behind an index of the file. -/
theorem text_eq
    {index : Nat}
    (inside : index ≤ image.len) :
    image.text index =
      (image.data.drop index ++ image.behind).takeWhile (· != 0) := by
  have notBefore : ¬ (index : Int) < 0 := by omega
  rw [Image.text, Image.memoryFrom, if_neg notBefore, Int.toNat_natCast,
    List.drop_append_of_le_length inside]

/-- A string that ends in the file stands there with its NUL. -/
theorem exists_of_takeWhile_lt
    {rest behind : List UInt8}
    (ends : ((rest ++ behind).takeWhile (· != 0)).length < rest.length) :
    ∃ later, rest = (rest ++ behind).takeWhile (· != 0) ++ 0 :: later := by
  induction rest with
  | nil =>
      simp at ends
  | cons byte rest inductionHypothesis =>
      by_cases isNul : byte = 0
      · refine ⟨rest, ?_⟩
        simp [isNul]
      · have goesOn : (byte != 0) = true := by
          simpa using isNul
        simp only [List.cons_append, List.takeWhile_cons, goesOn,
          ↓reduceIte, List.length_cons, Nat.add_lt_add_iff_right] at ends ⊢
        obtain ⟨later, shape⟩ := inductionHypothesis ends
        exact ⟨later, by rw [← shape]⟩

theorem zero_not_mem_takeWhile
    (bytes : List UInt8) :
    0 ∉ bytes.takeWhile (· != 0) := by
  intro member
  have nonzero := List.mem_takeWhile_imp member
  exact absurd nonzero (by decide)

/-- A string with its NUL in the file is the text at its index. -/
theorem stringAt_of_drop
    {index : Nat}
    {text later : List UInt8}
    (inside : index ≤ image.len)
    (shape : image.data.drop index = text ++ 0 :: later)
    (noNul : 0 ∉ text) :
    image.text index = text ∧
      index + text.length + 1 ≤ image.len ∧
      image.data.drop (index + text.length + 1) = later := by
  have length := congrArg List.length shape
  rw [List.length_drop, List.length_append, List.length_cons] at length
  refine ⟨?_, ?_, ?_⟩
  · rw [text_eq inside, shape, List.append_assoc, List.cons_append,
      takeWhile_append_mark noNul]
  · unfold Image.len
    omega
  · rw [Nat.add_assoc, ← List.drop_drop, shape, List.append_cons]
    exact List.drop_left' (by simp)

/-- One string, and those behind it. -/
theorem allSafe_loggedStrings_iff
    (toGo : Nat)
    {identIter : Nat}
    (inside : identIter ≤ image.len)
    (ident : BinFileIdent) :
    AllSafe image (loggedStrings image toGo identIter ident).1 ↔
      StringsInside toGo (image.data.drop identIter) := by
  induction toGo generalizing identIter ident with
  | zero =>
      exact iff_of_true allSafe_nil trivial
  | succ toGo inductionHypothesis =>
      rw [loggedStrings, StringsInside, List.length_drop]
      by_cases goesOn : (identIter : Int) < image.len - 4
      · have more : 4 < image.data.length - identIter := by
          unfold Image.len at goesOn
          omega
        have textIs := text_eq inside
        have noNul : 0 ∉ image.text identIter :=
          zero_not_mem_takeWhile _
        rw [if_pos goesOn]
        dsimp only
        rw [allSafe_append_iff, allSafe_cons_iff, allSafe_append_iff,
          allSafe_readsFrom_iff (by omega), safe_stored_iff noNul,
          allSafe_readsFrom_iff (Nat.succ_pos _)]
        simp only [more, forall_const]
        constructor
        · rintro ⟨_, short, ⟨_, ends⟩, later⟩
          obtain ⟨behind, shape⟩ :=
            @exists_of_takeWhile_lt (image.data.drop identIter) image.behind
              (by
                rw [← textIs, List.length_drop]
                unfold Image.len at ends
                omega)
          rw [← textIs] at shape
          obtain ⟨_, within, rest⟩ := stringAt_of_drop inside shape noNul
          have next :=
            inductionHypothesis within
              { ident.setString (3 - (toGo + 1)) (image.text identIter) with
                valid := true }
          rw [rest] at next
          exact ⟨_, behind, shape, noNul, short, next.mp later⟩
        · rintro ⟨text, behind, shape, textNoNul, short, strings⟩
          obtain ⟨same, within, rest⟩ :=
            stringAt_of_drop inside shape textNoNul
          have next :=
            inductionHypothesis within
              { ident.setString (3 - (toGo + 1)) text with valid := true }
          rw [rest] at next
          rw [same]
          refine
            ⟨⟨Int.natCast_nonneg _, by omega⟩, short,
              ⟨Int.natCast_nonneg _, by omega⟩, next.mpr strings⟩
      · have noMore : ¬ 4 < image.data.length - identIter := by
          unfold Image.len at goesOn
          omega
        rw [if_neg goesOn]
        exact iff_of_true allSafe_nil fun more => absurd more noMore

/-- The search reads up to the first position with the marker. -/
theorem allSafe_searchReads_iff
    (positions : List Int) :
    AllSafe image (searchReads image positions) ↔
      ∀ index (inside : index < positions.length),
        (∀ earlier (before : earlier < index),
          image.hasMarker (positions[earlier]) beginMarker = false) →
          0 ≤ positions[index] ∧ positions[index] + 4 ≤ image.len := by
  induction positions with
  | nil =>
      simp [searchReads]
  | cons position later inductionHypothesis =>
      rw [searchReads, allSafe_append_iff, allSafe_readsFrom_iff (by decide)]
      by_cases found : image.hasMarker position beginMarker = true
      · rw [if_pos found]
        constructor
        · rintro ⟨first, _⟩ index inside earlier
          cases index with
          | zero =>
              exact first
          | succ index =>
              have notFound := earlier 0 (Nat.succ_pos index)
              simp [found] at notFound
        · intro all
          exact ⟨all 0 (Nat.succ_pos _) (by simp), allSafe_nil⟩
      · rw [if_neg found, inductionHypothesis]
        constructor
        · rintro ⟨first, behind⟩ index inside earlier
          cases index with
          | zero =>
              exact first
          | succ index =>
              exact behind index (Nat.lt_of_succ_lt_succ inside)
                fun other before => earlier (other + 1) (by omega)
        · intro all
          refine
            ⟨all 0 (Nat.succ_pos _) (by simp), fun index inside earlier => ?_⟩
          refine all (index + 1) (Nat.succ_lt_succ inside) ?_
          intro other before
          cases other with
          | zero =>
              simpa using found
          | succ other =>
              exact earlier other (by omega)

/-- The search of a file stays inside while it has not found the marker. -/
theorem allSafe_searchWindow_iff :
    AllSafe image (searchReads image (searchWindow image)) ↔
      ∀ step : Nat,
        step < 249 →
          (∀ earlier : Nat,
            earlier < step →
              image.hasMarker (image.len - 9 - earlier) beginMarker =
                false) →
            step + 9 ≤ image.len := by
  have window :
      ∀ step (inside : step < (searchWindow image).length),
        (searchWindow image)[step] = image.len - 9 - step := by
    intro step inside
    simp [searchWindow]
  have length : (searchWindow image).length = 249 := by
    simp [searchWindow]
  rw [allSafe_searchReads_iff]
  constructor
  · intro all step below earlier
    have inside :=
      all step (length ▸ below) fun other before => by
        rw [window]
        exact earlier other before
    rw [window] at inside
    omega
  · intro all step inside earlier
    have reached :=
      all step (length ▸ inside) fun other before => by
        rw [← window other (by omega)]
        exact earlier other before
    rw [window]
    omega

theorem allSafe_entryWordReads_cons_iff
    {offset : Nat}
    {later : List Nat} :
    AllSafe image (entryWordReads binf image (offset :: later)) ↔
      offset + 4 ≤ image.len ∧
        (binf.inSlot (image.word offset) = true ∨
          AllSafe image (entryWordReads binf image later)) := by
  rw [entryWordReads, allSafe_append_iff, allSafe_readsFrom_iff (by decide)]
  refine and_congr (by omega) ?_
  split
  · rename_i found
    exact iff_of_true allSafe_nil (.inl found)
  · rename_i notFound
    exact (or_iff_right notFound).symm

theorem allSafe_entryReads_iff :
    AllSafe image (entryReads binf image) ↔ EntryInside binf image := by
  rw [entryReads, EntryInside]
  split
  · rename_i fits
    rw [entryOffsets, allSafe_entryWordReads_cons_iff,
      allSafe_entryWordReads_cons_iff]
    simp only [fits, forall_const, entryWordReads, allSafe_nil, or_true,
      and_true]
    exact Iff.rfl
  · rename_i tooLong
    exact iff_of_true allSafe_nil fun fits => absurd fits tooLong

theorem findIdentBegin_eq :
    findIdentBegin image =
      ((searchWindow image).find? (image.hasMarker · beginMarker)).map
        (· + 4) :=
  rfl

/-- The search finds nothing if the marker is at none of its positions. -/
theorem findIdentBegin_eq_none_iff :
    findIdentBegin image = none ↔
      ∀ step : Nat,
        step < 249 →
          image.hasMarker (image.len - 9 - step) beginMarker = false := by
  rw [findIdentBegin_eq, Option.map_eq_none_iff, List.find?_eq_none]
  simp only [searchWindow, List.forall_mem_map, List.mem_range,
    Bool.not_eq_true]

/-- The step at which the search comes to a position of the file. -/
theorem windowIndex_eq
    {position : Nat}
    (inFile : position + 9 ≤ image.len) :
    (image.len : Int) - 9 - ((image.len - 9 - position : Nat) : Int) =
      position := by
  omega

/-- The position that the search comes to at a step. -/
theorem windowPosition_eq
    {step : Nat}
    (inside : step + 9 ≤ image.len) :
    ((image.len - 9 - step : Nat) : Int) = image.len - 9 - step := by
  omega

/-- The step at which the search finds the marker. -/
structure FirstBegin (image : Image) (step : Nat) : Prop where
  inWindow : step < 249
  isBegin : image.hasMarker (image.len - 9 - step) beginMarker = true
  before :
    ∀ earlier : Nat,
      earlier < step →
        image.hasMarker (image.len - 9 - earlier) beginMarker = false

/-- It finds the marker that it comes to first. -/
theorem exists_firstBegin
    {identBegin : Int}
    (found : findIdentBegin image = some identBegin) :
    ∃ step : Nat,
      FirstBegin image step ∧ identBegin = image.len - 9 - step + 4 := by
  rw [findIdentBegin_eq] at found
  obtain ⟨position, isFirst, rfl⟩ := Option.map_eq_some_iff.mp found
  obtain ⟨isBegin, step, inside, rfl, before⟩ :=
    List.find?_eq_some_iff_getElem.mp isFirst
  simp only [searchWindow, List.length_map, List.length_range,
    List.getElem_map, List.getElem_range] at inside isBegin before ⊢
  refine ⟨step, ⟨inside, isBegin, fun earlier below => ?_⟩, rfl⟩
  simpa using before earlier below

/-- The strings begin in front of the last four bytes. -/
theorem findIdentBegin_lt
    {identBegin : Int}
    (found : findIdentBegin image = some identBegin) :
    identBegin < image.len - 4 := by
  obtain ⟨step, _, rfl⟩ := exists_firstBegin found
  omega

section FirstBegin

variable {step : Nat}

/-- Positions behind the one found have no marker. -/
theorem FirstBegin.hasMarker_eq_false
    (first : FirstBegin image step)
    {position : Nat}
    (inFile : position + 9 ≤ image.len)
    (behind : image.len < position + 9 + step) :
    image.hasMarker position beginMarker = false := by
  have none := first.before (image.len - 9 - position) (by omega)
  rwa [windowIndex_eq inFile] at none

/-- The last begin marker is the one found, if the search stays inside. -/
theorem FirstBegin.lastBegin
    (first : FirstBegin image step)
    (inside : step + 9 ≤ image.len) :
    LastBegin image (image.len - 9 - step) := by
  have inWindow := first.inWindow
  refine ⟨by omega, by omega, ?_, fun later behind inFile => ?_⟩
  · rw [windowPosition_eq inside]
    exact first.isBegin
  · exact first.hasMarker_eq_false inFile (by omega)

/-- Where there is a last begin marker it is the one found. -/
theorem FirstBegin.eq_of_lastBegin
    (first : FirstBegin image step)
    {position : Nat}
    (begins : LastBegin image position) :
    step + 9 ≤ image.len ∧ position = image.len - 9 - step := by
  have inFile := begins.before_end
  have notBehind : ¬ image.len < position + 9 + step := by
    intro behind
    have none := first.hasMarker_eq_false inFile behind
    rw [begins.isBegin] at none
    cases none
  have inside : step + 9 ≤ image.len := by omega
  refine ⟨inside, ?_⟩
  by_contra other
  have none := begins.last (image.len - 9 - step) (by omega) (by omega)
  rw [windowPosition_eq inside, first.isBegin] at none
  cases none

/-- The search stays inside if the position it stops at does. -/
theorem FirstBegin.allSafe_iff
    (first : FirstBegin image step) :
    AllSafe image (searchReads image (searchWindow image)) ↔
      step + 9 ≤ image.len := by
  rw [allSafe_searchWindow_iff]
  constructor
  · intro reached
    exact reached step first.inWindow first.before
  · intro inside other _ earlier
    by_contra outside
    have none := earlier step (by omega)
    rw [first.isBegin] at none
    cases none

end FirstBegin

/-- Where the search finds nothing no begin marker is in reach. -/
theorem hasMarker_eq_false_of_findIdentBegin
    (nothing : findIdentBegin image = none)
    {position : Nat}
    (inFile : position + 9 ≤ image.len)
    (reached : image.len ≤ position + 257) :
    image.hasMarker position beginMarker = false := by
  have none :=
    findIdentBegin_eq_none_iff.mp nothing (image.len - 9 - position)
      (by omega)
  rwa [windowIndex_eq inFile] at none

/-- What is read of a file with an end marker, to see if it suits the slot. -/
theorem allSafe_trailer_iff :
    AllSafe image
        (readsFrom (image.len - 4) 4 ++ readsFrom (image.len - 8) 4) ↔
      8 ≤ image.len := by
  rw [allSafe_append_iff, allSafe_readsFrom_iff (by decide),
    allSafe_readsFrom_iff (by decide)]
  omega

/-- No begin marker is found. -/
theorem allSafe_noBegin_iff
    (nothing : findIdentBegin image = none) :
    AllSafe image (searchReads image (searchWindow image)) ↔
      257 ≤ image.len := by
  have none := findIdentBegin_eq_none_iff.mp nothing
  rw [allSafe_searchWindow_iff]
  constructor
  · intro all
    exact all 248 (by decide) fun earlier below => none earlier (by omega)
  · intro long step below _
    omega

/-- A begin marker is found, and the strings behind it. -/
theorem allSafe_found_iff
    {identBegin : Int}
    (found : findIdentBegin image = some identBegin)
    (ident : BinFileIdent) :
    AllSafe image (searchReads image (searchWindow image)) ∧
        AllSafe image (loggedStrings image 3 identBegin ident).1 ↔
      ∃ position,
        LastBegin image position ∧
          StringsInside 3 (image.data.drop (position + 4)) := by
  obtain ⟨step, first, rfl⟩ := exists_firstBegin found
  rw [first.allSafe_iff]
  have index :
      step + 9 ≤ image.len →
        (image.len : Int) - 9 - step + 4 =
          ((image.len - 9 - step + 4 : Nat) : Int) := by
    omega
  constructor
  · rintro ⟨inside, strings⟩
    rw [index inside, allSafe_loggedStrings_iff 3 (by omega)] at strings
    exact ⟨_, first.lastBegin inside, strings⟩
  · rintro ⟨position, begins, strings⟩
    obtain ⟨inside, rfl⟩ := first.eq_of_lastBegin begins
    rw [index inside, allSafe_loggedStrings_iff 3 (by omega)]
    exact ⟨inside, strings⟩

section Branches

theorem readsSafely_of_no_end
    (noEnd : ¬ image.EndsWithMarker) :
    ReadsSafely binf image ↔ EntryInside binf image := by
  constructor
  · intro safely
    cases safely with
    | entry _ entry =>
        exact entry
    | otherSlot isEnd _ _ =>
        exact absurd isEnd noEnd
    | noBegin isEnd _ _ _ =>
        exact absurd isEnd noEnd
    | strings isEnd _ _ =>
        exact absurd isEnd noEnd
  · exact .entry noEnd

theorem readsSafely_of_other_slot
    (isEnd : image.EndsWithMarker)
    (other : ¬ binf.SuitsTrailer image) :
    ReadsSafely binf image ↔ 8 ≤ image.len := by
  constructor
  · intro safely
    cases safely with
    | entry noEnd _ =>
        exact absurd isEnd noEnd
    | otherSlot _ long _ =>
        exact long
    | noBegin _ long _ _ =>
        omega
    | strings _ begins _ =>
        have bound := begins.before_end
        omega
  · intro long
    exact .otherSlot isEnd long other

theorem readsSafely_of_no_begin
    (isEnd : image.EndsWithMarker)
    (placed : binf.SuitsTrailer image)
    (nothing : findIdentBegin image = none) :
    ReadsSafely binf image ↔ 257 ≤ image.len ∧ EntryInside binf image := by
  have noBegin := @hasMarker_eq_false_of_findIdentBegin image nothing
  constructor
  · intro safely
    cases safely with
    | entry noEnd _ =>
        exact absurd isEnd noEnd
    | otherSlot _ _ other =>
        exact absurd placed other
    | noBegin _ long _ entry =>
        exact ⟨long, entry⟩
    | strings _ begins _ =>
        have none := noBegin begins.before_end begins.reached
        rw [begins.isBegin] at none
        cases none
  · rintro ⟨long, entry⟩
    exact .noBegin isEnd long (fun _ => noBegin) entry

theorem readsSafely_of_begin
    (isEnd : image.EndsWithMarker)
    (placed : binf.SuitsTrailer image)
    {identBegin : Int}
    (found : findIdentBegin image = some identBegin) :
    ReadsSafely binf image ↔
      ∃ position,
        LastBegin image position ∧
          StringsInside 3 (image.data.drop (position + 4)) := by
  obtain ⟨step, first, _⟩ := exists_firstBegin found
  constructor
  · intro safely
    cases safely with
    | entry noEnd _ =>
        exact absurd isEnd noEnd
    | otherSlot _ _ other =>
        exact absurd placed other
    | noBegin _ long noBegin _ =>
        -- A file of this length has the whole window, and so the marker.
        have begins := first.lastBegin (by have := first.inWindow; omega)
        have none := noBegin _ begins.before_end begins.reached
        rw [begins.isBegin] at none
        cases none
    | strings _ begins strings =>
        exact ⟨_, begins, strings⟩
  · rintro ⟨position, begins, strings⟩
    exact .strings isEnd begins strings

end Branches

/--
Nothing is read outside of the file, and every string stored is terminated,
exactly for these files.
-/
theorem loggedValidImage_safe_iff
    (binf : BinInfo)
    (image : Image)
    (long : 4 ≤ image.len)
    (uninitialised : BinFileIdent) :
    AllSafe image (loggedValidImage binf image uninitialised).1 ↔
      ReadsSafely binf image := by
  unfold loggedValidImage
  dsimp only
  by_cases isEnd : image.hasMarker (image.len - 4) endMarker = true
  · rw [if_pos isEnd]
    by_cases suits :
        (binf.inSlot (image.word (image.len - 8)) &&
          binf.fits image.len) = true
    · have placed : binf.SuitsTrailer image :=
        Bool.and_eq_true_iff.mp suits
      rw [if_pos suits]
      cases found : findIdentBegin image with
      | none =>
          dsimp only
          rw [readsSafely_of_no_begin isEnd placed found, allSafe_append_iff,
            allSafe_append_iff, allSafe_trailer_iff,
            allSafe_noBegin_iff found, allSafe_entryReads_iff]
          refine and_congr_left' ⟨And.right, fun whole => ?_⟩
          exact ⟨by omega, whole⟩
      | some identBegin =>
          dsimp only
          rw [if_pos (findIdentBegin_lt found), readsSafely_of_begin isEnd placed found,
            allSafe_append_iff, allSafe_append_iff, allSafe_trailer_iff,
            and_assoc, allSafe_found_iff found]
          refine and_iff_right_of_imp ?_
          rintro ⟨position, begins, _⟩
          have bound := begins.before_end
          omega
    · have other : ¬ binf.SuitsTrailer image :=
        fun placed => suits (Bool.and_eq_true_iff.mpr placed)
      rw [if_neg suits, allSafe_trailer_iff,
        readsSafely_of_other_slot isEnd other]
  · have atEnd : AllSafe image (readsFrom (image.len - 4) 4) := by
      rw [allSafe_readsFrom_iff (by decide)]
      omega
    rw [if_neg isEnd, allSafe_append_iff, allSafe_entryReads_iff,
      readsSafely_of_no_end isEnd]
    exact and_iff_right atEnd

end Conditions

/-- A file of zeros, with zeros around it. -/
def zeroImage (length : Nat) : Image :=
  ⟨List.replicate length 0, fun _ => 0, []⟩

/-- A slot of 256 bytes at address 0. -/
def lowSlot : BinInfo :=
  { BinInfo.zero with addrMax := 255 }

/-- Eight zeros are validated for the slot by the word at offset 4. -/
theorem zeroImage_eight_safe :
    AllSafe (zeroImage 8)
      (loggedValidImage lowSlot (zeroImage 8) (BinInfo.zero.idents 0)).1 :=
  (loggedValidImage_safe_iff lowSlot (zeroImage 8) (by decide)
    (BinInfo.zero.idents 0)).mpr
    (.entry (by decide) fun _ => ⟨by decide, .inl (by decide)⟩)

/-- Of four zeros the word at offset 4 lies outside. -/
theorem zeroImage_four_unsafe :
    ¬ ∀ (binf : BinInfo) (image : Image) (uninitialised : BinFileIdent),
      4 ≤ image.len →
        AllSafe image (loggedValidImage binf image uninitialised).1 := by
  intro safe
  have word :=
    safe lowSlot (zeroImage 4) (BinInfo.zero.idents 0) (by decide) (.read 4)
      (by decide)
  exact absurd word.2 (by decide)

end Csh.Spaceboot
