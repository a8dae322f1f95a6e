import Csh.Lib.Checked
import Csh.ParamSet

namespace Csh.SnifferLog

open Libc
open Checked
open ParamSet (ParamType)

/-!
# Decoded samples on their way to VTS

`param_sniffer_log` stores the doubles of a watched parameter in an array of
four, at the indices that the packet announces, and `vts_add` reads the array
back by the announced count alone.  An element of the array is `none` until it
is stored in the same call.  The lines for the other logs are left out.
-/

/--
What is used of mpack: the reader with its error flag, the tag of an array and
its count, and one function for each kind of number.
-/
structure Mpack (Reader Value : Type) where
  peekTag : Reader → Bool × Reader
  expectArray : Reader → Nat × Reader
  expectUint : Reader → Value × Reader
  expectU64 : Reader → Value × Reader
  expectInt : Reader → Value × Reader
  expectI64 : Reader → Value × Reader
  expectFloat : Reader → Value × Reader
  expectDouble : Reader → Value × Reader
  discard : Reader → Reader
  readerError : Reader → Bool

/-- What is used of a `param_t`. -/
structure Param where
  id : Nat
  node : Nat
  type : ParamType
  deriving Repr, DecidableEq

/-- `csp_timestamp_t`. -/
structure Timestamp where
  tvSec : Nat
  tvNsec : Nat
  deriving Repr, DecidableEq

/-- The variables of `vts.c`. -/
structure Vts where
  running : Bool
  adcsNode : Int
  lastQHatTime : Nat
  lastPosTime : Nat
  deriving Repr, DecidableEq

/-- `Q_HAT_ID`. -/
def qHatId : Nat :=
  305

/-- `ORBIT_POS`. -/
def orbitPos : Nat :=
  357

/-- `check_vts`. -/
def checkVts (vts : Vts) (node id : Nat) : Bool :=
  vts.running && (node : Int) == vts.adcsNode &&
    (id == qHatId || id == orbitPos)

/-- `time_ms`; `now` is the time of day in microseconds. -/
def timeMs (timestamp : Timestamp) (now : Nat) : Nat :=
  if 0 < timestamp.tvSec then
    (timestamp.tvSec * 1000000 + timestamp.tvNsec / 1000) % 2 ^ 64 / 1000
  else
    now / 1000

/-- `vts_arr`, with the elements that have been stored. -/
abbrev VtsArr (Value : Type) : Type :=
  Vector (Option Value) 4

/-- A message to VTS, with the time it is for in seconds. -/
inductive Frame (Value : Type) where
  | time (timestamp : Nat)
  | quat (timestamp : Nat) (last first second third : Value)
  | pos (timestamp : Nat) (first second third : Value)
  deriving Repr, DecidableEq

/-- What a call comes to. -/
inductive Outcome (Value : Type) where
  | outside
  | unwritten
  | done (frames : List (Frame Value)) (vts : Vts)
  deriving Repr, DecidableEq

/-- No store was outside the array, and all that was read had been stored. -/
def Outcome.Safe {Value : Type} : Outcome Value → Prop
  | .outside => False
  | .unwritten => False
  | .done _ _ => True

instance {Value : Type} (outcome : Outcome Value) : Decidable outcome.Safe :=
  match outcome with
  | .outside => inferInstanceAs (Decidable False)
  | .unwritten => inferInstanceAs (Decidable False)
  | .done _ _ => inferInstanceAs (Decidable True)

section Calls

variable {Reader Value : Type}

/-- The attitude that `vts_add` sends, if it is a new one. -/
def sendQHat
    (arr : VtsArr Value)
    (id : Nat)
    (count : Int)
    (timestamp : Nat)
    (vts : Vts) :
    Option (List (Frame Value) × Vts) :=
  if id = qHatId ∧ count = 4 ∧ vts.lastQHatTime < timestamp then do
    let last ← arr[3]
    let first ← arr[0]
    let second ← arr[1]
    let third ← arr[2]
    some
      ([.quat timestamp last first second third],
        { vts with lastQHatTime := timestamp })
  else
    some ([], vts)

/-- The position that `vts_add` sends, if it is a new one. -/
def sendPos
    (arr : VtsArr Value)
    (id : Nat)
    (count : Int)
    (timestamp : Nat)
    (vts : Vts) :
    Option (List (Frame Value) × Vts) :=
  if id = orbitPos ∧ count = 3 ∧ vts.lastPosTime < timestamp then do
    let first ← arr[0]
    let second ← arr[1]
    let third ← arr[2]
    some
      ([.pos timestamp first second third],
        { vts with lastPosTime := timestamp })
  else
    some ([], vts)

/-- `vts_add`; `none` when it reads an element that was not stored. -/
def vtsAdd
    (arr : VtsArr Value)
    (id : Nat)
    (count : Int)
    (timeMs : Nat)
    (vts : Vts) :
    Option (List (Frame Value) × Vts) := do
  let timestamp := timeMs / 1000
  let (qHat, vts) ← sendQHat arr id count timestamp vts
  let (pos, vts) ← sendPos arr id count timestamp vts
  some (.time timestamp :: (qHat ++ pos), vts)

variable (mpack : Mpack Reader Value)

/-- One value of a type is read; a double may be stored. -/
def readValue
    (type : ParamType)
    (vts : Bool)
    (index : Nat)
    (reader : Reader)
    (arr : VtsArr Value) :
    Option (VtsArr Value) × Reader :=
  match type with
  | .uint8 | .xint8 | .uint16 | .xint16 | .uint32 | .xint32 =>
      (some arr, (mpack.expectUint reader).2)
  | .uint64 | .xint64 =>
      (some arr, (mpack.expectU64 reader).2)
  | .int8 | .int16 | .int32 =>
      (some arr, (mpack.expectInt reader).2)
  | .int64 =>
      (some arr, (mpack.expectI64 reader).2)
  | .float =>
      (some arr, (mpack.expectFloat reader).2)
  | .double =>
      let (value, reader) := mpack.expectDouble reader
      (if vts then store arr index (some value) else some arr, reader)
  | .string | .data =>
      (some arr, mpack.discard reader)

/-- The loop over the elements, with the turns that are left. -/
def logLoop
    (type : ParamType)
    (vts : Bool) :
    Nat → Nat → Reader → VtsArr Value → Option (VtsArr Value)
  | 0, _, _, arr => some arr
  | turns + 1, index, reader, arr =>
      match readValue mpack type vts index reader arr with
      | (none, _) => none
      | (some arr, reader) =>
          if mpack.readerError reader then
            some arr
          else
            logLoop type vts turns (index + 1) reader arr

/-- The announced count, an `int`, and the reader behind it. -/
def announced (reader : Reader) : Int × Reader :=
  let (isArray, reader) := mpack.peekTag reader
  if isArray then
    let (count, reader) := mpack.expectArray reader
    (toInt count, reader)
  else
    (1, reader)

/-- The first index: a negative offset counts as none. -/
def firstIndex (offset : Int) : Nat :=
  offset.toNat

/-- The turns of the loop up to `offset + count`, which is an `int` too. -/
def turnsFor (offset count : Int) : Nat :=
  (toInt (firstIndex offset + count) - firstIndex offset).toNat

/-- `param_sniffer_log`, as far as VTS is concerned. -/
def paramSnifferLog
    (vts : Vts)
    (param : Param)
    (offset : Int)
    (reader : Reader)
    (timestamp : Timestamp)
    (now : Nat) :
    Outcome Value :=
  let (count, elements) := announced mpack reader
  let watched := checkVts vts param.node param.id
  match logLoop mpack param.type watched (turnsFor offset count)
      (firstIndex offset) elements (Vector.replicate 4 none) with
  | none => .outside
  | some arr =>
      if watched then
        match vtsAdd arr param.id count (timeMs timestamp now) vts with
        | none => .unwritten
        | some (frames, vts) => .done frames vts
      else
        .done [] vts

/-- The first values behind the reader decode as doubles. -/
def Decodes : Nat → Reader → Prop
  | 0, _ => True
  | count + 1, reader =>
      mpack.readerError (mpack.expectDouble reader).2 = false ∧
        Decodes count (mpack.expectDouble reader).2

/--
A loop of so many turns from an index on stays inside the array: it ends in
front of index 4, or a value in front of it fails to decode.
-/
def StoresInside (turns index : Nat) (reader : Reader) : Prop :=
  turns = 0 ∨
    (index < 4 ∧ (index + turns ≤ 4 ∨ ¬ Decodes mpack (4 - index) reader))

/-- The number of elements that `vts_add` reads. -/
def elementsRead
    (vts : Vts)
    (id : Nat)
    (count : Int)
    (timestamp : Nat) :
    Nat :=
  if id = qHatId ∧ count = 4 ∧ vts.lastQHatTime < timestamp then
    4
  else if id = orbitPos ∧ count = 3 ∧ vts.lastPosTime < timestamp then
    3
  else
    0

/--
What `vts_add` reads has been stored: it reads nothing, or the parameter is a
double, the elements are stored from index 0 on and all but the last of those
that are read decode.
-/
def ReadsStored
    (param : Param)
    (offset : Int)
    (read : Nat)
    (reader : Reader) :
    Prop :=
  read = 0 ∨
    (param.type = .double ∧ offset ≤ 0 ∧ Decodes mpack (read - 1) reader)

section Loop

variable {mpack}
variable {turns index : Nat}
variable {reader : Reader}
variable {arr : VtsArr Value}

theorem decodes_of_le
    {fewer more : Nat}
    (few : fewer ≤ more)
    (decodes : Decodes mpack more reader) :
    Decodes mpack fewer reader := by
  induction fewer generalizing more reader with
  | zero =>
      trivial
  | succ fewer inductionHypothesis =>
      obtain ⟨less, rfl⟩ := Nat.exists_eq_add_of_lt few
      exact ⟨decodes.1, inductionHypothesis (by omega) decodes.2⟩

/-- The loop of a double leaves the array or stays inside it. -/
theorem logLoop_double_eq_none_iff :
    logLoop mpack .double true turns index reader arr = none ↔
      ¬ StoresInside mpack turns index reader := by
  induction turns generalizing index reader arr with
  | zero =>
      exact iff_of_false (fun stopped => by cases stopped)
        fun leaves => leaves (.inl rfl)
  | succ turns inductionHypothesis =>
      rw [logLoop, readValue]
      by_cases inside : index < 4
      · obtain ⟨written, stored, _⟩ :=
          @exists_store _ _ arr index inside
            (some (mpack.expectDouble reader).1)
        obtain ⟨left, room⟩ := Nat.exists_eq_add_of_lt inside
        have cells : 4 - index = left + 1 := by
          omega
        have later : 4 - (index + 1) = left := by
          omega
        simp only [stored, ↓reduceIte]
        cases failed : mpack.readerError (mpack.expectDouble reader).2 with
        | true =>
            simp [StoresInside, inside, cells, Decodes, failed]
        | false =>
            simp only [Bool.false_eq_true, ↓reduceIte, inductionHypothesis,
              StoresInside, inside, cells, later, Decodes, failed, true_and]
            rcases Nat.eq_zero_or_pos left with rfl | some
            · simp only [Decodes, not_true_eq_false, or_false]
              omega
            · have further : index + 1 < 4 := by
                omega
              simp only [further, true_and]
              by_cases decodes :
                  Decodes mpack left (mpack.expectDouble reader).2
              · simp only [decodes, not_true_eq_false, or_false]
                omega
              · simp only [decodes, not_false_eq_true, or_true]
      · have outside : store arr index (some (mpack.expectDouble reader).1) =
            none := dif_neg inside
        simp [outside, StoresInside, inside]

/-- A store adds one element to those that have been stored. -/
theorem isSome_getElem_set
    {element : Nat}
    (room : index < 4)
    (inside : element < 4)
    (value : Value) :
    (arr.set index (some value))[element].isSome = true ↔
      arr[element].isSome = true ∨ element = index := by
  by_cases same : index = element
  · subst same
    simp
  · rw [Vector.getElem_set_ne _ _ same]
    exact (or_iff_left (Ne.symm same)).symm

/-- What the loop of a double has stored when it ends inside the array. -/
theorem isSome_getElem_logLoop
    {last : VtsArr Value}
    (ended : logLoop mpack .double true turns index reader arr = some last)
    {element : Nat}
    (inside : element < 4) :
    last[element].isSome = true ↔
      arr[element].isSome = true ∨
        (index ≤ element ∧ element < index + turns ∧
          Decodes mpack (element - index) reader) := by
  induction turns generalizing index reader arr with
  | zero =>
      obtain rfl := Option.some.inj ended
      exact (or_iff_left fun later => by omega).symm
  | succ turns inductionHypothesis =>
      rw [logLoop, readValue] at ended
      by_cases room : index < 4
      · have stored :
            store arr index (some (mpack.expectDouble reader).1) =
              some (arr.set index (some (mpack.expectDouble reader).1)) :=
          dif_pos room
        have written :=
          @isSome_getElem_set _ _ arr element room inside
            (mpack.expectDouble reader).1
        simp only [stored, ↓reduceIte] at ended
        cases failed : mpack.readerError (mpack.expectDouble reader).2 with
        | true =>
            rw [failed, if_pos rfl, Option.some.injEq] at ended
            rw [← ended, written]
            refine or_congr_right ⟨?_, ?_⟩
            · rintro rfl
              exact ⟨Nat.le_refl _, by omega, by
                rw [Nat.sub_self]
                trivial⟩
            · rintro ⟨above, _, decodes⟩
              by_contra other
              have one : 1 ≤ element - index := by
                omega
              have first := (decodes_of_le one decodes).1
              rw [failed] at first
              cases first
        | false =>
            rw [failed, if_neg Bool.false_ne_true] at ended
            rw [inductionHypothesis ended, written, or_assoc]
            refine or_congr_right ⟨?_, ?_⟩
            · rintro (rfl | ⟨above, under, decodes⟩)
              · exact ⟨Nat.le_refl _, by omega, by
                  rw [Nat.sub_self]
                  trivial⟩
              · obtain ⟨further, rfl⟩ := Nat.exists_eq_add_of_le above
                refine ⟨by omega, by omega, ?_⟩
                rw [Nat.add_sub_cancel_left] at decodes
                rw [Nat.add_assoc, Nat.add_sub_cancel_left, Nat.add_comm]
                exact ⟨failed, decodes⟩
            · rintro ⟨above, under, decodes⟩
              rcases Nat.eq_or_lt_of_le above with rfl | later
              · exact .inl rfl
              · obtain ⟨further, rfl⟩ := Nat.exists_eq_add_of_lt later
                rw [Nat.add_assoc, Nat.add_sub_cancel_left] at decodes
                refine .inr ⟨by omega, by omega, ?_⟩
                have behind : index + further + 1 - (index + 1) = further := by
                  omega
                rw [behind]
                exact decodes.2
      · have outside :
            store arr index (some (mpack.expectDouble reader).1) = none :=
          dif_neg room
        simp [outside] at ended

/-- A loop whose turns store nothing leaves the array as it is. -/
theorem logLoop_of_kept
    {type : ParamType}
    {vts : Bool}
    (kept :
      ∀ index reader,
        (readValue mpack type vts index reader arr).1 = some arr) :
    logLoop mpack type vts turns index reader arr = some arr := by
  induction turns generalizing index reader with
  | zero =>
      rfl
  | succ turns inductionHypothesis =>
      have same := kept index reader
      rw [logLoop]
      cases read : readValue mpack type vts index reader arr with
      | mk next later =>
          rw [read] at same
          subst same
          simp only [inductionHypothesis, ite_self]

/-- Nothing is stored of the other types. -/
theorem logLoop_of_not_double
    {type : ParamType}
    (notDouble : type ≠ .double)
    (vts : Bool) :
    logLoop mpack type vts turns index reader arr = some arr := by
  refine logLoop_of_kept fun index reader => ?_
  cases type with
  | double =>
      exact absurd rfl notDouble
  | _ =>
      rfl

/-- Nothing is stored of a parameter that is not watched. -/
theorem logLoop_of_not_watched
    (type : ParamType) :
    logLoop mpack type false turns index reader arr = some arr := by
  refine logLoop_of_kept fun index reader => ?_
  cases type <;> rfl

end Loop

section Read

variable {arr : VtsArr Value}
variable {id : Nat}
variable {count : Int}
variable {vts : Vts}

theorem forall_element_iff
    (bound : Nat) :
    (∀ element (inside : element < 4),
        element < bound → arr[element].isSome = true) ↔
      (0 < bound → arr[0].isSome = true) ∧
        (1 < bound → arr[1].isSome = true) ∧
          (2 < bound → arr[2].isSome = true) ∧
            (3 < bound → arr[3].isSome = true) := by
  constructor
  · intro all
    exact ⟨all 0 _, all 1 _, all 2 _, all 3 _⟩
  · rintro ⟨zero, one, two, three⟩ element inside
    match element with
    | 0 => exact zero
    | 1 => exact one
    | 2 => exact two
    | 3 => exact three

theorem isSome_sendQHat
    (timestamp : Nat) :
    (sendQHat arr id count timestamp vts).isSome = true ↔
      (id = qHatId ∧ count = 4 ∧ vts.lastQHatTime < timestamp →
        ∀ element (inside : element < 4),
          element < 4 → arr[element].isSome = true) := by
  rw [sendQHat, forall_element_iff]
  split
  · next isNew =>
      cases arr[0] <;> cases arr[1] <;> cases arr[2] <;> cases arr[3] <;>
        simp [isNew]
  · next notNew =>
      exact iff_of_true rfl fun isNew => absurd isNew notNew

theorem isSome_sendPos
    (timestamp : Nat) :
    (sendPos arr id count timestamp vts).isSome = true ↔
      (id = orbitPos ∧ count = 3 ∧ vts.lastPosTime < timestamp →
        ∀ element (inside : element < 4),
          element < 3 → arr[element].isSome = true) := by
  rw [sendPos, forall_element_iff]
  split
  · next isNew =>
      cases arr[0] <;> cases arr[1] <;> cases arr[2] <;>
        simp [isNew]
  · next notNew =>
      exact iff_of_true rfl fun isNew => absurd isNew notNew

theorem lastPosTime_of_sendQHat
    {timestamp : Nat}
    {frames : List (Frame Value)}
    {next : Vts}
    (sent : sendQHat arr id count timestamp vts = some (frames, next)) :
    next.lastPosTime = vts.lastPosTime := by
  rw [sendQHat] at sent
  split at sent
  · cases zero : arr[0] <;> cases one : arr[1] <;> cases two : arr[2] <;>
      cases three : arr[3] <;> simp_all
    exact sent.2 ▸ rfl
  · obtain ⟨_, rfl⟩ := Prod.mk.inj (Option.some.inj sent)
    rfl

/-- `vts_add` needs the elements that it reads. -/
theorem isSome_vtsAdd
    (timeMs : Nat) :
    (vtsAdd arr id count timeMs vts).isSome = true ↔
      ∀ element (inside : element < 4),
        element < elementsRead vts id count (timeMs / 1000) →
          arr[element].isSome = true := by
  have qHat := @isSome_sendQHat Value arr id count vts (timeMs / 1000)
  rw [vtsAdd, elementsRead]
  generalize timeMs / 1000 = timestamp at *
  cases sent : sendQHat arr id count timestamp vts with
  | none =>
      rw [sent, Option.isSome_none, Bool.false_eq_true, false_iff,
        Classical.not_imp] at qHat
      rw [if_pos qHat.1]
      exact iff_of_false Bool.false_ne_true qHat.2
  | some frames =>
      obtain ⟨frames, next⟩ := frames
      rw [sent, Option.isSome_some, eq_self, true_iff] at qHat
      have pos := @isSome_sendPos Value arr id count next timestamp
      rw [lastPosTime_of_sendQHat sent] at pos
      have onward :
          ∀ added : Option (List (Frame Value) × Vts),
            (added.bind fun posSent =>
                some (Frame.time timestamp :: (frames ++ posSent.1),
                  posSent.2)).isSome =
              added.isSome := by
        intro added
        cases added <;> rfl
      simp only [Option.bind_eq_bind, Option.bind_some, onward, pos]
      by_cases isNew : id = qHatId ∧ count = 4 ∧ vts.lastQHatTime < timestamp
      · rw [if_pos isNew]
        refine iff_of_true ?_ (qHat isNew)
        rintro ⟨rfl, _⟩
        exact absurd isNew.1 (by decide)
      · rw [if_neg isNew]
        split
        · next isPos =>
            simp only [isPos, true_and, forall_const]
        · next notPos =>
            exact iff_of_true (fun isPos => absurd isPos notPos)
              fun element _ none => absurd none (Nat.not_lt_zero element)

/-- What is read is the whole of a short sample. -/
theorem elementsRead_cases
    (vts : Vts)
    (id : Nat)
    (count : Int)
    (timestamp : Nat) :
    elementsRead vts id count timestamp = 0 ∨
      (count = elementsRead vts id count timestamp ∧
        0 < elementsRead vts id count timestamp ∧
          elementsRead vts id count timestamp ≤ 4) := by
  unfold elementsRead
  split
  · next isNew =>
      exact .inr ⟨isNew.2.1, by decide, by decide⟩
  · split
    · next isNew =>
        exact .inr ⟨isNew.2.1, by decide, by decide⟩
    · exact .inl rfl

/-- The elements of a short sample are stored when they begin at index 0. -/
theorem turnsFor_of_short
    {offset : Int}
    {count : Nat}
    (first : offset ≤ 0)
    (short : count ≤ 4) :
    turnsFor offset count = count := by
  have start : firstIndex offset = 0 :=
    Int.toNat_of_nonpos first
  have same : toInt (count : Int) = count :=
    toInt_of_range (by omega)
  rw [turnsFor, start, Int.natCast_zero, Int.zero_add, same]
  omega

end Read

section Sample

variable {mpack}
variable {vts : Vts}
variable {param : Param}
variable {offset count : Int}
variable {reader : Reader}
variable {arr : VtsArr Value}

/-- The elements that `vts_add` reads have been stored by the loop. -/
theorem reads_iff
    {read : Nat}
    (short : read = 0 ∨ (count = read ∧ 0 < read ∧ read ≤ 4))
    (ended :
      logLoop mpack param.type true (turnsFor offset count)
          (firstIndex offset) reader (Vector.replicate 4 none) =
        some arr) :
    (∀ element (inside : element < 4),
        element < read → arr[element].isSome = true) ↔
      ReadsStored mpack param offset read reader := by
  rcases short with rfl | ⟨rfl, positive, short⟩
  · exact iff_of_true (fun element _ none => absurd none (by omega)) (.inl rfl)
  rw [ReadsStored, or_iff_right (by omega)]
  by_cases double : param.type = .double
  · rw [double] at ended
    have stored :
        ∀ element (inside : element < 4),
          arr[element].isSome = true ↔
            firstIndex offset ≤ element ∧
              element < firstIndex offset + turnsFor offset read ∧
                Decodes mpack (element - firstIndex offset) reader := by
      intro element inside
      rw [isSome_getElem_logLoop ended inside, Vector.getElem_replicate]
      exact or_iff_right Bool.false_ne_true
    constructor
    · intro all
      have first := (stored 0 (by decide)).mp (all 0 (by decide) positive)
      have last :=
        (stored (read - 1) (by omega)).mp
          (all (read - 1) (by omega) (by omega))
      have start : firstIndex offset = 0 :=
        Nat.le_zero.mp first.1
      rw [start, Nat.sub_zero] at last
      exact ⟨double, Int.toNat_eq_zero.mp start, last.2.2⟩
    · rintro ⟨_, notBehind, decodes⟩ element inside isRead
      have start : firstIndex offset = 0 :=
        Int.toNat_of_nonpos notBehind
      rw [stored element inside, start, turnsFor_of_short notBehind short]
      exact ⟨Nat.zero_le _, by omega, decodes_of_le (by omega) decodes⟩
  · rw [logLoop_of_not_double double] at ended
    obtain rfl := Option.some.inj ended
    refine iff_of_false (fun all => ?_) fun isDouble => double isDouble.1
    have first := all 0 (by decide) positive
    rw [Vector.getElem_replicate] at first
    cases first

end Sample

/--
A sample is stored and read safely exactly when it is not watched, or its
elements end inside the array and those that are read have been stored.
-/
theorem paramSnifferLog_safe_iff
    (mpack : Mpack Reader Value)
    (vts : Vts)
    (param : Param)
    (offset : Int)
    (reader : Reader)
    (timestamp : Timestamp)
    (now : Nat) :
    (paramSnifferLog mpack vts param offset reader timestamp now).Safe ↔
      checkVts vts param.node param.id = false ∨
        ((param.type = .double →
            StoresInside mpack
              (turnsFor offset (announced mpack reader).1)
              (firstIndex offset)
              (announced mpack reader).2) ∧
          ReadsStored mpack param offset
            (elementsRead vts param.id (announced mpack reader).1
              (timeMs timestamp now / 1000))
            (announced mpack reader).2) := by
  rw [paramSnifferLog]
  obtain ⟨count, elements⟩ := announced mpack reader
  simp only
  cases watched : checkVts vts param.node param.id with
  | false =>
      rw [logLoop_of_not_watched]
      exact iff_of_true trivial (.inl rfl)
  | true =>
      rw [or_iff_right Bool.noConfusion]
      cases ended :
          logLoop mpack param.type true (turnsFor offset count)
            (firstIndex offset) elements (Vector.replicate 4 none) with
      | none =>
          refine iff_of_false id fun safe => ?_
          by_cases double : param.type = .double
          · rw [double] at ended
            exact logLoop_double_eq_none_iff.mp ended (safe.1 double)
          · rw [logLoop_of_not_double double] at ended
            cases ended
      | some arr =>
          have inside :
              param.type = .double →
                StoresInside mpack (turnsFor offset count)
                  (firstIndex offset) elements := by
            intro double
            by_contra leaves
            rw [double, logLoop_double_eq_none_iff.mpr leaves] at ended
            cases ended
          have reads :=
            reads_iff
              (elementsRead_cases vts param.id count
                (timeMs timestamp now / 1000)) ended
          rw [and_iff_right inside, ← reads, ← isSome_vtsAdd]
          simp only [↓reduceIte]
          cases vtsAdd arr param.id count (timeMs timestamp now) vts with
          | none =>
              exact iff_of_false id Bool.false_ne_true
          | some added =>
              exact iff_of_true trivial rfl

end Calls

/-- A packet of doubles, with the count that it announces. -/
structure Doubles where
  announced : Option Nat
  values : List Nat
  failed : Bool

/-- The functions of mpack on such a packet; other types fail. -/
def doubles : Mpack Doubles Nat where
  peekTag reader := (reader.announced.isSome, reader)
  expectArray reader :=
    (reader.announced.getD 0, { reader with announced := none })
  expectUint reader := (0, { reader with failed := true })
  expectU64 reader := (0, { reader with failed := true })
  expectInt reader := (0, { reader with failed := true })
  expectI64 reader := (0, { reader with failed := true })
  expectFloat reader := (0, { reader with failed := true })
  expectDouble reader :=
    match reader.values with
    | [] => (0, { reader with failed := true })
    | value :: values => (value, { reader with values })
  discard reader := { reader with values := reader.values.tail }
  readerError reader := reader.failed

/-- An array of five doubles is stored past the end. -/
theorem paramSnifferLog_unsafe_on_five_doubles :
    ¬ ∀ (Reader Value : Type) (mpack : Mpack Reader Value) (vts : Vts)
        (param : Param) (offset : Int) (reader : Reader)
        (timestamp : Timestamp) (now : Nat),
      (paramSnifferLog mpack vts param offset reader timestamp now).Safe := by
  intro safe
  have leaves :
      paramSnifferLog doubles ⟨true, 1, 0, 0⟩ ⟨qHatId, 1, .double⟩ (-1)
          ⟨some 5, [10, 11, 12, 13, 14], false⟩ ⟨1, 0⟩ 0 = .outside := by
    decide +kernel
  exact
    (congrArg Outcome.Safe leaves).mp
      (safe Doubles Nat doubles _ _ _ _ _ _)

end Csh.SnifferLog
