import Csh.Lib.RingWalk
import Csh.Slash

namespace Csh.ResbufDump

/-!
# Dumping the result buffer

`resbuf_dump_slash` downloads the result buffer of a node and prints it from
`out` up to `in`.  Both positions are 16 bit numbers in the first four bytes of
the buffer, which the remote has written; the printed bytes go round behind the
last byte to index 4.
-/

open RingWalk

/-- The entry of the memory list that `resbuf_get_base` returns. -/
structure VmemList where
  vaddr : Nat
  size : Nat
  deriving Repr, DecidableEq

/-- `memcpy` of a 16 bit number, on a little endian host. -/
def loadU16 (data : Nat → UInt8) (index : Nat) : Nat :=
  (data index).toNat + 256 * (data (index + 1)).toNat

/-- `out++` of a 16 bit number, and the way back from the end of the buffer. -/
def advance (size out : Nat) : Nat :=
  let out := (out + 1) % 65536
  if out ≥ size then
    4
  else
    out

/-- The indices of `data` that the printing loop reads, one in each turn. -/
def printLoop (size into turns out : Nat) : Option (List Nat) :=
  walk (advance size) into turns out

/-- What the command returns, the indices it reads, and the bytes it prints. -/
structure Dump where
  result : SlashResult
  reads : List Nat
  printed : List UInt8
  deriving Repr, DecidableEq

/--
What `resbuf_dump_slash` does with the memory from `data` on, of which `size`
bytes are the buffer.  The outcome is `none` when the loop has not ended after
these turns.
-/
def dumpBuffer
    (turns size : Nat)
    (data : Nat → UInt8) :
    Option Dump :=
  let into := loadU16 data 0
  let out := loadU16 data 2
  if into > size then
    some ⟨.einval, [], []⟩
  else if out > size then
    some ⟨.einval, [], []⟩
  else
    (printLoop size into turns out).map fun reads =>
      ⟨.success, reads, reads.map data⟩

/-- `resbuf_dump_slash`, once its options are parsed. -/
def resbufDumpSlash
    (turns : Nat)
    (vmem : VmemList)
    (data : Nat → UInt8) :
    Option Dump :=
  if vmem.size = 0 ∨ vmem.vaddr = 0 then
    some ⟨.einval, [], []⟩
  else
    dumpBuffer turns vmem.size data

/--
`out` is inside the buffer and the loop comes to `in` from there; a buffer that
16 bits cannot leave is walked round as a whole.
-/
def Meets (size into out : Nat) : Prop :=
  65535 < size ∨
    out < size ∧ (into = 4 ∨ into < size ∧ (4 ≤ into ∨ out < into))

instance (size into out : Nat) : Decidable (Meets size into out) :=
  inferInstanceAs
    (Decidable
      (65535 < size ∨
        out < size ∧ (into = 4 ∨ into < size ∧ (4 ≤ into ∨ out < into))))

theorem loadU16_lt
    (data : Nat → UInt8)
    (index : Nat) :
    loadU16 data index < 65536 := by
  have low := (data index).toNat_lt
  have high := (data (index + 1)).toNat_lt
  unfold loadU16
  omega

section PrintLoop

variable {size into turns out : Nat}

/-- A turn leaves `out` inside the buffer, or at 4. -/
theorem advance_cases
    (size out : Nat) :
    advance size out = 4 ∨
      advance size out < size ∧ advance size out < 65536 := by
  unfold advance
  dsimp only
  split <;> omega

/-- In a small buffer `out` goes round to 4. -/
theorem printLoop_eq_walk
    (small : size ≤ 65535)
    (start : out < size) :
    printLoop size into turns out = walk (ringNext 4 size) into turns out := by
  refine @walk_congr _ _ _ _ _ _ _ (· < 65535) ?_ ?_ (by omega)
  · intro out bound
    unfold advance ringNext
    dsimp only
    rw [Nat.mod_eq_of_lt (by omega)]
    split <;> split <;> omega
  · intro out _
    have moved := advance_cases size out
    omega

/-- In a large one it goes round to 0, after 65535. -/
theorem printLoop_eq_walk_of_large
    (large : 65535 < size)
    (start : out < 65536) :
    printLoop size into turns out =
      walk (ringNext 0 65536) into turns out := by
  refine @walk_congr _ _ _ _ _ _ _ (· < 65536) ?_ ?_ start
  · intro out bound
    unfold advance ringNext
    dsimp only
    split <;> split <;> omega
  · intro out _
    have moved := advance_cases size out
    omega

/-- The loop ends with all its reads inside the buffer. -/
theorem exists_printLoop_inside_iff
    (inside : into < 65536)
    (start : out < 65536) :
    (∃ turns reads,
        printLoop size into turns out = some reads ∧
          ∀ index ∈ reads, index < size) ↔
      Meets size into out := by
  rcases Nat.lt_or_ge 65535 size with large | small
  · refine iff_of_true ?_ (.inl large)
    have reaches : Reaches 0 65536 out into :=
      ⟨start, .inr ⟨inside, .inl (Nat.zero_le _)⟩⟩
    obtain ⟨turns, reads, walked, bound⟩ := exists_walk_inside_iff.mpr reaches
    refine ⟨turns, reads, ?_, fun index member => ?_⟩
    · rw [printLoop_eq_walk_of_large large start, walked]
    · exact Nat.lt_of_lt_of_le (bound index member) large
  · have reaches : Meets size into out ↔ Reaches 4 size out into := by
      unfold Meets Reaches
      omega
    rw [reaches]
    rcases Nat.lt_or_ge out size with inBuffer | beyond
    · simp only [printLoop_eq_walk small inBuffer]
      exact exists_walk_inside_iff
    · refine iff_of_false ?_ (fun found => Nat.not_lt.mpr beyond found.1)
      -- the first byte is read before `out` is compared with the size
      rintro ⟨turns, reads, walked, bound⟩
      exact Nat.not_lt.mpr beyond (bound out (mem_of_walk walked))

end PrintLoop

section Dump

variable {vmem : VmemList}
variable {size : Nat}
variable {data : Nat → UInt8}

/-- The checks in front of the loop let the buffer pass. -/
theorem dumpBuffer_eq
    (intoFits : loadU16 data 0 ≤ size)
    (outFits : loadU16 data 2 ≤ size)
    (turns : Nat) :
    dumpBuffer turns size data =
      (printLoop size (loadU16 data 0) turns (loadU16 data 2)).map fun reads =>
        ⟨.success, reads, reads.map data⟩ := by
  unfold dumpBuffer
  dsimp only
  rw [if_neg (by omega), if_neg (by omega)]

/-- A command that never returns an error has come through all its checks. -/
theorem checks_of_success
    (accepted :
      ∀ turns dump,
        resbufDumpSlash turns vmem data = some dump →
          dump.result = .success) :
    (vmem.size ≠ 0 ∧ vmem.vaddr ≠ 0) ∧
      loadU16 data 0 ≤ vmem.size ∧ loadU16 data 2 ≤ vmem.size := by
  have noError :
      resbufDumpSlash 0 vmem data ≠ some ⟨.einval, [], []⟩ :=
    fun failed => nomatch accepted 0 _ failed
  unfold resbufDumpSlash dumpBuffer at noError
  dsimp only at noError
  split at noError
  · exact absurd rfl noError
  · split at noError
    · exact absurd rfl noError
    · split at noError
      · exact absurd rfl noError
      · omega

/-- A command that comes through its checks prints the buffer. -/
theorem resbufDumpSlash_eq
    (found : vmem.size ≠ 0 ∧ vmem.vaddr ≠ 0)
    (intoFits : loadU16 data 0 ≤ vmem.size)
    (outFits : loadU16 data 2 ≤ vmem.size)
    (turns : Nat) :
    resbufDumpSlash turns vmem data =
      (printLoop vmem.size (loadU16 data 0) turns (loadU16 data 2)).map
        fun reads => ⟨.success, reads, reads.map data⟩ := by
  unfold resbufDumpSlash
  rw [if_neg (by omega), dumpBuffer_eq intoFits outFits]

/-- Such a command never returns an error. -/
theorem success_of_checks
    (found : vmem.size ≠ 0 ∧ vmem.vaddr ≠ 0)
    (intoFits : loadU16 data 0 ≤ vmem.size)
    (outFits : loadU16 data 2 ≤ vmem.size)
    (turns : Nat)
    (dump : Dump)
    (ended : resbufDumpSlash turns vmem data = some dump) :
    dump.result = .success := by
  rw [resbufDumpSlash_eq found intoFits outFits] at ended
  obtain ⟨reads, _, rfl⟩ := Option.map_eq_some_iff.mp ended
  rfl

theorem safe_iff_of_checks
    (found : vmem.size ≠ 0 ∧ vmem.vaddr ≠ 0)
    (intoFits : loadU16 data 0 ≤ vmem.size)
    (outFits : loadU16 data 2 ≤ vmem.size) :
    (∃ turns dump,
        resbufDumpSlash turns vmem data = some dump ∧
          ∀ index ∈ dump.reads, index < vmem.size) ↔
      Meets vmem.size (loadU16 data 0) (loadU16 data 2) := by
  rw [← exists_printLoop_inside_iff (loadU16_lt data 0) (loadU16_lt data 2)]
  simp only [resbufDumpSlash_eq found intoFits outFits]
  constructor
  · rintro ⟨turns, dump, ended, inside⟩
    obtain ⟨reads, printed, rfl⟩ := Option.map_eq_some_iff.mp ended
    exact ⟨turns, reads, printed, inside⟩
  · rintro ⟨turns, reads, printed, inside⟩
    exact ⟨turns, _, Option.map_eq_some_iff.mpr ⟨reads, printed, rfl⟩, inside⟩

/-- The loop ends at `in` and prints the bytes from `out` round to it. -/
theorem dumpBuffer_prints_arc
    (small : size ≤ 65535)
    (intoFrom : 4 ≤ loadU16 data 0)
    (intoInside : loadU16 data 0 < size)
    (outInside : loadU16 data 2 < size) :
    ∃ turns,
      dumpBuffer turns size data =
        some
          ⟨.success,
            arc 4 size (loadU16 data 2) (loadU16 data 0),
            (arc 4 size (loadU16 data 2) (loadU16 data 0)).map data⟩ := by
  obtain ⟨turns, walked⟩ :=
    exists_walk_arc
      (show Reaches 4 size (loadU16 data 2) (loadU16 data 0) from
        ⟨outInside, .inr ⟨intoInside, .inl intoFrom⟩⟩)
  refine ⟨turns, ?_⟩
  rw [dumpBuffer_eq (Nat.le_of_lt intoInside) (Nat.le_of_lt outInside),
    printLoop_eq_walk small outInside, walked]
  rfl

end Dump

/--
A command that passes its own checks ends, and reads nothing outside the
buffer, exactly when the loop meets `in`.
-/
theorem resbufDumpSlash_safe_iff
    {vmem : VmemList}
    {data : Nat → UInt8}
    (accepted :
      ∀ turns dump,
        resbufDumpSlash turns vmem data = some dump →
          dump.result = .success) :
    (∃ turns dump,
        resbufDumpSlash turns vmem data = some dump ∧
          ∀ index ∈ dump.reads, index < vmem.size) ↔
      Meets vmem.size (loadU16 data 0) (loadU16 data 2) := by
  obtain ⟨found, intoFits, outFits⟩ := checks_of_success accepted
  exact safe_iff_of_checks found intoFits outFits

/-- The memory from a buffer of eight bytes on, with `in` and `out` in it. -/
def eightBytes (into out : UInt8) (index : Nat) : UInt8 :=
  [into, 0, out, 0, 'a'.toUInt8, 'b'.toUInt8, 'c'.toUInt8, 'd'.toUInt8].getD
    index 0

/-- From 6 round to 5. -/
theorem resbufDumpSlash_safe_of_eight_bytes :
    ∃ turns dump,
      resbufDumpSlash turns ⟨4096, 8⟩ (eightBytes 5 6) = some dump ∧
        ∀ index ∈ dump.reads, index < 8 :=
  (@resbufDumpSlash_safe_iff ⟨4096, 8⟩ (eightBytes 5 6)
    (success_of_checks (by decide) (by decide) (by decide))).mpr (by decide)

/-- `in` behind the last byte passes the checks and is never met. -/
theorem resbufDumpSlash_never_meets_size :
    (∀ turns dump,
        resbufDumpSlash turns ⟨4096, 8⟩ (eightBytes 8 4) = some dump →
          dump.result = .success) ∧
      ¬ ∃ turns dump,
          resbufDumpSlash turns ⟨4096, 8⟩ (eightBytes 8 4) = some dump ∧
            ∀ index ∈ dump.reads, index < 8 := by
  refine ⟨success_of_checks (by decide) (by decide) (by decide), ?_⟩
  rw [@safe_iff_of_checks ⟨4096, 8⟩ (eightBytes 8 4) (by decide) (by decide)
    (by decide)]
  decide

/--
The command prints the bytes from `out` round to `in`, each index once, and
ends.
-/
theorem resbufDumpSlash_prints_arc
    {vmem : VmemList}
    {data : Nat → UInt8}
    (found : vmem.vaddr ≠ 0)
    (small : vmem.size ≤ 65535)
    (intoFrom : 4 ≤ loadU16 data 0)
    (intoInside : loadU16 data 0 < vmem.size)
    (outInside : loadU16 data 2 < vmem.size) :
    ∃ turns,
      resbufDumpSlash turns vmem data =
          some
            ⟨.success,
              arc 4 vmem.size (loadU16 data 2) (loadU16 data 0),
              (arc 4 vmem.size (loadU16 data 2) (loadU16 data 0)).map data⟩ ∧
        (arc 4 vmem.size (loadU16 data 2) (loadU16 data 0)).Nodup := by
  obtain ⟨turns, dumped⟩ :=
    dumpBuffer_prints_arc small intoFrom intoInside outInside
  refine ⟨turns, ?_, nodup_arc intoInside⟩
  have passes : ¬ (vmem.size = 0 ∨ vmem.vaddr = 0) := by
    omega
  rw [resbufDumpSlash, if_neg passes, dumped]

/-- The last two bytes, and the first one behind the positions. -/
theorem resbufDumpSlash_prints_round :
    (∃ turns,
      resbufDumpSlash turns ⟨4096, 8⟩ (eightBytes 5 6) =
          some
            ⟨.success, arc 4 8 6 5, (arc 4 8 6 5).map (eightBytes 5 6)⟩ ∧
        (arc 4 8 6 5).Nodup) ∧
      (arc 4 8 6 5).map (eightBytes 5 6) =
        ['c'.toUInt8, 'd'.toUInt8, 'a'.toUInt8] :=
  ⟨@resbufDumpSlash_prints_arc ⟨4096, 8⟩ (eightBytes 5 6) (by decide)
    (by decide) (by decide) (by decide) (by decide), by decide⟩

end Csh.ResbufDump
