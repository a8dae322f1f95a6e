import Mathlib.Data.List.Basic
import Mathlib.Tactic.Common

namespace Csh.RingBuffer

/-!
# Streams in a ring of cells

A stream is written into `size` cells one element after the other, going round
at the end.  The cells hold the stream from a position on as long as fewer
elements than cells have been written since.
-/

/-- The cell of a position of the stream whose start is in the cell `start`. -/
def slot (size start position : Nat) : Nat :=
  (start + position) % size

/-- The elements between two cells of the ring. -/
def unread (size out into : Nat) : Nat :=
  (into + size - out) % size

/-- The cells hold the elements of the stream from `consumed` on. -/
def Holds {α : Type}
    (size start : Nat)
    (cell : Nat → α)
    (stream : List α)
    (consumed : Nat) :
    Prop :=
  ∀ position value,
    consumed ≤ position → stream[position]? = some value →
      cell (slot size start position) = value

section Slots

variable {size start : Nat}

theorem slot_lt
    (positive : 0 < size)
    (position : Nat) :
    slot size start position < size :=
  Nat.mod_lt _ positive

/-- A position less than one round later is further on or behind the end. -/
theorem slot_add
    {position distance : Nat}
    (near : distance < size) :
    slot size start (position + distance) =
      if slot size start position + distance < size then
        slot size start position + distance
      else
        slot size start position + distance - size := by
  have bound : slot size start position < size :=
    slot_lt (by omega) position
  have sum :
      slot size start (position + distance) =
        (slot size start position + distance) % size := by
    simp [slot, Nat.add_assoc]
  rw [sum]
  split
  · rename_i inside
    exact Nat.mod_eq_of_lt inside
  · rename_i outside
    rw [Nat.mod_eq_sub_mod (by omega)]
    exact Nat.mod_eq_of_lt (by omega)

/-- Different positions less than one round apart have different cells. -/
theorem slot_ne
    {position distance : Nat}
    (positive : 0 < distance)
    (near : distance < size) :
    slot size start (position + distance) ≠ slot size start position := by
  have bound : slot size start position < size :=
    slot_lt (by omega) position
  rw [slot_add near]
  split <;> omega

/-- The cells alone tell how far two positions are apart. -/
theorem unread_slot
    {position distance : Nat}
    (near : distance < size) :
    unread size (slot size start position)
        (slot size start (position + distance)) =
      distance := by
  have bound : slot size start position < size :=
    slot_lt (by omega) position
  rw [unread, slot_add near]
  split
  · rw [Nat.mod_eq_sub_mod (by omega)]
    rw [Nat.mod_eq_of_lt (by omega)]
    omega
  · rw [Nat.mod_eq_of_lt (by omega)]
    omega

/-- The cell behind the last one is the first. -/
theorem slot_succ
    (position : Nat) :
    slot size start (position + 1) = (slot size start position + 1) % size := by
  simp [slot, Nat.add_assoc]

end Slots

section Stream

variable {α : Type}
variable {size start consumed : Nat}
variable {cell : Nat → α}
variable {stream : List α}

theorem Holds.nil :
    Holds size start cell ([] : List α) consumed := by
  intro position value _ found
  simp at found

/-- What is held from a position on is held from a later one on. -/
theorem Holds.mono
    {later : Nat}
    (held : Holds size start cell stream consumed)
    (order : consumed ≤ later) :
    Holds size start cell stream later :=
  fun position value reached found =>
    held position value (Nat.le_trans order reached) found

/--
Writing the next element keeps the stream in the cells, while there was room
for it: the cell of the new element is none of those that are still held.
-/
theorem Holds.append
    {cell' : Nat → α}
    {value : α}
    (held : Holds size start cell stream consumed)
    (room : stream.length < consumed + size)
    (written : cell' (slot size start stream.length) = value)
    (others :
      ∀ index < size, index ≠ slot size start stream.length →
        cell' index = cell index) :
    Holds size start cell' (stream ++ [value]) consumed := by
  intro position value' reached found
  rcases Nat.lt_trichotomy position stream.length with old | rfl | beyond
  · rw [List.getElem?_append_left old] at found
    rw [← held position value' reached found]
    obtain ⟨distance, same⟩ := Nat.exists_eq_add_of_lt old
    have different :
        slot size start (position + (distance + 1)) ≠
          slot size start position :=
      slot_ne (by omega) (by omega)
    rw [← Nat.add_assoc, ← same] at different
    exact others _ (slot_lt (by omega) position) different.symm
  · simp only [List.getElem?_concat_length, Option.some.injEq] at found
    rw [written, found]
  · rw [List.getElem?_eq_none (by simp; omega)] at found
    cases found

/-- A stretch of cells that does not go round is a stretch of the stream. -/
theorem Holds.chunk
    {len : Nat}
    (held : Holds size start cell stream consumed)
    (inRing : slot size start consumed + len ≤ size)
    (written : consumed + len ≤ stream.length) :
    (List.range len).map
        (fun index => cell (slot size start consumed + index)) =
      (stream.drop consumed).take len := by
  refine List.ext_getElem (by simp; omega) fun index inRange inStream => ?_
  have inside : index < len := by
    simpa using inRange
  have next :
      slot size start (consumed + index) =
        slot size start consumed + index := by
    rcases Nat.lt_or_ge index size with near | far
    · rw [slot_add near, if_pos (by omega)]
    · omega
  have found : stream[consumed + index]? = some stream[consumed + index] :=
    List.getElem?_eq_getElem (by omega)
  have same := held (consumed + index) _ (by omega) found
  rw [next] at same
  simp [same]

end Stream

end Csh.RingBuffer
