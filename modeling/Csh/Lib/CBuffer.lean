import Csh.Lib.CString

namespace Csh.Libc

/-!
# Buffers of characters

C string functions that write at an offset of a buffer.  A buffer is the memory
from its start on; it is assumed to be long enough for what is stored.
-/

/-- The string that starts at an offset. -/
def stringAt (buffer : List Char) (start : Nat) : CString :=
  (buffer.drop start).takeWhile (· != nul)

/-- Overwrite the cells from an offset on. -/
def storeAt (buffer : List Char) (start : Nat) (text : List Char) :
    List Char :=
  buffer.take start ++ (text ++ (buffer.drop start).drop text.length)

/-- `strcpy` to an offset. -/
def strcpyAt (buffer : List Char) (start : Nat) (source : CString) :
    List Char :=
  storeAt buffer start (source ++ [nul])

/-- `strcat`. -/
def strcat (buffer : List Char) (source : CString) : List Char :=
  strcpyAt buffer (stringAt buffer 0).length source

/--
`strncat` in an array of that many cells: what it holds behind the call, and
the destination, which is returned.  There is no such array when the call
writes behind its end.
-/
def strncatAt
    (cells : List Char)
    (destination : Nat)
    (source : CString)
    (n : Nat) :
    Option (List Char × Nat) :=
  let terminator := destination + (stringAt cells destination).length
  let appended := source.take n
  if terminator + appended.length < cells.length then
    some (strcpyAt cells terminator appended, destination)
  else
    none

/-- `strncpy` to an offset. -/
def strncpyAt (buffer : List Char) (start : Nat) (source : CString) (n : Nat) :
    List Char :=
  buffer.take start ++ strncpy nul n (buffer.drop start) source

/-- An array of `size` cells with a text at its start and NUL behind it. -/
def padded (size : Nat) (text : CString) : List Char :=
  text ++ List.replicate (size - text.length) nul

section Stores

variable {before behind text source : List Char}
variable {n : Nat}

/-- A text with a NUL behind it is read back. -/
theorem stringAt_append
    (plain : nul ∉ text) :
    stringAt (before ++ (text ++ nul :: behind)) before.length = text := by
  rw [stringAt, List.drop_left, takeWhile_append_nul plain]

theorem stringAt_zero
    (plain : nul ∉ text) :
    stringAt (text ++ nul :: behind) 0 = text :=
  @stringAt_append [] behind text plain

theorem storeAt_append :
    storeAt (before ++ behind) before.length text =
      before ++ (text ++ behind.drop text.length) := by
  rw [storeAt, List.take_left, List.drop_left]

/-- The copied text ends the string. -/
theorem strcpyAt_append :
    strcpyAt (before ++ behind) before.length source =
      before ++ (source ++ nul :: behind.drop (source.length + 1)) := by
  rw [strcpyAt, storeAt_append, List.append_assoc, List.length_append,
    List.singleton_append, List.length_singleton]

theorem strcat_append
    (plain : nul ∉ text) :
    strcat (text ++ nul :: behind) source =
      text ++ (source ++ nul :: (nul :: behind).drop (source.length + 1)) := by
  rw [strcat, stringAt_zero plain, strcpyAt_append]

/-- A text that leaves room in the array has a NUL behind it. -/
theorem padded_eq
    {size : Nat}
    (inside : text.length < size) :
    padded size text =
      text ++ nul :: List.replicate (size - (text.length + 1)) nul := by
  rw [padded, ← List.replicate_succ]
  congr 2
  omega

theorem stringAt_padded
    {size : Nat}
    (inside : text.length < size)
    (plain : nul ∉ text) :
    stringAt (padded size text) 0 = text := by
  rw [padded_eq inside, stringAt_zero plain]

/-- What fits is appended, and all behind it stays NUL. -/
theorem strncatAt_padded
    {size : Nat}
    (inside : text.length < size)
    (plain : nul ∉ text) :
    strncatAt (padded size text) 0 source n =
      if text.length + (source.take n).length < size then
        some (padded size (text ++ source.take n), 0)
      else
        none := by
  have cells : (padded size text).length = size := by
    rw [padded, List.length_append, List.length_replicate]
    omega
  rw [strncatAt, stringAt_padded inside plain, Nat.zero_add, cells]
  split
  · rename_i fits
    have fitting : (text ++ source.take n).length < size := by
      rw [List.length_append]
      exact fits
    rw [padded_eq fitting, padded, strcpyAt_append, List.drop_replicate,
      List.append_assoc, List.length_append]
    congr 6
    omega
  · rfl

/-- The start of a text is copied, without a NUL. -/
theorem strncpyAt_append
    (inside : n ≤ source.length) :
    strncpyAt (before ++ behind) before.length source n =
      before ++ (source.take n ++ behind.drop n) := by
  rw [strncpyAt, strncpy, List.take_left, List.drop_left,
    Nat.sub_eq_zero_of_le inside, List.replicate_zero, List.append_nil]

/-- The start of a text is copied, and a NUL is put behind it. -/
theorem storeAt_strncpyAt
    (inside : n ≤ source.length) :
    storeAt (strncpyAt (before ++ behind) before.length source n)
        (before.length + n) [nul] =
      before ++ (source.take n ++ nul :: behind.drop (n + 1)) := by
  have stored :=
    @storeAt_append (before ++ source.take n) (behind.drop n) [nul]
  rw [List.length_append, List.length_take_of_le inside, List.append_assoc,
    List.append_assoc, List.length_singleton, List.drop_drop] at stored
  rw [strncpyAt_append inside, stored]
  rfl

end Stores

end Csh.Libc
