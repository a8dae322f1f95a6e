import Mathlib.Order.Basic

namespace Csh.Checked

/-!
# Checked arrays

Writing to a fixed array at an index that may lie outside it.
-/

variable {α : Type}
variable {size : Nat}

/-- Write to a cell; `none` when the array has no such cell. -/
def store
    (cells : Vector α size)
    (index : Nat)
    (value : α) :
    Option (Vector α size) :=
  if inside : index < size then
    some (cells.set index value)
  else
    none

section Store

variable {cells : Vector α size}
variable {index : Nat}

/-- A write inside the array changes the one cell. -/
theorem exists_store
    (inside : index < size)
    (value : α) :
    ∃ written,
      store cells index value = some written ∧
        written.toList = cells.toList.set index value :=
  ⟨cells.set index value, dif_pos inside, Vector.toList_set inside⟩

end Store

end Csh.Checked
