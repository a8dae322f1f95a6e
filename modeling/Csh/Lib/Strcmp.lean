import Csh.Lib.CString
import Mathlib.Data.List.Lex
import Mathlib.Data.Char

namespace Csh.Libc

/-!
# The order of `strcmp`

`strcmp` compares by the first difference.  Its sign is the lexicographic
order of the texts.
-/

/-- `strcmp`; of its value only the sign is documented. -/
def strcmp : CString → CString → Int
  | [], [] => 0
  | [], _ :: _ => -1
  | _ :: _, [] => 1
  | c :: first, d :: second =>
      if c = d then
        strcmp first second
      else if c < d then
        -1
      else
        1

/-- `strcmp` is positive when the second text comes first. -/
theorem strcmp_pos_iff
    (first second : CString) :
    0 < strcmp first second ↔ second < first := by
  induction first generalizing second with
  | nil =>
      cases second <;> simp [strcmp]
  | cons c first inductionHypothesis =>
      cases second with
      | nil =>
          simp [strcmp]
      | cons d second =>
          rw [strcmp, List.cons_lt_cons_iff]
          by_cases same : c = d
          · subst same
            simp [inductionHypothesis]
          · rw [if_neg same]
            by_cases less : c < d
            · simp [less, less.not_gt, Ne.symm same]
            · have more : d < c :=
                lt_of_le_of_ne (not_lt.mp less) (Ne.symm same)
              simp [less, more]

end Csh.Libc
