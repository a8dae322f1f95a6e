import Mathlib.Data.List.Basic
import Mathlib.Data.List.Nodup

namespace Csh.FirstOccurrences

/-!
# First occurrences

The items of a list whose key occurs for the first time, and the collection of
such items up to a limit, one item after the other.
-/

variable {α κ : Type}
variable [DecidableEq κ]

/-- The items with a key that is neither seen before nor occurs earlier. -/
def firstOccurrences
    (key : α → κ)
    (seen : List κ) :
    List α → List α
  | [] => []
  | item :: rest =>
      if key item ∈ seen then
        firstOccurrences key seen rest
      else
        item :: firstOccurrences key (seen ++ [key item]) rest

/-- Keep an item with a new key while there is room. -/
def keepNew
    (key : α → κ)
    (limit : Nat)
    (kept : List α)
    (item : α) :
    List α :=
  if limit ≤ kept.length ∨ key item ∈ kept.map key then
    kept
  else
    kept ++ [item]

section Lemmas

variable {key : α → κ}
variable {limit : Nat}

/-- First occurrences keep the order of the list. -/
theorem firstOccurrences_sublist
    (seen : List κ)
    (items : List α) :
    (firstOccurrences key seen items).Sublist items := by
  induction items generalizing seen with
  | nil =>
      exact .refl []
  | cons item rest inductionHypothesis =>
      rw [firstOccurrences]
      split
      · exact (inductionHypothesis seen).cons item
      · exact (inductionHypothesis _).cons_cons item

/-- The keys of first occurrences are new. -/
theorem not_mem_seen
    {seen : List κ}
    {items : List α} :
    ∀ item ∈ firstOccurrences key seen items, key item ∉ seen := by
  induction items generalizing seen with
  | nil =>
      exact fun item member => absurd member List.not_mem_nil
  | cons first rest inductionHypothesis =>
      intro item member
      rw [firstOccurrences] at member
      split at member
      · exact inductionHypothesis item member
      · next isNew =>
          rcases List.mem_cons.mp member with rfl | later
          · exact isNew
          · exact fun old =>
              inductionHypothesis item later (List.mem_append_left _ old)

/-- No two first occurrences have the same key. -/
theorem nodup_firstOccurrences
    (seen : List κ)
    (items : List α) :
    ((firstOccurrences key seen items).map key).Nodup := by
  induction items generalizing seen with
  | nil =>
      exact List.nodup_nil
  | cons item rest inductionHypothesis =>
      rw [firstOccurrences]
      split
      · exact inductionHypothesis seen
      · rw [List.map_cons, List.nodup_cons]
        refine ⟨fun again => ?_, inductionHypothesis _⟩
        obtain ⟨other, later, same⟩ := List.mem_map.mp again
        exact not_mem_seen other later (same ▸ List.mem_append_right _ (by simp))

/-- Keeping new items one after the other keeps first occurrences. -/
theorem foldl_keepNew
    (items : List α)
    {kept : List α}
    (room : kept.length ≤ limit) :
    items.foldl (keepNew key limit) kept =
      kept ++
        (firstOccurrences key (kept.map key) items).take
          (limit - kept.length) := by
  induction items generalizing kept with
  | nil =>
      simp [firstOccurrences]
  | cons item rest inductionHypothesis =>
      rw [List.foldl_cons, keepNew, firstOccurrences]
      by_cases old : key item ∈ kept.map key
      · rw [if_pos (.inr old), if_pos old, inductionHypothesis room]
      · rw [if_neg old]
        by_cases full : limit ≤ kept.length
        · have none : limit - kept.length = 0 := by
            omega
          rw [if_pos (.inl full), inductionHypothesis room, none,
            List.take_zero, List.take_zero]
        · obtain ⟨left, more⟩ := Nat.exists_eq_add_of_lt (Nat.lt_of_not_le full)
          have longer : (kept ++ [item]).length ≤ limit := by
            rw [List.length_append, List.length_singleton]
            omega
          have before : limit - kept.length = left + 1 := by
            omega
          have behind : limit - (kept ++ [item]).length = left := by
            rw [List.length_append, List.length_singleton]
            omega
          rw [if_neg (not_or.mpr ⟨full, old⟩), inductionHypothesis longer,
            before, behind, List.map_append, List.map_singleton,
            List.take_succ_cons, List.append_assoc, List.singleton_append]

end Lemmas

end Csh.FirstOccurrences
