import Mathlib.Data.List.Flatten

namespace Csh.Batches

/-!
# Items handed on in batches

Items are printed into a buffer one behind the other, and from time to time the
whole buffer is handed on.  Some items may be missed, but what is handed on and
what is held are the prints of the others, in their order.
-/

variable {α β : Type}

/-- The prints of items, one behind the other. -/
def prints (print : α → List β) (items : List α) : List β :=
  items.flatMap print

/--
The texts handed on and the text held are prints of the items that were fed,
each at most once, in their order and without those that were missed.
-/
def Takes
    (print : α → List β)
    (fed : List α)
    (texts : List (List β))
    (held : List β)
    (missed : Nat) :
    Prop :=
  ∃ (batches : List (List α)) (rest : List α),
    texts = batches.map (prints print) ∧ held = prints print rest ∧
      (batches.flatten ++ rest).Sublist fed ∧
      (batches.flatten ++ rest).length + missed = fed.length

section Rules

variable {print : α → List β}
variable {fed : List α}
variable {texts : List (List β)}
variable {held : List β}
variable {missed : Nat}
variable {item : α}
variable {items : List α}

theorem prints_append
    (more : List α) :
    prints print (items ++ more) =
      prints print items ++ prints print more :=
  List.flatMap_append

theorem flatten_map_prints
    (batches : List (List α)) :
    (batches.map (prints print)).flatten = prints print batches.flatten := by
  induction batches with
  | nil =>
      rfl
  | cons batch batches inductionHypothesis =>
      rw [List.map_cons, List.flatten_cons, inductionHypothesis,
        List.flatten_cons, prints_append]

/-- Every item leaves something to see. -/
theorem length_le_length_prints
    (visible : ∀ item, print item ≠ []) :
    items.length ≤ (prints print items).length := by
  induction items with
  | nil =>
      exact Nat.le_refl _
  | cons first rest inductionHypothesis =>
      have some := List.length_pos_iff.mpr (visible first)
      rw [prints] at inductionHypothesis
      rw [prints, List.flatMap_cons, List.length_append, List.length_cons]
      omega

/-- The prints of only some of the items are shorter. -/
theorem eq_of_prints_sublist
    {fewer : List α}
    (visible : ∀ item, print item ≠ [])
    (sublist : fewer.Sublist items)
    (same : prints print fewer = prints print items) :
    fewer = items := by
  induction sublist with
  | slnil =>
      rfl
  | @cons fewer items item sublist inductionHypothesis =>
      have shorter :
          (prints print fewer).length ≤ (prints print items).length :=
        (sublist.flatMap print).length_le
      have some := List.length_pos_iff.mpr (visible item)
      have lengths := congrArg List.length same
      rw [prints, prints, List.flatMap_cons, List.length_append] at lengths
      rw [prints, prints] at shorter
      omega
  | @cons_cons fewer items item sublist inductionHypothesis =>
      rw [prints, prints, List.flatMap_cons, List.flatMap_cons] at same
      rw [inductionHypothesis (List.append_cancel_left same)]

theorem takes_nil :
    Takes print [] [] [] 0 :=
  ⟨[], [], rfl, rfl, .slnil, rfl⟩

/-- An item is added to what is held. -/
theorem Takes.add
    (takes : Takes print fed texts held missed) :
    Takes print (fed ++ [item]) texts (held ++ print item) missed := by
  obtain ⟨batches, rest, given, kept, sublist, length⟩ := takes
  refine ⟨batches, rest ++ [item], given, ?_, ?_, ?_⟩
  · rw [prints_append, ← kept]
    simp [prints]
  · rw [← List.append_assoc]
    exact sublist.append_right [item]
  · simp only [List.length_append, List.length_singleton] at length ⊢
    omega

/-- An item is missed. -/
theorem Takes.miss
    (takes : Takes print fed texts held missed) :
    Takes print (fed ++ [item]) texts held (missed + 1) := by
  obtain ⟨batches, rest, given, kept, sublist, length⟩ := takes
  refine
    ⟨batches, rest, given, kept,
      sublist.trans (List.sublist_append_left _ _), ?_⟩
  rw [← Nat.add_assoc, length, List.length_append, List.length_singleton]

/-- What is held is handed on. -/
theorem Takes.handOn
    (takes : Takes print fed texts held missed) :
    Takes print fed (texts ++ [held]) [] missed := by
  obtain ⟨batches, rest, given, kept, sublist, length⟩ := takes
  refine ⟨batches ++ [rest], [], ?_, rfl, ?_, ?_⟩
  · simp [given, kept]
  · simpa using sublist
  · simpa using length

/-- What is held is given up. -/
theorem Takes.giveUp
    (visible : ∀ item, print item ≠ [])
    (takes : Takes print fed texts held missed) :
    ∃ more,
      Takes print fed texts [] (missed + more) ∧ (more = 0 ↔ held = []) := by
  obtain ⟨batches, rest, given, kept, sublist, length⟩ := takes
  refine ⟨rest.length, ⟨batches, [], given, rfl, ?_, ?_⟩, ?_⟩
  · rw [List.append_nil]
    exact (List.sublist_append_left _ _).trans sublist
  · rw [List.length_append] at length
    rw [List.append_nil]
    omega
  · rw [kept, List.length_eq_zero_iff]
    constructor
    · rintro rfl
      rfl
    · intro nothing
      have few := @length_le_length_prints _ _ print rest visible
      rw [nothing] at few
      exact List.length_eq_zero_iff.mp (Nat.le_zero.mp few)

/-- All that was fed is there exactly when nothing was missed. -/
theorem Takes.complete_iff
    (visible : ∀ item, print item ≠ [])
    (takes : Takes print fed texts held missed) :
    texts.flatten ++ held = prints print fed ↔ missed = 0 := by
  obtain ⟨batches, rest, given, kept, sublist, length⟩ := takes
  rw [given, kept, flatten_map_prints, ← prints_append]
  constructor
  · intro same
    rw [eq_of_prints_sublist visible sublist same] at length
    omega
  · intro none
    rw [sublist.eq_of_length (by omega)]

end Rules

end Csh.Batches
