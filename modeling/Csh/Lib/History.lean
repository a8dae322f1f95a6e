import Mathlib.Data.List.Induction

namespace Csh.History

/-!
# Histories that are split at one event

A history is the list of its events, the earliest first.
-/

variable {Event : Type*}
variable {before after earlier history : List Event}
variable {event last : Event}

/-- An event of a history is its last one or one of the history before it. -/
theorem split_append_singleton_iff :
    earlier ++ [last] = before ++ event :: after ↔
      (before = earlier ∧ event = last ∧ after = []) ∨
        ∃ later,
          after = later ++ [last] ∧ earlier = before ++ event :: later := by
  constructor
  · intro shape
    cases after using List.reverseRecOn with
    | nil =>
        obtain ⟨sameEarlier, sameLast⟩ := List.append_inj' shape rfl
        exact
          Or.inl ⟨sameEarlier.symm, (List.singleton_inj.mp sameLast).symm, rfl⟩
    | append_singleton later final =>
        rw [← List.cons_append, ← List.append_assoc] at shape
        obtain ⟨sameEarlier, sameLast⟩ := List.append_inj' shape rfl
        rw [List.singleton_inj.mp sameLast]
        exact Or.inr ⟨later, rfl, sameEarlier⟩
  · rintro (⟨rfl, rfl, rfl⟩ | ⟨later, rfl, rfl⟩)
    · rfl
    · simp

/-- The event occurs and nothing of the given kind happens behind it. -/
def LastOf
    (kind : Event → Prop)
    (event : Event)
    (history : List Event) :
    Prop :=
  ∃ before after,
    history = before ++ event :: after ∧ ∀ later ∈ after, ¬ kind later

section LastOf

variable {kind : Event → Prop}

theorem not_lastOf_nil :
    ¬ LastOf kind event [] := by
  rintro ⟨before, after, shape, _⟩
  simp at shape

/-- Only an event of the kind can take the place of the last one. -/
theorem lastOf_append_singleton_iff :
    LastOf kind event (history ++ [last]) ↔
      event = last ∨ (¬ kind last ∧ LastOf kind event history) := by
  constructor
  · rintro ⟨before, after, shape, none⟩
    rcases split_append_singleton_iff.mp shape with
      ⟨_, isLast, _⟩ | ⟨later, rfl, isEarlier⟩
    · exact Or.inl isLast
    · refine Or.inr ⟨none last (by simp), before, later, isEarlier, ?_⟩
      intro event member
      exact none event (List.mem_append_left _ member)
  · rintro (rfl | ⟨notLast, before, after, rfl, none⟩)
    · exact ⟨history, [], rfl, by simp⟩
    · refine ⟨before, after ++ [last], by simp, fun event member => ?_⟩
      rcases List.mem_append.mp member with inAfter | isLast
      · exact none event inAfter
      · rw [List.mem_singleton.mp isLast]
        exact notLast

end LastOf

section Cuts

variable {α : Type*}
variable {kind : α → Prop}
variable {first last otherFirst otherLast : List α}
variable {item other : α}

/-- Two ways of cutting a list at the last element of a kind are the same. -/
theorem append_cons_inj_of_last
    (same : first ++ item :: last = otherFirst ++ other :: otherLast)
    (isKind : kind item)
    (otherKind : kind other)
    (none : ∀ later ∈ last, ¬ kind later)
    (otherNone : ∀ later ∈ otherLast, ¬ kind later) :
    first = otherFirst ∧ item = other ∧ last = otherLast := by
  rcases List.append_eq_append_iff.mp same with
    ⟨middle, rfl, behind⟩ | ⟨middle, rfl, behind⟩
  · cases middle with
    | nil =>
        obtain ⟨rfl, rfl⟩ := List.cons_eq_cons.mp behind
        exact ⟨by simp, rfl, rfl⟩
    | cons head middle =>
        obtain ⟨rfl, rfl⟩ := List.cons_eq_cons.mp behind
        exact (none other (by simp) otherKind).elim
  · cases middle with
    | nil =>
        obtain ⟨rfl, rfl⟩ := List.cons_eq_cons.mp behind
        exact ⟨by simp, rfl, rfl⟩
    | cons head middle =>
        obtain ⟨rfl, rfl⟩ := List.cons_eq_cons.mp behind
        exact (otherNone item (by simp) isKind).elim

/-- Two ways of cutting a list at the first element of a kind are the same. -/
theorem append_cons_inj_of_first
    (same : first ++ item :: last = otherFirst ++ other :: otherLast)
    (isKind : kind item)
    (otherKind : kind other)
    (none : ∀ early ∈ first, ¬ kind early)
    (otherNone : ∀ early ∈ otherFirst, ¬ kind early) :
    first = otherFirst ∧ item = other ∧ last = otherLast := by
  have reversed :
      last.reverse ++ item :: first.reverse =
        otherLast.reverse ++ other :: otherFirst.reverse := by
    simpa using congrArg List.reverse same
  obtain ⟨sameLast, sameItem, sameFirst⟩ :=
    append_cons_inj_of_last reversed isKind otherKind
      (fun early member => none early (List.mem_reverse.mp member))
      (fun early member => otherNone early (List.mem_reverse.mp member))
  exact
    ⟨List.reverse_inj.mp sameFirst, sameItem,
      List.reverse_inj.mp sameLast⟩

/-- The only element of a kind is found by its kind. -/
theorem eq_of_mem_append_cons
    (noneFirst : ∀ element ∈ first, ¬ kind element)
    (noneLast : ∀ element ∈ last, ¬ kind element)
    (member : other ∈ first ++ item :: last)
    (isKind : kind other) :
    other = item := by
  rcases List.mem_append.mp member with early | late
  · exact (noneFirst other early isKind).elim
  · rcases List.mem_cons.mp late with same | later
    · exact same
    · exact (noneLast other later isKind).elim

end Cuts

end Csh.History
