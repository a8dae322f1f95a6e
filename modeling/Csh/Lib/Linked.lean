import Mathlib.Logic.Function.Basic
import Mathlib.Data.List.Basic

namespace Csh.Linked

/-!
# Linked lists

Items that are linked by a pointer each, where `none` is the null pointer: the
items between two pointers, and what writing a pointer does to them.
-/

variable {α : Type}

/-- From `start` on, the pointers lead over the items to `stop`. -/
def Segment
    (next : α → Option α) :
    Option α → List α → Option α → Prop
  | start, [], stop => start = stop
  | start, item :: rest, stop =>
      start = some item ∧ Segment next (next item) rest stop

/-- The items of a list that a null pointer ends. -/
def IsList
    (next : α → Option α)
    (start : Option α)
    (items : List α) :
    Prop :=
  Segment next start items none

/-- The items that at most `turns` pointers lead over. -/
def follow (next : α → Option α) : Nat → Option α → List α
  | 0, _ => []
  | _ + 1, none => []
  | turns + 1, some item => item :: follow next turns (next item)

section Segments

variable {next : α → Option α}
variable {start stop : Option α}
variable {items leading rest : List α}

/-- A segment of two parts meets in the middle. -/
theorem segment_append_iff :
    Segment next start (leading ++ rest) stop ↔
      ∃ middle, Segment next start leading middle ∧
        Segment next middle rest stop := by
  induction leading generalizing start with
  | nil =>
      simp [Segment]
  | cons item leading inductionHypothesis =>
      simp only [List.cons_append, Segment, inductionHypothesis]
      constructor
      · rintro ⟨first, middle, front, back⟩
        exact ⟨middle, ⟨first, front⟩, back⟩
      · rintro ⟨middle, ⟨first, front⟩, back⟩
        exact ⟨first, middle, front, back⟩

/-- A list starts at its first item. -/
theorem IsList.start_eq
    (isList : IsList next start items) :
    start = items.head? := by
  cases items with
  | nil =>
      exact isList
  | cons item rest =>
      exact isList.1

/-- With enough turns the pointers lead over the whole list. -/
theorem IsList.follow_eq
    {turns : Nat}
    (isList : IsList next start items)
    (enough : items.length ≤ turns) :
    follow next turns start = items := by
  induction items generalizing turns start with
  | nil =>
      obtain rfl := isList.start_eq
      cases turns <;> rfl
  | cons item rest inductionHypothesis =>
      obtain ⟨rfl, behind⟩ := isList
      cases turns with
      | zero =>
          cases enough
      | succ turns =>
          rw [follow,
            inductionHypothesis behind (Nat.le_of_succ_le_succ enough)]

/-- The rest of a list is the list from where its front stops. -/
theorem IsList.split
    (isList : IsList next start (leading ++ rest)) :
    Segment next start leading rest.head? ∧ IsList next rest.head? rest := by
  obtain ⟨middle, front, back⟩ := segment_append_iff.mp isList
  obtain rfl := IsList.start_eq back
  exact ⟨front, back⟩

variable [DecidableEq α]

/-- Writing the pointer of another item leaves a segment as it is. -/
theorem Segment.update
    {item : α}
    (segment : Segment next start items stop)
    (absent : item ∉ items)
    (target : Option α) :
    Segment (Function.update next item target) start items stop := by
  induction items generalizing start with
  | nil =>
      exact segment
  | cons first rest inductionHypothesis =>
      rw [List.mem_cons, not_or] at absent
      refine ⟨segment.1, ?_⟩
      rw [Function.update_of_ne (Ne.symm absent.1)]
      exact inductionHypothesis segment.2 absent.2

/-- Writing the last pointer of a segment makes it stop elsewhere. -/
theorem Segment.relink
    {last : α}
    (segment : Segment next start (leading ++ [last]) stop)
    (absent : last ∉ leading)
    (target : Option α) :
    Segment (Function.update next last target) start (leading ++ [last])
      target := by
  obtain ⟨middle, front, back⟩ := segment_append_iff.mp segment
  refine segment_append_iff.mpr ⟨middle, front.update absent target, ?_⟩
  refine ⟨back.1, ?_⟩
  rw [Function.update_self]
  rfl

end Segments

end Csh.Linked
