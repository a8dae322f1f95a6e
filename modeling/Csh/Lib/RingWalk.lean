import Mathlib.Data.List.Basic
import Mathlib.Data.List.Nodup
import Mathlib.Tactic.Common

namespace Csh.RingWalk

/-!
# Walking round a ring

A walk visits one position after the other until the next one is its goal.  In
a ring the position behind the last one is `first`; a walk may start in front
of it, but only comes back to `first`.
-/

section Walk

variable {α : Type}
variable [DecidableEq α]

/-- The positions visited in front of the goal; `none` after too many turns. -/
def walk
    (next : α → α)
    (goal : α) :
    Nat → α → Option (List α)
  | 0, _ => none
  | turns + 1, position =>
      if next position = goal then
        some [position]
      else
        (walk next goal turns (next position)).map (position :: ·)

variable {next next' : α → α}
variable {goal position : α}
variable {visited : List α}
variable {turns : Nat}

/-- Steps that agree on an invariant of the walk visit the same positions. -/
theorem walk_congr
    {Inv : α → Prop}
    (agree : ∀ position, Inv position → next position = next' position)
    (kept : ∀ position, Inv position → Inv (next position))
    (start : Inv position) :
    walk next goal turns position = walk next' goal turns position := by
  induction turns generalizing position with
  | zero =>
      rfl
  | succ turns inductionHypothesis =>
      rw [walk, walk, inductionHypothesis (kept position start),
        agree position start]

/-- A walk visits the position it starts at. -/
theorem mem_of_walk
    (walked : walk next goal turns position = some visited) :
    position ∈ visited := by
  cases turns with
  | zero =>
      cases walked
  | succ turns =>
      rw [walk] at walked
      split at walked
      · cases walked
        exact List.mem_singleton_self position
      · obtain ⟨later, _, rfl⟩ := Option.map_eq_some_iff.mp walked
        exact List.mem_cons_self

end Walk

/-- The position behind another one. -/
def ringNext (first finish position : Nat) : Nat :=
  if position + 1 < finish then
    position + 1
  else
    first

/-- The positions from one on up to the goal, which is not included. -/
def arc (first finish position goal : Nat) : List Nat :=
  if position < goal ∧ goal < finish then
    List.range' position (goal - position)
  else
    List.range' position (finish - position) ++
      List.range' first (goal - first)

/-- A walk from the position comes to the goal, inside the ring. -/
def Reaches (first finish position goal : Nat) : Prop :=
  position < finish ∧
    (goal = first ∨ goal < finish ∧ (first ≤ goal ∨ position < goal))

section Ring

variable {first finish position goal turns : Nat}
variable {visited : List Nat}

/-- A goal that is further on is reached without going round. -/
theorem walk_to
    (further : position < goal)
    (inside : goal < finish) :
    walk (ringNext first finish) goal (goal - position) position =
      some (List.range' position (goal - position)) := by
  induction remaining : goal - position generalizing position with
  | zero =>
      omega
  | succ distance inductionHypothesis =>
      have step : ringNext first finish position = position + 1 :=
        if_pos (by omega)
      rw [walk, step, List.range'_succ]
      rcases Nat.lt_or_ge (position + 1) goal with more | last
      · rw [if_neg (by omega), inductionHypothesis more (by omega)]
        rfl
      · obtain rfl : distance = 0 := by
          omega
        rw [if_pos (by omega)]
        rfl

/-- A walk that does not meet its goal on the way goes round to `first`. -/
theorem walk_round
    (start : position < finish)
    (passed : goal ≤ position ∨ finish ≤ goal) :
    walk (ringNext first finish) goal (finish - position + turns) position =
      if first = goal then
        some (List.range' position (finish - position))
      else
        (walk (ringNext first finish) goal turns first).map
          (List.range' position (finish - position) ++ ·) := by
  induction remaining : finish - position generalizing position with
  | zero =>
      omega
  | succ distance inductionHypothesis =>
      rw [Nat.add_right_comm, walk, List.range'_succ]
      rcases Nat.lt_or_ge (position + 1) finish with more | last
      · have step : ringNext first finish position = position + 1 :=
          if_pos more
        rw [step, if_neg (by omega),
          inductionHypothesis more (by omega) (by omega)]
        split
        · rfl
        · rw [Option.map_map]
          rfl
      · have step : ringNext first finish position = first :=
          if_neg (by omega)
        obtain rfl : distance = 0 := by
          omega
        rw [step, Nat.zero_add]
        rfl

/-- A goal that is reached is reached along the arc. -/
theorem exists_walk_arc
    (reaches : Reaches first finish position goal) :
    ∃ turns,
      walk (ringNext first finish) goal turns position =
        some (arc first finish position goal) := by
  obtain ⟨start, found⟩ := reaches
  by_cases straight : position < goal ∧ goal < finish
  · refine ⟨goal - position, ?_⟩
    rw [arc, if_pos straight]
    exact walk_to straight.1 straight.2
  · have passed : goal ≤ position ∨ finish ≤ goal := by
      omega
    rw [arc, if_neg straight]
    by_cases atFirst : first = goal
    · subst atFirst
      refine ⟨finish - position + 0, ?_⟩
      rw [walk_round start passed, if_pos rfl, Nat.sub_self]
      simp
    · refine ⟨finish - position + (goal - first), ?_⟩
      rw [walk_round start passed, if_neg atFirst,
        walk_to (by omega) (by omega)]
      rfl

/-- A walk that stays inside the ring has reached its goal along the arc. -/
theorem reaches_of_walk
    (walked :
      walk (ringNext first finish) goal turns position = some visited)
    (inside : ∀ visit ∈ visited, visit < finish) :
    Reaches first finish position goal := by
  induction turns generalizing position visited with
  | zero =>
      cases walked
  | succ turns inductionHypothesis =>
      have start : position < finish := inside position (mem_of_walk walked)
      refine ⟨start, ?_⟩
      rw [walk] at walked
      have step :
          ringNext first finish position = position + 1 ∧
              position + 1 < finish ∨
            ringNext first finish position = first := by
        unfold ringNext
        split <;> simp_all
      split at walked
      · omega
      · obtain ⟨later, walkedLater, rfl⟩ := Option.map_eq_some_iff.mp walked
        have found :=
          (inductionHypothesis walkedLater fun visit member =>
            inside visit (List.mem_cons_of_mem _ member)).2
        omega

theorem lt_of_mem_arc
    {visit : Nat}
    (reaches : Reaches first finish position goal)
    (member : visit ∈ arc first finish position goal) :
    visit < finish := by
  obtain ⟨start, found⟩ := reaches
  rw [arc] at member
  split at member
  · rw [List.mem_range'_1] at member
    omega
  · rw [List.mem_append, List.mem_range'_1, List.mem_range'_1] at member
    omega

/-- The walks that end without leaving the ring. -/
theorem exists_walk_inside_iff :
    (∃ turns visited,
        walk (ringNext first finish) goal turns position = some visited ∧
          ∀ visit ∈ visited, visit < finish) ↔
      Reaches first finish position goal := by
  constructor
  · rintro ⟨turns, visited, walked, inside⟩
    exact reaches_of_walk walked inside
  · intro reaches
    obtain ⟨turns, walked⟩ := exists_walk_arc reaches
    exact ⟨turns, _, walked, fun visit => lt_of_mem_arc reaches⟩

/-- An arc to a position of the ring has no position twice. -/
theorem nodup_arc
    (inside : goal < finish) :
    (arc first finish position goal).Nodup := by
  rw [arc]
  split
  · exact List.nodup_range'
  · rw [List.nodup_append]
    refine ⟨List.nodup_range', List.nodup_range', ?_⟩
    intro early inEarly late inLate
    rw [List.mem_range'_1] at inEarly inLate
    omega

end Ring

end Csh.RingWalk
