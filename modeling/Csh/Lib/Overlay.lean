import Mathlib.Data.List.Induction

namespace Csh.Overlay

/-!
# Messages received over each other

A buffer of fixed size receives one message after the other, each from its
start on.  A message that is shorter than the buffer leaves what is behind it
as it is, so that the buffer holds, at each place, what the last message long
enough has put there.
-/

variable {α : Type*}

/-- The buffer behind a message: as much of the message as there is room for,
and the rest of the buffer. -/
def overlay (buffer message : List α) : List α :=
  message.take buffer.length ++ buffer.drop message.length

/-- The last message that reaches a place, as seen there. -/
def lastAt (messages : List (List α)) (place : Nat) : Option α :=
  (messages.filterMap fun message => message[place]?).getLast?

section Rules

variable {buffer message : List α}
variable {messages : List (List α)}
variable {place : Nat}

@[simp] theorem length_overlay :
    (overlay buffer message).length = buffer.length := by
  simp only [overlay, List.length_append, List.length_take, List.length_drop]
  omega

theorem getElem?_overlay
    (inside : place < buffer.length) :
    (overlay buffer message)[place]? =
      (message[place]?).or buffer[place]? := by
  rw [overlay]
  by_cases covered : place < message.length
  · rw [List.getElem?_append_left (by simp; omega),
      List.getElem?_take_of_lt inside, List.getElem?_eq_getElem covered,
      Option.some_or]
  · have short : (message.take buffer.length).length = message.length := by
      rw [List.length_take]
      omega
    rw [List.getElem?_append_right (by omega), short, List.getElem?_drop,
      List.getElem?_eq_none (l := message) (by omega), Option.none_or]
    congr 1
    omega

/-- A message as long as the buffer leaves nothing of it. -/
theorem overlay_of_le
    (covers : buffer.length ≤ message.length) :
    overlay buffer message = message.take buffer.length := by
  rw [overlay, List.drop_eq_nil_of_le covers, List.append_nil]

theorem length_foldl_overlay :
    (messages.foldl overlay buffer).length = buffer.length := by
  induction messages generalizing buffer with
  | nil =>
      rfl
  | cons message rest inductionHypothesis =>
      rw [List.foldl_cons, inductionHypothesis, length_overlay]

/-- Each place holds what the last message that reaches it has put there. -/
theorem getElem?_foldl_overlay
    (inside : place < buffer.length) :
    (messages.foldl overlay buffer)[place]? =
      (lastAt messages place).or buffer[place]? := by
  induction messages using List.reverseRecOn with
  | nil =>
      rfl
  | append_singleton earlier message inductionHypothesis =>
      have stillInside : place < (earlier.foldl overlay buffer).length := by
        rw [length_foldl_overlay]
        exact inside
      rw [List.foldl_append, List.foldl_cons, List.foldl_nil,
        getElem?_overlay stillInside, inductionHypothesis, lastAt, lastAt,
        List.filterMap_append]
      cases found : message[place]? with
      | none =>
          simp [found]
      | some value =>
          simp [found]

end Rules

end Csh.Overlay
