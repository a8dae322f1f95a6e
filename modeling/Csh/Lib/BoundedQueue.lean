import Mathlib.Data.List.Basic

namespace Csh.BoundedQueue

/-!
# Bounded queues

A queue of which only the operations are known.  What is in it is told by a
list: items come out in the order in which they went in, and an item is taken
as long as there is room.
-/

/-- The operations of a queue. -/
structure QueueOps (Item Queue : Type) where
  create : Queue
  /-- There is no new queue when the item is not taken. -/
  enqueue : Item → Queue → Option Queue
  /-- There is no item when the queue is empty. -/
  dequeue : Queue → Option (Item × Queue)
  size : Queue → Nat

/-- The operations are those of a queue of this capacity. -/
structure Lawful
    {Item Queue : Type}
    (ops : QueueOps Item Queue)
    (capacity : Nat)
    (contents : Queue → List Item) :
    Prop where
  create : contents ops.create = []
  enqueue_room :
    ∀ item queue,
      (contents queue).length < capacity →
        ∃ next,
          ops.enqueue item queue = some next ∧
            contents next = contents queue ++ [item]
  enqueue_full :
    ∀ item queue,
      capacity ≤ (contents queue).length → ops.enqueue item queue = none
  dequeue_cons :
    ∀ item rest queue,
      contents queue = item :: rest →
        ∃ next, ops.dequeue queue = some (item, next) ∧ contents next = rest
  dequeue_nil :
    ∀ queue, contents queue = [] → ops.dequeue queue = none
  size : ∀ queue, ops.size queue = (contents queue).length

section Rules

variable {Item Queue : Type}
variable {ops : QueueOps Item Queue}
variable {capacity : Nat}
variable {contents : Queue → List Item}
variable {item : Item}
variable {queue next : Queue}

/-- An item that is taken is the last one. -/
theorem Lawful.contents_of_enqueue
    (lawful : Lawful ops capacity contents)
    (taken : ops.enqueue item queue = some next) :
    contents next = contents queue ++ [item] := by
  rcases Nat.lt_or_ge (contents queue).length capacity with room | full
  · obtain ⟨_, enqueued, holds⟩ := lawful.enqueue_room item queue room
    rw [taken] at enqueued
    exact Option.some.inj enqueued ▸ holds
  · rw [lawful.enqueue_full item queue full] at taken
    cases taken

/-- An item is only refused when there is no room. -/
theorem Lawful.full_of_refused
    (lawful : Lawful ops capacity contents)
    (refused : ops.enqueue item queue = none) :
    capacity ≤ (contents queue).length := by
  by_contra room
  obtain ⟨_, enqueued, _⟩ :=
    lawful.enqueue_room item queue (Nat.lt_of_not_le room)
  rw [refused] at enqueued
  cases enqueued

/-- An item that comes out was the first one. -/
theorem Lawful.contents_of_dequeue
    (lawful : Lawful ops capacity contents)
    (came : ops.dequeue queue = some (item, next)) :
    contents queue = item :: contents next := by
  cases holds : contents queue with
  | nil =>
      rw [lawful.dequeue_nil queue holds] at came
      cases came
  | cons first rest =>
      obtain ⟨_, dequeued, behind⟩ :=
        lawful.dequeue_cons first rest queue holds
      rw [came] at dequeued
      obtain ⟨rfl, rfl⟩ := Prod.mk.inj (Option.some.inj dequeued)
      rw [behind]

/-- Only an empty queue gives nothing. -/
theorem Lawful.contents_of_dequeue_none
    (lawful : Lawful ops capacity contents)
    (empty : ops.dequeue queue = none) :
    contents queue = [] := by
  cases holds : contents queue with
  | nil =>
      rfl
  | cons first rest =>
      obtain ⟨_, dequeued, _⟩ := lawful.dequeue_cons first rest queue holds
      rw [empty] at dequeued
      cases dequeued

end Rules

/-- A list as a queue. -/
def listQueue (Item : Type) (capacity : Nat) : QueueOps Item (List Item) where
  create := []
  enqueue item queue :=
    if queue.length < capacity then some (queue ++ [item]) else none
  dequeue queue :=
    match queue with
    | [] => none
    | item :: rest => some (item, rest)
  size := List.length

theorem lawful_listQueue
    (Item : Type)
    (capacity : Nat) :
    Lawful (listQueue Item capacity) capacity id where
  create := rfl
  enqueue_room _ _ room := ⟨_, if_pos room, rfl⟩
  enqueue_full _ _ full := if_neg (Nat.not_lt.mpr full)
  dequeue_cons _ _ _ holds := by
    cases holds
    exact ⟨_, rfl, rfl⟩
  dequeue_nil _ holds := by
    cases holds
    rfl
  size _ := rfl

end Csh.BoundedQueue
