import Mathlib.Logic.Function.Basic

namespace Csh.Pointers

/-!
# Pointers to allocated blocks

Pointers that several parties share, with the blocks that have been freed.  A
fault is the use of a pointer to no block or to a freed one, and to free a
block again.
-/

variable {Pointer : Type}

/-- Where the pointers point; the blocks from `next` on are still to come. -/
structure Memory (Pointer : Type) where
  block : Pointer → Option Nat
  next : Nat
  freed : Nat → Bool
  faulty : Bool

namespace Memory

/-- No block is there and no pointer is set. -/
def empty : Memory Pointer where
  block _ := none
  next := 0
  freed _ := false
  faulty := false

/-- The block of the pointer is freed, and the pointer stays. -/
def free
    (pointer : Pointer)
    (memory : Memory Pointer) :
    Memory Pointer :=
  match memory.block pointer with
  | none => memory
  | some block =>
      { memory with
        freed := Function.update memory.freed block true
        faulty := memory.faulty || memory.freed block }

/-- The block of the pointer is read. -/
def use
    (pointer : Pointer)
    (memory : Memory Pointer) :
    Memory Pointer :=
  match memory.block pointer with
  | none => { memory with faulty := true }
  | some block =>
      { memory with faulty := memory.faulty || memory.freed block }

variable [DecidableEq Pointer]

/-- The pointer gets a block of its own. -/
def allocate
    (pointer : Pointer)
    (memory : Memory Pointer) :
    Memory Pointer :=
  { memory with
    block := Function.update memory.block pointer (some memory.next)
    next := memory.next + 1 }

/-- The pointer becomes `NULL`. -/
def clear
    (pointer : Pointer)
    (memory : Memory Pointer) :
    Memory Pointer :=
  { memory with block := Function.update memory.block pointer none }

end Memory

/--
There was no fault, no two pointers share a block, and all blocks that are
pointed to are there, but for that of a dangling pointer.
-/
structure Sound (dangling : Pointer → Prop) (memory : Memory Pointer) :
    Prop where
  intact : memory.faulty = false
  live :
    ∀ pointer block,
      memory.block pointer = some block →
        ¬ dangling pointer → memory.freed block = false
  distinct :
    ∀ pointer other block,
      memory.block pointer = some block →
        memory.block other = some block → pointer = other
  bound :
    ∀ pointer block, memory.block pointer = some block → block < memory.next
  fresh : ∀ block, memory.next ≤ block → memory.freed block = false

/-- No pointer is dangling. -/
abbrev Clean (memory : Memory Pointer) : Prop :=
  Sound (fun _ => False) memory

section Rules

variable {pointer other : Pointer}
variable {block : Nat}
variable {dangling : Pointer → Prop}
variable {memory : Memory Pointer}

@[simp] theorem block_use :
    (memory.use pointer).block = memory.block := by
  unfold Memory.use
  split <;> rfl

theorem clean_empty :
    Clean (Memory.empty : Memory Pointer) where
  intact := rfl
  live _ _ found _ := by cases found
  distinct _ _ _ found := by cases found
  bound _ _ found := by cases found
  fresh _ _ := rfl

/-- More pointers may be dangling. -/
theorem Sound.mono
    {more : Pointer → Prop}
    (sound : Sound dangling memory)
    (weaker : ∀ pointer, dangling pointer → more pointer) :
    Sound more memory :=
  ⟨sound.intact,
    fun pointer block found there =>
      sound.live pointer block found fun dangles =>
        there (weaker pointer dangles),
    sound.distinct, sound.bound, sound.fresh⟩

theorem Clean.use
    (clean : Clean memory)
    (points : memory.block pointer ≠ none) :
    Clean (memory.use pointer) := by
  obtain ⟨block, shape⟩ := Option.ne_none_iff_exists'.mp points
  have there := clean.live pointer block shape id
  unfold Memory.use
  rw [shape]
  exact
    ⟨by simp [clean.intact, there], clean.live, clean.distinct, clean.bound,
      clean.fresh⟩

/-- A block that is freed leaves its pointer dangling. -/
theorem Clean.free
    (clean : Clean memory) :
    Sound (· = pointer) (memory.free pointer) := by
  unfold Memory.free
  cases shape : memory.block pointer with
  | none =>
      exact
        ⟨clean.intact,
          fun other block found _ => clean.live other block found id,
          clean.distinct, clean.bound, clean.fresh⟩
  | some block =>
      have there := clean.live pointer block shape id
      refine
        ⟨by simp [clean.intact, there], fun other cell found unlike => ?_,
          clean.distinct, clean.bound, fun cell above => ?_⟩
      · have different : cell ≠ block := by
          rintro rfl
          exact unlike (clean.distinct other pointer cell found shape)
        exact
          (Function.update_of_ne different _ _).trans
            (clean.live other cell found id)
      · have inside := clean.bound pointer block shape
        have different : cell ≠ block :=
          Nat.ne_of_gt (Nat.lt_of_lt_of_le inside above)
        exact
          (Function.update_of_ne different _ _).trans (clean.fresh cell above)

variable [DecidableEq Pointer]

/-- Only a pointer that was one before can be one when another is cleared. -/
theorem block_clear
    (found : (memory.clear pointer).block other = some block) :
    other ≠ pointer ∧ memory.block other = some block := by
  by_cases same : other = pointer
  · rw [same] at found
    simp [Memory.clear] at found
  · exact ⟨same, by simpa [Memory.clear, same] using found⟩

/-- The pointer that dangles is cleared, or any other. -/
theorem Sound.clear
    (sound : Sound dangling memory)
    (only : ∀ other, dangling other → other = pointer) :
    Clean (memory.clear pointer) := by
  refine
    ⟨sound.intact, fun other block found _ => ?_,
      fun other second block found secondFound => ?_,
      fun other block found => ?_,
      sound.fresh⟩
  · obtain ⟨different, before⟩ := block_clear found
    exact
      sound.live other block before fun dangles =>
        different (only other dangles)
  · exact
      sound.distinct other second block (block_clear found).2
        (block_clear secondFound).2
  · exact sound.bound other block (block_clear found).2

/-- The block of a pointer behind an allocation. -/
theorem block_allocate
    (found : (memory.allocate pointer).block other = some block) :
    other = pointer ∧ block = memory.next ∨
      other ≠ pointer ∧ memory.block other = some block := by
  by_cases same : other = pointer
  · refine .inl ⟨same, ?_⟩
    rw [same] at found
    simpa [Memory.allocate, eq_comm] using found
  · exact .inr ⟨same, by simpa [Memory.allocate, same] using found⟩

theorem Clean.allocate
    (clean : Clean memory) :
    Clean (memory.allocate pointer) := by
  refine
    ⟨clean.intact, fun other block found _ => ?_,
      fun first second block found secondFound => ?_,
      fun other block found => ?_,
      fun block above => clean.fresh block (Nat.le_of_succ_le above)⟩
  · rcases block_allocate found with ⟨_, rfl⟩ | ⟨_, before⟩
    · exact clean.fresh memory.next (Nat.le_refl _)
    · exact clean.live other block before id
  · rcases block_allocate found with ⟨rfl, rfl⟩ | ⟨_, before⟩ <;>
      rcases block_allocate secondFound with ⟨rfl, same⟩ | ⟨_, secondBefore⟩
    · rfl
    · exact absurd (clean.bound second _ secondBefore) (Nat.lt_irrefl _)
    · rw [same] at before
      exact absurd (clean.bound first _ before) (Nat.lt_irrefl _)
    · exact clean.distinct first second block before secondBefore
  · rcases block_allocate found with ⟨_, rfl⟩ | ⟨_, before⟩
    · exact Nat.lt_succ_self _
    · exact Nat.lt_succ_of_lt (clean.bound other block before)

end Rules

end Csh.Pointers
