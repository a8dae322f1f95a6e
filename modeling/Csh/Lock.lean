import Csh.Lib.Steps
import Mathlib.Algebra.BigOperators.Fin
import Mathlib.Algebra.Order.BigOperators.Group.Finset
import Mathlib.Algebra.Order.Ring.Int

namespace Csh.Lock

open Steps

/-!
# The locks of the parameter library

A lock is a semaphore that starts with the value 1.  `si_lock_take` waits on
it.  `si_lock_give` posts it, but first reads the value and returns when it is
positive.  The read and the post are two steps, so any number of threads can
be between them.
-/

/-- Where a thread stands in the functions of a lock. -/
inductive Place where
  | idle
  /-- `si_lock_take` is in `sem_wait` or in `sem_timedwait`. -/
  | waiting
  /-- `si_lock_give` has read a value that is not positive. -/
  | posting
  deriving Repr, DecidableEq

/-- A thread and how often it holds the lock. -/
structure Worker where
  held : Nat
  place : Place
  deriving Repr, DecidableEq

/-- One semaphore and the threads that use it. -/
structure LockState (Thread : Type) where
  value : Nat
  worker : Thread → Worker

/-- What a thread does next. -/
inductive LockAction where
  /-- `si_lock_take` is called and gets to its wait. -/
  | takeCalled
  /-- The wait returns 0. -/
  | waitReturns
  /-- The wait returns an error, or has timed out. -/
  | waitFails
  /-- `si_lock_give` is called and reads the value. -/
  | getvalue
  /-- `sem_post`. -/
  | post
  deriving Repr, DecidableEq

/-- The state with another value and one thread changed. -/
def LockState.change
    {Thread : Type}
    [DecidableEq Thread]
    (state : LockState Thread)
    (value : Nat)
    (thread : Thread)
    (worker : Worker) :
    LockState Thread where
  value := value
  worker := Function.update state.worker thread worker

/-- One step of `si_lock_take` or `si_lock_give` in one of the threads. -/
def lockStep
    {Thread : Type}
    [DecidableEq Thread]
    (action : Thread × LockAction)
    (state : LockState Thread) :
    Option (LockState Thread) :=
  let thread := action.1
  let worker := state.worker thread
  match worker.place, action.2 with
  | .idle, .takeCalled =>
      some (state.change state.value thread ⟨worker.held, .waiting⟩)
  | .waiting, .waitReturns =>
      if 0 < state.value then
        some (state.change (state.value - 1) thread ⟨worker.held + 1, .idle⟩)
      else
        none
  | .waiting, .waitFails =>
      some (state.change state.value thread ⟨worker.held, .idle⟩)
  | .idle, .getvalue =>
      if 0 < state.value then
        some (state.change state.value thread ⟨worker.held - 1, .idle⟩)
      else
        some (state.change state.value thread ⟨worker.held - 1, .posting⟩)
  | .posting, .post =>
      some (state.change (state.value + 1) thread ⟨worker.held, .idle⟩)
  | _, _ => none

section Change

variable {Thread : Type}
variable [DecidableEq Thread]
variable {state : LockState Thread}
variable {value : Nat}
variable {thread other : Thread}
variable {worker : Worker}

@[simp] theorem LockState.value_change :
    (state.change value thread worker).value = value :=
  rfl

@[simp] theorem LockState.worker_change_same :
    (state.change value thread worker).worker thread = worker :=
  Function.update_self ..

theorem LockState.worker_change_other
    (different : other ≠ thread) :
    (state.change value thread worker).worker other = state.worker other :=
  Function.update_of_ne different ..

end Change

/-- The lock as `si_lock_init` leaves it. -/
def lockStart (Thread : Type) : LockState Thread where
  value := 1
  worker _ := ⟨0, .idle⟩

/-- `si_lock_give` is called by threads that hold the lock only. -/
def givesHeld
    {Thread : Type}
    (action : Thread × LockAction)
    (state : LockState Thread) :
    Bool :=
  action.2 != .getvalue || 0 < (state.worker action.1).held

/-- How a step changes the value and the thread that takes it. -/
inductive LockMove
    (value : Nat) :
    Worker → LockAction → Nat → Worker → Prop where
  | takeCalled
      (held : Nat) :
      LockMove value ⟨held, .idle⟩ .takeCalled value ⟨held, .waiting⟩
  | waitReturns
      (held : Nat)
      (positive : 0 < value) :
      LockMove value ⟨held, .waiting⟩ .waitReturns (value - 1)
        ⟨held + 1, .idle⟩
  | waitFails
      (held : Nat) :
      LockMove value ⟨held, .waiting⟩ .waitFails value ⟨held, .idle⟩
  | returns
      (held : Nat)
      (positive : 0 < value) :
      LockMove value ⟨held, .idle⟩ .getvalue value ⟨held - 1, .idle⟩
  | readsZero
      (held : Nat)
      (zero : value = 0) :
      LockMove value ⟨held, .idle⟩ .getvalue value ⟨held - 1, .posting⟩
  | post
      (held : Nat) :
      LockMove value ⟨held, .posting⟩ .post (value + 1) ⟨held, .idle⟩

section Steps

variable {Thread : Type}
variable [DecidableEq Thread]
variable {state next : LockState Thread}
variable {action : Thread × LockAction}

/-- Everything that a step can do. -/
theorem lockStep_eq_some
    (stepped : lockStep action state = some next) :
    ∃ value worker,
      LockMove state.value (state.worker action.1) action.2 value worker ∧
        next = state.change value action.1 worker := by
  obtain ⟨thread, act⟩ := action
  rcases shape : state.worker thread with ⟨held, place⟩
  cases place <;> cases act <;>
    simp only [lockStep, shape, Option.some.injEq, reduceCtorEq] at stepped
  case idle.takeCalled =>
    exact ⟨_, _, .takeCalled held, stepped.symm⟩
  case idle.getvalue =>
    split at stepped
    · exact ⟨_, _, .returns held ‹_›, (Option.some.inj stepped).symm⟩
    · exact
        ⟨_, _, .readsZero held (Nat.eq_zero_of_not_pos ‹_›),
          (Option.some.inj stepped).symm⟩
  case waiting.waitReturns =>
    split at stepped
    · exact ⟨_, _, .waitReturns held ‹_›, (Option.some.inj stepped).symm⟩
    · cases stepped
  case waiting.waitFails =>
    exact ⟨_, _, .waitFails held, stepped.symm⟩
  case posting.post =>
    exact ⟨_, _, .post held, stepped.symm⟩

end Steps

/-- The tokens of a thread: those it holds and the one it is about to post. -/
def Worker.tokens (worker : Worker) : Nat :=
  worker.held + if worker.place = .posting then 1 else 0

/-- The thread neither holds the lock nor is about to post it. -/
def Worker.HasNothing (worker : Worker) : Prop :=
  worker.held = 0 ∧ worker.place ≠ .posting

/-- The thread holds the lock once or is about to post it. -/
def Worker.HasToken (worker : Worker) : Prop :=
  worker.held = 1 ∧ worker.place ≠ .posting ∨
    worker.held = 0 ∧ worker.place = .posting

theorem Worker.tokens_eq_zero_iff
    {worker : Worker} :
    worker.tokens = 0 ↔ worker.HasNothing := by
  simp [tokens, HasNothing]

theorem Worker.tokens_eq_one_iff
    {worker : Worker} :
    worker.tokens = 1 ↔ worker.HasToken := by
  unfold tokens HasToken
  split <;> simp_all

/-- A step keeps the tokens, unless it gives what is not held. -/
theorem LockMove.tokens
    {value after : Nat}
    {worker changed : Worker}
    {act : LockAction}
    (move : LockMove value worker act after changed)
    (gives : act = .getvalue → 0 < worker.held ∧ value = 0) :
    after + changed.tokens = value + worker.tokens := by
  cases move with
  | takeCalled held =>
      rfl
  | waitReturns held positive =>
      simp only [Worker.tokens, reduceCtorEq, if_false]
      omega
  | waitFails held =>
      rfl
  | returns held positive =>
      exact absurd (gives rfl).2 (Nat.ne_of_gt positive)
  | readsZero held zero =>
      have holds := (gives rfl).1
      simp only [Worker.tokens, reduceCtorEq, if_false, if_true] at holds ⊢
      omega
  | post held =>
      simp only [Worker.tokens, reduceCtorEq, if_false, if_true]
      omega

/-- 1 for a thread that is about to post. -/
def Worker.posting (worker : Worker) : Nat :=
  if worker.place = .posting then 1 else 0

theorem Worker.posting_le_one
    (worker : Worker) :
    worker.posting ≤ 1 := by
  unfold posting
  split <;> simp

/-- Only a give that reads the value 0 leads to one post more. -/
theorem LockMove.posting
    {value after : Nat}
    {worker changed : Worker}
    {act : LockAction}
    (move : LockMove value worker act after changed) :
    after + changed.posting ≤ value + worker.posting ∨ after = 0 := by
  cases move with
  | takeCalled held =>
      exact Or.inl (Nat.le_refl _)
  | waitReturns held positive =>
      refine Or.inl (Nat.add_le_add_right (Nat.sub_le value 1) _)
  | waitFails held =>
      exact Or.inl (Nat.le_refl _)
  | returns held positive =>
      exact Or.inl (Nat.le_refl _)
  | readsZero held zero =>
      exact Or.inr zero
  | post held =>
      exact Or.inl (Nat.le_refl _)

section Interleavings

variable {Thread : Type}
variable [DecidableEq Thread]
variable [Fintype Thread]
variable {state next : LockState Thread}

/-- One thread's share of a sum is replaced. -/
theorem LockState.sum_change
    (share : Worker → Nat)
    (value : Nat)
    (thread : Thread)
    (worker : Worker) :
    (∑ other, share ((state.change value thread worker).worker other)) +
        share (state.worker thread) =
      (∑ other, share (state.worker other)) + share worker := by
  rw [← Finset.add_sum_erase _ _ (Finset.mem_univ thread),
    ← Finset.add_sum_erase _ (fun other => share (state.worker other))
      (Finset.mem_univ thread)]
  have others :
      ∑ other ∈ Finset.univ.erase thread,
          share ((state.change value thread worker).worker other) =
        ∑ other ∈ Finset.univ.erase thread, share (state.worker other) :=
    Finset.sum_congr rfl fun other member => by
      rw [worker_change_other (Finset.ne_of_mem_erase member)]
  rw [others, worker_change_same]
  omega

/-- There is one token: the value, or one thread has it. -/
def OneToken (state : LockState Thread) : Prop :=
  state.value + ∑ thread, (state.worker thread).tokens = 1

theorem keeps_oneToken :
    Keeps (within givesHeld lockStep) (OneToken : LockState Thread → Prop) := by
  intro action state next one stepped
  obtain ⟨allowed, stepped⟩ := within_eq_some_iff.mp stepped
  obtain ⟨value, worker, move, rfl⟩ := lockStep_eq_some stepped
  have share :
      (state.worker action.1).tokens ≤
        ∑ thread, (state.worker thread).tokens :=
    Finset.single_le_sum
      (f := fun thread => (state.worker thread).tokens)
      (fun _ _ => Nat.zero_le _) (Finset.mem_univ action.1)
  have tokens : value + worker.tokens =
      state.value + (state.worker action.1).tokens := by
    refine move.tokens fun isGive => ?_
    have holds : 0 < (state.worker action.1).held := by
      simpa [givesHeld, isGive] using allowed
    have holdsToken : 0 < (state.worker action.1).tokens :=
      Nat.add_pos_left holds _
    exact ⟨holds, by unfold OneToken at one; omega⟩
  have sum := state.sum_change Worker.tokens value action.1 worker
  unfold OneToken at one ⊢
  change value + _ = 1
  omega

/-- The value and the posts to come are at most as many as the threads. -/
def Bounded (state : LockState Thread) : Prop :=
  state.value + ∑ thread, (state.worker thread).posting ≤ Fintype.card Thread

theorem keeps_bounded :
    Keeps lockStep (Bounded : LockState Thread → Prop) := by
  intro action state next bounded stepped
  obtain ⟨value, worker, move, rfl⟩ := lockStep_eq_some stepped
  have sum := state.sum_change Worker.posting value action.1 worker
  unfold Bounded at bounded ⊢
  rw [LockState.value_change]
  rcases move.posting with fewer | zero
  · omega
  · have atMostOne :
        ∑ thread, ((state.change value action.1 worker).worker thread).posting ≤
          ∑ _thread : Thread, 1 :=
      Finset.sum_le_sum fun thread _ => Worker.posting_le_one _
    rw [Finset.sum_const, Finset.card_univ, smul_eq_mul, mul_one] at atMostOne
    omega

omit [DecidableEq Thread] in
theorem sum_lockStart
    (share : Worker → Nat)
    (nothing : share ⟨0, .idle⟩ = 0) :
    ∑ thread, share ((lockStart Thread).worker thread) = 0 :=
  Finset.sum_eq_zero fun _ _ => nothing

/-- Of natural numbers with the sum 1, one is 1 and the others are 0. -/
theorem exists_one_of_sum
    {share : Thread → Nat}
    (sum : ∑ thread, share thread = 1) :
    ∃ holder, share holder = 1 ∧ ∀ other ≠ holder, share other = 0 := by
  have nonzero : ∑ thread, share thread ≠ 0 := by
    rw [sum]
    exact one_ne_zero
  obtain ⟨holder, member, positive⟩ :=
    Finset.exists_ne_zero_of_sum_ne_zero nonzero
  have split :=
    Finset.add_sum_erase Finset.univ share (Finset.mem_univ holder)
  refine ⟨holder, by omega, fun other different => ?_⟩
  have othersZero : ∑ other ∈ Finset.univ.erase holder, share other = 0 := by
    omega
  exact
    Finset.sum_eq_zero_iff.mp othersZero other
      (Finset.mem_erase.mpr ⟨different, Finset.mem_univ other⟩)

/--
While only holders give the lock, it has one token in every interleaving: it is
free and no thread has it, or exactly one thread holds it or is posting it.
-/
theorem lock_exclusive
    (reaches :
      Reaches (within givesHeld lockStep) (lockStart Thread) state) :
    (state.value = 1 ∧ ∀ thread, (state.worker thread).HasNothing) ∨
      (state.value = 0 ∧
        ∃ holder,
          (state.worker holder).HasToken ∧
            ∀ other ≠ holder, (state.worker other).HasNothing) := by
  have start : OneToken (lockStart Thread) := by
    rw [OneToken, sum_lockStart Worker.tokens rfl]
    rfl
  have one := keeps_oneToken.reaches start reaches
  unfold OneToken at one
  rcases Nat.eq_zero_or_pos state.value with taken | free
  · have sum : ∑ thread, (state.worker thread).tokens = 1 := by
      omega
    obtain ⟨holder, holds, others⟩ := exists_one_of_sum sum
    exact
      Or.inr ⟨taken, holder, Worker.tokens_eq_one_iff.mp holds,
        fun other different =>
          Worker.tokens_eq_zero_iff.mp (others other different)⟩
  · have sum : ∑ thread, (state.worker thread).tokens = 0 := by
      omega
    refine
      Or.inl ⟨by omega, fun thread => Worker.tokens_eq_zero_iff.mp ?_⟩
    exact Finset.sum_eq_zero_iff.mp sum thread (Finset.mem_univ thread)

/-- A thread that waits behind the holder, and the holder about to post. -/
theorem lock_exclusive_posting :
    (∃ state,
      run (within givesHeld lockStep)
          [(0, .takeCalled), (1, .takeCalled), (0, .waitReturns),
            (0, .getvalue)]
          (lockStart (Fin 2)) = some state ∧
        ((state.value = 1 ∧ ∀ thread, (state.worker thread).HasNothing) ∨
          (state.value = 0 ∧
            ∃ holder,
              (state.worker holder).HasToken ∧
                ∀ other ≠ holder, (state.worker other).HasNothing))) := by
  have reached :
      run (within givesHeld lockStep)
          [(0, .takeCalled), (1, .takeCalled), (0, .waitReturns),
            (0, .getvalue)]
          (lockStart (Fin 2)) = some _ :=
    rfl
  exact ⟨_, reached, lock_exclusive ⟨_, reached⟩⟩

omit [Fintype Thread] in
/-- The threads of a list have read the value 0 and none has posted yet. -/
theorem exists_posting
    (first : Thread)
    {threads : List Thread}
    (distinct : threads.Nodup) :
    ∃ state,
      Reaches lockStep (lockStart Thread) state ∧
        state.value = 0 ∧
          ∀ thread,
            (state.worker thread).place =
              if thread ∈ threads then .posting else .idle := by
  induction threads with
  | nil =>
      have reached :
          run lockStep [(first, .takeCalled), (first, .waitReturns)]
              (lockStart Thread) =
            some (((lockStart Thread).change 1 first ⟨0, .waiting⟩).change 0
              first ⟨1, .idle⟩) := by
        simp [run, lockStep, lockStart]
      refine ⟨_, ⟨_, reached⟩, rfl, fun thread => ?_⟩
      by_cases same : thread = first
      · simp [same]
      · simp [LockState.worker_change_other same, lockStart]
  | cons giver rest inductionHypothesis =>
      obtain ⟨fresh, restDistinct⟩ := List.nodup_cons.mp distinct
      obtain ⟨state, reaches, zero, places⟩ := inductionHypothesis restDistinct
      have idle : (state.worker giver).place = .idle := by
        rw [places, if_neg fresh]
      have stepped :
          lockStep (giver, .getvalue) state =
            some (state.change 0 giver
              ⟨(state.worker giver).held - 1, .posting⟩) := by
        simp [lockStep, idle, zero]
      refine ⟨_, reaches.concat stepped, rfl, fun thread => ?_⟩
      by_cases same : thread = giver
      · simp [same]
      · simp [LockState.worker_change_other same, places, same]

omit [Fintype Thread] in
/-- Some of the threads that have read the value 0 have posted. -/
theorem exists_value
    {threads : List Thread}
    {start : LockState Thread}
    (distinct : threads.Nodup)
    (places : ∀ thread ∈ threads, (start.worker thread).place = .posting) :
    ∃ state,
      Reaches lockStep start state ∧
        state.value = start.value + threads.length := by
  induction threads generalizing start with
  | nil =>
      exact ⟨start, Reaches.refl, rfl⟩
  | cons poster rest inductionHypothesis =>
      obtain ⟨fresh, restDistinct⟩ := List.nodup_cons.mp distinct
      obtain ⟨posting, restPlaces⟩ := List.forall_mem_cons.mp places
      have stepped :
          lockStep (poster, .post) start =
            some (start.change (start.value + 1) poster
              ⟨(start.worker poster).held, .idle⟩) := by
        simp [lockStep, posting]
      have laterPlaces : ∀ thread ∈ rest,
          ((start.change (start.value + 1) poster
            ⟨(start.worker poster).held, .idle⟩).worker thread).place =
              .posting := by
        intro thread member
        have different : thread ≠ poster :=
          fun same => fresh (same ▸ member)
        rw [LockState.worker_change_other different]
        exact restPlaces thread member
      obtain ⟨state, ⟨actions, reached⟩, value⟩ :=
        inductionHypothesis restDistinct laterPlaces
      refine ⟨state, ⟨(poster, .post) :: actions, ?_⟩, ?_⟩
      · exact run_cons_eq_some_iff.mpr ⟨_, stepped, reached⟩
      · rw [value, LockState.value_change, List.length_cons]
        omega

/--
When any thread may give the lock, the read of the value does not keep the
semaphore binary: the values that some interleaving reaches are all those up to
the number of threads.
-/
theorem reaches_value_iff
    [Nonempty Thread]
    {value : Nat} :
    (∃ state,
        Reaches lockStep (lockStart Thread) state ∧ state.value = value) ↔
      value ≤ Fintype.card Thread := by
  constructor
  · rintro ⟨state, reaches, rfl⟩
    have start : Bounded (lockStart Thread) := by
      rw [Bounded, sum_lockStart Worker.posting rfl]
      exact Fintype.card_pos
    exact
      (Nat.le_add_right _ _).trans (keeps_bounded.reaches start reaches)
  · intro le
    obtain ⟨first⟩ := ‹Nonempty Thread›
    let threads := (Finset.univ : Finset Thread).toList.take value
    have distinct : threads.Nodup :=
      (Finset.nodup_toList _).sublist (List.take_sublist _ _)
    have length : threads.length = value := by
      rw [List.length_take, Finset.length_toList, Finset.card_univ]
      exact Nat.min_eq_left le
    obtain ⟨middle, reaches, zero, places⟩ := exists_posting first distinct
    have posting :
        ∀ thread ∈ threads, (middle.worker thread).place = .posting :=
      fun thread member => by rw [places, if_pos member]
    obtain ⟨state, more, posted⟩ := exists_value distinct posting
    exact ⟨state, reaches.trans more, by omega⟩

/-- Two threads that give at once leave a semaphore that lets two in. -/
theorem reaches_value_two :
    ∃ state,
      Reaches lockStep (lockStart (Fin 2)) state ∧ state.value = 2 :=
  reaches_value_iff.mpr (Nat.le_refl 2)

end Interleavings

/-- A `struct timespec`. -/
structure Timespec where
  tvSec : Int
  tvNsec : Int
  deriving Repr, DecidableEq

/-- The time in nanoseconds. -/
def Timespec.nanoseconds (time : Timespec) : Int :=
  time.tvSec * 1000000000 + time.tvNsec

/-- The nanoseconds do not reach a second. -/
def Timespec.Valid (time : Timespec) : Prop :=
  0 ≤ time.tvNsec ∧ time.tvNsec < 1000000000

/-- A value as a `uint32_t`. -/
def uint32 (value : Int) : Int :=
  value % 2 ^ 32

/-- The wait that `si_lock_take` makes. -/
inductive Wait where
  | semWait
  | semTimedwait (deadline : Timespec)
  deriving Repr, DecidableEq

/-- The deadline that `si_lock_take` computes from the clock. -/
def deadline (now : Timespec) (blockTimeMs : Int) : Timespec :=
  let sec := uint32 (blockTimeMs.tdiv 1000)
  let nsec := uint32 (uint32 (blockTimeMs - uint32 (1000 * sec)) * 1000000)
  let tvSec := now.tvSec + sec
  { tvSec := if 1000000000 ≤ now.tvNsec + nsec then tvSec + 1 else tvSec
    tvNsec := (now.tvNsec + nsec).tmod 1000000000 }

/-- `si_lock_take` up to its wait, with what `clock_gettime` gives. -/
def siLockTake (clock : Option Timespec) (blockTimeMs : Int) : Option Wait :=
  if blockTimeMs = -1 then
    some .semWait
  else
    clock.map fun now => .semTimedwait (deadline now blockTimeMs)

section Deadline

variable {now : Timespec}
variable {blockTimeMs : Int}

theorem uint32_nonneg
    (value : Int) :
    0 ≤ uint32 value :=
  Int.emod_nonneg _ (by decide)

theorem uint32_of_fits
    {value : Int}
    (nonneg : 0 ≤ value)
    (small : value < 2 ^ 32) :
    uint32 value = value :=
  Int.emod_eq_of_lt nonneg small

/-- Both parts of the deadline, with the seconds carried. -/
theorem deadline_nanoseconds
    (valid : now.Valid) :
    (deadline now blockTimeMs).Valid ∧
      now.nanoseconds ≤ (deadline now blockTimeMs).nanoseconds := by
  obtain ⟨nonneg, small⟩ := valid
  have secNonneg := uint32_nonneg (blockTimeMs.tdiv 1000)
  have nsecNonneg :=
    uint32_nonneg
      (uint32 (blockTimeMs - uint32 (1000 * uint32 (blockTimeMs.tdiv 1000))) *
        1000000)
  simp only [deadline, Timespec.Valid, Timespec.nanoseconds]
  rw [Int.tmod_eq_emod_of_nonneg (by omega)]
  split <;> omega

/-- A block time that is not negative is split without a wrap. -/
theorem deadline_of_nonneg
    (valid : now.Valid)
    (nonneg : 0 ≤ blockTimeMs)
    (small : blockTimeMs < 2 ^ 31) :
    (deadline now blockTimeMs).nanoseconds =
      now.nanoseconds + blockTimeMs * 1000000 := by
  obtain ⟨nowNonneg, nowSmall⟩ := valid
  have sec : uint32 (blockTimeMs.tdiv 1000) = blockTimeMs / 1000 := by
    rw [Int.tdiv_eq_ediv_of_nonneg nonneg]
    exact uint32_of_fits (by omega) (by omega)
  have milliseconds :
      uint32 (blockTimeMs - uint32 (1000 * (blockTimeMs / 1000))) =
        blockTimeMs % 1000 := by
    rw [@uint32_of_fits (1000 * (blockTimeMs / 1000)) (by omega) (by omega),
      uint32_of_fits (by omega) (by omega)]
    omega
  have nsec :
      uint32 (blockTimeMs % 1000 * 1000000) = blockTimeMs % 1000 * 1000000 :=
    uint32_of_fits (by omega) (by omega)
  simp only [deadline, Timespec.nanoseconds]
  rw [sec, milliseconds, nsec, Int.tmod_eq_emod_of_nonneg (by omega)]
  split <;> omega

/--
A timed take never waits for a moment that is past.  It waits for as long as it
was asked to exactly when the block time is not negative.
-/
theorem deadline_exact_iff
    (valid : now.Valid)
    (upper : blockTimeMs < 2 ^ 31)
    (timed : blockTimeMs ≠ -1) :
    ∃ due,
      siLockTake (some now) blockTimeMs = some (.semTimedwait due) ∧
        due.Valid ∧
          now.nanoseconds ≤ due.nanoseconds ∧
            (due.nanoseconds = now.nanoseconds + blockTimeMs * 1000000 ↔
              0 ≤ blockTimeMs) := by
  obtain ⟨dueValid, later⟩ := @deadline_nanoseconds now blockTimeMs valid
  refine ⟨deadline now blockTimeMs, if_neg timed, dueValid, later, ?_⟩
  constructor
  · intro equal
    omega
  · intro nonneg
    exact deadline_of_nonneg valid nonneg upper

/-- A wait of one and a half seconds, from the end of a second. -/
theorem deadline_exact_carry :
    ∃ due,
      siLockTake (some ⟨100, 999999999⟩) 1500 = some (.semTimedwait due) ∧
        due.Valid ∧
          (⟨100, 999999999⟩ : Timespec).nanoseconds ≤ due.nanoseconds ∧
            (due.nanoseconds =
                (⟨100, 999999999⟩ : Timespec).nanoseconds + 1500 * 1000000 ↔
              0 ≤ (1500 : Int)) :=
  deadline_exact_iff ⟨by decide, by decide⟩ (by decide) (by decide)

end Deadline

/-- `si_lock_init` on `lock_taken`: the lock that it hands out. -/
def siLockInit : List Bool → Option Nat × List Bool
  | [] => (none, [])
  | false :: rest => (some 0, true :: rest)
  | true :: rest =>
      ((siLockInit rest).1.map (· + 1), true :: (siLockInit rest).2)

/-- `lock_taken` behind some calls of `si_lock_init`. -/
def lockTaken (locks : Nat) : Nat → List Bool
  | 0 => List.replicate locks false
  | calls + 1 => (siLockInit (lockTaken locks calls)).2

theorem siLockInit_replicate
    (taken free : Nat) :
    siLockInit (List.replicate taken true ++ List.replicate free false) =
      if free = 0 then
        (none, List.replicate taken true)
      else
        (some taken,
          List.replicate (taken + 1) true ++
            List.replicate (free - 1) false) := by
  induction taken with
  | zero =>
      cases free with
      | zero =>
          rfl
      | succ free =>
          rfl
  | succ taken inductionHypothesis =>
      rw [List.replicate_succ, List.cons_append, siLockInit,
        inductionHypothesis]
      split <;> rfl

theorem lockTaken_eq
    (locks calls : Nat) :
    lockTaken locks calls =
      List.replicate (min calls locks) true ++
        List.replicate (locks - calls) false := by
  induction calls with
  | zero =>
      simp [lockTaken]
  | succ calls inductionHypothesis =>
      rw [lockTaken, inductionHypothesis, siLockInit_replicate]
      by_cases used : locks ≤ calls
      · rw [if_pos (by omega), Nat.min_eq_right used,
          Nat.min_eq_right (by omega), Nat.sub_eq_zero_of_le (by omega)]
        simp
      · rw [if_neg (by omega), Nat.min_eq_left (by omega),
          Nat.min_eq_left (by omega), Nat.sub_sub]

/-- Each lock is handed out once, in their order, and then none. -/
theorem siLockInit_call
    (locks calls : Nat) :
    (siLockInit (lockTaken locks calls)).1 =
      if calls < locks then some calls else none := by
  rw [lockTaken_eq, siLockInit_replicate]
  split <;> split <;> simp <;> omega

end Csh.Lock
