import Csh.Lib.CString
import Csh.Lib.Cells
import Mathlib.Data.List.Induction
import Mathlib.Logic.Relation

namespace Csh.VictoriaMetrics

open Libc Cells Filled

/-!
# Pushing metrics to Victoria Metrics

`vm_add` collects metric lines in a buffer and the thread `vm_push` posts the
whole buffer from time to time, both under `buffer_mutex`.  The commands that
start and stop the thread share only the flag `vm_running` with it.
-/

/-- `BUFFER_SIZE`. -/
def bufferSize : Nat :=
  10 * 1024 * 1024

section Buffer

/-- The comparison of `vm_add`. -/
def Fits (line : CString) (buffer : Filled Char) : Prop :=
  buffer.used + line.length < bufferSize

instance (line : CString) (buffer : Filled Char) :
    Decidable (Fits line buffer) :=
  inferInstanceAs (Decidable (_ < _))

/-- `vm_add`. -/
def vmAdd (line : CString) (buffer : Filled Char) : Filled Char :=
  if Fits line buffer then
    buffer.append nul line
  else
    buffer

/--
A turn of the loop of `vm_push`: the body of the post when it is answered with
success, and the buffer behind it.  An empty buffer is not posted.
-/
def vmPushTurn
    (succeeds : Bool)
    (buffer : Filled Char) :
    Option CString × Filled Char :=
  if buffer.used = 0 then
    (none, buffer)
  else if succeeds then
    (some buffer.contents, buffer.clear)
  else
    (none, buffer)

/-- What is done under `buffer_mutex`. -/
inductive BufferOperation where
  | add (line : CString)
  | push (succeeds : Bool)
  deriving Repr, DecidableEq

/-- The buffer, with the lines it has accepted and the bodies pushed so far. -/
structure PushState where
  buffer : Filled Char
  accepted : List CString
  pushed : List CString

/-- Nothing has been accepted or pushed. -/
def PushState.initial : PushState where
  buffer := ⟨fun _ => nul, 0⟩
  accepted := []
  pushed := []

/-- The state behind an operation. -/
def PushState.after (state : PushState) : BufferOperation → PushState
  | .add line =>
      { state with
        buffer := vmAdd line state.buffer
        accepted :=
          if Fits line state.buffer then
            state.accepted ++ [line]
          else
            state.accepted }
  | .push succeeds =>
      { state with
        buffer := (vmPushTurn succeeds state.buffer).2
        pushed :=
          state.pushed ++ (vmPushTurn succeeds state.buffer).1.toList }

/-- The state behind operations in some order. -/
def PushState.run (operations : List BufferOperation) : PushState :=
  operations.foldl .after .initial

/-- What was pushed and what is still held are the accepted lines. -/
structure Conserved (state : PushState) : Prop where
  lines :
    state.pushed.flatten ++ state.buffer.contents = state.accepted.flatten
  bound : state.buffer.used < bufferSize

theorem conserved_initial :
    Conserved .initial := by
  refine ⟨rfl, ?_⟩
  simp [PushState.initial, bufferSize]

theorem Conserved.after
    {state : PushState}
    (conserved : Conserved state)
    (operation : BufferOperation) :
    Conserved (state.after operation) := by
  obtain ⟨lines, bound⟩ := conserved
  cases operation with
  | add line =>
      by_cases fits : Fits line state.buffer
      · refine ⟨?_, ?_⟩
        · simp [PushState.after, vmAdd, fits, ← lines]
        · simp only [PushState.after, vmAdd, if_pos fits, used_append]
          exact fits
      · refine ⟨?_, ?_⟩
        · simpa [PushState.after, vmAdd, fits] using lines
        · simpa [PushState.after, vmAdd, fits] using bound
  | push succeeds =>
      by_cases empty : state.buffer.used = 0
      · refine ⟨?_, ?_⟩
        · simpa [PushState.after, vmPushTurn, empty] using lines
        · simpa [PushState.after, vmPushTurn, empty] using bound
      · cases succeeds with
        | true =>
            refine ⟨?_, ?_⟩
            · simpa [PushState.after, vmPushTurn, empty] using lines
            · simp [PushState.after, vmPushTurn, empty, bufferSize]
        | false =>
            refine ⟨?_, ?_⟩
            · simpa [PushState.after, vmPushTurn, empty] using lines
            · simpa [PushState.after, vmPushTurn, empty] using bound

theorem conserved_run
    (operations : List BufferOperation) :
    Conserved (.run operations) := by
  unfold PushState.run
  induction operations using List.reverseRecOn with
  | nil =>
      exact conserved_initial
  | append_singleton operations operation inductionHypothesis =>
      rw [List.foldl_append]
      exact inductionHypothesis.after operation

/--
In any order of additions and pushes, and however the pushes end, the pushed
bodies and the buffer are the accepted lines in their order; a line that does
not fit changes nothing.
-/
theorem pushed_append_contents_eq_accepted
    (operations : List BufferOperation) :
    (PushState.run operations).pushed.flatten ++
          (PushState.run operations).buffer.contents =
        (PushState.run operations).accepted.flatten ∧
      (PushState.run operations).buffer.used < bufferSize ∧
      ∀ line,
        ¬ Fits line (PushState.run operations).buffer →
          ((PushState.run operations).after (.add line)) =
            PushState.run operations := by
  obtain ⟨lines, bound⟩ := conserved_run operations
  refine ⟨lines, bound, fun line tooLong => ?_⟩
  simp [PushState.after, vmAdd, tooLong]

end Buffer

section Threads

/-- A push thread: its test of the connection, its loop, and its end. -/
inductive PushThread where
  | connecting
  | entering
  | looping
  | exited
  deriving Repr, DecidableEq

/-- The command in progress: how far `vm_start_cmd` or `vm_stop_cmd` is. -/
inductive Command where
  | none
  | starting
  | created
  | stopping
  deriving Repr, DecidableEq

/-- `vm_running`, the command in progress, and all threads created so far. -/
structure ThreadState where
  running : Bool
  command : Command
  threads : List PushThread
  deriving Repr, DecidableEq

/-- Nothing has been started. -/
def ThreadState.initial : ThreadState :=
  ⟨false, .none, []⟩

/-- What a push thread does next, with the flag it leaves. -/
inductive ThreadStep : Bool → PushThread → Bool → PushThread → Prop where
  | connected {running : Bool} :
      ThreadStep running .connecting running .entering
  | notConnected {running : Bool} :
      ThreadStep running .connecting false .entering
  | enterLoop :
      ThreadStep true .entering true .looping
  | passLoop :
      ThreadStep false .entering false .exited
  | nextTurn :
      ThreadStep true .looping true .looping
  | leaveLoop :
      ThreadStep false .looping false .exited

/-- The steps of the shell and of the push threads. -/
inductive Action where
  | startWhileRunning
  | start
  | refuse
  | create
  | failToCreate
  | setRunning
  | stopWhileStopped
  | stop
  | clearRunning
  | thread
  deriving Repr, DecidableEq

inductive Step : ThreadState → Action → ThreadState → Prop where
  | startWhileRunning {threads : List PushThread} :
      Step ⟨true, .none, threads⟩ .startWhileRunning ⟨true, .none, threads⟩
  | start {threads : List PushThread} :
      Step ⟨false, .none, threads⟩ .start ⟨false, .starting, threads⟩
  | refuse {running : Bool} {threads : List PushThread} :
      Step ⟨running, .starting, threads⟩ .refuse ⟨running, .none, threads⟩
  | create {running : Bool} {threads : List PushThread} :
      Step ⟨running, .starting, threads⟩ .create
        ⟨running, .created, threads ++ [.connecting]⟩
  | failToCreate {running : Bool} {threads : List PushThread} :
      Step ⟨running, .starting, threads⟩ .failToCreate
        ⟨running, .created, threads⟩
  | setRunning {running : Bool} {threads : List PushThread} :
      Step ⟨running, .created, threads⟩ .setRunning ⟨true, .none, threads⟩
  | stopWhileStopped {threads : List PushThread} :
      Step ⟨false, .none, threads⟩ .stopWhileStopped ⟨false, .none, threads⟩
  | stop {threads : List PushThread} :
      Step ⟨true, .none, threads⟩ .stop ⟨true, .stopping, threads⟩
  | clearRunning {running : Bool} {threads : List PushThread} :
      Step ⟨running, .stopping, threads⟩ .clearRunning ⟨false, .none, threads⟩
  | thread
      {running running' : Bool}
      {command : Command}
      {before after : List PushThread}
      {thread thread' : PushThread}
      (step : ThreadStep running thread running' thread') :
      Step ⟨running, command, before ++ thread :: after⟩ .thread
        ⟨running', command, before ++ thread' :: after⟩

/-- A step of any kind. -/
def AnyStep (state next : ThreadState) : Prop :=
  ∃ action, Step state action next

/-- The threads that have not exited. -/
def ThreadState.live (state : ThreadState) : Nat :=
  state.threads.countP (· != .exited)

/-- The threads that are running their push loop. -/
def ThreadState.looping (state : ThreadState) : Nat :=
  state.threads.count .looping

/--
At most one thread runs the push loop, and where no command is in progress the
flag is only set while there is a thread.
-/
structure Supervised (state : ThreadState) : Prop where
  one : state.looping ≤ 1
  alive : state.command = .none → state.running = true → 0 < state.live

/--
A step that does not set the flag unless exactly one thread has not exited.
-/
def OrderlyStep (state next : ThreadState) : Prop :=
  ∃ action,
    Step state action next ∧ (action = .setRunning → state.live = 1)

/-- What orderly runs keep. -/
structure Orderly (state : ThreadState) : Prop where
  one : state.looping ≤ 1
  single : state.running = true → state.live = 1
  stopped :
    state.command = .starting ∨ state.command = .created →
      state.running = false

theorem live_append
    {running : Bool}
    {command : Command}
    {before after : List PushThread}
    {thread : PushThread} :
    (ThreadState.mk running command (before ++ thread :: after)).live =
      before.countP (· != .exited) + after.countP (· != .exited) +
        if thread = .exited then 0 else 1 := by
  cases thread <;> (simp [ThreadState.live]; try omega)

theorem looping_append
    {running : Bool}
    {command : Command}
    {before after : List PushThread}
    {thread : PushThread} :
    (ThreadState.mk running command (before ++ thread :: after)).looping =
      before.count .looping + after.count .looping +
        if thread = .looping then 1 else 0 := by
  cases thread <;> (simp [ThreadState.looping]; try omega)

/-- A thread in its loop has not exited. -/
theorem looping_le_live
    (state : ThreadState) :
    state.looping ≤ state.live := by
  unfold ThreadState.looping ThreadState.live List.count
  refine List.countP_mono_left fun thread _ isLooping => ?_
  rw [beq_iff_eq] at isLooping
  simp [isLooping]

theorem Orderly.thread
    {running running' : Bool}
    {command : Command}
    {before after : List PushThread}
    {thread thread' : PushThread}
    (orderly : Orderly ⟨running, command, before ++ thread :: after⟩)
    (step : ThreadStep running thread running' thread') :
    Orderly ⟨running', command, before ++ thread' :: after⟩ := by
  obtain ⟨one, single, stopped⟩ := orderly
  have bound :=
    looping_le_live ⟨running', command, before ++ thread' :: after⟩
  rw [looping_append] at one
  rw [live_append] at single bound
  simp only at single stopped
  cases step with
  | connected =>
      exact
        ⟨by rw [looping_append]; simpa using one,
          fun set => by rw [live_append]; simpa using single set,
          stopped⟩
  | notConnected =>
      exact
        ⟨by rw [looping_append]; simpa using one, by simp, fun _ => rfl⟩
  | enterLoop =>
      refine ⟨?_, ?_, stopped⟩
      · have alone := single rfl
        simp only [reduceCtorEq, ↓reduceIte] at alone bound
        omega
      · intro _
        rw [live_append]
        simpa using single rfl
  | passLoop =>
      exact
        ⟨by rw [looping_append]; simpa using one, by simp, fun _ => rfl⟩
  | nextTurn =>
      exact ⟨by rw [looping_append]; exact one,
        fun _ => by rw [live_append]; exact single rfl, stopped⟩
  | leaveLoop =>
      refine ⟨?_, by simp, fun _ => rfl⟩
      rw [looping_append]
      simp only [reduceCtorEq, ↓reduceIte] at one ⊢
      omega

theorem Orderly.step
    {state next : ThreadState}
    (orderly : Orderly state)
    (step : OrderlyStep state next) :
    Orderly next := by
  obtain ⟨action, step, alone⟩ := step
  obtain ⟨one, single, stopped⟩ := orderly
  cases step with
  | startWhileRunning =>
      exact ⟨one, single, by simp⟩
  | start =>
      exact ⟨one, by simp, fun _ => rfl⟩
  | refuse =>
      exact ⟨one, single, by simp⟩
  | create =>
      have clear := stopped (.inl rfl)
      simp only at clear
      subst clear
      refine ⟨?_, by simp, fun _ => rfl⟩
      simpa [ThreadState.looping] using one
  | failToCreate =>
      have clear := stopped (.inl rfl)
      exact ⟨one, single, fun _ => clear⟩
  | setRunning =>
      exact ⟨one, fun _ => alone rfl, by simp⟩
  | stopWhileStopped =>
      exact ⟨one, single, by simp⟩
  | stop =>
      exact ⟨one, single, by simp⟩
  | clearRunning =>
      exact ⟨one, by simp, by simp⟩
  | thread step =>
      exact Orderly.thread ⟨one, single, stopped⟩ step

theorem orderly_run
    {state : ThreadState}
    (run : Relation.ReflTransGen OrderlyStep .initial state) :
    Orderly state := by
  induction run with
  | refl =>
      exact ⟨by decide, by decide, by decide⟩
  | tail _ step inductionHypothesis =>
      exact inductionHypothesis.step step

theorem Orderly.supervised
    {state : ThreadState}
    (orderly : Orderly state) :
    Supervised state := by
  refine ⟨orderly.one, fun _ set => ?_⟩
  rw [orderly.single set]
  decide

/-- A thread that finds the flag set gets into its loop, unless it has exited. -/
def PushThread.woken : PushThread → PushThread
  | .exited => .exited
  | _ => .looping

theorem anyStep_thread
    {running running' : Bool}
    {command : Command}
    {thread thread' : PushThread}
    (before after : List PushThread)
    (step : ThreadStep running thread running' thread') :
    AnyStep ⟨running, command, before ++ thread :: after⟩
      ⟨running', command, before ++ thread' :: after⟩ :=
  ⟨_, .thread step⟩

theorem reaches_woken
    {command : Command}
    (before after : List PushThread)
    (thread : PushThread) :
    Relation.ReflTransGen AnyStep
      ⟨true, command, before ++ thread :: after⟩
      ⟨true, command, before ++ thread.woken :: after⟩ := by
  cases thread with
  | connecting =>
      exact
        .head (anyStep_thread before after .connected)
          (.single (anyStep_thread before after .enterLoop))
  | entering =>
      exact .single (anyStep_thread before after .enterLoop)
  | looping | exited =>
      exact .refl

/-- While the flag is set, all threads can get into their loops. -/
theorem reaches_all_woken
    {command : Command}
    (before threads : List PushThread) :
    Relation.ReflTransGen AnyStep
      ⟨true, command, before ++ threads⟩
      ⟨true, command, before ++ threads.map PushThread.woken⟩ := by
  induction threads generalizing before with
  | nil =>
      exact .refl
  | cons thread threads inductionHypothesis =>
      refine (reaches_woken before threads thread).trans ?_
      simpa using inductionHypothesis (before ++ [thread.woken])

theorem count_looping_woken
    (threads : List PushThread) :
    (threads.map PushThread.woken).count .looping =
      threads.countP (· != .exited) := by
  rw [List.count, List.countP_map]
  congr 1
  funext thread
  cases thread <;> rfl

/-- A flag that is set in any other situation leads on to a violation. -/
theorem unsupervised_of_setRunning
    {state next : ThreadState}
    (step : Step state .setRunning next)
    (notOne : state.live ≠ 1) :
    ∃ later,
      Relation.ReflTransGen AnyStep next later ∧ ¬ Supervised later := by
  cases step with
  | @setRunning running threads =>
      rcases Nat.eq_zero_or_pos
          (ThreadState.mk running .created threads).live with none | some
      · refine ⟨_, .refl, fun supervised => ?_⟩
        have alive := supervised.alive rfl rfl
        exact alive.ne none.symm
      · refine ⟨_, reaches_all_woken [] threads, fun supervised => ?_⟩
        have one := supervised.one
        have all := count_looping_woken threads
        simp only [ThreadState.looping, List.nil_append] at one
        simp only [ThreadState.live] at some notOne
        omega

/--
Push threads are supervised in every run where `vm_running` is set only while
exactly one of them has not exited; setting it in any other state lets a run go
on to where they are not.
-/
theorem supervised_of_orderly_run
    (state : ThreadState) :
    (Relation.ReflTransGen OrderlyStep .initial state → Supervised state) ∧
      ∀ next,
        Step state .setRunning next →
          state.live ≠ 1 →
            ∃ later,
              Relation.ReflTransGen AnyStep next later ∧
                ¬ Supervised later :=
  ⟨fun run => (orderly_run run).supervised,
    fun _ => unsupervised_of_setRunning⟩

/-- The thread of a first start in its loop, the flag set before its test. -/
theorem supervised_of_orderly_run_first_start :
    Supervised ⟨true, .none, [.looping]⟩ := by
  refine (supervised_of_orderly_run _).1 ?_
  have start :
      OrderlyStep .initial ⟨false, .starting, []⟩ :=
    ⟨_, .start, by simp⟩
  have create :
      OrderlyStep ⟨false, .starting, []⟩ ⟨false, .created, [.connecting]⟩ :=
    ⟨_, .create, by simp⟩
  have set :
      OrderlyStep ⟨false, .created, [.connecting]⟩
        ⟨true, .none, [] ++ .connecting :: []⟩ :=
    ⟨_, .setRunning, fun _ => by decide⟩
  have connect :
      OrderlyStep ⟨true, .none, [] ++ .connecting :: []⟩
        ⟨true, .none, [] ++ .entering :: []⟩ :=
    ⟨_, .thread .connected, by simp⟩
  have enter :
      OrderlyStep ⟨true, .none, [] ++ .entering :: []⟩
        ⟨true, .none, [] ++ .looping :: []⟩ :=
    ⟨_, .thread .enterLoop, by simp⟩
  exact .head start (.head create (.head set (.head connect (.single enter))))

/-- A second thread can enter its loop while the first one still sleeps in it. -/
theorem two_loops_or_no_thread :
    (∃ state,
      Relation.ReflTransGen AnyStep .initial state ∧ state.looping = 2) ∧
      ∃ state,
        Relation.ReflTransGen AnyStep .initial state ∧
          state.command = .none ∧ state.running = true ∧
          state.live = 0 := by
  constructor
  · refine ⟨⟨true, .none, [.looping, .looping]⟩, ?_, by decide⟩
    refine .head ⟨_, .start⟩ (.head ⟨_, .create⟩ (.head ⟨_, .setRunning⟩ ?_))
    refine .head (anyStep_thread [] [] .connected) ?_
    refine .head (anyStep_thread [] [] .enterLoop) ?_
    refine .head ⟨_, .stop⟩ (.head ⟨_, .clearRunning⟩ ?_)
    refine .head ⟨_, .start⟩ (.head ⟨_, .create⟩ (.head ⟨_, .setRunning⟩ ?_))
    refine .head (anyStep_thread [.looping] [] .connected) ?_
    exact .single (anyStep_thread [.looping] [] .enterLoop)
  · refine ⟨⟨true, .none, [.exited]⟩, ?_, rfl, rfl, by decide⟩
    refine .head ⟨_, .start⟩ (.head ⟨_, .create⟩ ?_)
    refine .head (anyStep_thread [] [] .notConnected) ?_
    refine .head (anyStep_thread [] [] .passLoop) ?_
    exact .single ⟨_, .setRunning⟩

end Threads

end Csh.VictoriaMetrics
