import Csh.Lib.BoundedQueue
import Csh.Lib.Steps
import Csh.Loki

namespace Csh.LokiThreads

open Libc BoundedQueue Steps Loki

/-!
# The threads behind the log

While a log is kept, the standard output is a pipe.  `read_pipe` shows what
comes out of it on the terminal and hands it to `loki_add`, as the hook of
`slash_execute` does with every command.  `post_thread` takes the messages out
of a queue and posts them; when too many posts in a row fail it clears
`loki_running`, and both threads end at their next look at it.  `loki start`
looks at `loki_running` alone, so that threads of an earlier start may still
live.  The message queue is a parameter, a turn of a loop is one step, and the
numbers of closed descriptors are not used again.
-/

/-- The most that `read_pipe` reads at once. -/
def readMax : Nat :=
  1024 * 1024 - 1

/-- The capacity that `message_queue_create` is asked for. -/
def lokiQLength : Nat :=
  2000

/-- What is in a pipe, and whether its read end is open. -/
structure Pipe where
  contents : List Char
  readEnd : Bool
  deriving Repr, DecidableEq

/-- Where output goes; pipes are told by the number of the start. -/
inductive Output where
  | terminal
  | pipe (k : Nat)
  deriving Repr, DecidableEq

/-- Where a `read_pipe` stands; before `dup2` its pipe is broken. -/
inductive ReadPlace where
  | testing
  | reading (k : Nat)
  | closed
  deriving Repr, DecidableEq

/-- Where a `post_thread` stands. -/
inductive PostPlace where
  | testing
  | receiving
  deriving Repr, DecidableEq

/--
What the threads that write and read the standard output share: where the
descriptor 1 and `old_stdout` lead, the pipes of all starts, of which `pipe_fd`
has the last, and the threads that live.  `written` is all that was written to
the standard output, and `terminal` what of it has come to the terminal.
-/
structure OutputState where
  stdout : Output
  oldStdout : Option Output
  pipes : List Pipe
  readers : List ReadPlace
  written : List Char
  terminal : List Char
  deriving Repr, DecidableEq

/--
What the threads share that log and post, and the messages that were queued,
refused by the queue and tried.  `results` is how the posts since the last
start ended.
-/
structure LogState (Queue : Type) where
  lokiRunning : Bool
  curlErrCount : Nat
  lokiQ : Queue
  posters : List PostPlace
  sent : List JsonStr
  refused : List JsonStr
  tried : List JsonStr
  results : List Bool

/-- Both together. -/
structure LokiState (Queue : Type) where
  log : LogState Queue
  out : OutputState

/-- What a thread does next; threads have places among those that live. -/
inductive Action where
  /-- Any thread writes to the standard output. -/
  | write (bytes : List Char)
  | readTest (i : Nat)
  /-- A `read` and what is done with it; it has failed when it reads nothing. -/
  | read (i n : Nat) (env : Environment)
  /-- `dup2` puts `old_stdout` back. -/
  | restore (i : Nat)
  | command (line : CString) (env : Environment)
  | postTest (i : Nat)
  /-- `message_queue_receive` returns an error. -/
  | receiveFails (i : Nat)
  | post (i : Nat) (ok : Bool)
  /-- `loki start`, with system calls that succeed. -/
  | start

section Output

/-- All that is in pipes. -/
def OutputState.piped (out : OutputState) : List Char :=
  out.pipes.flatMap Pipe.contents

/-- A write to a descriptor; to a broken pipe it ends csh. -/
def OutputState.writeTo
    (output : Output)
    (bytes : List Char)
    (out : OutputState) :
    Option OutputState :=
  match output with
  | .terminal => some { out with terminal := out.terminal ++ bytes }
  | .pipe k =>
      match out.pipes[k]? with
      | some ⟨contents, true⟩ =>
          some
            { out with pipes := out.pipes.set k ⟨contents ++ bytes, true⟩ }
      | _ => none

/-- A write to the standard output. -/
def OutputState.write
    (bytes : List Char)
    (out : OutputState) :
    Option OutputState :=
  { out with written := out.written ++ bytes }.writeTo out.stdout bytes

/-- The test of `read_pipe`, and the call of `read` or of `close` behind it. -/
def OutputState.readTest
    (lokiRunning : Bool)
    (i : Nat)
    (out : OutputState) :
    Option OutputState :=
  match out.readers[i]? with
  | some .testing =>
      let last := out.pipes.length - 1
      if lokiRunning then
        some { out with readers := out.readers.set i (.reading last) }
      else
        -- what is in the pipe goes with its read end
        some
          { out with
            readers := out.readers.set i .closed
            pipes := out.pipes.set last ⟨[], false⟩ }
  | _ => none

/--
What a `read` takes out of its pipe, and the state in which it has been written
to `old_stdout`, which fails if that is closed.
-/
def OutputState.read
    (i n : Nat)
    (out : OutputState) :
    Option (List Char × OutputState) :=
  match out.readers[i]? with
  | some (.reading k) =>
      match out.pipes[k]? with
      | some pipe =>
          if n ≤ readMax ∧ n ≤ pipe.contents.length then
            let taken := pipe.contents.take n
            let behind :=
              { out with
                readers := out.readers.set i .testing
                pipes :=
                  out.pipes.set k
                    { pipe with contents := pipe.contents.drop n } }
            match out.oldStdout with
            | none => some (taken, behind)
            | some output =>
                (behind.writeTo output taken).map fun out => (taken, out)
          else
            none
      | none => none
  | _ => none

/-- The end of `read_pipe`, behind its `close`. -/
def OutputState.restore (i : Nat) (out : OutputState) : Option OutputState :=
  match out.readers[i]? with
  | some .closed =>
      some
        { out with
          stdout := out.oldStdout.getD out.stdout
          oldStdout := none
          readers := out.readers.eraseIdx i }
  | _ => none

/-- A new pipe takes the place of the standard output, and is read. -/
def OutputState.start (out : OutputState) : OutputState :=
  { out with
    stdout := .pipe out.pipes.length
    oldStdout := some out.stdout
    pipes := out.pipes ++ [⟨[], true⟩]
    readers := out.readers ++ [.testing] }

end Output

section Log

variable {Queue : Type}
variable (ops : QueueOps JsonStr Queue)

/-- `loki_add` of a log, and `message_queue_send` of what it makes of it. -/
def LogState.add
    (env : Environment)
    (text : CString)
    (iscmd : Bool)
    (log : LogState Queue) :
    Option (LogState Queue) :=
  match lokiAdd { env with lokiRunning := log.lokiRunning } text iscmd with
  | .queued _ message =>
      match ops.enqueue message log.lokiQ with
      | some queue =>
          some { log with lokiQ := queue, sent := log.sent ++ [message] }
      | none => some { log with refused := log.refused ++ [message] }
  | .silent => some log
  | .skipped => some log
  | .overflow => none

/-- The hook of `slash_execute`. -/
def LogState.command
    (env : Environment)
    (line : CString)
    (log : LogState Queue) :
    Option (LogState Queue) :=
  if log.lokiRunning then
    log.add ops env (line ++ ['\n']) true
  else
    some log

/-- The test of `post_thread`. -/
def LogState.postTest
    (i : Nat)
    (log : LogState Queue) :
    Option (LogState Queue) :=
  match log.posters[i]? with
  | some .testing =>
      if log.lokiRunning then
        some { log with posters := log.posters.set i .receiving }
      else
        some { log with posters := log.posters.eraseIdx i }
  | _ => none

/-- A turn of `post_thread` without a message. -/
def LogState.receiveFails
    (i : Nat)
    (log : LogState Queue) :
    Option (LogState Queue) :=
  match log.posters[i]? with
  | some .receiving => some { log with posters := log.posters.set i .testing }
  | _ => none

/-- What a post and its result leave. -/
def LogState.posted
    (i : Nat)
    (ok : Bool)
    (message : JsonStr)
    (queue : Queue)
    (log : LogState Queue) :
    LogState Queue :=
  let count := if ok then 0 else log.curlErrCount + 1
  { log with
    lokiQ := queue
    tried := log.tried ++ [message]
    results := log.results ++ [ok]
    posters := log.posters.set i .testing
    lokiRunning := if 5 < count then false else log.lokiRunning
    curlErrCount := if 5 < count then 0 else count }

/-- A turn of `post_thread` with a message. -/
def LogState.post
    (i : Nat)
    (ok : Bool)
    (log : LogState Queue) :
    Option (LogState Queue) :=
  match log.posters[i]?, ops.dequeue log.lokiQ with
  | some .receiving, some (message, queue) =>
      some (log.posted i ok message queue)
  | _, _ => none

/-- Logging is on, and a new `post_thread` runs. -/
def LogState.start (log : LogState Queue) : LogState Queue :=
  { log with
    lokiRunning := true
    posters := log.posters ++ [.testing]
    results := [] }

/-- Behind the first `loki start`. -/
def LokiState.started : LokiState Queue where
  log := ⟨true, 0, ops.create, [.testing], [], [], [], []⟩
  out := ⟨.pipe 0, some .terminal, [⟨[], true⟩], [.testing], [], []⟩

end Log

/-- A new start is only given when no thread of an earlier one lives. -/
def startsAlone {Queue : Type} : Action → LokiState Queue → Bool
  | .start, state =>
      state.log.lokiRunning ||
        (state.out.readers.isEmpty && state.log.posters.isEmpty)
  | _, _ => true

section Posts

variable {Queue : Type}
variable {ops : QueueOps JsonStr Queue}
variable {contents : Queue → List JsonStr}
variable {state after : LokiState Queue}
variable {log next : LogState Queue}
variable {action : Action}
variable {actions : List Action}

/-- Everything that a step can do to the log. -/
inductive LogMove
    (ops : QueueOps JsonStr Queue)
    (log : LogState Queue) :
    Action → LogState Queue → Prop where
  | same (action : Action) : LogMove ops log action log
  | add
      {env : Environment}
      {text : CString}
      {iscmd : Bool}
      {next : LogState Queue}
      (action : Action)
      (notStart : action ≠ .start)
      (added : log.add ops env text iscmd = some next) :
      LogMove ops log action next
  | postTests
      {i : Nat}
      (running : log.lokiRunning = true) :
      LogMove ops log (.postTest i)
        { log with posters := log.posters.set i .receiving }
  | postEnds
      {i : Nat}
      (stopped : log.lokiRunning = false) :
      LogMove ops log (.postTest i)
        { log with posters := log.posters.eraseIdx i }
  | receiveFails
      (i : Nat) :
      LogMove ops log (.receiveFails i)
        { log with posters := log.posters.set i .testing }
  | post
      {i : Nat}
      {message : JsonStr}
      {queue : Queue}
      (ok : Bool)
      (turn : log.posters[i]? = some .receiving)
      (came : ops.dequeue log.lokiQ = some (message, queue)) :
      LogMove ops log (.post i ok) (log.posted i ok message queue)
  | start
      (stopped : log.lokiRunning = false) :
      LogMove ops log .start log.start

/-- A log is queued or refused, if anything is made of it. -/
theorem add_eq_some
    {env : Environment}
    {text : CString}
    {iscmd : Bool}
    (added : log.add ops env text iscmd = some next) :
    next = log ∨
      (∃ message queue,
        ops.enqueue message log.lokiQ = some queue ∧
          next =
            { log with lokiQ := queue, sent := log.sent ++ [message] }) ∨
      ∃ message,
        ops.enqueue message log.lokiQ = none ∧
          next = { log with refused := log.refused ++ [message] } := by
  rw [LogState.add] at added
  split at added
  · rename_i message _
    split at added
    · rename_i queue taken
      exact
        .inr (.inl ⟨message, queue, taken, (Option.some.inj added).symm⟩)
    · rename_i refused
      exact .inr (.inr ⟨message, refused, (Option.some.inj added).symm⟩)
  · exact .inl (Option.some.inj added).symm
  · exact .inl (Option.some.inj added).symm
  · cases added

/--
Every message that was queued has been tried or waits, in this order, and
messages are refused only when as many have been queued as there is room for.
-/
structure Queued
    (contents : Queue → List JsonStr)
    (log : LogState Queue) :
    Prop where
  sent : log.sent = log.tried ++ contents log.lokiQ
  refused : log.refused ≠ [] → lokiQLength ≤ log.sent.length

theorem Queued.add
    {env : Environment}
    {text : CString}
    {iscmd : Bool}
    (lawful : Lawful ops lokiQLength contents)
    (queued : Queued contents log)
    (added : log.add ops env text iscmd = some next) :
    Queued contents next := by
  obtain ⟨sent, refused⟩ := queued
  rcases add_eq_some added with rfl | ⟨message, queue, taken, rfl⟩ |
    ⟨message, full, rfl⟩
  · exact ⟨sent, refused⟩
  · refine ⟨?_, fun some => ?_⟩
    · simp only [sent, lawful.contents_of_enqueue taken, List.append_assoc]
    · rw [List.length_append]
      exact Nat.le_add_right_of_le (refused some)
  · refine ⟨sent, fun _ => ?_⟩
    have waiting := lawful.full_of_refused full
    rw [sent, List.length_append]
    omega

theorem Queued.move
    (lawful : Lawful ops lokiQLength contents)
    (queued : Queued contents log)
    (move : LogMove ops log action next) :
    Queued contents next := by
  cases move with
  | add action notStart added =>
      exact queued.add lawful added
  | post ok turn came =>
      refine ⟨?_, queued.refused⟩
      simp only [LogState.posted, queued.sent,
        lawful.contents_of_dequeue came, List.append_assoc,
        List.singleton_append]
  | same | postTests | postEnds | receiveFails | start =>
      exact ⟨queued.sent, queued.refused⟩

/-- Failed posts in a row. -/
def failures (count : Nat) : List Bool :=
  List.replicate count false

/--
At most one thread posts, and the count is that of the failures that end the
results, as long as it is small.
-/
structure Posted (log : LogState Queue) : Prop where
  single : log.posters.length ≤ 1
  small : log.curlErrCount ≤ 5
  count :
    log.lokiRunning = true →
      ∀ count, failures count <:+ log.results ↔ count ≤ log.curlErrCount
  running :
    log.lokiRunning = true → ¬ failures 6 <:+: log.results
  stopped :
    log.lokiRunning = false →
      failures 6 <:+: log.results ∧ log.curlErrCount = 0 ∧
        .receiving ∉ log.posters

theorem failures_suffix_concat_iff
    {count : Nat}
    {results : List Bool}
    {ok : Bool} :
    failures (count + 1) <:+ results ++ [ok] ↔
      ok = false ∧ failures count <:+ results := by
  have last : failures (count + 1) = failures count ++ [false] := by
    rw [failures, List.replicate_succ']
    rfl
  rw [last, List.suffix_concat_iff]
  constructor
  · rintro (none | ⟨front, same, suffix⟩)
    · simp at none
    · obtain ⟨rfl, ends⟩ := List.append_inj' same rfl
      exact ⟨(List.cons.inj ends).1.symm, suffix⟩
  · rintro ⟨rfl, suffix⟩
    exact .inr ⟨failures count, rfl, suffix⟩

/-- What is logged does not change how posts end. -/
theorem Posted.add
    {env : Environment}
    {text : CString}
    {iscmd : Bool}
    (posted : Posted log)
    (added : log.add ops env text iscmd = some next) :
    Posted next := by
  obtain ⟨single, small, count, running, stopped⟩ := posted
  rcases add_eq_some added with rfl | ⟨_, _, -, rfl⟩ | ⟨_, -, rfl⟩
  · exact ⟨single, small, count, running, stopped⟩
  · exact ⟨single, small, count, running, stopped⟩
  · exact ⟨single, small, count, running, stopped⟩

/-- The one element of a list that has at most one. -/
theorem eq_singleton_of_getElem?
    {α : Type}
    {items : List α}
    {item : α}
    {i : Nat}
    (single : items.length ≤ 1)
    (found : items[i]? = some item) :
    items = [item] ∧ i = 0 := by
  obtain ⟨inside, rfl⟩ := List.getElem?_eq_some_iff.mp found
  obtain ⟨only, rfl⟩ :=
    List.length_eq_one_iff.mp (by omega : items.length = 1)
  obtain rfl : i = 0 := by
    simpa using inside
  exact ⟨rfl, rfl⟩

/-- A post adds its result, and stops the log at the sixth failure. -/
theorem Posted.post
    {i : Nat}
    {message : JsonStr}
    {queue : Queue}
    (posted : Posted log)
    (turn : log.posters[i]? = some .receiving)
    (ok : Bool) :
    Posted (log.posted i ok message queue) := by
  obtain ⟨alone, rfl⟩ := eq_singleton_of_getElem? posted.single turn
  have running : log.lokiRunning = true := by
    by_contra stopped
    exact
      (posted.stopped (Bool.eq_false_iff.mpr stopped)).2.2
        (List.mem_of_getElem? turn)
  have count := posted.count running
  have noSix := posted.running running
  have single : (log.posters.set 0 .testing).length ≤ 1 := by
    rw [alone]
    exact Nat.le_refl 1
  cases ok with
  | true =>
      refine ⟨single, Nat.zero_le 5, fun _ failed => ?_, fun _ => ?_, ?_⟩
      · cases failed with
        | zero => simp [failures, LogState.posted]
        | succ failed =>
            simp [LogState.posted, failures_suffix_concat_iff]
      · simp only [LogState.posted]
        rw [List.infix_concat_iff, failures_suffix_concat_iff]
        simpa using noSix
      · intro stopped
        simp [LogState.posted, running] at stopped
  | false =>
      have small := posted.small
      by_cases sixth : 5 < log.curlErrCount + 1
      · have full : failures 6 <:+: log.results ++ [false] := by
          rw [List.infix_concat_iff, failures_suffix_concat_iff, count]
          exact .inl ⟨rfl, by omega⟩
        refine ⟨single, ?_, ?_, ?_, fun _ => ⟨full, ?_, ?_⟩⟩
        · simp [LogState.posted, sixth]
        · intro runs
          simp [LogState.posted, sixth] at runs
        · intro runs
          simp [LogState.posted, sixth] at runs
        · simp [LogState.posted, sixth]
        · simp [LogState.posted, alone]
      · refine ⟨single, ?_, fun _ failed => ?_, fun _ => ?_, ?_⟩
        · simp only [LogState.posted, Bool.false_eq_true, if_false,
            if_neg sixth]
          omega
        · simp only [LogState.posted, Bool.false_eq_true, if_false,
            if_neg sixth]
          cases failed with
          | zero => simp [failures]
          | succ failed =>
              rw [failures_suffix_concat_iff, count]
              simp
        · simp only [LogState.posted]
          rw [List.infix_concat_iff, failures_suffix_concat_iff, count]
          rintro (⟨-, many⟩ | six)
          · omega
          · exact noSix six
        · intro stopped
          simp [LogState.posted, sixth, running] at stopped

/-- Every step keeps the count, if a start finds no thread that posts. -/
theorem Posted.move
    (posted : Posted log)
    (alone :
      action = .start → log.lokiRunning = false → log.posters = [])
    (move : LogMove ops log action next) :
    Posted next := by
  obtain ⟨single, small, count, running, stopped⟩ := posted
  cases move with
  | same =>
      exact ⟨single, small, count, running, stopped⟩
  | add action notStart added =>
      exact Posted.add ⟨single, small, count, running, stopped⟩ added
  | @postTests i runs =>
      refine
        ⟨by rwa [List.length_set], small, count, running, fun ended => ?_⟩
      rw [runs] at ended
      cases ended
  | @postEnds i ended =>
      have fewer : (log.posters.eraseIdx i).length ≤ 1 :=
        (List.length_eraseIdx_le _ _).trans single
      obtain ⟨full, zero, none⟩ := stopped ended
      exact
        ⟨fewer, small, count, running, fun _ =>
          ⟨full, zero, fun found => none (List.mem_of_mem_eraseIdx found)⟩⟩
  | receiveFails i =>
      refine
        ⟨by rwa [List.length_set], small, count, running, fun ended => ?_⟩
      obtain ⟨full, zero, none⟩ := stopped ended
      refine ⟨full, zero, fun found => ?_⟩
      rcases List.mem_or_eq_of_mem_set found with found | same
      · exact none found
      · cases same
  | post ok turn came =>
      exact Posted.post ⟨single, small, count, running, stopped⟩ turn ok
  | start ended =>
      obtain ⟨-, zero, -⟩ := stopped ended
      refine
        ⟨?_, small, fun _ failed => ?_, fun _ => ?_, fun ended => ?_⟩
      · simp [LogState.start, alone rfl ended]
      · simp [LogState.start, failures, List.suffix_nil, zero]
      · simp [LogState.start, failures]
      · cases ended

end Posts

section Terminal

variable {Queue : Type}
variable {ops : QueueOps JsonStr Queue}
variable {state after : LokiState Queue}
variable {out next : OutputState}
variable {running : Bool}
variable {action : Action}
variable {actions : List Action}

/-- Nothing is in these pipes. -/
def Drained (pipes : List Pipe) : Prop :=
  ∀ pipe ∈ pipes, pipe.contents = []

/--
Where the one reader stands, and what is in its pipe: the standard output is
the terminal, or that pipe with the terminal as `old_stdout`.
-/
inductive Stage (out : OutputState) : List Char → Prop where
  | off
      (noReader : out.readers = [])
      (stdout : out.stdout = .terminal)
      (drained : Drained out.pipes) :
      Stage out []
  | piped
      {earlier : List Pipe}
      {text : List Char}
      {place : ReadPlace}
      (reader : out.readers = [place])
      (turn : place = .testing ∨ place = .reading earlier.length)
      (stdout : out.stdout = .pipe earlier.length)
      (old : out.oldStdout = some .terminal)
      (pipes : out.pipes = earlier ++ [⟨text, true⟩])
      (drained : Drained earlier) :
      Stage out text
  | broken
      {earlier : List Pipe}
      (reader : out.readers = [.closed])
      (stdout : out.stdout = .pipe earlier.length)
      (old : out.oldStdout = some .terminal)
      (pipes : out.pipes = earlier ++ [⟨[], false⟩])
      (drained : Drained earlier) :
      Stage out []

theorem Drained.flatMap
    {pipes : List Pipe}
    (drained : Drained pipes) :
    pipes.flatMap Pipe.contents = [] :=
  List.flatMap_eq_nil_iff.mpr drained

/--
The terminal and the pipe have what was written, in order, but for some
characters that were lost.
-/
structure Shown
    (lost : Nat)
    (text : List Char)
    (out : OutputState) :
    Prop where
  stage : Stage out text
  sublist : (out.terminal ++ text).Sublist out.written
  length : out.written.length = out.terminal.length + text.length + lost

/-- What is written comes to the terminal or into the pipe. -/
theorem Shown.write
    {lost : Nat}
    {text bytes : List Char}
    (shown : Shown lost text out)
    (wrote : out.write bytes = some next) :
    ∃ text, Shown lost text next := by
  obtain ⟨stage, sublist, length⟩ := shown
  rw [OutputState.write] at wrote
  cases stage with
  | off noReader stdout drained =>
      rw [stdout] at wrote
      obtain rfl := Option.some.inj wrote
      refine ⟨[], .off noReader rfl drained, ?_, ?_⟩
      · rw [List.append_nil] at sublist ⊢
        exact sublist.append_right bytes
      · simp only [List.length_append, length]
        omega
  | @piped earlier text place reader turn stdout old pipes drained =>
      rw [stdout] at wrote
      simp only [OutputState.writeTo, pipes, List.getElem?_concat_length]
        at wrote
      obtain rfl := Option.some.inj wrote
      refine
        ⟨text ++ bytes,
          .piped reader turn rfl old (by simp) drained, ?_, ?_⟩
      · rw [← List.append_assoc]
        exact sublist.append_right bytes
      · simp only [List.length_append, length]
        omega
  | broken reader stdout old pipes drained =>
      rw [stdout] at wrote
      simp only [OutputState.writeTo, pipes, List.getElem?_concat_length]
        at wrote
      cases wrote

/-- A reader that ends loses what is in its pipe. -/
theorem Shown.readTest
    {lost i : Nat}
    {text : List Char}
    (shown : Shown lost text out)
    (tested : out.readTest running i = some next) :
    ∃ later text,
      Shown later text next ∧
        Grows lost later
          (running ||
            out.pipes.getLast?.all fun pipe => pipe.contents.isEmpty) := by
  obtain ⟨stage, sublist, length⟩ := shown
  rw [OutputState.readTest] at tested
  cases stage with
  | off noReader stdout drained =>
      rw [noReader] at tested
      cases tested
  | @piped earlier text place reader turn stdout old pipes drained =>
      split at tested
      swap
      · cases tested
      rename_i found
      obtain ⟨-, rfl⟩ :=
        eq_singleton_of_getElem? (by rw [reader]; rfl) found
      have last : out.pipes.length - 1 = earlier.length := by
        rw [pipes, List.length_append, List.length_singleton]
        rfl
      rw [last, reader] at tested
      cases running with
      | true =>
          obtain rfl := Option.some.inj tested
          exact
            ⟨lost, text,
              ⟨.piped rfl (.inr rfl) stdout old pipes drained, sublist,
                length⟩, .same⟩
      | false =>
          obtain rfl := Option.some.inj tested
          refine
            ⟨lost + text.length, [],
              ⟨.broken rfl stdout old (by simp [pipes]) drained, ?_, ?_⟩,
              ?_⟩
          · rw [List.append_nil]
            exact (List.sublist_append_left _ _).trans sublist
          · simp only [List.length_nil, length]
            omega
          · refine ⟨Nat.le_add_right _ _, fun none => ?_⟩
            simp [pipes, none]
  | broken reader stdout old pipes drained =>
      rw [reader] at tested
      split at tested
      · rename_i found
        obtain ⟨same, -⟩ := eq_singleton_of_getElem? (by simp) found
        cases same
      · cases tested

/-- What is read out of the pipe is shown. -/
theorem Shown.read
    {lost i n : Nat}
    {text : List Char}
    {read : List Char × OutputState}
    (shown : Shown lost text out)
    (came : out.read i n = some read) :
    ∃ text, Shown lost text read.2 := by
  obtain ⟨stage, sublist, length⟩ := shown
  rw [OutputState.read] at came
  cases stage with
  | off noReader stdout drained =>
      rw [noReader] at came
      cases came
  | @piped earlier text place reader turn stdout old pipes drained =>
      split at came
      swap
      · cases came
      rename_i k found
      obtain ⟨single, rfl⟩ :=
        eq_singleton_of_getElem? (by rw [reader]; rfl) found
      obtain rfl : k = earlier.length := by
        rw [reader] at single
        obtain rfl := (List.cons.inj single).1
        simpa using turn
      simp only [pipes, List.getElem?_concat_length, old] at came
      split at came
      swap
      · cases came
      rename_i inside
      obtain rfl := Option.some.inj came
      refine
        ⟨text.drop n,
          .piped (by simp [reader]) (.inl rfl) stdout rfl (by simp) drained,
          ?_, ?_⟩
      · rw [List.append_assoc, List.take_append_drop]
        exact sublist
      · simp only [List.length_append, List.length_take, List.length_drop]
        omega
  | broken reader stdout old pipes drained =>
      rw [reader] at came
      split at came
      · rename_i found
        obtain ⟨same, -⟩ := eq_singleton_of_getElem? (by simp) found
        cases same
      · cases came

/-- The end of the reader puts the terminal back. -/
theorem Shown.restore
    {lost i : Nat}
    {text : List Char}
    (shown : Shown lost text out)
    (restored : out.restore i = some next) :
    ∃ text, Shown lost text next := by
  obtain ⟨stage, sublist, length⟩ := shown
  rw [OutputState.restore] at restored
  cases stage with
  | off noReader stdout drained =>
      rw [noReader] at restored
      cases restored
  | @piped earlier text place reader turn stdout old pipes drained =>
      rw [reader] at restored
      split at restored
      · rename_i found
        obtain ⟨same, -⟩ := eq_singleton_of_getElem? (by simp) found
        obtain rfl := (List.cons.inj same).1
        simp at turn
      · cases restored
  | @broken earlier reader stdout old pipes drained =>
      split at restored
      swap
      · cases restored
      rename_i found
      obtain ⟨-, rfl⟩ :=
        eq_singleton_of_getElem? (by rw [reader]; rfl) found
      obtain rfl := Option.some.inj restored
      refine ⟨[], .off (by simp [reader]) (by simp [old]) ?_, sublist, length⟩
      rw [pipes]
      intro pipe member
      rcases List.mem_append.mp member with isEarlier | isLast
      · exact drained pipe isEarlier
      · rw [List.mem_singleton.mp isLast]

/-- A start that finds no reader has the terminal behind its pipe. -/
theorem Shown.start
    {lost : Nat}
    {text : List Char}
    (shown : Shown lost text out)
    (noReader : out.readers = []) :
    Shown lost text out.start := by
  obtain ⟨stage, sublist, length⟩ := shown
  cases stage with
  | off noReader stdout drained =>
      exact
        ⟨@Stage.piped _ out.pipes _ _ (by simp [OutputState.start, noReader])
          (.inl rfl) rfl (congrArg some stdout) rfl drained, sublist, length⟩
  | piped reader | broken reader =>
      rw [noReader] at reader
      cases reader

end Terminal

end Csh.LokiThreads
