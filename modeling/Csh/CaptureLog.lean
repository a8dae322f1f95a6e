import Csh.Lib.Steps
import Mathlib.Data.List.Chain

namespace Csh.CaptureLog

open Steps

/-!
# The capture of the proxy

`task_capture` writes every message that passes the proxy to a log file.  When
a message is too short it receives one that is waiting behind it as well,
without logging it.
-/

/-- A ZMQ message. -/
abbrev Message :=
  List UInt8

/-- Whether the task is in the loop behind a message that is too short. -/
structure CaptureState where
  incoming : List Message
  draining : Bool
  logfile : List UInt8
  deriving Repr, DecidableEq

/-- Nothing has arrived yet. -/
def initial : CaptureState where
  incoming := []
  draining := false
  logfile := []

/-- A message without room for a header. -/
def Message.isShort (message : Message) : Bool :=
  message.length < 5

/--
What is written for a message: the delimiter as far as the size of a pointer
goes, eight dashes, and the frame.
-/
def record (message : Message) : List UInt8 :=
  List.replicate 8 45 ++ message

/-- A message arrives, a call is interrupted, or the task takes its turn. -/
inductive CaptureAction where
  | arrive (message : Message)
  | interrupt
  | turn
  deriving Repr, DecidableEq

/-- `task_capture`, from one call of `zmq_msg_recv` to the next. -/
def captureStep :
    CaptureAction → CaptureState → Option CaptureState
  | .arrive message, state =>
      some { state with incoming := state.incoming ++ [message] }
  | .interrupt, state => some { state with draining := false }
  | .turn, state =>
      match state.incoming, state.draining with
      -- A blocking call waits, the other one ends the inner loop.
      | [], false => none
      | [], true => some { state with draining := false }
      -- The message is closed, or empty: the loop ends behind the first one.
      | _ :: rest, true =>
          some { state with incoming := rest, draining := false }
      | message :: rest, false =>
          if message.isShort then
            some { state with incoming := rest, draining := true }
          else
            some
              { state with
                incoming := rest
                logfile := state.logfile ++ record message }

/-- The messages that arrive, in their order. -/
def arrivals (actions : List CaptureAction) : List Message :=
  actions.filterMap fun action =>
    match action with
    | .arrive message => some message
    | _ => none

/-- The log of all messages that are long enough. -/
def completeLog (messages : List Message) : List UInt8 :=
  (messages.filter fun message => !message.isShort).flatMap record

/-- No message that is too short comes before one that is not. -/
def ShortLast (messages : List Message) : Prop :=
  messages.Pairwise fun first second =>
    first.isShort = true → second.isShort = true

section Logs

variable {first second messages : List Message}
variable {message : Message}

theorem completeLog_append :
    completeLog (first ++ second) =
      completeLog first ++ completeLog second := by
  rw [completeLog, List.filter_append, List.flatMap_append]
  rfl

theorem completeLog_short
    (short : message.isShort = true) :
    completeLog [message] = [] := by
  simp [completeLog, short]

theorem completeLog_long
    (long : message.isShort = false) :
    completeLog [message] = record message := by
  simp [completeLog, long]

theorem arrivals_append
    (actions later : List CaptureAction) :
    arrivals (actions ++ later) = arrivals actions ++ arrivals later :=
  List.filterMap_append

end Logs

/-- Everything that has been received is logged if it is long enough. -/
def Logged (messages : List Message) (state : CaptureState) : Prop :=
  ∃ received,
    messages = received ++ state.incoming ∧
      state.logfile = completeLog received ∧
      (state.draining = true → ∃ short ∈ received, short.isShort = true)

section Runs

variable {messages : List Message}
variable {state next : CaptureState}
variable {actions : List CaptureAction}

/-- A message is received, and logged unless it is short or drained. -/
def Receives
    (message : Message)
    (state next : CaptureState) :
    Prop :=
  ((state.draining = true ∨ message.isShort = true) ∧
      next.logfile = state.logfile) ∨
    (message.isShort = false ∧ next.draining = false ∧
      next.logfile = state.logfile ++ record message)

/-- Every step is an arrival, the end of the inner loop, or a message. -/
theorem captureStep_cases
    {action : CaptureAction}
    (stepped : captureStep action state = some next) :
    (∃ message,
        action = .arrive message ∧
          next = { state with incoming := state.incoming ++ [message] }) ∨
      (arrivals [action] = [] ∧ next = { state with draining := false }) ∨
      (arrivals [action] = [] ∧
        ∃ message,
          state.incoming = message :: next.incoming ∧
            Receives message state next) := by
  cases action with
  | arrive message =>
      exact Or.inl ⟨message, rfl, (Option.some.inj stepped).symm⟩
  | interrupt =>
      exact Or.inr (Or.inl ⟨rfl, (Option.some.inj stepped).symm⟩)
  | turn =>
      obtain ⟨incoming, draining, logfile⟩ := state
      cases incoming with
      | nil =>
          cases draining with
          | false => cases stepped
          | true =>
              exact Or.inr (Or.inl ⟨rfl, (Option.some.inj stepped).symm⟩)
      | cons message rest =>
          refine Or.inr (Or.inr ⟨rfl, message, ?_⟩)
          cases draining with
          | true =>
              cases stepped
              exact ⟨rfl, Or.inl ⟨Or.inl rfl, rfl⟩⟩
          | false =>
              unfold captureStep at stepped
              simp only at stepped
              split at stepped
              · rename_i isShort
                cases stepped
                exact ⟨rfl, Or.inl ⟨Or.inr isShort, rfl⟩⟩
              · rename_i isLong
                cases stepped
                exact ⟨rfl, Or.inr ⟨Bool.eq_false_iff.mpr isLong, rfl, rfl⟩⟩

/-- Behind a short message only short ones are drained. -/
theorem Logged.step
    (logged : Logged messages state)
    (action : CaptureAction)
    (ordered : ShortLast (messages ++ arrivals [action]))
    (stepped : captureStep action state = some next) :
    Logged (messages ++ arrivals [action]) next := by
  obtain ⟨received, parts, isLog, started⟩ := logged
  rcases captureStep_cases stepped with
    ⟨message, rfl, rfl⟩ | ⟨none, rfl⟩ | ⟨none, message, waiting, receives⟩
  · exact ⟨received, by rw [parts, List.append_assoc]; rfl, isLog, started⟩
  · rw [none, List.append_nil]
    exact ⟨received, parts, isLog, Bool.noConfusion⟩
  · rw [none, List.append_nil] at ordered ⊢
    have moved : messages = (received ++ [message]) ++ next.incoming := by
      rw [parts, waiting, List.append_assoc]
      rfl
    rcases receives with ⟨why, same⟩ | ⟨isLong, waits, more⟩
    · have isShort : message.isShort = true := by
        rcases why with draining | isShort
        · obtain ⟨short, member, before⟩ := started draining
          rw [parts, waiting, ShortLast] at ordered
          exact
            (List.pairwise_append.mp ordered).2.2 short member message
              List.mem_cons_self before
        · exact isShort
      refine ⟨received ++ [message], moved, ?_, fun _ => ?_⟩
      · rw [completeLog_append, completeLog_short isShort, List.append_nil,
          same]
        exact isLog
      · exact ⟨message, by simp, isShort⟩
    · refine ⟨received ++ [message], moved, ?_, fun drains => ?_⟩
      · rw [completeLog_append, completeLog_long isLong, more, isLog]
      · rw [waits] at drains
        cases drains

theorem logged_run
    (reached : run captureStep actions initial = some state)
    (ordered : ShortLast (arrivals actions)) :
    Logged (arrivals actions) state := by
  refine
    @run_history _ _ captureStep initial state actions
      (fun actions state =>
        ShortLast (arrivals actions) → Logged (arrivals actions) state)
      [] ?_ (fun _ => ⟨[], rfl, rfl, Bool.noConfusion⟩) reached ordered
  intro earlier action state next logged stepped ordered
  rw [arrivals_append] at ordered ⊢
  exact
    (logged (List.pairwise_append.mp ordered).1).step action ordered stepped

/-- What is logged are messages that have arrived, in the same order. -/
def Faithful (messages : List Message) (state : CaptureState) : Prop :=
  ∃ received captured,
    messages = received ++ state.incoming ∧
      captured.Sublist received ∧
      state.logfile = completeLog captured

theorem Faithful.step
    (faithful : Faithful messages state)
    (action : CaptureAction)
    (stepped : captureStep action state = some next) :
    Faithful (messages ++ arrivals [action]) next := by
  obtain ⟨received, captured, parts, among, isLog⟩ := faithful
  rcases captureStep_cases stepped with
    ⟨message, rfl, rfl⟩ | ⟨none, rfl⟩ | ⟨none, message, waiting, receives⟩
  · exact
      ⟨received, captured, by rw [parts, List.append_assoc]; rfl, among,
        isLog⟩
  · rw [none, List.append_nil]
    exact ⟨received, captured, parts, among, isLog⟩
  · rw [none, List.append_nil]
    have moved : messages = (received ++ [message]) ++ next.incoming := by
      rw [parts, waiting, List.append_assoc]
      rfl
    rcases receives with ⟨_, same⟩ | ⟨isLong, _, more⟩
    · exact
        ⟨_, captured, moved, among.trans (List.sublist_append_left _ _),
          same.trans isLog⟩
    · refine ⟨_, captured ++ [message], moved, among.append_right _, ?_⟩
      rw [completeLog_append, completeLog_long isLong, more, isLog]

theorem faithful_run
    (reached : run captureStep actions initial = some state) :
    Faithful (arrivals actions) state := by
  refine
    @run_history _ _ captureStep initial state actions
      (fun actions state => Faithful (arrivals actions) state)
      [] ?_ ⟨[], [], rfl, .slnil, rfl⟩ reached
  intro earlier action state next faithful stepped
  rw [arrivals_append]
  exact faithful.step action stepped

end Runs

section Schedules

variable {messages : List Message}

/-- Each message arrives when the one before it has been dealt with. -/
def oneByOne (messages : List Message) : List CaptureAction :=
  messages.flatMap fun message =>
    .arrive message :: .turn :: if message.isShort then [.turn] else []

theorem arrivals_oneByOne
    (messages : List Message) :
    arrivals (oneByOne messages) = messages := by
  induction messages with
  | nil => rfl
  | cons message rest inductionHypothesis =>
      have first :
          arrivals
              (.arrive message :: .turn ::
                if message.isShort then [.turn] else []) =
            [message] := by
        cases message.isShort <;> rfl
      rw [oneByOne] at inductionHypothesis
      rw [oneByOne, List.flatMap_cons, arrivals_append, first,
        inductionHypothesis]
      rfl

/-- One by one, every message that is long enough is logged. -/
theorem run_oneByOne
    (messages : List Message)
    (logfile : List UInt8) :
    run captureStep (oneByOne messages) ⟨[], false, logfile⟩ =
      some ⟨[], false, logfile ++ completeLog messages⟩ := by
  induction messages generalizing logfile with
  | nil => simp [oneByOne, completeLog]
  | cons message rest inductionHypothesis =>
      have apart : message :: rest = [message] ++ rest :=
        rfl
      rw [oneByOne, List.flatMap_cons, run_append, apart, completeLog_append,
        ← List.append_assoc, ← inductionHypothesis]
      cases short : message.isShort with
      | true =>
          simp [run, captureStep, short, completeLog_short]
          rfl
      | false =>
          simp [run, captureStep, short, completeLog_long]
          rfl

/-- Two messages that arrive together, of which the second is drained. -/
theorem run_together
    {short : Message}
    (isShort : short.isShort = true)
    (long : Message)
    (logfile : List UInt8) :
    run captureStep [.arrive short, .arrive long, .turn, .turn]
        ⟨[], false, logfile⟩ =
      some ⟨[], false, logfile⟩ := by
  simp [run, captureStep, isShort]

end Schedules

/--
In every interleaving of arrivals and the task, the log holds messages that
have arrived and are long enough, each at most once and in order.  It holds all
of them in every interleaving that receives these messages if and only if none
of them comes behind one that is too short.
-/
theorem capture_complete_iff
    (messages : List Message) :
    (∀ actions state, run captureStep actions initial = some state →
        arrivals actions = messages →
          ∃ captured, captured.Sublist messages ∧
            state.logfile = completeLog captured) ∧
      ((∀ actions state, run captureStep actions initial = some state →
          arrivals actions = messages →
            state.incoming = [] →
              state.logfile = completeLog messages) ↔
        ShortLast messages) := by
  refine ⟨?_, ?_, ?_⟩
  · rintro actions state reached rfl
    obtain ⟨received, captured, parts, among, isLog⟩ := faithful_run reached
    refine ⟨captured, ?_, isLog⟩
    rw [parts]
    exact among.trans (List.sublist_append_left _ _)
  · intro complete
    have transitive :
        IsTrans Message fun first second =>
          first.isShort = true → second.isShort = true :=
      ⟨fun _ _ _ first second short => second (first short)⟩
    rw [ShortLast, ← List.isChain_iff_pairwise,
      List.isChain_iff_forall_rel_of_append_cons_cons]
    rintro short long before behind rfl isShort
    by_contra isLong
    rw [Bool.not_eq_true] at isLong
    have reached :
        run captureStep
            (oneByOne before ++
              ([.arrive short, .arrive long, .turn, .turn] ++
                oneByOne behind))
            initial =
          some ⟨[], false, completeLog before ++ completeLog behind⟩ := by
      rw [run_append, initial, run_oneByOne, Option.bind_some, run_append,
        run_together isShort, Option.bind_some, run_oneByOne,
        List.nil_append]
    have arrived :
        arrivals
            (oneByOne before ++
              ([.arrive short, .arrive long, .turn, .turn] ++
                oneByOne behind)) =
          before ++ short :: long :: behind := by
      rw [arrivals_append, arrivals_append, arrivals_oneByOne,
        arrivals_oneByOne]
      rfl
    have whole := complete _ _ reached arrived rfl
    have apart :
        before ++ short :: long :: behind =
          before ++ ([short] ++ ([long] ++ behind)) :=
      rfl
    rw [apart, completeLog_append, completeLog_append, completeLog_append,
      completeLog_short isShort, completeLog_long isLong] at whole
    have lengths := congrArg List.length whole
    simp only [record, List.length_append, List.length_replicate,
      List.length_nil] at lengths
    omega
  · rintro ordered actions state reached rfl empty
    obtain ⟨received, parts, isLog, _⟩ := logged_run reached ordered
    rw [empty, List.append_nil] at parts
    rw [parts]
    exact isLog

end Csh.CaptureLog
