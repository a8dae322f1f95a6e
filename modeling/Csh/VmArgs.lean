import Csh.Lib.Pointers
import Csh.Lib.Steps

namespace Csh.VmArgs

open Steps Pointers

/-!
# The strings of `vm start`

`vm_start_cmd` leaves the strings of its options in one static record that the
push thread reads while it connects.  Both `vm_stop_cmd` and the end of the
push thread free them, each string in three steps: the pointer is tested, the
string is freed and the pointer is set to `NULL`.
-/

/-- The pointers of `vm_args`. -/
inductive Field where
  | apiRoot
  | username
  | password
  | serverIp
  deriving Repr, DecidableEq

/-- What is done next to free a string. -/
inductive Stage where
  | test
  | free
  | clear
  deriving Repr, DecidableEq

/-- One step of freeing the strings of some fields. -/
def release
    (stage : Stage)
    (field : Field)
    (rest : List Field)
    (memory : Memory Field) :
    Stage × List Field × Memory Field :=
  match stage with
  | .test =>
      if memory.block field = none then
        (.test, rest, memory)
      else
        (.free, field :: rest, memory)
  | .free => (.clear, field :: rest, memory.free field)
  | .clear => (.test, rest, memory.clear field)

/-- What the push thread does with the record while it connects. -/
inductive Access where
  /-- `curl_easy_init`. -/
  | init
  | testUsername
  | testPassword
  /-- The root of the API or else the address is printed into a text. -/
  | server
  /-- The test of the connection. -/
  | connect
  /-- The message about the connection, if there is one. -/
  | report
  | use (field : Field)
  deriving Repr, DecidableEq

/-- A push thread that has not ended. -/
inductive PushThread where
  | connecting (todo : List Access)
  | looping
  | cleaning (stage : Stage) (fields : List Field)
  deriving Repr, DecidableEq

/-- The command in progress; `vm start` stores or clears some pointers first. -/
inductive Command where
  | none
  | assigning (todo : List (Field × Bool))
  | created
  | releasing (stage : Stage) (fields : List Field)
  deriving Repr, DecidableEq

/-- What the shell and the push threads share, and where they are. -/
structure VmState where
  vmRunning : Bool
  memory : Memory Field
  command : Command
  threads : List PushThread

/-- What happens next; `ok` is the answer of the library where there is one. -/
inductive Action where
  | start (isHttpUrl withUser : Bool)
  /-- `vm start` returns with an error. -/
  | refuse
  | stop
  | command (ok : Bool)
  | thread (index : Nat) (ok : Bool)
  deriving Repr, DecidableEq

/-- The pointers that `vm_start_cmd` sets, with `true` for a new string. -/
def startPlan (isHttpUrl withUser : Bool) : List (Field × Bool) :=
  (if isHttpUrl then
      [(.apiRoot, true), (.serverIp, false)]
    else
      [(.serverIp, true), (.apiRoot, false)]) ++
    if withUser then [(.username, true), (.password, true)] else []

/-- The order in which `vm_stop_cmd` frees. -/
def stopOrder : List Field :=
  [.username, .password, .apiRoot, .serverIp]

/-- The accesses of `vm_push` in front of its loop. -/
def connectPlan : List Access :=
  [.init, .testUsername, .server, .connect, .server, .report]

/-- The order in which `vm_push` frees. -/
def cleanupOrder : List Field :=
  [.username, .password, .serverIp, .apiRoot]

/-- `strdup` or `NULL` for a pointer. -/
def assign (item : Field × Bool) (memory : Memory Field) : Memory Field :=
  if item.2 then memory.allocate item.1 else memory.clear item.1

namespace VmState

/-- No string is there and nothing has been started. -/
def initial : VmState where
  vmRunning := false
  memory := .empty
  command := .none
  threads := []

/-- The next step of the command in progress. -/
def commandStep (ok : Bool) (state : VmState) : Option VmState :=
  match state.command with
  | .none => none
  | .assigning [] =>
      some
        { state with
          threads :=
            if ok then
              state.threads ++ [.connecting connectPlan]
            else
              state.threads
          command := .created }
  | .assigning (item :: rest) =>
      some
        { state with
          memory := assign item state.memory
          command := .assigning rest }
  | .created => some { state with vmRunning := true, command := .none }
  | .releasing _ [] => some { state with vmRunning := false, command := .none }
  | .releasing stage (field :: rest) =>
      let released := release stage field rest state.memory
      some
        { state with
          memory := released.2.2
          command := .releasing released.1 released.2.1 }

/-- An access, and the accesses that are left behind it. -/
def access
    (ok : Bool)
    (access : Access)
    (rest : List Access)
    (state : VmState) :
    VmState × List Access :=
  match access with
  | .init =>
      if ok then
        (state, rest)
      else
        ({ state with vmRunning := false }, [.report])
  | .testUsername =>
      (state,
        if state.memory.block .username = none then
          rest
        else
          .testPassword :: rest)
  | .testPassword =>
      (state,
        if state.memory.block .password = none then
          rest
        else
          .use .username :: .use .password :: rest)
  | .server =>
      (state,
        if state.memory.block .apiRoot = none then
          .use .serverIp :: rest
        else
          .use .apiRoot :: rest)
  | .connect =>
      (if ok then state else { state with vmRunning := false }, rest)
  | .report => (state, if state.vmRunning then .server :: rest else rest)
  | .use field => ({ state with memory := state.memory.use field }, rest)

/-- The next step of a push thread. -/
def threadStep
    (index : Nat)
    (ok : Bool)
    (state : VmState) :
    Option VmState :=
  match state.threads[index]? with
  | none => none
  | some (.connecting []) =>
      some { state with threads := state.threads.set index .looping }
  | some (.connecting (access :: rest)) =>
      let accessed := state.access ok access rest
      some
        { accessed.1 with
          threads := state.threads.set index (.connecting accessed.2) }
  | some .looping =>
      if state.vmRunning then
        some state
      else
        some
          { state with
            threads := state.threads.set index (.cleaning .test cleanupOrder) }
  | some (.cleaning _ []) =>
      some { state with threads := state.threads.eraseIdx index }
  | some (.cleaning stage (field :: rest)) =>
      let released := release stage field rest state.memory
      some
        { state with
          memory := released.2.2
          threads :=
            state.threads.set index (.cleaning released.1 released.2.1) }

end VmState

/-- What an action makes of the state; `none` where it is not possible. -/
def vmStep (action : Action) (state : VmState) : Option VmState :=
  match action with
  | .start isHttpUrl withUser =>
      if state.command = .none then
        if state.vmRunning then
          some state
        else
          some
            { state with command := .assigning (startPlan isHttpUrl withUser) }
      else
        none
  | .refuse =>
      match state.command with
      | .assigning _ => some { state with command := .none }
      | _ => none
  | .stop =>
      if state.command = .none then
        if state.vmRunning then
          some { state with command := .releasing .test stopOrder }
        else
          some state
      else
        none
  | .command ok => state.commandStep ok
  | .thread index ok => state.threadStep index ok

/-- `vm start` is only given where all push threads have ended. -/
def startsAlone (action : Action) (state : VmState) : Bool :=
  match action with
  | .start _ _ => state.vmRunning || state.threads.isEmpty
  | _ => true

/--
`vm stop` is only given where no push thread is in front of its loop or behind
it.
-/
def stopsLooping (action : Action) (state : VmState) : Bool :=
  match action with
  | .stop => !state.vmRunning || state.threads.all (· == .looping)
  | _ => true

/-- The field whose string has just been freed. -/
def Dangling (stage : Stage) (fields : List Field) (field : Field) : Prop :=
  stage = .clear ∧ fields.head? = some field

/-- There is a text for `.server`. -/
def Served (memory : Memory Field) : Prop :=
  memory.block .apiRoot ≠ none ∨ memory.block .serverIp ≠ none

/-- What has been tested in front of an access is there. -/
def Access.Found (memory : Memory Field) : Access → Prop
  | .use field => memory.block field ≠ none
  | .testPassword => memory.block .username ≠ none
  | _ => True

/-- All accesses find what they were tested for. -/
def Tested (todo : List Access) (memory : Memory Field) : Prop :=
  ∀ access ∈ todo, access.Found memory

/-- A push thread that has the record for itself. -/
inductive Settled : PushThread → Memory Field → Prop where
  | connecting
      {todo : List Access}
      {memory : Memory Field}
      (clean : Clean memory)
      (served : Served memory)
      (tested : Tested todo memory) :
      Settled (.connecting todo) memory
  | looping {memory : Memory Field} (clean : Clean memory) :
      Settled .looping memory
  | cleaning
      {stage : Stage}
      {fields : List Field}
      {memory : Memory Field}
      (sound : Sound (Dangling stage fields) memory) :
      Settled (.cleaning stage fields) memory

/-- The shell and at most one push thread, one of which has the record. -/
inductive Orderly : VmState → Prop where
  | idle
      {running : Bool}
      {memory : Memory Field}
      (clean : Clean memory) :
      Orderly ⟨running, memory, .none, []⟩
  | assigning
      {running : Bool}
      {memory : Memory Field}
      {todo : List (Field × Bool)}
      (clean : Clean memory)
      (serves : Served (todo.foldl (fun memory item => assign item memory)
        memory)) :
      Orderly ⟨running, memory, .assigning todo, []⟩
  | created
      {running : Bool}
      {memory : Memory Field}
      (clean : Clean memory) :
      Orderly ⟨running, memory, .created, []⟩
  | releasing
      {running : Bool}
      {memory : Memory Field}
      {stage : Stage}
      {fields : List Field}
      {threads : List PushThread}
      (sound : Sound (Dangling stage fields) memory)
      (loops :
        threads = [] ∨ (threads = [.looping] ∧ running = true)) :
      Orderly ⟨running, memory, .releasing stage fields, threads⟩
  | pushing
      {running : Bool}
      {memory : Memory Field}
      {command : Command}
      {thread : PushThread}
      (between : command = .none ∨ command = .created)
      (settled : Settled thread memory) :
      Orderly ⟨running, memory, command, [thread]⟩

section Orderly

variable {state next : VmState}
variable {memory : Memory Field}
variable {stage : Stage}
variable {field : Field}
variable {rest fields : List Field}
variable {ok : Bool}

theorem clean_of_not_clear
    (sound : Sound (Dangling stage fields) memory)
    (other : stage ≠ .clear) :
    Clean memory :=
  sound.mono fun _ dangles => other dangles.1

/-- A step of freeing leaves no string dangling but that just freed. -/
theorem sound_release
    (sound : Sound (Dangling stage (field :: rest)) memory) :
    Sound
      (Dangling (release stage field rest memory).1
        (release stage field rest memory).2.1)
      (release stage field rest memory).2.2 := by
  cases stage with
  | test =>
      have clean := clean_of_not_clear sound (by decide)
      by_cases empty : memory.block field = none
      · simp only [release, if_pos empty]
        exact clean.mono fun _ none => none.elim
      · simp only [release, if_neg empty]
        exact clean.mono fun _ none => none.elim
  | free =>
      have clean := clean_of_not_clear sound (by decide)
      exact clean.free.mono fun other same => ⟨rfl, congrArg some same.symm⟩
  | clear =>
      have cleared : Clean (memory.clear field) :=
        sound.clear fun other dangles => (Option.some.inj dangles.2).symm
      exact cleared.mono fun _ none => none.elim

@[simp] theorem found_use
    {access : Access} :
    access.Found (memory.use field) ↔ access.Found memory := by
  cases access <;> simp [Access.Found]

theorem command_access
    {access : Access}
    {todo : List Access} :
    (state.access ok access todo).1.command = state.command := by
  cases access <;> cases ok <;> rfl

/-- An access finds what it was tested for, and tests what comes next. -/
theorem settled_access
    {access : Access}
    {todo : List Access}
    (settled : Settled (.connecting (access :: todo)) state.memory) :
    Settled (.connecting (state.access ok access todo).2)
      (state.access ok access todo).1.memory := by
  obtain ⟨clean, served, tested⟩ := settled
  obtain ⟨found, later⟩ := List.forall_mem_cons.mp tested
  cases access with
  | init =>
      cases ok with
      | true => exact .connecting clean served later
      | false =>
          exact
            .connecting clean served
              (List.forall_mem_cons.mpr ⟨trivial, by simp⟩)
  | testUsername =>
      refine .connecting clean served ?_
      by_cases none : state.memory.block .username = none
      · simp only [VmState.access, if_pos none]
        exact later
      · simp only [VmState.access, if_neg none]
        exact List.forall_mem_cons.mpr ⟨none, later⟩
  | testPassword =>
      refine .connecting clean served ?_
      by_cases none : state.memory.block .password = none
      · simp only [VmState.access, if_pos none]
        exact later
      · simp only [VmState.access, if_neg none]
        exact
          List.forall_mem_cons.mpr
            ⟨found, List.forall_mem_cons.mpr ⟨none, later⟩⟩
  | server =>
      refine .connecting clean served ?_
      by_cases none : state.memory.block .apiRoot = none
      · simp only [VmState.access, if_pos none]
        exact
          List.forall_mem_cons.mpr
            ⟨served.resolve_left (not_not_intro none), later⟩
      · simp only [VmState.access, if_neg none]
        exact List.forall_mem_cons.mpr ⟨none, later⟩
  | connect =>
      cases ok <;> exact .connecting clean served later
  | report =>
      refine .connecting clean served ?_
      by_cases running : state.vmRunning = true
      · simp only [VmState.access, if_pos running]
        exact List.forall_mem_cons.mpr ⟨trivial, later⟩
      · simp only [VmState.access, if_neg running]
        exact later
  | use field =>
      refine .connecting (clean.use found) ?_ fun access member => ?_
      · simpa [Served, VmState.access] using served
      · exact found_use.mpr (later access member)

theorem clean_assign
    (clean : Clean memory)
    (item : Field × Bool) :
    Clean (assign item memory) := by
  unfold assign
  split
  · exact clean.allocate
  · exact clean.clear fun _ none => none.elim

/-- The plan of `vm start` leaves a text for `.server`. -/
theorem served_startPlan
    (isHttpUrl withUser : Bool) :
    Served
      ((startPlan isHttpUrl withUser).foldl
        (fun memory item => assign item memory) memory) := by
  cases isHttpUrl <;> cases withUser <;>
    simp [Served, startPlan, assign, Memory.allocate, Memory.clear,
      Function.update]

/-- When all strings are freed and cleared no pointer is dangling. -/
theorem clean_released
    (sound : Sound (Dangling stage []) memory) :
    Clean memory :=
  sound.mono fun _ dangles => by cases dangles.2

theorem Orderly.start
    {isHttpUrl withUser : Bool}
    (orderly : Orderly state)
    (alone : startsAlone (.start isHttpUrl withUser) state = true)
    (stepped : vmStep (.start isHttpUrl withUser) state = some next) :
    Orderly next := by
  rw [vmStep, Option.ite_none_right_eq_some] at stepped
  obtain ⟨isIdle, stepped⟩ := stepped
  by_cases running : state.vmRunning = true
  · rw [if_pos running] at stepped
    exact Option.some.inj stepped ▸ orderly
  · rw [if_neg running] at stepped
    obtain rfl := Option.some.inj stepped
    cases orderly with
    | idle clean =>
        exact .assigning clean (served_startPlan _ _)
    | pushing between settled =>
        simp only [startsAlone, Bool.not_eq_true] at running alone
        simp [running] at alone
    | assigning | created | releasing =>
        cases isIdle

theorem Orderly.refuse
    (orderly : Orderly state)
    (stepped : vmStep .refuse state = some next) :
    Orderly next := by
  cases orderly with
  | assigning clean serves =>
      exact Option.some.inj stepped ▸ .idle clean
  | pushing between settled =>
      rcases between with rfl | rfl <;> cases stepped
  | idle | created | releasing =>
      cases stepped

theorem Orderly.stop
    (orderly : Orderly state)
    (looping : stopsLooping .stop state = true)
    (stepped : vmStep .stop state = some next) :
    Orderly next := by
  rw [vmStep, Option.ite_none_right_eq_some] at stepped
  obtain ⟨isIdle, stepped⟩ := stepped
  by_cases running : state.vmRunning = true
  · rw [if_pos running] at stepped
    obtain rfl := Option.some.inj stepped
    cases orderly with
    | idle clean =>
        exact
          .releasing (clean.mono fun _ none => none.elim) (.inl rfl)
    | @pushing flag memory command thread between settled =>
        obtain rfl : flag = true := running
        obtain rfl : thread = .looping := by
          simpa [stopsLooping] using looping
        cases settled with
        | looping clean =>
            exact
              .releasing (clean.mono fun _ none => none.elim)
                (.inr ⟨rfl, rfl⟩)
    | assigning | created | releasing =>
        cases isIdle
  · rw [if_neg running] at stepped
    exact Option.some.inj stepped ▸ orderly

theorem Orderly.command
    (orderly : Orderly state)
    (stepped : vmStep (.command ok) state = some next) :
    Orderly next := by
  cases orderly with
  | idle clean =>
      cases stepped
  | @assigning running memory todo clean serves =>
      cases todo with
      | nil =>
          obtain rfl := Option.some.inj stepped
          cases ok with
          | true =>
              refine .pushing (.inr rfl) (.connecting clean serves ?_)
              simp [Tested, connectPlan, Access.Found]
          | false => exact .created clean
      | cons item rest =>
          obtain rfl := Option.some.inj stepped
          exact .assigning (clean_assign clean item) serves
  | created clean =>
      exact Option.some.inj stepped ▸ .idle clean
  | @releasing running memory stage fields threads sound loops =>
      cases fields with
      | nil =>
          have clean := clean_released sound
          obtain rfl := Option.some.inj stepped
          rcases loops with rfl | ⟨rfl, _⟩
          · exact .idle clean
          · exact .pushing (.inl rfl) (.looping clean)
      | cons field rest =>
          obtain rfl := Option.some.inj stepped
          exact .releasing (sound_release sound) loops
  | pushing between settled =>
      rcases between with rfl | rfl
      · cases stepped
      · exact Option.some.inj stepped ▸ .pushing (.inl rfl) settled

theorem Orderly.thread
    {index : Nat}
    (orderly : Orderly state)
    (stepped : vmStep (.thread index ok) state = some next) :
    Orderly next := by
  cases orderly with
  | idle | assigning | created =>
      cases stepped
  | releasing sound loops =>
      rcases loops with rfl | ⟨rfl, rfl⟩
      · cases stepped
      · cases index with
        | zero =>
            exact
              Option.some.inj stepped ▸ .releasing sound (.inr ⟨rfl, rfl⟩)
        | succ => cases stepped
  | @pushing running memory command thread between settled =>
      cases index with
      | succ => cases stepped
      | zero =>
          cases settled with
          | @connecting todo memory clean served tested =>
              cases todo with
              | nil =>
                  obtain rfl := Option.some.inj stepped
                  exact .pushing between (.looping clean)
              | cons access todo =>
                  obtain rfl := Option.some.inj stepped
                  refine
                    .pushing ?_
                      (settled_access (.connecting clean served tested))
                  rw [command_access]
                  exact between
          | looping clean =>
              cases running with
              | true =>
                  exact
                    Option.some.inj stepped ▸
                      .pushing between (.looping clean)
              | false =>
                  obtain rfl := Option.some.inj stepped
                  exact
                    .pushing between
                      (.cleaning (clean.mono fun _ none => none.elim))
          | @cleaning stage fields memory sound =>
              cases fields with
              | nil =>
                  have clean := clean_released sound
                  obtain rfl := Option.some.inj stepped
                  rcases between with rfl | rfl
                  · exact .idle clean
                  · exact .created clean
              | cons field rest =>
                  obtain rfl := Option.some.inj stepped
                  exact .pushing between (.cleaning (sound_release sound))

theorem keeps_orderly :
    Keeps (within stopsLooping (within startsAlone vmStep)) Orderly := by
  intro action state next orderly stepped
  obtain ⟨looping, stepped⟩ := within_eq_some_iff.mp stepped
  obtain ⟨alone, stepped⟩ := within_eq_some_iff.mp stepped
  cases action with
  | start isHttpUrl withUser => exact orderly.start alone stepped
  | refuse => exact orderly.refuse stepped
  | stop => exact orderly.stop looping stepped
  | command ok => exact orderly.command stepped
  | thread index ok => exact orderly.thread stepped

theorem Orderly.intact
    (orderly : Orderly state) :
    state.memory.faulty = false := by
  cases orderly with
  | idle clean | assigning clean _ | created clean => exact clean.intact
  | releasing sound _ => exact sound.intact
  | pushing _ settled =>
      cases settled with
      | connecting clean _ _ | looping clean => exact clean.intact
      | cleaning sound => exact sound.intact

end Orderly

/-- `vm start` up to the end of the command, with the address of a server. -/
def startedActions : List Action :=
  .start false false :: List.replicate 4 (.command true)

/-- `vm stop` frees the address before the push thread prints it. -/
def stoppedEarly : List Action :=
  startedActions ++
    (.stop :: List.replicate 5 (.command true) ++
      List.replicate 4 (.thread 0 true))

/-- The old push thread frees the address that the new one prints. -/
def startedTwice : List Action :=
  startedActions ++
    (List.replicate 11 (.thread 0 true) ++
      (.stop :: List.replicate 7 (.command true)) ++
      (.start false false :: List.replicate 3 (.command true)) ++
      List.replicate 5 (.thread 0 true) ++
      List.replicate 4 (.thread 1 true))

/--
No string of the record is used or freed behind its end, and none is missing,
in any interleaving where `vm start` is only given when all push threads have
ended and `vm stop` only when none is in front of its loop or behind it.
Neither condition can be left out.
-/
theorem strings_sound :
    (∀ actions state,
        run (within stopsLooping (within startsAlone vmStep)) actions .initial =
            some state →
          state.memory.faulty = false) ∧
      (∃ actions state,
        run (within startsAlone vmStep) actions .initial = some state ∧
          state.memory.faulty = true) ∧
      ∃ actions state,
        run (within stopsLooping vmStep) actions .initial = some state ∧
          state.memory.faulty = true := by
  refine ⟨fun actions state reached => ?_, ?_, ?_⟩
  · exact (keeps_orderly.run (.idle clean_empty) reached).intact
  · exact ⟨stoppedEarly, _, rfl, rfl⟩
  · exact ⟨startedTwice, _, rfl, rfl⟩

end Csh.VmArgs
