import Csh.Lib.Steps
import Csh.Prometheus

namespace Csh.PrometheusSteps

open Libc Steps Cells Filled Prometheus

/-!
# The steps of `prometheus_add`

The sniffer and the exporter share the buffer without a lock.  Here the steps
of a call of `prometheus_add` are taken one by one, with those of the exporter
between them, and compared with calls that are a single step.
-/

/-- Where the sniffer is in its call; `base` is the length it has read. -/
inductive AddPlace where
  | idle
  | testing (line : CString)
  | copying (line : CString)
  | adding (line : CString)
  | storing (line : CString) (base : Nat)
  deriving Repr, DecidableEq

/-- The line of the call in progress. -/
def AddPlace.line : AddPlace → List CString
  | .idle => []
  | .testing line | .copying line | .adding line | .storing line _ => [line]

/-- The buffer, where both threads are, the calls and the answers so far. -/
structure State where
  buffer : Filled Char
  phase : ExporterPhase
  place : AddPlace
  called : List CString
  responses : List CString

/-- What is done next: a call, a step of it, or a step of the exporter. -/
inductive Action where
  | call (line : CString)
  | adder
  | exporter
  deriving Repr, DecidableEq

namespace State

/-- Nothing has been stored or answered. -/
def initial : State where
  buffer := ⟨fun _ => nul, 0⟩
  phase := .listening
  place := .idle
  called := []
  responses := []

/-- The next step of `prometheus_add`; the length is added in two steps. -/
def added (state : State) : Option State :=
  match state.place with
  | .idle => none
  | .testing line =>
      some
        { state with
          place := if Fits line state.buffer then .copying line else .idle }
  | .copying line =>
      some
        { state with
          buffer :=
            { state.buffer with
              cells :=
                poke state.buffer.cells state.buffer.used (line ++ [nul]) }
          place := .adding line }
  | .adding line =>
      some { state with place := .storing line state.buffer.used }
  | .storing line base =>
      some
        { state with
          buffer := { state.buffer with used := base + line.length }
          place := .idle }

/-- The next step of `prometheus_exporter`. -/
def exported (state : State) : State :=
  match state.phase with
  | .listening => { state with phase := .headed }
  | .headed =>
      { state with
        phase := .dumped state.buffer.used
        responses := state.responses ++ [header ++ state.buffer.contents] }
  | .dumped _ =>
      { state with
        buffer := state.buffer.clear
        phase := .listening }

end State

/-- What an action makes of the state; `none` where it is not possible. -/
def step (action : Action) (state : State) : Option State :=
  match action with
  | .call line =>
      if state.place = .idle then
        some
          { state with
            place := .testing line
            called := state.called ++ [line] }
      else
        none
  | .adder => state.added
  | .exporter => some state.exported

/--
The exporter does not clear a buffer with something in it between the copy of
a line and the end of its call.
-/
def clearsApart (action : Action) (state : State) : Bool :=
  match action, state.phase, state.place with
  | .exporter, .dumped _, .adding _ | .exporter, .dumped _, .storing _ _ =>
      state.buffer.used == 0
  | _, _, _ => true

/-- The lines that are added by operations. -/
def addedLines (operations : List Operation) : List CString :=
  operations.filterMap fun operation =>
    match operation with
    | .add line => some line
    | .exporter => none

/-- What a call in progress has done to the buffer and relies on. -/
def PlaceHolds (buffer : Filled Char) (place : AddPlace) : Prop :=
  match place with
  | .idle | .testing _ => True
  | .copying line => Fits line buffer
  | .adding line =>
      Fits line buffer ∧
        Filled.contents { buffer with used := buffer.used + line.length } =
          buffer.contents ++ line
  | .storing line base =>
      base = buffer.used ∧ Fits line buffer ∧
        Filled.contents { buffer with used := buffer.used + line.length } =
          buffer.contents ++ line

/-- Operations that are single steps explain what is there and was sent. -/
structure Explained (operations : List Operation) (state : State) : Prop where
  phase : state.phase = (PrometheusState.run operations).phase
  responses : state.responses = (PrometheusState.run operations).responses
  used : state.buffer.used = (PrometheusState.run operations).buffer.used
  contents :
    state.buffer.contents = (PrometheusState.run operations).buffer.contents
  called : state.called = addedLines operations ++ state.place.line
  place : PlaceHolds state.buffer state.place

section Explained

variable {state next : State}
variable {operations : List Operation}
variable {line : CString}

theorem addedLines_append
    (operation : Operation) :
    addedLines (operations ++ [operation]) =
      addedLines operations ++ addedLines [operation] :=
  List.filterMap_append

/-- What is stored behind the used cells does not show. -/
theorem contents_poke
    {buffer : Filled Char}
    {text : List Char} :
    Filled.contents
        { buffer with cells := poke buffer.cells buffer.used text } =
      buffer.contents := by
  refine List.map_congr_left fun index inside => ?_
  exact poke_before (List.mem_range.mp inside)

/-- A call is an operation if it leaves the buffer as the operation does. -/
theorem Explained.finishes
    {buffer : Filled Char}
    (explained : Explained operations state)
    (called : state.called = addedLines operations ++ [line])
    (used :
      buffer.used =
        ((PrometheusState.run operations).after (.add line)).buffer.used)
    (contents :
      buffer.contents =
        ((PrometheusState.run operations).after (.add line)).buffer.contents) :
    Explained (operations ++ [.add line])
      { state with buffer := buffer, place := .idle } := by
  have ran := PrometheusState.run_append_singleton operations (.add line)
  refine ⟨?_, ?_, ?_, ?_, ?_, trivial⟩
  · rw [ran]
    exact explained.phase
  · rw [ran]
    exact explained.responses
  · rw [ran]
    exact used
  · rw [ran]
    exact contents
  · rw [addedLines_append]
    exact called.trans (List.append_nil _).symm

/-- A line that does not fit is an operation without effect. -/
theorem Explained.refused
    (explained : Explained operations state)
    (place : state.place = .testing line)
    (tooLong : ¬ Fits line state.buffer) :
    Explained (operations ++ [.add line]) { state with place := .idle } := by
  have same : ¬ Fits line (PrometheusState.run operations).buffer := by
    unfold Fits at tooLong ⊢
    rwa [← explained.used]
  have called := explained.called
  have kept :
      ((PrometheusState.run operations).after (.add line)).buffer =
        (PrometheusState.run operations).buffer := by
    simp [PrometheusState.after, prometheusAdd, same]
  rw [place] at called
  refine explained.finishes called ?_ ?_
  · rw [kept]
    exact explained.used
  · rw [kept]
    exact explained.contents

/-- The end of a call is the operation. -/
theorem Explained.stored
    {base : Nat}
    (explained : Explained operations state)
    (place : state.place = .storing line base) :
    Explained (operations ++ [.add line])
      { state with
        buffer := { state.buffer with used := base + line.length }
        place := .idle } := by
  have holds := explained.place
  have called := explained.called
  rw [place] at holds called
  obtain ⟨rfl, fits, contents⟩ := holds
  have fitsToo : Fits line (PrometheusState.run operations).buffer := by
    unfold Fits at fits ⊢
    rwa [← explained.used]
  have buffer :
      ((PrometheusState.run operations).after (.add line)).buffer =
        (PrometheusState.run operations).buffer.append nul line := by
    simp [PrometheusState.after, prometheusAdd, fitsToo]
  refine explained.finishes called ?_ ?_
  · rw [buffer, used_append, ← explained.used]
  · rw [buffer, contents_append, ← explained.contents]
    exact contents

/-- A clear apart from the copy of a line leaves a call what it relies on. -/
theorem placeHolds_clear
    {sent : Nat}
    (holds : PlaceHolds state.buffer state.place)
    (phase : state.phase = .dumped sent)
    (apart : clearsApart .exporter state = true) :
    PlaceHolds state.buffer.clear state.place := by
  have same (none : state.buffer.used = 0) :
      state.buffer.clear = state.buffer := by
    rw [Filled.clear, ← none]
  cases place : state.place with
  | idle | testing line =>
      trivial
  | copying line =>
      rw [place] at holds
      simp only [PlaceHolds, Fits, used_clear] at holds ⊢
      omega
  | adding line | storing line base =>
      rw [place] at holds
      simp only [clearsApart, phase, place, beq_iff_eq] at apart
      rw [same apart]
      exact holds

/-- A step of the exporter is one with whole calls as well. -/
theorem Explained.exported
    (explained : Explained operations state)
    (apart : clearsApart .exporter state = true) :
    Explained (operations ++ [.exporter]) state.exported := by
  have ran := PrometheusState.run_append_singleton operations .exporter
  have samePhase := explained.phase
  have called :
      state.called =
        addedLines (operations ++ [.exporter]) ++ state.place.line := by
    rw [addedLines_append, explained.called]
    simp [addedLines]
  cases phase : state.phase with
  | listening =>
      have moved : state.exported = { state with phase := .headed } := by
        simp [State.exported, phase]
      have ranMoved :
          PrometheusState.run (operations ++ [.exporter]) =
            { PrometheusState.run operations with phase := .headed } := by
        simp [ran, PrometheusState.after, PrometheusState.exported,
          ← samePhase, phase]
      rw [moved]
      refine ⟨?_, ?_, ?_, ?_, called, explained.place⟩ <;> rw [ranMoved]
      · exact explained.responses
      · exact explained.used
      · exact explained.contents
  | headed =>
      have moved :
          state.exported =
            { state with
              phase := .dumped state.buffer.used
              responses :=
                state.responses ++ [header ++ state.buffer.contents] } := by
        simp [State.exported, phase]
      have ranMoved :
          PrometheusState.run (operations ++ [.exporter]) =
            { PrometheusState.run operations with
              phase := .dumped state.buffer.used
              responses :=
                state.responses ++ [header ++ state.buffer.contents] } := by
        simp [ran, PrometheusState.after, PrometheusState.exported,
          ← samePhase, phase, explained.used, explained.responses,
          explained.contents]
      rw [moved]
      refine ⟨?_, ?_, ?_, ?_, called, explained.place⟩ <;> rw [ranMoved]
      · exact explained.used
      · exact explained.contents
  | dumped sent =>
      have moved :
          state.exported =
            { state with
              buffer := state.buffer.clear
              phase := .listening } := by
        simp [State.exported, phase]
      have ranMoved :
          PrometheusState.run (operations ++ [.exporter]) =
            { PrometheusState.run operations with
              buffer := (PrometheusState.run operations).buffer.clear
              phase := .listening } := by
        simp [ran, PrometheusState.after, PrometheusState.exported,
          ← samePhase, phase]
      have holds := placeHolds_clear explained.place phase apart
      rw [moved]
      refine ⟨?_, ?_, ?_, ?_, called, holds⟩ <;> rw [ranMoved]
      · exact explained.responses
      · rfl
      · rfl

/-- The other steps of a call do not show yet. -/
theorem Explained.within_call
    {buffer : Filled Char}
    {place : AddPlace}
    (explained : Explained operations state)
    (used : buffer.used = state.buffer.used)
    (contents : buffer.contents = state.buffer.contents)
    (line : place.line = state.place.line)
    (holds : PlaceHolds buffer place) :
    Explained operations { state with buffer := buffer, place := place } :=
  ⟨explained.phase, explained.responses, used.trans explained.used,
    contents.trans explained.contents, by
      rw [explained.called, line],
    holds⟩

/-- A step of a call is part of an operation. -/
theorem Explained.added
    (explained : Explained operations state)
    (stepped : state.added = some next) :
    ∃ later, Explained later next := by
  unfold State.added at stepped
  have holds := explained.place
  cases place : state.place with
  | idle =>
      simp [place] at stepped
  | testing line =>
      simp only [place, Option.some.injEq] at stepped
      rw [← stepped]
      by_cases fits : Fits line state.buffer
      · rw [if_pos fits]
        exact
          ⟨operations,
            explained.within_call rfl rfl (by rw [place]; rfl) fits⟩
      · rw [if_neg fits]
        exact ⟨_, explained.refused place fits⟩
  | copying line =>
      simp only [place, Option.some.injEq] at stepped
      rw [place] at holds
      rw [← stepped]
      refine
        ⟨operations,
          explained.within_call rfl contents_poke (by rw [place]; rfl)
            ⟨holds, ?_⟩⟩
      have whole :
          (state.buffer.append nul line).contents =
            state.buffer.contents ++ line :=
        contents_append
      rw [contents_poke]
      exact whole
  | adding line =>
      simp only [place, Option.some.injEq] at stepped
      rw [place] at holds
      rw [← stepped]
      exact
        ⟨operations,
          explained.within_call rfl rfl (by rw [place]; rfl) ⟨rfl, holds⟩⟩
  | storing line base =>
      simp only [place, Option.some.injEq] at stepped
      rw [← stepped]
      exact ⟨_, explained.stored place⟩

theorem keeps_explained :
    Keeps (within clearsApart step)
      (fun state => ∃ operations, Explained operations state) := by
  intro action state next known stepped
  obtain ⟨operations, explained⟩ := known
  obtain ⟨apart, stepped⟩ := within_eq_some_iff.mp stepped
  cases action with
  | call line =>
      rw [step, Option.ite_none_right_eq_some] at stepped
      obtain ⟨idle, stepped⟩ := stepped
      have called := explained.called
      rw [idle] at called
      obtain rfl := Option.some.inj stepped
      refine
        ⟨operations, explained.phase, explained.responses, explained.used,
          explained.contents, ?_, trivial⟩
      rw [called]
      simp [AddPlace.line]
  | adder =>
      exact explained.added stepped
  | exporter =>
      obtain rfl := Option.some.inj stepped
      exact ⟨_, explained.exported apart⟩

theorem explained_initial :
    Explained [] .initial :=
  ⟨rfl, rfl, rfl, rfl, rfl, trivial⟩

end Explained

/-- A call, with so many of its steps. -/
def callSteps (line : CString) (steps : Nat) : List Action :=
  .call line :: List.replicate steps .adder

/-- The answer to a request, and the line that comes meanwhile. -/
def answerDuring (steps : Nat) : List Action :=
  callSteps "a 1\n".toList 4 ++ [.exporter, .exporter] ++
    callSteps "b 2\n".toList steps ++ [.exporter] ++
    List.replicate (4 - steps) .adder ++ [.exporter, .exporter]

/--
Where the exporter clears the buffer apart from the copies of lines, a run of
the single steps is one of whole calls, with the same lines added in the same
order, the same answers and the same text in the buffer.  Elsewhere a line may
be sent twice, and one may be lost as well.
-/
theorem prometheusAdd_atomic :
    (∀ actions state,
        run (within clearsApart step) actions .initial = some state →
          ∃ operations,
            state.responses = (PrometheusState.run operations).responses ∧
              state.buffer.contents =
                (PrometheusState.run operations).buffer.contents ∧
              state.called = addedLines operations ++ state.place.line) ∧
      (∃ state,
        run step (answerDuring 3) .initial = some state ∧
          state.responses =
            [header ++ "a 1\n".toList, header ++ "a 1\nb 2\n".toList]) ∧
      ∃ state,
        run step (answerDuring 2) .initial = some state ∧
          state.responses =
            [header ++ "a 1\n".toList, header ++ "a 1\n".toList] := by
  refine ⟨fun actions state reached => ?_, ?_, ?_⟩
  · obtain ⟨operations, explained⟩ :=
      keeps_explained.run ⟨[], explained_initial⟩ reached
    exact
      ⟨operations, explained.responses, explained.contents,
        explained.called⟩
  · exact ⟨_, rfl, by decide⟩
  · exact ⟨_, rfl, by decide⟩

end Csh.PrometheusSteps
