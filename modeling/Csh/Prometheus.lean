import Csh.Lib.CString
import Csh.Lib.Cells
import Mathlib.Data.List.Induction
import Mathlib.Data.List.Perm.Basic
import Mathlib.Algebra.BigOperators.Group.List.Basic

namespace Csh.Prometheus

open Libc Cells Filled

/-!
# Exporting metrics to Prometheus

`prometheus_add` collects metric lines, and the thread of the exporter answers
a request with all of them.  It sends the buffer and clears it in two steps,
and nothing keeps the sniffer from adding lines in between.
-/

/-- The size of `prometheus_buf`. -/
def bufferSize : Nat :=
  1024 * 1024 * 10

/-- `header`, which precedes the lines in a response. -/
def header : CString :=
  "HTTP/1.1 200 OK;\r\nContent-Type: text/plain;\r\n\r\n".toList

/-- How far the exporter is with a request; `sent` is the length it sent. -/
inductive ExporterPhase where
  | listening
  | headed
  | dumped (sent : Nat)
  deriving Repr, DecidableEq

/-- The buffer and the exporter, with what was stored and answered so far. -/
structure PrometheusState where
  buffer : Filled Char
  phase : ExporterPhase
  stored : List CString
  responses : List CString

/-- What the sniffer and the exporter do: a call, and the next step. -/
inductive Operation where
  | add (line : CString)
  | exporter
  deriving Repr, DecidableEq

/-- The comparison of `prometheus_add`. -/
def Fits (line : CString) (buffer : Filled Char) : Prop :=
  buffer.used + line.length < bufferSize

instance (line : CString) (buffer : Filled Char) :
    Decidable (Fits line buffer) :=
  inferInstanceAs (Decidable (_ < _))

/-- `prometheus_add`. -/
def prometheusAdd (line : CString) (buffer : Filled Char) : Filled Char :=
  if Fits line buffer then
    buffer.append nul line
  else
    buffer

namespace PrometheusState

/-- Nothing has been stored or answered. -/
def initial : PrometheusState where
  buffer := ⟨fun _ => nul, 0⟩
  phase := .listening
  stored := []
  responses := []

/-- The next step of `prometheus_exporter`: header, dump, `prometheus_clear`. -/
def exported (state : PrometheusState) : PrometheusState :=
  match state.phase with
  | .listening =>
      { state with phase := .headed }
  | .headed =>
      { state with
        phase := .dumped state.buffer.used
        responses := state.responses ++ [header ++ state.buffer.contents] }
  | .dumped _ =>
      { state with
        buffer := state.buffer.clear
        phase := .listening }

/-- The state behind an operation. -/
def after (state : PrometheusState) : Operation → PrometheusState
  | .add line =>
      { state with
        buffer := prometheusAdd line state.buffer
        stored :=
          if Fits line state.buffer then
            state.stored ++ [line]
          else
            state.stored }
  | .exporter => state.exported

/-- The state behind operations in some order. -/
def run (operations : List Operation) : PrometheusState :=
  operations.foldl after initial

/-- What the buffer holds beyond what is in a response already. -/
def unsent (state : PrometheusState) : CString :=
  match state.phase with
  | .dumped sent => state.buffer.contents.drop sent
  | _ => state.buffer.contents

/--
The stored lines can be dealt out: every one of them to a response or to the
unsent part of the buffer, and what each of these consists of is its lines.
-/
def Accounted (state : PrometheusState) : Prop :=
  ∃ (groups : List (List CString)) (rest : List CString),
    (groups.flatten ++ rest).Perm state.stored ∧
      state.responses = groups.map (fun lines => header ++ lines.flatten) ∧
      state.unsent = rest.flatten

/-- The buffer is as long at the clear as it was at the send. -/
def ClearsWhatItSent (state : PrometheusState) : Prop :=
  ∀ sent, state.phase = .dumped sent → state.buffer.used = sent

/-- A response was not sent with more than the buffer holds. -/
def SentInside (state : PrometheusState) : Prop :=
  ∀ sent, state.phase = .dumped sent → sent ≤ state.buffer.used

variable {state : PrometheusState}

theorem run_append_singleton
    (operations : List Operation)
    (operation : Operation) :
    run (operations ++ [operation]) = (run operations).after operation := by
  simp [run]

theorem SentInside.after
    (inside : SentInside state)
    (operation : Operation) :
    SentInside (state.after operation) := by
  intro sent dumped
  cases operation with
  | add line =>
      have before := inside sent dumped
      by_cases fits : Fits line state.buffer
      · simp only [PrometheusState.after, prometheusAdd, if_pos fits,
          used_append]
        omega
      · simpa [PrometheusState.after, prometheusAdd, fits] using before
  | exporter =>
      cases phase : state.phase with
      | listening | dumped _ =>
          simp [PrometheusState.after, exported, phase] at dumped
      | headed =>
          simp only [PrometheusState.after, exported, phase,
            ExporterPhase.dumped.injEq] at dumped ⊢
          omega

theorem sentInside_run
    (operations : List Operation) :
    SentInside (run operations) := by
  induction operations using List.reverseRecOn with
  | nil =>
      intro sent dumped
      cases dumped
  | append_singleton operations operation inductionHypothesis =>
      rw [run_append_singleton]
      exact inductionHypothesis.after operation

/-- Storing a line adds it to the unsent part. -/
theorem unsent_add
    {line : CString}
    (inside : SentInside state)
    (fits : Fits line state.buffer) :
    (state.after (.add line)).unsent = state.unsent ++ line := by
  cases phase : state.phase with
  | listening | headed =>
      simp [unsent, PrometheusState.after, prometheusAdd, fits, phase]
  | dumped sent =>
      have before := inside sent phase
      simp only [unsent, PrometheusState.after, prometheusAdd, fits, phase,
        if_true, contents_append]
      rw [List.drop_append_of_le_length (by simpa using before)]

theorem Accounted.add
    {line : CString}
    (inside : SentInside state)
    (accounted : Accounted state) :
    Accounted (state.after (.add line)) := by
  obtain ⟨groups, rest, dealt, responses, unsent⟩ := accounted
  by_cases fits : Fits line state.buffer
  · refine ⟨groups, rest ++ [line], ?_, responses, ?_⟩
    · rw [← List.append_assoc]
      simpa [PrometheusState.after, fits] using dealt.append_right [line]
    · rw [unsent_add inside fits, unsent]
      simp
  · refine ⟨groups, rest, ?_, responses, ?_⟩
    · simpa [PrometheusState.after, fits] using dealt
    · simpa [PrometheusState.unsent, PrometheusState.after, prometheusAdd,
        fits] using unsent

/-- A clear of just what was sent loses nothing. -/
theorem Accounted.exported
    (accounted : Accounted state)
    (same : ClearsWhatItSent state) :
    Accounted state.exported := by
  obtain ⟨groups, rest, dealt, responses, unsent⟩ := accounted
  cases phase : state.phase with
  | listening =>
      refine ⟨groups, rest, ?_, ?_, ?_⟩
      · simpa [PrometheusState.exported, phase] using dealt
      · simpa [PrometheusState.exported, phase] using responses
      · simpa [PrometheusState.exported, PrometheusState.unsent, phase]
          using unsent
  | headed =>
      refine ⟨groups ++ [rest], [], ?_, ?_, ?_⟩
      · simpa [PrometheusState.exported, phase] using dealt
      · simp only [PrometheusState.unsent, phase] at unsent
        simp [PrometheusState.exported, phase, responses, unsent]
      · simp [PrometheusState.exported, PrometheusState.unsent, phase]
  | dumped sent =>
      have all := same sent phase
      have nothing : rest.flatten = [] := by
        rw [← unsent, PrometheusState.unsent, phase]
        simp [← all]
      refine ⟨groups, rest, ?_, ?_, ?_⟩
      · simpa [PrometheusState.exported, phase] using dealt
      · simpa [PrometheusState.exported, phase] using responses
      · simp [PrometheusState.exported, PrometheusState.unsent, phase,
          nothing]

theorem accounted_initial :
    Accounted initial :=
  ⟨[], [], .nil, rfl, rfl⟩

theorem length_responses
    (groups : List (List CString)) :
    (groups.map fun lines => header ++ lines.flatten).flatten.length =
      groups.length * header.length + groups.flatten.flatten.length := by
  induction groups with
  | nil =>
      rfl
  | cons lines groups inductionHypothesis =>
      simp only [List.map_cons, List.flatten_cons, List.length_append,
        List.flatten_append, List.length_cons, inductionHypothesis,
        Nat.succ_mul]
      omega

/-- Lines that can be dealt out have their characters in the places named. -/
theorem Accounted.length_eq
    (accounted : Accounted state) :
    state.responses.flatten.length + state.unsent.length =
      state.responses.length * header.length +
        state.stored.flatten.length := by
  obtain ⟨groups, rest, dealt, responses, unsent⟩ := accounted
  have stored := dealt.flatten.length_eq
  rw [List.flatten_append, List.length_append] at stored
  rw [responses, unsent, length_responses, List.length_map]
  omega

/-- A clear of more than what was sent loses characters. -/
theorem ClearsWhatItSent.of_accounted
    (inside : SentInside state)
    (before : Accounted state)
    (after : Accounted state.exported) :
    ClearsWhatItSent state := by
  intro sent phase
  have sumBefore := before.length_eq
  have sumAfter := after.length_eq
  have upTo := inside sent phase
  simp only [unsent, phase, List.length_drop, length_contents] at sumBefore
  simp only [exported, unsent, phase, contents_clear,
    List.length_nil] at sumAfter
  omega

/--
No stored line is lost in a run exactly when the exporter never clears a buffer
that has grown since it was sent.
-/
theorem accounted_iff_clearsWhatItSent
    (operations : List Operation) :
    (∀ earlier, earlier <+: operations → Accounted (run earlier)) ↔
      ∀ earlier,
        earlier ++ [.exporter] <+: operations →
          ClearsWhatItSent (run earlier) := by
  constructor
  · intro accounted earlier next
    have before := accounted earlier ((List.prefix_append _ _).trans next)
    have after := accounted _ next
    rw [run_append_singleton] at after
    exact .of_accounted (sentInside_run earlier) before after
  · intro same earlier
    induction earlier using List.reverseRecOn with
    | nil =>
        intro _
        exact accounted_initial
    | append_singleton earlier operation inductionHypothesis =>
        intro next
        have accounted :=
          inductionHypothesis ((List.prefix_append _ _).trans next)
        rw [run_append_singleton]
        cases operation with
        | add line =>
            exact accounted.add (sentInside_run earlier)
        | exporter =>
            exact accounted.exported (same earlier next)

/-- A line that arrives between the dump and the clear is lost. -/
theorem not_accounted_of_line_between :
    ¬ Accounted
      (run
        [.add "a 1\n".toList, .exporter, .exporter, .add "b 2\n".toList,
          .exporter]) := by
  intro accounted
  have sum := accounted.length_eq
  revert sum
  decide

end PrometheusState

end Csh.Prometheus
