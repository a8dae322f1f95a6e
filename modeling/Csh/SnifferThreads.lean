import Csh.Lib.Batches
import Csh.Lib.Steps
import Csh.MetricLines
import Csh.Prometheus
import Csh.VictoriaMetrics

namespace Csh.SnifferThreads

open Libc Steps Batches Cells MetricLines
open SnifferLog (Doubles Mpack doubles)
open VictoriaMetrics (PushState)
open Prometheus (PrometheusState header)

/-!
# The sniffer and its logs

The sniffer hands every line to Victoria Metrics, to Prometheus and to the log
file, as far as these are on, while the push thread posts its buffer and the
exporter answers requests with the other one.  The steps of the three threads
and of the commands come in any order.
-/

/-- Where the sniffer is with the line of a sample. -/
inductive SnifferPlace where
  | reading
  | toVm (sample : Sample)
  | toPrometheus (sample : Sample)
  | toLogfile (sample : Sample)
  deriving Repr, DecidableEq

/--
What the threads share, what the sniffer has still to print of its call, and
the samples that it is done with.
-/
structure SnifferState where
  snifferRunning : Bool
  vmRunning : Bool
  prometheusStarted : Bool
  logfile : Option CString
  place : SnifferPlace
  pending : List Sample
  done : List Sample
  vm : PushState
  prometheus : PrometheusState

/-- What happens next. -/
inductive Action (Reader : Type) where
  /-- A command calls `param_sniffer_init`; `opens` is the answer of `fopen`. -/
  | init (addLogfile opens : Bool)
  /-- A command or the push thread sets `vm_running`. -/
  | vmRunning (running : Bool)
  | prometheusStarted
  | paramSnifferLog (call : LogCall Reader)
  /-- The sniffer goes on with its call. -/
  | sniffer
  /-- A turn of the loop of `vm_push`. -/
  | push (succeeds : Bool)
  /-- The next step of `prometheus_exporter`. -/
  | exporter

namespace SnifferState

/-- Nothing has been started. -/
def initial : SnifferState where
  snifferRunning := false
  vmRunning := false
  prometheusStarted := false
  logfile := none
  place := .reading
  pending := []
  done := []
  vm := .initial
  prometheus := .initial

/-- `param_sniffer_init`; `logfile` is what has been written to the file. -/
def paramSnifferInit
    (addLogfile opens : Bool)
    (state : SnifferState) :
    SnifferState :=
  if state.snifferRunning then
    state
  else
    { state with
      snifferRunning := true
      logfile := if addLogfile && opens then some [] else none }

/-- The sniffer's next step with the line of a sample. -/
def sniffed (state : SnifferState) : Option SnifferState :=
  match state.place with
  | .reading =>
      match state.pending with
      | [] => none
      | sample :: pending =>
          some { state with place := .toVm sample, pending := pending }
  | .toVm sample =>
      some
        { state with
          place := .toPrometheus sample
          vm :=
            if state.vmRunning then
              state.vm.after (.add sample.line)
            else
              state.vm }
  | .toPrometheus sample =>
      some
        { state with
          place := .toLogfile sample
          prometheus :=
            if state.prometheusStarted then
              state.prometheus.after (.add sample.line)
            else
              state.prometheus }
  | .toLogfile sample =>
      some
        { state with
          place := .reading
          done := state.done ++ [sample]
          logfile := state.logfile.map (· ++ sample.line) }

end SnifferState

section Threads

variable {Reader Value : Type}
variable (mpack : Mpack Reader Value)
variable (formats : Formats Value)

/-- What an action makes of the state; `none` where it is not possible. -/
def snifferStep
    (action : Action Reader)
    (state : SnifferState) :
    Option SnifferState :=
  match action with
  | .init addLogfile opens => some (state.paramSnifferInit addLogfile opens)
  | .vmRunning running => some { state with vmRunning := running }
  | .prometheusStarted => some { state with prometheusStarted := true }
  | .paramSnifferLog call =>
      if state.snifferRunning = true ∧ state.place = .reading ∧
          state.pending = [] then
        some { state with pending := paramSnifferLog mpack formats call }
      else
        none
  | .sniffer => state.sniffed
  | .push succeeds => some { state with vm := state.vm.after (.push succeeds) }
  | .exporter => some { state with prometheus := state.prometheus.exported }

/-- The samples that an action brings. -/
def samplesOf (action : Action Reader) : List Sample :=
  match action with
  | .paramSnifferLog call => paramSnifferLog mpack formats call
  | _ => []

/-- The sample whose line the sniffer has in its hands. -/
def SnifferState.current (state : SnifferState) : List Sample :=
  match state.place with
  | .reading => []
  | .toVm sample | .toPrometheus sample | .toLogfile sample => [sample]

/-- The samples of all calls so far. -/
def SnifferState.samples (state : SnifferState) : List Sample :=
  state.done ++ (state.current ++ state.pending)

/-- The samples whose lines have come past Victoria Metrics. -/
def SnifferState.pastVm (state : SnifferState) : List Sample :=
  match state.place with
  | .toPrometheus sample | .toLogfile sample => state.done ++ [sample]
  | .reading | .toVm _ => state.done

/-- The samples whose lines have come past Prometheus. -/
def SnifferState.pastPrometheus (state : SnifferState) : List Sample :=
  match state.place with
  | .toLogfile sample => state.done ++ [sample]
  | .reading | .toVm _ | .toPrometheus _ => state.done

/-- Everything that an action can do. -/
inductive SnifferMove (state : SnifferState) :
    Action Reader → SnifferState → Prop where
  | again {addLogfile opens : Bool} (running : state.snifferRunning = true) :
      SnifferMove state (.init addLogfile opens) state
  | init {addLogfile opens : Bool} (stopped : state.snifferRunning = false) :
      SnifferMove state (.init addLogfile opens)
        { state with
          snifferRunning := true
          logfile := if addLogfile && opens then some [] else none }
  | vmRunning {running : Bool} :
      SnifferMove state (.vmRunning running)
        { state with vmRunning := running }
  | prometheusStarted :
      SnifferMove state .prometheusStarted
        { state with prometheusStarted := true }
  | call
      {call : LogCall Reader}
      (running : state.snifferRunning = true)
      (idle : state.place = .reading)
      (empty : state.pending = []) :
      SnifferMove state (.paramSnifferLog call)
        { state with pending := paramSnifferLog mpack formats call }
  | prints
      {sample : Sample}
      {pending : List Sample}
      (idle : state.place = .reading)
      (more : state.pending = sample :: pending) :
      SnifferMove state .sniffer
        { state with place := .toVm sample, pending := pending }
  | vmAdd
      {sample : Sample}
      (place : state.place = .toVm sample)
      (running : state.vmRunning = true) :
      SnifferMove state .sniffer
        { state with
          place := .toPrometheus sample
          vm := state.vm.after (.add sample.line) }
  | vmOff
      {sample : Sample}
      (place : state.place = .toVm sample)
      (off : state.vmRunning = false) :
      SnifferMove state .sniffer
        { state with place := .toPrometheus sample }
  | prometheusAdd
      {sample : Sample}
      (place : state.place = .toPrometheus sample)
      (started : state.prometheusStarted = true) :
      SnifferMove state .sniffer
        { state with
          place := .toLogfile sample
          prometheus := state.prometheus.after (.add sample.line) }
  | prometheusOff
      {sample : Sample}
      (place : state.place = .toPrometheus sample)
      (off : state.prometheusStarted = false) :
      SnifferMove state .sniffer
        { state with place := .toLogfile sample }
  | logs
      {sample : Sample}
      (place : state.place = .toLogfile sample) :
      SnifferMove state .sniffer
        { state with
          place := .reading
          done := state.done ++ [sample]
          logfile := state.logfile.map (· ++ sample.line) }
  | push {succeeds : Bool} :
      SnifferMove state (.push succeeds)
        { state with vm := state.vm.after (.push succeeds) }
  | exporter :
      SnifferMove state .exporter
        { state with prometheus := state.prometheus.exported }

variable {mpack} {formats}
variable {state next : SnifferState}
variable {action : Action Reader}
variable {actions : List (Action Reader)}

theorem sniffed_eq_some
    (stepped : state.sniffed = some next) :
    SnifferMove mpack formats state .sniffer next := by
  unfold SnifferState.sniffed at stepped
  cases place : state.place with
  | reading =>
      cases pending : state.pending with
      | nil =>
          simp [place, pending] at stepped
      | cons sample rest =>
          simp only [place, pending, Option.some.injEq] at stepped
          exact stepped ▸ .prints place pending
  | toVm sample =>
      simp only [place, Option.some.injEq] at stepped
      rw [← stepped]
      by_cases running : state.vmRunning = true
      · rw [if_pos running]
        exact .vmAdd place running
      · rw [if_neg running]
        exact .vmOff place (Bool.eq_false_iff.mpr running)
  | toPrometheus sample =>
      simp only [place, Option.some.injEq] at stepped
      rw [← stepped]
      by_cases started : state.prometheusStarted = true
      · rw [if_pos started]
        exact .prometheusAdd place started
      · rw [if_neg started]
        exact .prometheusOff place (Bool.eq_false_iff.mpr started)
  | toLogfile sample =>
      simp only [place, Option.some.injEq] at stepped
      exact stepped ▸ .logs place

theorem snifferStep_eq_some
    (stepped : snifferStep mpack formats action state = some next) :
    SnifferMove mpack formats state action next := by
  cases action with
  | init addLogfile opens =>
      obtain rfl := Option.some.inj stepped
      unfold SnifferState.paramSnifferInit
      split
      · exact .again ‹_›
      · exact .init (Bool.eq_false_iff.mpr ‹_›)
  | vmRunning running =>
      exact Option.some.inj stepped ▸ .vmRunning
  | prometheusStarted =>
      exact Option.some.inj stepped ▸ .prometheusStarted
  | paramSnifferLog call =>
      rw [snifferStep] at stepped
      split at stepped
      · rename_i free
        exact Option.some.inj stepped ▸ .call free.1 free.2.1 free.2.2
      · cases stepped
  | sniffer =>
      exact sniffed_eq_some stepped
  | push succeeds =>
      exact Option.some.inj stepped ▸ .push
  | exporter =>
      exact Option.some.inj stepped ▸ .exporter

/-- The buffer of `vm_push` takes every sample that comes past it. -/
def vmTakesAll (action : Action Reader) (state : SnifferState) : Bool :=
  match action, state.place with
  | .sniffer, .toVm sample =>
      state.vmRunning &&
        decide (VictoriaMetrics.Fits sample.line state.vm.buffer)
  | _, _ => true

/-- What Victoria Metrics has got, without the samples that it missed. -/
def VmAccount (missed : Nat) (state : SnifferState) : Prop :=
  Takes Sample.line state.pastVm state.vm.pushed state.vm.buffer.contents
    missed

/-- A line for Victoria Metrics is in its buffer, or it is missed. -/
theorem takes_vm_add
    {fed : List Sample}
    {vm : PushState}
    {missed : Nat}
    {sample : Sample}
    (takes : Takes Sample.line fed vm.pushed vm.buffer.contents missed) :
    ∃ later,
      Takes Sample.line (fed ++ [sample]) (vm.after (.add sample.line)).pushed
          (vm.after (.add sample.line)).buffer.contents later ∧
        Grows missed later
          (decide (VictoriaMetrics.Fits sample.line vm.buffer)) := by
  by_cases fits : VictoriaMetrics.Fits sample.line vm.buffer
  · refine ⟨missed, ?_, by simpa [fits] using Grows.same⟩
    simpa [PushState.after, VictoriaMetrics.vmAdd, fits] using takes.add
  · refine ⟨missed + 1, ?_, by simp [Grows, fits]⟩
    simpa [PushState.after, VictoriaMetrics.vmAdd, fits] using takes.miss

/-- A push hands on what is in the buffer, or leaves it there. -/
theorem takes_vm_push
    {fed : List Sample}
    {vm : PushState}
    {missed : Nat}
    (takes : Takes Sample.line fed vm.pushed vm.buffer.contents missed)
    (succeeds : Bool) :
    Takes Sample.line fed (vm.after (.push succeeds)).pushed
      (vm.after (.push succeeds)).buffer.contents missed := by
  by_cases empty : vm.buffer.used = 0
  · simpa [PushState.after, VictoriaMetrics.vmPushTurn, empty] using takes
  · cases succeeds with
    | true =>
        simpa [PushState.after, VictoriaMetrics.vmPushTurn, empty]
          using takes.handOn
    | false =>
        simpa [PushState.after, VictoriaMetrics.vmPushTurn, empty] using takes

theorem accounts_vm :
    Accounts (snifferStep mpack formats) vmTakesAll VmAccount := by
  intro action state next missed account stepped
  unfold VmAccount at account ⊢
  cases snifferStep_eq_some stepped with
  | again | init | vmRunning | prometheusStarted | call | exporter =>
      exact ⟨missed, account, .same⟩
  | push =>
      exact ⟨missed, takes_vm_push account _, .same⟩
  | prints idle more =>
      simp only [SnifferState.pastVm, idle] at account
      exact ⟨missed, account, by simpa [vmTakesAll, idle] using Grows.same⟩
  | vmAdd place running =>
      simp only [SnifferState.pastVm, place] at account
      obtain ⟨later, takes, grown⟩ := takes_vm_add account
      exact
        ⟨later, takes, by simpa [vmTakesAll, place, running] using grown⟩
  | vmOff place off =>
      simp only [SnifferState.pastVm, place] at account
      exact
        ⟨missed + 1, account.miss, by simp [Grows, vmTakesAll, place, off]⟩
  | prometheusAdd place _ | prometheusOff place _ | logs place =>
      simp only [SnifferState.pastVm, place] at account
      exact ⟨missed, account, by simpa [vmTakesAll, place] using Grows.same⟩

/--
The buffer of the exporter takes every sample that comes past it, and what is
cleared has been sent.
-/
def prometheusTakesAll (action : Action Reader) (state : SnifferState) : Bool :=
  match action, state.place, state.prometheus.phase with
  | .sniffer, .toPrometheus sample, _ =>
      state.prometheusStarted &&
        decide (Prometheus.Fits sample.line state.prometheus.buffer)
  | .exporter, _, .dumped sent => state.prometheus.buffer.used == sent
  | _, _, _ => true

/-- Texts that were sent behind the header, and the text that is not yet. -/
def PrometheusTakes
    (fed : List Sample)
    (prometheus : PrometheusState)
    (missed : Nat) :
    Prop :=
  prometheus.SentInside ∧
    ∃ bodies,
      prometheus.responses = bodies.map (header ++ ·) ∧
        Takes Sample.line fed bodies prometheus.unsent missed

/-- What Prometheus has got, without the samples that it missed. -/
def PrometheusAccount (missed : Nat) (state : SnifferState) : Prop :=
  PrometheusTakes state.pastPrometheus state.prometheus missed

section PrometheusSteps

variable {fed : List Sample}
variable {prometheus : PrometheusState}
variable {missed : Nat}

/-- A line for Prometheus is in its buffer, or it is missed. -/
theorem prometheusTakes_add
    {sample : Sample}
    (takes : PrometheusTakes fed prometheus missed) :
    ∃ later,
      PrometheusTakes (fed ++ [sample])
          (prometheus.after (.add sample.line)) later ∧
        Grows missed later
          (decide (Prometheus.Fits sample.line prometheus.buffer)) := by
  obtain ⟨inside, bodies, sent, taken⟩ := takes
  by_cases fits : Prometheus.Fits sample.line prometheus.buffer
  · refine
      ⟨missed, ⟨inside.after _, bodies, sent, ?_⟩,
        by simpa [fits] using Grows.same⟩
    rw [PrometheusState.unsent_add inside fits]
    exact taken.add
  · have same :
        (prometheus.after (.add sample.line)).unsent = prometheus.unsent := by
      simp [PrometheusState.unsent, PrometheusState.after,
        Prometheus.prometheusAdd, fits]
    refine
      ⟨missed + 1, ⟨inside.after _, bodies, sent, ?_⟩, by simp [Grows, fits]⟩
    rw [same]
    exact taken.miss

/-- The exporter sends what is there, or clears more than it sent. -/
theorem prometheusTakes_exported
    (takes : PrometheusTakes fed prometheus missed) :
    ∃ later,
      PrometheusTakes fed prometheus.exported later ∧
        missed ≤ later ∧
          (later = missed ↔ prometheus.ClearsWhatItSent) := by
  obtain ⟨inside, bodies, sent, taken⟩ := takes
  have insideAfter := inside.after .exporter
  cases phase : prometheus.phase with
  | listening =>
      have never : prometheus.ClearsWhatItSent := by
        simp [PrometheusState.ClearsWhatItSent, phase]
      refine
        ⟨missed, ⟨insideAfter, bodies, ?_, ?_⟩, Nat.le_refl _,
          iff_of_true rfl never⟩
      · simpa [PrometheusState.exported, phase] using sent
      · simpa [PrometheusState.exported, PrometheusState.unsent, phase]
          using taken
  | headed =>
      have never : prometheus.ClearsWhatItSent := by
        simp [PrometheusState.ClearsWhatItSent, phase]
      have whole : prometheus.unsent = prometheus.buffer.contents := by
        simp [PrometheusState.unsent, phase]
      refine
        ⟨missed,
          ⟨insideAfter, bodies ++ [prometheus.buffer.contents], ?_, ?_⟩,
          Nat.le_refl _, iff_of_true rfl never⟩
      · simp [PrometheusState.exported, phase, sent]
      · have nothing :
            prometheus.buffer.contents.drop prometheus.buffer.used = [] :=
          List.drop_eq_nil_of_le (by simp)
        rw [whole] at taken
        simpa [PrometheusState.exported, PrometheusState.unsent, phase,
          nothing] using taken.handOn
  | dumped length =>
      obtain ⟨more, left, none⟩ := taken.giveUp line_ne_nil
      have upTo := inside length phase
      refine
        ⟨missed + more, ⟨insideAfter, bodies, ?_, ?_⟩, Nat.le_add_right _ _,
          ?_⟩
      · simpa [PrometheusState.exported, phase] using sent
      · simpa [PrometheusState.exported, PrometheusState.unsent, phase]
          using left
      · rw [Nat.add_eq_left, none]
        simp only [PrometheusState.unsent, PrometheusState.ClearsWhatItSent,
          phase, List.drop_eq_nil_iff, Filled.length_contents,
          Prometheus.ExporterPhase.dumped.injEq, forall_eq']
        omega

end PrometheusSteps

theorem accounts_prometheus :
    Accounts (snifferStep mpack formats) prometheusTakesAll
      PrometheusAccount := by
  intro action state next missed account stepped
  unfold PrometheusAccount at account ⊢
  cases snifferStep_eq_some stepped with
  | again | init | vmRunning | prometheusStarted | call | push =>
      exact ⟨missed, account, .same⟩
  | exporter =>
      obtain ⟨later, takes, grown, appears⟩ := prometheusTakes_exported account
      refine ⟨later, takes, grown, fun none => ?_⟩
      rw [← none, appears]
      cases phase : state.prometheus.phase <;>
        simp [prometheusTakesAll, PrometheusState.ClearsWhatItSent, phase]
  | prints idle more =>
      simp only [SnifferState.pastPrometheus, idle] at account
      exact
        ⟨missed, account, by simpa [prometheusTakesAll, idle] using Grows.same⟩
  | prometheusAdd place started =>
      simp only [SnifferState.pastPrometheus, place] at account
      obtain ⟨later, takes, grown⟩ := prometheusTakes_add account
      exact
        ⟨later, takes,
          by simpa [prometheusTakesAll, place, started] using grown⟩
  | prometheusOff place off =>
      simp only [SnifferState.pastPrometheus, place] at account
      obtain ⟨inside, bodies, sent, taken⟩ := account
      exact
        ⟨missed + 1, ⟨inside, bodies, sent, taken.miss⟩,
          by simp [Grows, prometheusTakesAll, place, off]⟩
  | vmAdd place _ | vmOff place _ | logs place =>
      simp only [SnifferState.pastPrometheus, place] at account
      exact
        ⟨missed, account,
          by simpa [prometheusTakesAll, place] using Grows.same⟩

theorem samples_snifferStep
    (action : Action Reader)
    (state next : SnifferState)
    (stepped : snifferStep mpack formats action state = some next) :
    next.samples = state.samples ++ samplesOf mpack formats action := by
  cases snifferStep_eq_some stepped with
  | again | init | vmRunning | prometheusStarted | push | exporter =>
      exact (List.append_nil _).symm
  | call running idle empty =>
      simp [SnifferState.samples, SnifferState.current, samplesOf, idle, empty]
  | prints idle more =>
      simp [SnifferState.samples, SnifferState.current, samplesOf, idle, more]
  | vmAdd place _ | vmOff place _ | prometheusAdd place _
  | prometheusOff place _ | logs place =>
      simp [SnifferState.samples, SnifferState.current, samplesOf, place]

/-- The samples of a run are those of its calls, in their order. -/
theorem samples_of_run
    (reached : run (snifferStep mpack formats) actions .initial = some state) :
    state.samples = actions.flatMap (samplesOf mpack formats) :=
  run_collects samples_snifferStep reached

/--
The log file has the lines of the samples that the sniffer is done with, and
there are none before it runs.
-/
structure LogfileHolds (state : SnifferState) : Prop where
  unstarted : state.snifferRunning = false → state.samples = []
  log :
    ∀ text,
      state.logfile = some text → text = prints Sample.line state.done

theorem keeps_logfileHolds :
    Keeps (snifferStep mpack formats) LogfileHolds := by
  intro action state next holds stepped
  have same := samples_snifferStep action state next stepped
  obtain ⟨unstarted, log⟩ := holds
  cases snifferStep_eq_some stepped with
  | again | vmRunning | prometheusStarted | push | exporter =>
      exact ⟨unstarted, log⟩
  | init stopped =>
      have noneDone : state.done = [] :=
        (List.append_eq_nil_iff.mp (unstarted stopped)).1
      refine ⟨by simp, fun text opened => ?_⟩
      rw [Option.ite_none_right_eq_some] at opened
      rw [noneDone, ← Option.some.inj opened.2]
      rfl
  | call running idle empty =>
      exact ⟨fun stops => by simp [running] at stops, log⟩
  | prints | vmAdd | vmOff | prometheusAdd | prometheusOff =>
      exact ⟨fun stops => by rw [same, unstarted stops]; rfl, log⟩
  | logs place =>
      refine
        ⟨fun stops => by rw [same, unstarted stops]; rfl, fun text shape => ?_⟩
      obtain ⟨before, opened, rfl⟩ := Option.map_eq_some_iff.mp shape
      rw [prints_append, log before opened]
      simp [prints]

theorem logfileHolds_of_run
    (reached : run (snifferStep mpack formats) actions .initial = some state) :
    LogfileHolds state :=
  keeps_logfileHolds.run ⟨fun _ => rfl, fun text opened => by cases opened⟩
    reached

/-- What the logs have come past is the beginning of what was decoded. -/
theorem past_prefix_samples :
    state.pastVm <+: state.samples ∧ state.pastPrometheus <+: state.samples ∧
      state.done <+: state.samples := by
  have whole : state.done ++ state.current <+: state.samples := by
    rw [SnifferState.samples, ← List.append_assoc]
    exact List.prefix_append _ _
  have done : state.done <+: state.samples := List.prefix_append _ _
  refine ⟨?_, ?_, done⟩
  · cases place : state.place <;>
      simp_all [SnifferState.pastVm, SnifferState.current]
  · cases place : state.place <;>
      simp_all [SnifferState.pastPrometheus, SnifferState.current]

/-- Texts that were taken are read back as samples, without those missed. -/
theorem read_of_takes
    {fed decoded : List Sample}
    {texts : List CString}
    {held : CString}
    {missed : Nat}
    (plain : ∀ sample ∈ decoded, sample.Plain)
    (past : fed <+: decoded)
    (takes : Takes Sample.line fed texts held missed) :
    ∃ (batches : List (List Sample)) (rest : List Sample),
      texts.map readSamples = batches.map some ∧
        readSamples held = some rest ∧
          (batches.flatten ++ rest).Sublist decoded := by
  obtain ⟨batches, rest, given, kept, sublist, _⟩ := takes
  have all := sublist.trans past.sublist
  refine ⟨batches, rest, ?_, ?_, all⟩
  · rw [given, List.map_map]
    refine List.map_congr_left fun batch member => ?_
    refine readSamples_prints fun sample inside => plain sample ?_
    exact
      all.subset
        (List.mem_append_left _ (List.mem_flatten_of_mem member inside))
  · rw [kept]
    exact
      readSamples_prints fun sample inside =>
        plain sample (all.subset (List.mem_append_right _ inside))

theorem accounts_of_run
    (reached : run (snifferStep mpack formats) actions .initial = some state) :
    (∃ missed,
        VmAccount missed state ∧
          (missed = 0 ↔
            run (within vmTakesAll (snifferStep mpack formats)) actions
                .initial =
              some state)) ∧
      ∃ missed,
        PrometheusAccount missed state ∧
          (missed = 0 ↔
            run (within prometheusTakesAll (snifferStep mpack formats)) actions
                .initial =
              some state) := by
  have nothingSent : PrometheusState.SentInside .initial :=
    fun sent phase => by cases phase
  have vmStart : VmAccount 0 .initial := takes_nil
  have prometheusStart : PrometheusAccount 0 .initial :=
    ⟨nothingSent, [], rfl, takes_nil⟩
  obtain ⟨vmMissed, vm, _, vmAll⟩ := accounts_vm.run vmStart reached
  obtain ⟨missed, prometheus, _, all⟩ :=
    accounts_prometheus.run prometheusStart reached
  exact ⟨⟨vmMissed, vm, vmAll rfl⟩, missed, prometheus, all rfl⟩

/--
Whatever is posted to Victoria Metrics, sent to Prometheus or written to the
log file is read as samples that were decoded, each at most once and in their
order, and the log file has all that the sniffer is done with.
-/
theorem logs_read_back
    (plain :
      ∀ call, .paramSnifferLog call ∈ actions → '\x7b' ∉ call.param.name)
    (reached : run (snifferStep mpack formats) actions .initial = some state) :
    (∃ (batches : List (List Sample)) (rest : List Sample),
        state.vm.pushed.map readSamples = batches.map some ∧
          readSamples state.vm.buffer.contents = some rest ∧
            (batches.flatten ++ rest).Sublist
              (actions.flatMap (samplesOf mpack formats))) ∧
      (∃ (bodies : List CString) (batches : List (List Sample))
          (rest : List Sample),
        state.prometheus.responses = bodies.map (header ++ ·) ∧
          bodies.map readSamples = batches.map some ∧
            readSamples state.prometheus.unsent = some rest ∧
              (batches.flatten ++ rest).Sublist
                (actions.flatMap (samplesOf mpack formats))) ∧
      ∀ text,
        state.logfile = some text →
          readSamples text = some state.done ∧
            state.done <+: actions.flatMap (samplesOf mpack formats) := by
  have allPlain :
      ∀ sample ∈ actions.flatMap (samplesOf mpack formats), sample.Plain := by
    intro sample member
    obtain ⟨action, acted, given⟩ := List.mem_flatMap.mp member
    cases action with
    | paramSnifferLog call =>
        exact plain_paramSnifferLog (plain call acted) sample given
    | init | vmRunning | prometheusStarted | sniffer | push | exporter =>
        cases given
  rw [← samples_of_run reached] at allPlain ⊢
  obtain ⟨pastVm, pastPrometheus, done⟩ := @past_prefix_samples state
  obtain ⟨⟨_, vm, _⟩, _, ⟨_, bodies, sent, prometheus⟩, _⟩ :=
    accounts_of_run reached
  refine ⟨read_of_takes allPlain pastVm vm, ?_, fun text opened => ?_⟩
  · obtain ⟨batches, rest, read, readRest, sublist⟩ :=
      read_of_takes allPlain pastPrometheus prometheus
    exact ⟨bodies, batches, rest, sent, read, readRest, sublist⟩
  · rw [(logfileHolds_of_run reached).log text opened]
    exact
      ⟨readSamples_prints fun sample member =>
          allPlain sample (done.subset member),
        done⟩

/-- Two doubles of a parameter of node 2. -/
def twoDoubles : LogCall Doubles where
  param := ⟨⟨1, 2, .double⟩, "t".toList⟩
  offset := -1
  reader := ⟨some 2, [5, 7], false⟩
  timestamp := ⟨3, 0⟩
  now := 0

/-- The second of two lines is in no push yet and too early for Prometheus. -/
def twoLines : List (Action Doubles) :=
  [.init true true, .vmRunning true, .paramSnifferLog twoDoubles] ++
    (List.replicate 4 .sniffer ++
      (.push true :: List.replicate 4 .sniffer ++ [.prometheusStarted]))

theorem logs_read_back_two_lines :
    ∃ state : SnifferState,
      state.vm.pushed.map readSamples =
          [some [⟨"t".toList, 2, 0, "5".toList, 3000⟩]] ∧
        ∀ text,
          state.logfile = some text → readSamples text = some state.done := by
  obtain ⟨state, reached, pushed⟩ :
      ∃ state,
        run (snifferStep doubles unsignedFormats) twoLines .initial =
            some state ∧
          state.vm.pushed.map readSamples =
            [some [⟨"t".toList, 2, 0, "5".toList, 3000⟩]] :=
    ⟨_, rfl, by decide⟩
  have plain :
      ∀ call, .paramSnifferLog call ∈ twoLines → '\x7b' ∉ call.param.name := by
    intro call member
    have isTwo : call = twoDoubles := by
      simpa [twoLines] using member
    rw [isTwo]
    decide
  exact
    ⟨state, pushed, fun text opened =>
      ((logs_read_back plain reached).2.2 text opened).1⟩

/--
Victoria Metrics gets every line that comes past it in exactly the runs where
it is on and has room at each of them; so does Prometheus if the exporter never
clears what it has not sent either.  The log file gets every line.
-/
theorem logs_complete_iff
    (reached : run (snifferStep mpack formats) actions .initial = some state) :
    (state.vm.pushed.flatten ++ state.vm.buffer.contents =
          prints Sample.line state.pastVm ↔
        run (within vmTakesAll (snifferStep mpack formats)) actions .initial =
          some state) ∧
      (∃ bodies : List CString,
        state.prometheus.responses = bodies.map (header ++ ·) ∧
          (bodies.flatten ++ state.prometheus.unsent =
              prints Sample.line state.pastPrometheus ↔
            run (within prometheusTakesAll (snifferStep mpack formats)) actions
                .initial =
              some state)) ∧
      ∀ text,
        state.logfile = some text → text = prints Sample.line state.done := by
  obtain
    ⟨⟨_, vm, vmAll⟩, _, ⟨_, bodies, sent, prometheus⟩, prometheusAll⟩ :=
      accounts_of_run reached
  refine
    ⟨(vm.complete_iff line_ne_nil).trans vmAll, ⟨bodies, sent, ?_⟩,
      (logfileHolds_of_run reached).log⟩
  exact (prometheus.complete_iff line_ne_nil).trans prometheusAll

theorem logs_complete_iff_two_lines :
    ∃ state : SnifferState,
      state.vm.pushed.flatten ++ state.vm.buffer.contents =
          prints Sample.line state.pastVm ∧
        ∀ text,
          state.logfile = some text →
            text = prints Sample.line state.done := by
  obtain ⟨state, reached, kept⟩ :
      ∃ state,
        run (snifferStep doubles unsignedFormats) twoLines .initial =
            some state ∧
          run (within vmTakesAll (snifferStep doubles unsignedFormats)) twoLines
              .initial =
            some state :=
    ⟨_, rfl, rfl⟩
  obtain ⟨vm, _, logfile⟩ := logs_complete_iff reached
  exact ⟨state, vm.mpr kept, logfile⟩

end Threads

end Csh.SnifferThreads
