import Csh.FileSelection
import Csh.RdpFrames

namespace Csh.RdpSession

open Libc Interaction InForce Walkdir Spaceboot FileTransfer

/-!
# RDP options across commands

The options in force and the defaults of the shell, over the commands that
transfer and `rdp opt`.  A command that sets options runs its transfers under
them; what stays in force behind it depends on the way it returns.
-/

/-- The RDP options in force and the defaults `rdp_dfl_*`. -/
structure RdpState where
  inForce : RdpOptions
  dfl : RdpOptions
  deriving Repr, DecidableEq

/-- The state behind the initialisation of the shell. -/
def RdpState.initial : RdpState where
  inForce := ⟨3, 10000, 5000, 1, 2000, 2⟩
  dfl := ⟨3, 10000, 5000, 1, 2000, 2⟩

/-- The RDP options that a command line gives. -/
structure GivenRdp where
  window : Option Nat
  connTimeout : Option Nat
  packetTimeout : Option Nat
  ackTimeout : Option Nat
  ackCount : Option Nat
  deriving Repr, DecidableEq

/-- The parser's stores over what the options were filled with before. -/
def GivenRdp.over (given : GivenRdp) (options : RdpOptions) : RdpOptions where
  window := given.window.getD options.window
  connTimeout := given.connTimeout.getD options.connTimeout
  packetTimeout := given.packetTimeout.getD options.packetTimeout
  delayedAcks := options.delayedAcks
  ackTimeout := given.ackTimeout.getD options.ackTimeout
  ackCount := given.ackCount.getD options.ackCount

/-- A line of `rdp opt`: what the parser stores, and whether it accepts it. -/
structure RdpOptLine where
  given : GivenRdp
  accepted : Bool
  deriving Repr, DecidableEq

/-- `vmem_client_rdp_options`, which parses into `rdp_dfl_*`. -/
def vmemClientRdpOptions
    (line : RdpOptLine)
    (state : RdpState) :
    SlashResult × RdpState :=
  let dfl := line.given.over state.inForce
  if line.accepted then
    (.success, ⟨{ dfl with delayedAcks := 1 }, dfl⟩)
  else
    (.einval, { state with dfl := dfl })

/-- The shell with other default options. -/
def settingsAt (settings : Settings) (state : RdpState) : Settings :=
  { settings with rdpDfl := state.dfl }

/-- A line of a command that transfers, without its RDP options. -/
inductive TransferLine where
  | download (parsed : Parsed DownloadOptions)
  | upload (parsed : Parsed UploadOptions)
  | program (parsed : Parsed ProgramOptions)
  | sps (parsed : Parsed SpsOptions)

/-- The steps of a command that transfers. -/
inductive TransferTrace where
  | files (trace : FtpTrace)
  | slots (trace : Trace)

/--
The runs of a command line: `rdp_opt_add` fills `rdp_tmp_*` with the defaults,
and the parser stores the given options over them.
-/
def TransferLine.RunsTo
    (settings : Settings)
    (given : GivenRdp)
    (state : RdpState) :
    TransferLine → TransferTrace → Prop
  | .download parsed, .files trace =>
      ∃ result,
        Runs
          (vmemClientSlashDownload (settingsAt settings state)
            (parsed.map fun line =>
              ({ line.1 with rdp := given.over state.dfl }, line.2)))
          trace result
  | .upload parsed, .files trace =>
      ∃ result,
        Runs
          (vmemClientSlashUpload (settingsAt settings state)
            (parsed.map fun line =>
              ({ line.1 with rdp := given.over state.dfl }, line.2)))
          trace result
  | .program parsed, .slots trace =>
      ∃ binf outcome,
        Runs (slashCspProgram (settingsAt settings state) parsed binf)
          trace outcome
  | .sps parsed, .slots trace =>
      ∃ binf outcome,
        Runs
          (slashSps (settingsAt settings state)
            (parsed.map fun line =>
              ({ line.1 with rdp := given.over state.dfl }, line.2))
            binf)
          trace outcome
  | _, _ => False

/-- The options in force behind a trace. -/
def TransferTrace.inForce (start : RdpOptions) : TransferTrace → RdpOptions
  | .files trace => InForce.inForce FileTransfer.rdpSet? start trace
  | .slots trace => InForce.inForce Spaceboot.rdpSet? start trace

/-- Every transfer of a trace runs with these options in force. -/
def TransferTrace.TransfersUnder
    (options start : RdpOptions) :
    TransferTrace → Prop
  | .files trace =>
      UsedUnder FileTransfer.rdpSet? FileTransfer.IsTransfer options start
        trace
  | .slots trace =>
      UsedUnder Spaceboot.rdpSet? Spaceboot.IsTransfer options start trace

/-- A line of `program` with a slot. -/
def TransferLine.ProgramsSlot : TransferLine → Prop
  | .program (some (_, _ :: _)) => True
  | _ => False

section Transfers

/-- Every call of the slot commands can be answered. -/
instance answerable (request : SpacebootCall) :
    Nonempty (SpacebootAnswer request) := by
  cases request with
  | vmemClientFind node timeout name =>
      exact ⟨⟨0, 0, by decide, by decide⟩⟩
  | vmemDownload node timeout address len =>
      exact ⟨⟨0, [], Nat.zero_le _, .inl rfl⟩⟩
  | vmemClientCalcCrc32 node timeout vaddr len =>
      exact ⟨⟨0, 0⟩⟩
  | opendir path =>
      exact ⟨.unreadable⟩
  | lstat path =>
      exact ⟨.other⟩
  | malloc len =>
      exact ⟨⟨List.replicate len 0, List.length_replicate⟩⟩
  | uninitialisedIdent =>
      exact ⟨BinInfo.zero.idents 0⟩
  | _ =>
      exact instNonemptyOfInhabited

/-- Every `-f` argument, and a search without one, can select a file. -/
theorem exists_runs_selectFile
    (filename : Option CString) :
    ∃ trace path final,
      Runs
        (selectFile (walkdirMaxPathSize - 10) filename wideSlot BinInfo.zero)
        trace (.ok path, final) := by
  cases filename with
  | some filename =>
      have single :
          chooseFile (BinInfo.zero.enterFilename filename) =
            pathAt (BinInfo.zero.enterFilename filename) 0 >>= fun path =>
              pure (.ok path) :=
        if_neg (by simp [BinInfo.enterFilename])
      obtain ⟨trace, path, reads⟩ :=
        exists_runs (pathAt (BinInfo.zero.enterFilename filename) 0)
      have chooses :
          Runs (chooseFile (BinInfo.zero.enterFilename filename))
            (trace ++ []) (.ok path) := by
        rw [single]
        exact reads.bind (.done _)
      exact ⟨_, path, _, chooses.bind (.done _)⟩
  | none =>
      refine
        ⟨⟨.opendir ['.'], Listing.entries [(binPath 'a').drop 2]⟩ ::
            (visitedFile (binPath 'a') (withEntry 0x20) ++
              [⟨.interrupted, false⟩]),
          binPath 'a', searchedFrom BinInfo.zero wideSlot ['a'], ?_⟩
      unfold visitedFile
      iterate 6 (refine Runs.call _ ?_)
      exact .done _

/-- Every line of `program` with a slot has a run that uploads. -/
theorem exists_runs_program_transfers
    (settings : Settings)
    (options : ProgramOptions)
    (text : CString)
    (arguments : List CString) :
    ∃ trace outcome,
      Runs
          (slashCspProgram settings (some (options, text :: arguments))
            BinInfo.zero)
          trace outcome ∧
        ∃ step ∈ trace, Spaceboot.IsTransfer step := by
  obtain ⟨selection, path, final, selects⟩ :=
    exists_runs_selectFile options.filename
  obtain ⟨confirming, confirms⟩ :
      ∃ trace, Runs (confirmed options.force) trace true := by
    cases options.force with
    | true =>
        exact ⟨[], .done _⟩
    | false =>
        exact ⟨[⟨.slashReadline, "yes".toList⟩], .call _ (.done _)⟩
  have pings :
      Runs (ping options.node) [⟨.cspCmpIdent options.node, (0 : Int)⟩]
        true :=
    .call _ (.done _)
  have reads :
      Runs (imageGet path) [⟨.readFile path, some (withEntry 0x20)⟩]
        (withEntry 0x20).image? :=
    .call _ (.done _)
  have transfers :
      ∀ {next : Except SlashResult SlashResult →
          SpacebootProg (SlashResult × BinInfo)},
        ∃ trace value,
          Runs
              (transfer settings options.doCrc32 options.node wideSlot
                (withEntry 0x20).data >>= next)
              trace value ∧
            ∃ step ∈ trace, Spaceboot.IsTransfer step := by
    intro next
    obtain ⟨trace, value, run⟩ :=
      exists_runs
        (transfer settings options.doCrc32 options.node wideSlot
          (withEntry 0x20).data >>= next)
    obtain ⟨uploading, _, rest, rfl, uploads, _⟩ := runs_bind_iff.mp run
    obtain ⟨count, more, rfl, _⟩ := exists_upload_of_runs_transfer uploads
    exact
      ⟨_, value, run, _, List.mem_append_left _ List.mem_cons_self, trivial⟩
  obtain ⟨transferring, value, behind, step, member, isTransfer⟩ := transfers
  refine
    ⟨⟨.vmemClientFind options.node settings.slashDflTimeout
            (vmemName (toUnsigned (atoi text))), wideSlot⟩ ::
        (selection ++ (⟨.cspCmpIdent options.node, (0 : Int)⟩ ::
          (confirming ++
            (⟨.readFile path, some (withEntry 0x20)⟩ :: transferring)))),
      value, ?_, step, by simp [member], isTransfer⟩
  refine Runs.call _ ?_
  refine selects.bind (pings.bind (confirms.bind ?_))
  exact reads.bind behind

variable {settings : Settings}
variable {trace : Trace}
variable {options start : RdpOptions}

/-- `program` transfers with the options that are in force when it starts. -/
theorem program_transfersUnder_iff
    {programOptions : ProgramOptions}
    {arguments : List CString}
    {binf : BinInfo}
    {outcome : SlashResult × BinInfo}
    (run :
      Runs (slashCspProgram settings (some (programOptions, arguments)) binf)
        trace outcome) :
    UsedUnder Spaceboot.rdpSet? Spaceboot.IsTransfer options start trace ↔
      start = options ∨ ∀ step ∈ trace, ¬ Spaceboot.IsTransfer step := by
  rcases program_resets binf trace outcome run with
    ⟨_, silent⟩ | ⟨_, quiet, rfl, silent⟩
  · exact silent.usedUnder_iff
  · have reset :
        ¬ Spaceboot.IsTransfer ⟨.cspRdpSetOpt settings.rdpDfl, ()⟩ :=
      id
    rw [usedUnder_append_iff, silent.usedUnder_iff, List.forall_mem_append,
      List.forall_mem_singleton, and_iff_left reset]
    refine and_iff_left (usedUnder_of_unused ?_)
    exact List.forall_mem_singleton.mpr reset

/--
Every transfer of a command runs with the options of its line in force, unless
the command is `program` and other options are in force when it starts.
-/
theorem transfersUnder_given_iff
    (settings : Settings)
    (given : GivenRdp)
    (state : RdpState)
    (line : TransferLine) :
    (∀ trace,
        line.RunsTo settings given state trace →
          trace.TransfersUnder (given.over state.dfl) state.inForce) ↔
      (line.ProgramsSlot → state.inForce = given.over state.dfl) := by
  constructor
  · intro under programs
    match line, programs with
    | .program (some (options, text :: arguments)), _ =>
        obtain ⟨trace, outcome, run, step, member, isTransfer⟩ :=
          exists_runs_program_transfers (settingsAt settings state) options
            text arguments
        have used := under (.slots trace) ⟨_, outcome, run⟩
        exact
          ((program_transfersUnder_iff run).mp used).resolve_right
            fun none => none step member isTransfer
  · intro same trace runs
    match line, trace, runs with
    | .download none, .files trace, ⟨_, run⟩ =>
        obtain ⟨rfl, _⟩ := runs_pure_iff.mp run
        exact trivial
    | .download (some _), .files trace, ⟨_, run⟩ =>
        exact
          (download_framed run).usedUnder FileTransfer.rdpSet?_of_isTransfer
    | .upload none, .files trace, ⟨_, run⟩ =>
        obtain ⟨rfl, _⟩ := runs_pure_iff.mp run
        exact trivial
    | .upload (some _), .files trace, ⟨_, run⟩ =>
        exact (upload_framed run).usedUnder FileTransfer.rdpSet?_of_isTransfer
    | .program none, .slots trace, ⟨_, _, run⟩ =>
        obtain ⟨rfl, _⟩ := runs_pure_iff.mp run
        exact trivial
    | .program (some (_, [])), .slots trace, ⟨_, _, run⟩ =>
        obtain ⟨rfl, _⟩ := runs_resetAndReturn_iff.mp run
        exact ⟨False.elim, trivial⟩
    | .program (some (_, _ :: _)), .slots trace, ⟨_, _, run⟩ =>
        exact (program_transfersUnder_iff run).mpr (.inl (same trivial))
    | .sps none, .slots trace, ⟨_, _, run⟩ =>
        obtain ⟨rfl, _⟩ := runs_resetAndReturn_iff.mp run
        exact ⟨False.elim, trivial⟩
    | .sps (some _), .slots trace, ⟨_, _, run⟩ =>
        exact (sps_framed run).usedUnder Spaceboot.rdpSet?_of_isTransfer

/-- `program -w 9 -F 0` -/
def programWindowNine : GivenRdp × TransferLine :=
  (⟨some 9, none, none, none, none⟩,
    .program (some (⟨0, none, true, false⟩, [['0']])))

/-- The upload of `program -w 9` runs with the default window. -/
theorem program_ignores_given_window :
    ¬ ∀ (settings : Settings) (given : GivenRdp) (state : RdpState)
      (line : TransferLine) (trace : TransferTrace),
      line.RunsTo settings given state trace →
        trace.TransfersUnder (given.over state.dfl) state.inForce := by
  intro under
  obtain ⟨trace, outcome, run, step, member, isTransfer⟩ :=
    exists_runs_program_transfers
      (settingsAt deliveredSettings .initial) ⟨0, none, true, false⟩ ['0'] []
  have used :=
    under deliveredSettings programWindowNine.1 .initial programWindowNine.2
      (.slots trace) ⟨_, outcome, run⟩
  rcases (program_transfersUnder_iff run).mp used with same | none
  · exact absurd same (by decide)
  · exact none step member isTransfer

end Transfers

section Sessions

/-- A command of a session, with what it did. -/
inductive RdpStep where
  | transfer (given : GivenRdp) (line : TransferLine) (trace : TransferTrace)
  | rdpOpt (line : RdpOptLine)

namespace RdpStep

/-- The step is a run of its command. -/
def Happens (settings : Settings) (state : RdpState) : RdpStep → Prop
  | .transfer given line trace => line.RunsTo settings given state trace
  | .rdpOpt _ => True

/-- The options behind a step. -/
def next (state : RdpState) : RdpStep → RdpState
  | .transfer _ _ trace =>
      { state with inForce := trace.inForce state.inForce }
  | .rdpOpt line => (vmemClientRdpOptions line state).2

/-- The defaults as a step is to leave them: only `rdp opt` changes them. -/
def explicitDfl (dfl : RdpOptions) : RdpStep → RdpOptions
  | .transfer _ _ _ => dfl
  | .rdpOpt line => line.given.over dfl

/--
Behind the step the defaults are in force, and they are what they were but for
what was given to `rdp opt`.
-/
def LeavesDefaults (state : RdpState) (step : RdpStep) : Prop :=
  (step.next state).inForce = (step.next state).dfl ∧
    (step.next state).dfl = step.explicitDfl state.dfl

end RdpStep

/-- The command gets to the point where it sets the defaults back. -/
def TransferLine.GetsToReset : TransferLine → TransferTrace → Prop
  | .download (some _), .files trace => Delivers trace
  | .upload (some _), .files trace => Uploads trace
  | .sps (some (options, _)), .slots trace =>
      ¬ LeavesEarly options.doCrc32 trace
  | _, _ => True

/--
The command returns at a point where nothing is left to set back: it was given
no other options than the defaults, or it gets to its reset.
-/
def RdpStep.Resets (state : RdpState) : RdpStep → Prop
  | .transfer given line trace =>
      line.GetsToReset trace ∨ given.over state.dfl = state.dfl
  | .rdpOpt line =>
      line.accepted = true ∨ line.given.over state.dfl = state.dfl

/-- The defaults are in force, with the delayed acknowledgements. -/
def RdpState.Steady (state : RdpState) : Prop :=
  state.inForce = state.dfl ∧ state.dfl.delayedAcks = 1

variable {settings : Settings}
variable {state : RdpState}

/-- A command that transfers leaves the defaults if it gets to its reset. -/
theorem inForce_eq_dfl_iff
    {given : GivenRdp}
    {line : TransferLine}
    {trace : TransferTrace}
    (steady : state.inForce = state.dfl)
    (runs : line.RunsTo settings given state trace) :
    trace.inForce state.inForce = state.dfl ↔
      line.GetsToReset trace ∨ given.over state.dfl = state.dfl := by
  match line, trace, runs with
  | .download none, .files trace, ⟨_, run⟩ =>
      obtain ⟨rfl, _⟩ := runs_pure_iff.mp run
      exact iff_of_true steady (.inl trivial)
  | .download (some _), .files trace, ⟨_, run⟩ =>
      exact (download_framed run).inForce_eq_back_iff
  | .upload none, .files trace, ⟨_, run⟩ =>
      obtain ⟨rfl, _⟩ := runs_pure_iff.mp run
      exact iff_of_true steady (.inl trivial)
  | .upload (some _), .files trace, ⟨_, run⟩ =>
      exact (upload_framed run).inForce_eq_back_iff
  | .program none, .slots trace, ⟨_, _, run⟩ =>
      obtain ⟨rfl, _⟩ := runs_pure_iff.mp run
      exact iff_of_true steady (.inl trivial)
  | .program (some _), .slots trace, ⟨binf, outcome, run⟩ =>
      refine iff_of_true ?_ (.inl trivial)
      rcases program_resets binf trace outcome run with
        ⟨_, silent⟩ | ⟨_, quiet, rfl, _⟩
      · exact silent.inForce_eq.trans steady
      · exact inForce_append_of_sets rfl
  | .sps none, .slots trace, ⟨_, _, run⟩ =>
      obtain ⟨rfl, _⟩ := runs_resetAndReturn_iff.mp run
      exact iff_of_true rfl (.inl trivial)
  | .sps (some _), .slots trace, ⟨_, _, run⟩ =>
      exact (sps_framed run).inForce_eq_back_iff

/-- From a steady state a step leaves the defaults exactly if it resets. -/
theorem RdpStep.leavesDefaults_iff
    {step : RdpStep}
    (steady : state.Steady)
    (happens : step.Happens settings state) :
    step.LeavesDefaults state ↔ step.Resets state := by
  cases step with
  | transfer given line trace =>
      exact (and_iff_left rfl).trans (inForce_eq_dfl_iff steady.1 happens)
  | rdpOpt line =>
      obtain ⟨given, accepted⟩ := line
      obtain ⟨inForce, dfl⟩ := state
      obtain ⟨(rfl : inForce = dfl), (acks : inForce.delayedAcks = 1)⟩ := steady
      cases accepted with
      | true =>
          have one : { given.over inForce with delayedAcks := 1 } =
              given.over inForce := by
            rw [GivenRdp.over, ← acks]
          exact iff_of_true ⟨one, rfl⟩ (.inl rfl)
      | false =>
          exact
            (and_iff_left rfl).trans
              (eq_comm.trans (or_iff_right Bool.false_ne_true).symm)

/-- A step that leaves the defaults leaves a steady state. -/
theorem RdpStep.LeavesDefaults.steady_next
    {step : RdpStep}
    (leaves : step.LeavesDefaults state)
    (steady : state.Steady) :
    (step.next state).Steady := by
  obtain ⟨inForce, explicit⟩ := leaves
  refine ⟨inForce, ?_⟩
  rw [explicit]
  cases step with
  | transfer given line trace =>
      exact steady.2
  | rdpOpt line =>
      exact steady.2

/-- Every step of the list is a run of its command in the state it finds. -/
def IsSession (settings : Settings) (state : RdpState) : List RdpStep → Prop
  | [] => True
  | step :: rest =>
      step.Happens settings state ∧ IsSession settings (step.next state) rest

/-- The state behind some steps. -/
def RdpState.behind (state : RdpState) (steps : List RdpStep) : RdpState :=
  steps.foldl RdpStep.next state

/-- The commands that are run in a shell, from its start on. -/
structure RdpHistory (settings : Settings) where
  steps : List RdpStep
  isSession : IsSession settings .initial steps

/-- A property of each step and the state it finds. -/
def RdpHistory.Always
    (history : RdpHistory settings)
    (property : RdpState → RdpStep → Prop) :
    Prop :=
  ∀ before step after,
    history.steps = before ++ step :: after →
      property (RdpState.initial.behind before) step

theorem isSession_append_iff
    {first later : List RdpStep} :
    IsSession settings state (first ++ later) ↔
      IsSession settings state first ∧
        IsSession settings (state.behind first) later := by
  induction first generalizing state with
  | nil =>
      simp [IsSession, RdpState.behind]
  | cons step rest inductionHypothesis =>
      rw [List.cons_append, IsSession, IsSession, inductionHypothesis,
        and_assoc]
      rfl

/-- Steps that leave the defaults in steady states keep a session steady. -/
theorem steady_behind
    {before : List RdpStep}
    (steady : state.Steady)
    (session : IsSession settings state before)
    (leaves :
      ∀ earlier step later,
        before = earlier ++ step :: later →
          (state.behind earlier).Steady →
            step.Happens settings (state.behind earlier) →
              step.LeavesDefaults (state.behind earlier)) :
    (state.behind before).Steady := by
  induction before generalizing state with
  | nil =>
      exact steady
  | cons step rest inductionHypothesis =>
      obtain ⟨happens, restSession⟩ := session
      have first : step.LeavesDefaults state :=
        leaves [] step rest rfl steady happens
      refine
        inductionHypothesis (first.steady_next steady) restSession ?_
      rintro earlier next later rfl
      exact leaves (step :: earlier) next later rfl

namespace RdpHistory

theorem happens
    {history : RdpHistory settings}
    {before after : List RdpStep}
    {step : RdpStep}
    (shape : history.steps = before ++ step :: after) :
    IsSession settings .initial before ∧
      step.Happens settings (RdpState.initial.behind before) := by
  have session := history.isSession
  rw [shape] at session
  obtain ⟨beforeSession, stepSession⟩ := isSession_append_iff.mp session
  exact ⟨beforeSession, stepSession.1⟩

theorem steady_initial : RdpState.initial.Steady :=
  ⟨rfl, rfl⟩

/--
The defaults are in force behind every command of a history, and only `rdp opt`
changes them, exactly when every command resets.
-/
theorem leavesDefaults_always_iff
    (history : RdpHistory settings) :
    (history.Always fun state step => step.LeavesDefaults state) ↔
      history.Always fun state step => step.Resets state := by
  constructor
  · intro leaves before step after shape
    obtain ⟨session, happens⟩ := happens shape
    have steady : (RdpState.initial.behind before).Steady := by
      refine steady_behind steady_initial session ?_
      rintro earlier next later rfl _ _
      exact leaves earlier next (later ++ step :: after) (by simp [shape])
    exact
      (RdpStep.leavesDefaults_iff steady happens).mp
        (leaves before step after shape)
  · intro resets before step after shape
    obtain ⟨session, happens⟩ := happens shape
    have steady : (RdpState.initial.behind before).Steady := by
      refine steady_behind steady_initial session ?_
      rintro earlier next later rfl nextSteady nextHappens
      exact
        (RdpStep.leavesDefaults_iff nextSteady nextHappens).mpr
          (resets earlier next (later ++ step :: after) (by simp [shape]))
    exact
      (RdpStep.leavesDefaults_iff steady happens).mpr
        (resets before step after shape)

/-- The shell behind `download -w 9` without an address. -/
def shortDownload : RdpHistory deliveredSettings where
  steps :=
    [.transfer ⟨some 9, none, none, none, none⟩
      (.download (some (DownloadSession.defaultOptions, [])))
      (.files [⟨.cspRdpSetOpt ⟨9, 10000, 5000, 1, 2000, 2⟩, ()⟩])]
  isSession := ⟨⟨.einval, .call _ (.done _)⟩, trivial⟩

/-- The window of a line without an address stays in force. -/
theorem short_download_keeps_window :
    ¬ ∀ (settings : Settings) (history : RdpHistory settings),
      history.Always fun state step => step.LeavesDefaults state := by
  intro leaves
  obtain ⟨inForce, _⟩ :=
    leaves deliveredSettings shortDownload [] _ [] rfl
  exact absurd inForce (by decide)

end RdpHistory

end Sessions

end Csh.RdpSession
