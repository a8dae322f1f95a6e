import Csh.DownloadResume
import Csh.Lib.InForce
import Csh.SpacebootRuns

/-!
# The options a transfer command sets

`download`, `upload` and `sps` set the RDP options of their line first and set
the defaults back at their end, if they get there.  `program` sets no options
but the defaults.
-/

namespace Csh.FileTransfer

open Libc Interaction InForce Spaceboot

/-- The RDP options that a call puts in force. -/
def FtpCall.rdpSet? : FtpCall → Option RdpOptions
  | .cspRdpSetOpt options => some options
  | _ => none

/-- A call of `vmem_download` or `vmem_upload`. -/
def FtpCall.IsTransfer : FtpCall → Prop
  | .vmemDownload _ _ _ _ _ _ => True
  | .vmemUpload _ _ _ _ _ => True
  | _ => False

/-- The RDP options that a step puts in force. -/
def rdpSet? (step : Step FtpAnswer) : Option RdpOptions :=
  step.request.rdpSet?

/-- A step that transfers. -/
def IsTransfer (step : Step FtpAnswer) : Prop :=
  step.request.IsTransfer

/-- A download takes place and does not fail. -/
def Delivers (trace : FtpTrace) : Prop :=
  ∃ download ∈ trace.filterMap downloaded?, 0 ≤ download.2

/-- An upload takes place. -/
def Uploads (trace : FtpTrace) : Prop :=
  ∃ step ∈ trace, IsTransfer step

section Frames

variable {settings : Settings}
variable {trace : FtpTrace}
variable {result : SlashResult}
variable {arguments : List CString}

theorem rdpSet?_of_isTransfer
    (step : Step FtpAnswer)
    (transfers : IsTransfer step) :
    rdpSet? step = none := by
  obtain ⟨request, answer⟩ := step
  cases request with
  | cspRdpSetOpt options =>
      exact transfers.elim
  | _ =>
      rfl

theorem Opens.silent
    {file : CString}
    {value : Except SlashResult Nat}
    (opens : Opens file trace value) :
    Silent rdpSet? trace := by
  cases opens with
  | started opened =>
      simp [Silent, rdpSet?, FtpCall.rdpSet?]
  | unreadable unread =>
      simp [Silent, rdpSet?, FtpCall.rdpSet?]
  | restarted read declined opened =>
      simp [Silent, rdpSet?, FtpCall.rdpSet?]
  | resumed read opened =>
      simp [Silent, rdpSet?, FtpCall.rdpSet?]

/-- A transfer resets the options if it delivers anything. -/
theorem Receives.resets
    {options : DownloadOptions}
    {target : Target}
    {offset : Nat}
    (receives : Receives settings options target offset trace) :
    (¬ Delivers trace ∧ Silent rdpSet? trace) ∨
      (Delivers trace ∧
        ∃ quiet,
          trace = quiet ++ [⟨.cspRdpSetOpt settings.rdpDfl, ()⟩] ∧
            Silent rdpSet? quiet) := by
  cases receives with
  | beyond large =>
      simp [Delivers, Silent]
  | failed negative =>
      refine .inl ⟨?_, by simp [Silent, rdpSet?, FtpCall.rdpSet?]⟩
      simpa [Delivers, downloaded?] using negative
  | incomplete nonnegative missing written =>
      refine .inr ⟨?_, [_, _, _], rfl, ?_⟩
      · simpa [Delivers, downloaded?] using nonnegative
      · simp [Silent, rdpSet?, FtpCall.rdpSet?]
  | complete nonnegative whole =>
      refine .inr ⟨?_, [_, _, _], rfl, ?_⟩
      · simpa [Delivers, downloaded?] using nonnegative
      · simp [Silent, rdpSet?, FtpCall.rdpSet?]

/-- `download` frames its options and closes if it delivers anything. -/
theorem download_framed
    {options : DownloadOptions}
    (run :
      Runs (vmemClientSlashDownload settings (some (options, arguments)))
        trace result) :
    Framed rdpSet? options.rdp settings.rdpDfl (Delivers trace) trace := by
  obtain ⟨later, rfl, behind⟩ := exists_of_runs_download run
  have delivers :
      Delivers (⟨.cspRdpSetOpt options.rdp, ()⟩ :: later) ↔
        Delivers later :=
    Iff.rfl
  rw [delivers]
  split at behind
  · subst behind
    exact framed_of_open rfl (by simp [Silent]) (by simp [Delivers])
  · rcases download_cases behind with
      ⟨error, opens⟩ | ⟨offset, opening, receiving, rfl, opens, receives⟩
    · exact
        framed_of_open rfl opens.silent
          (by simp [Delivers, opens.no_download])
    · have receiving_delivers :
          Delivers (opening ++ receiving) ↔ Delivers receiving := by
        rw [Delivers, List.filterMap_append, opens.no_download,
          List.nil_append, Delivers]
      rw [receiving_delivers]
      rcases receives.resets with
        ⟨fails, silent⟩ | ⟨succeeds, quiet, rfl, silent⟩
      · exact framed_of_open rfl (opens.silent.append silent) fails
      · rw [← List.append_assoc]
        exact
          framed_of_closed rfl (opens.silent.append silent) rfl succeeds

/-- What follows an upload neither transfers nor sets options. -/
theorem calls_uploadOutcome
    (offset size : Nat)
    (count : Int) :
    Calls (fun call => call.rdpSet? = none)
      (uploadOutcome settings offset size count) := by
  unfold uploadOutcome
  split
  · exact calls_pure _
  · split
    · exact calls_pure _
    · split
      · exact .bind (calls_ask rfl) fun _ =>
          .bind (calls_ask rfl) fun _ => calls_pure _
      · exact calls_pure _

/-- `upload` frames its options and closes if it uploads anything. -/
theorem upload_framed
    {options : UploadOptions}
    (run :
      Runs (vmemClientSlashUpload settings (some (options, arguments)))
        trace result) :
    Framed rdpSet? options.rdp settings.rdpDfl (Uploads trace) trace := by
  obtain ⟨_, _, later, rfl, sets, behindSet⟩ := runs_bind_iff.mp run
  obtain rfl := eq_of_runs_rdpOptSet sets
  rw [List.singleton_append]
  split at behindSet
  · obtain ⟨rfl, _⟩ := runs_pure_iff.mp behindSet
    refine framed_of_open rfl (by simp [Silent]) ?_
    simp [Uploads, IsTransfer, FtpCall.IsTransfer]
  · obtain ⟨opened, _, rfl, behindRead⟩ := runs_ask_bind_iff.mp behindSet
    cases opened with
    | none =>
        obtain ⟨rfl, _⟩ := runs_pure_iff.mp behindRead
        refine framed_of_open rfl ?_ ?_
        · simp [Silent, rdpSet?, FtpCall.rdpSet?]
        · simp [Uploads, IsTransfer, FtpCall.IsTransfer]
    | some content =>
        obtain ⟨count, _, rfl, behindUpload⟩ :=
          runs_ask_bind_iff.mp behindRead
        obtain ⟨outcome, _, _, rfl, follows, behindOutcome⟩ :=
          runs_bind_iff.mp behindUpload
        obtain ⟨rfl, _⟩ := runs_resetAndReturn_iff.mp behindOutcome
        have silent : Silent rdpSet? outcome :=
          calls_uploadOutcome _ _ _ _ _ follows
        change Framed _ _ _ _ (_ :: ((_ :: _ :: outcome) ++ [_]))
        refine
          framed_of_closed rfl
            (List.forall_mem_cons.mpr
              ⟨rfl, List.forall_mem_cons.mpr ⟨rfl, silent⟩⟩)
            rfl ?_
        simp [Uploads, IsTransfer, FtpCall.IsTransfer]

end Frames

end Csh.FileTransfer

namespace Csh.Spaceboot

open Libc Interaction InForce Walkdir

/-- The RDP options that a call puts in force. -/
def SpacebootCall.rdpSet? : SpacebootCall → Option RdpOptions
  | .cspRdpSetOpt options => some options
  | _ => none

/-- A call of `vmem_download` or `vmem_upload`. -/
def SpacebootCall.IsTransfer : SpacebootCall → Prop
  | .vmemDownload _ _ _ _ => True
  | .vmemUpload _ _ _ _ => True
  | _ => False

/-- The RDP options that a step puts in force. -/
def rdpSet? (step : Step SpacebootAnswer) : Option RdpOptions :=
  step.request.rdpSet?

/-- A step that transfers. -/
def IsTransfer (step : Step SpacebootAnswer) : Prop :=
  step.request.IsTransfer

/-- An upload that does not take every byte. -/
def FallsShort : Step SpacebootAnswer → Prop
  | ⟨.vmemUpload _ _ _ data, count⟩ => (count : Int) ≠ data.length
  | _ => False

/-- An upload falls short whose result is to be compared by CRC32. -/
def LeavesEarly (doCrc32 : Bool) (trace : Trace) : Prop :=
  doCrc32 = true ∧ ∃ step ∈ trace, FallsShort step

section Frames

variable {settings : Settings}
variable {trace : Trace}

theorem rdpSet?_of_isTransfer
    (step : Step SpacebootAnswer)
    (transfers : IsTransfer step) :
    rdpSet? step = none := by
  obtain ⟨request, answer⟩ := step
  cases request with
  | cspRdpSetOpt options =>
      exact transfers.elim
  | _ =>
      rfl

/-- Neither a transfer nor a setting of options. -/
abbrev CallKind.Bystanding (kind : CallKind) : Prop :=
  kind ≠ .transferring ∧ kind ≠ .configuring

theorem silent_of_kind
    (unconfigured : ∀ step ∈ trace, step.request.kind ≠ .configuring) :
    Silent rdpSet? trace := by
  rintro ⟨request, answer⟩ member
  cases request with
  | cspRdpSetOpt options =>
      exact absurd rfl (unconfigured _ member)
  | _ =>
      rfl

theorem FallsShort.kind_eq
    {step : Step SpacebootAnswer}
    (short : FallsShort step) :
    step.request.kind = .transferring := by
  obtain ⟨request, answer⟩ := step
  cases request with
  | vmemUpload node timeout address data =>
      rfl
  | _ =>
      exact short.elim

/--
The program resets the options at its end and sets none before, unless it
leaves early.
-/
def ResetsUnlessEarly
    (settings : Settings)
    (doCrc32 : Bool)
    {α : Type}
    (program : SpacebootProg α) :
    Prop :=
  ∀ trace value,
    Runs program trace value →
      (LeavesEarly doCrc32 trace ∧ Silent rdpSet? trace) ∨
        (¬ LeavesEarly doCrc32 trace ∧
          ∃ quiet,
            trace = quiet ++ [⟨.cspRdpSetOpt settings.rdpDfl, ()⟩] ∧
              Silent rdpSet? quiet)

variable {doCrc32 : Bool}
variable {α β : Type}

theorem leavesEarly_append_iff
    {first later : Trace} :
    LeavesEarly doCrc32 (first ++ later) ↔
      LeavesEarly doCrc32 first ∨ LeavesEarly doCrc32 later := by
  rw [LeavesEarly, LeavesEarly, LeavesEarly, ← and_or_left]
  refine and_congr_right fun _ => ?_
  simp only [List.mem_append, or_and_right, exists_or]

/-- Bystanding calls in front change nothing. -/
theorem ResetsUnlessEarly.bind
    {program : SpacebootProg α}
    {next : α → SpacebootProg β}
    (first : Calls (fun call => call.kind.Bystanding) program)
    (rest : ∀ value, ResetsUnlessEarly settings doCrc32 (next value)) :
    ResetsUnlessEarly settings doCrc32 (program >>= next) := by
  intro trace value run
  obtain ⟨early, middle, late, rfl, firstRun, restRun⟩ := runs_bind_iff.mp run
  have bystands := first early middle firstRun
  have silent : Silent rdpSet? early :=
    silent_of_kind fun step member => (bystands step member).2
  have stays : ¬ LeavesEarly doCrc32 early := by
    rintro ⟨_, step, member, short⟩
    exact (bystands step member).1 short.kind_eq
  rw [leavesEarly_append_iff, or_iff_right stays]
  rcases rest middle late value restRun with
    ⟨leaves, lateSilent⟩ | ⟨lateStays, quiet, rfl, quietSilent⟩
  · exact .inl ⟨leaves, silent.append lateSilent⟩
  · refine .inr ⟨lateStays, early ++ quiet, ?_, silent.append quietSilent⟩
    rw [List.append_assoc]

theorem resetAndReturn_resets
    (result : SlashResult)
    (binf : BinInfo) :
    ResetsUnlessEarly settings doCrc32
      (resetAndReturn settings result binf) := by
  intro trace value run
  obtain ⟨rfl, _⟩ := runs_resetAndReturn_iff.mp run
  exact .inr ⟨by simp [LeavesEarly, FallsShort], [], rfl, by simp [Silent]⟩

/-- A transfer returns from the command exactly when it leaves early. -/
theorem runs_transfer_cases
    {node : Nat}
    {area : VmemArea}
    {data : List UInt8}
    {outcome : Except SlashResult SlashResult}
    (run :
      Runs (transfer settings doCrc32 node area data) trace outcome) :
    match outcome with
    | .error _ => LeavesEarly doCrc32 trace
    | .ok _ => ¬ LeavesEarly doCrc32 trace := by
  cases doCrc32 with
  | false =>
      obtain ⟨_, _, _, rfl, _, done⟩ := runs_bind_iff.mp run
      obtain ⟨rfl, rfl⟩ := runs_pure_iff.mp done
      simp [LeavesEarly]
  | true =>
      obtain ⟨uploading, uploaded, _, rfl, uploads, behindUpload⟩ :=
        runs_bind_iff.mp run
      obtain ⟨count, more, rfl, whole | short⟩ :=
        doUpload_eq_upload_cons uploads
      · obtain ⟨whole, rfl, rfl⟩ := whole
        obtain ⟨answer, _, rfl, behindCrc⟩ :=
          runs_ask_bind_iff.mp behindUpload
        have stays :
            ¬ LeavesEarly true
              [⟨.vmemUpload node 10000 (toInt area.vaddr) data, count⟩,
                ⟨.vmemClientCalcCrc32 node 10000 area.vaddr data.length,
                  answer⟩] := by
          simp [LeavesEarly, FallsShort, whole]
        split at behindCrc
        · split at behindCrc
          · obtain ⟨rfl, rfl⟩ := runs_pure_iff.mp behindCrc
            exact stays
          · obtain ⟨rfl, rfl⟩ := runs_pure_iff.mp behindCrc
            exact stays
        · obtain ⟨rfl, rfl⟩ := runs_pure_iff.mp behindCrc
          exact stays
      · obtain ⟨short, isError, _⟩ := short
        rw [if_pos isError] at behindUpload
        obtain ⟨rfl, rfl⟩ := runs_pure_iff.mp behindUpload
        exact ⟨rfl, _, List.mem_cons_self, short⟩

/-- A failed transfer may return at once, if the others reset the options. -/
theorem ResetsUnlessEarly.behind_transfer
    {node : Nat}
    {area : VmemArea}
    {data : List UInt8}
    {next : Except SlashResult SlashResult → SpacebootProg α}
    (returns : ∀ result, ∃ value, next (.error result) = pure value)
    (finishes :
      ∀ result, ResetsUnlessEarly settings doCrc32 (next (.ok result))) :
    ResetsUnlessEarly settings doCrc32
      (transfer settings doCrc32 node area data >>= next) := by
  intro trace value run
  obtain ⟨transferring, outcome, rest, rfl, transfers, behind⟩ :=
    runs_bind_iff.mp run
  have leaves := runs_transfer_cases transfers
  have silent : Silent rdpSet? transferring := by
    refine silent_of_kind fun step member => ?_
    rw [onlyKind_transfer _ _ _ _ _ _ _ transfers step member]
    decide
  cases outcome with
  | error result =>
      obtain ⟨_, returned⟩ := returns result
      rw [returned] at behind
      obtain ⟨rfl, _⟩ := runs_pure_iff.mp behind
      rw [List.append_nil]
      exact .inl ⟨leaves, silent⟩
  | ok result =>
      rw [leavesEarly_append_iff, or_iff_right leaves]
      rcases finishes result rest value behind with
        ⟨restLeaves, restSilent⟩ | ⟨stays, quiet, rfl, quietSilent⟩
      · exact .inl ⟨restLeaves, silent.append restSilent⟩
      · refine
          .inr
            ⟨stays, transferring ++ quiet, ?_, silent.append quietSilent⟩
        rw [List.append_assoc]

theorem bystanding_resetToFlash
    (node : Nat)
    (flash : Int)
    (times : Nat) :
    Calls (fun call => call.kind.Bystanding)
      (resetToFlash node flash times) :=
  @calls_resetToFlash CallKind.Bystanding (by decide) (by decide) (by decide)
    node flash times

/-- A slot is programmed with a reset at the end unless it leaves early. -/
theorem programSlot_resets
    {programming : Programming}
    {binf : BinInfo}
    (confirms : OnlyKind .selecting programming.confirm)
    (finishes :
      ∀ result binf,
        ResetsUnlessEarly settings programming.doCrc32
          (programming.finish result binf)) :
    ResetsUnlessEarly settings programming.doCrc32
      (programSlot settings programming binf) := by
  refine
    .bind (calls_ask (show CallKind.Bystanding .finding by decide))
      fun area => ?_
  split
  · exact resetAndReturn_resets _ _
  · refine
      .bind (calls_of_onlyKind (onlyKind_selectFile _ _ _ _) (by decide))
        fun selected => ?_
    split
    · exact resetAndReturn_resets _ _
    · refine
        .bind (calls_of_onlyKind (onlyKind_ping _) (by decide))
          fun reached => ?_
      split
      · exact resetAndReturn_resets _ _
      · refine
          .bind (calls_of_onlyKind confirms (by decide))
            fun confirmed => ?_
        split
        · exact resetAndReturn_resets _ _
        · refine
            .bind (calls_of_onlyKind (onlyKind_imageGet _) (by decide))
              fun opened => ?_
          split
          · exact resetAndReturn_resets _ _
          · exact
              .behind_transfer (fun result => ⟨_, rfl⟩) fun result =>
                finishes result _

theorem switchAndReturn_resets
    (node : Nat)
    (flash : Int)
    (result : SlashResult)
    (binf : BinInfo) :
    ResetsUnlessEarly settings doCrc32
      (switchAndReturn settings node flash result binf) := by
  unfold switchAndReturn
  split
  · exact .bind (bystanding_resetToFlash _ _ _) fun _ =>
      resetAndReturn_resets _ _
  · exact resetAndReturn_resets _ _

/-- `program` sets no options, or only the defaults at its end. -/
theorem program_resets
    {options : ProgramOptions}
    {arguments : List CString}
    (binf : BinInfo) :
    ResetsUnlessEarly settings options.doCrc32
      (slashCspProgram settings (some (options, arguments)) binf) := by
  cases arguments with
  | nil =>
      exact resetAndReturn_resets _ _
  | cons text rest =>
      exact
        programSlot_resets (onlyKind_confirmed _) fun result binf =>
          resetAndReturn_resets result binf

/-- `sps` frames its options and closes unless it leaves early. -/
theorem sps_framed
    {options : SpsOptions}
    {arguments : List CString}
    {binf : BinInfo}
    {value : SlashResult × BinInfo}
    (run :
      Runs (slashSps settings (some (options, arguments)) binf) trace value) :
    Framed rdpSet? options.rdp settings.rdpDfl
      (¬ LeavesEarly options.doCrc32 trace) trace := by
  obtain ⟨_, _, later, rfl, sets, behindSet⟩ := runs_bind_iff.mp run
  obtain rfl := eq_of_runs_rdpOptSet sets
  have resets :
      (LeavesEarly options.doCrc32 later ∧ Silent rdpSet? later) ∨
        (¬ LeavesEarly options.doCrc32 later ∧
          ∃ quiet,
            later = quiet ++ [⟨.cspRdpSetOpt settings.rdpDfl, ()⟩] ∧
              Silent rdpSet? quiet) := by
    match arguments with
    | [] =>
        exact resetAndReturn_resets _ _ _ _ behindSet
    | [_] =>
        exact resetAndReturn_resets _ _ _ _ behindSet
    | fromText :: toText :: _ =>
        refine
          ResetsUnlessEarly.bind (bystanding_resetToFlash _ _ _)
            (fun _ => ?_) _ _ behindSet
        exact
          programSlot_resets (calls_pure _) fun result binf =>
            switchAndReturn_resets _ _ result binf
  have leaves :
      LeavesEarly options.doCrc32
          ([⟨.cspRdpSetOpt options.rdp, ()⟩] ++ later) ↔
        LeavesEarly options.doCrc32 later := by
    rw [leavesEarly_append_iff]
    exact or_iff_right (by simp [LeavesEarly, FallsShort])
  rw [leaves]
  rcases resets with ⟨early, silent⟩ | ⟨stays, quiet, rfl, silent⟩
  · exact framed_of_open rfl silent (not_not_intro early)
  · exact framed_of_closed rfl silent rfl stays

end Frames

end Csh.Spaceboot
