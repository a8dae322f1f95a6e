import Csh.Spaceboot

namespace Csh.Spaceboot

open Libc Interaction Walkdir

/-!
# Runs of the programming commands

Each part of `program` and `sps` makes one kind of calls only.  A run of either
command that uploads anything is a selection, a contact with the node, the
reading of the selected file and one transfer, in this order.
-/

/-- What a call is made for. -/
inductive CallKind where
  | contacting
  | registering
  | switching
  | finding
  | selecting
  | transferring
  | configuring
  deriving Repr, DecidableEq

/-- The kind of a call. -/
def SpacebootCall.kind : SpacebootCall → CallKind
  | .cspCmpIdent _ => .contacting
  | .paramListFindId _ _ => .registering
  | .paramListCreateRemote _ _ _ => .registering
  | .paramListAdd _ => .registering
  | .paramListRemoveSpecific _ => .registering
  | .paramPushQueue _ _ => .switching
  | .cspReboot _ => .switching
  | .vmemClientFind _ _ _ => .finding
  | .vmemUpload _ _ _ _ => .transferring
  | .vmemDownload _ _ _ _ => .transferring
  | .vmemClientCalcCrc32 _ _ _ _ => .transferring
  | .cspRdpSetOpt _ => .configuring
  | .cspRdpGetOpt => .transferring
  | .printSuggestedOffset _ => .transferring
  | .opendir _ => .selecting
  | .lstat _ => .selecting
  | .interrupted => .selecting
  | .readFile _ => .selecting
  | .slashReadline => .selecting
  | .malloc _ => .transferring
  | .uninitialisedIdent => .selecting
  | .textOutside _ => .selecting

/-- Neither a memory area nor a file is looked up or transferred. -/
abbrev CallKind.Aside (kind : CallKind) : Prop :=
  kind ≠ .finding ∧ kind ≠ .selecting ∧ kind ≠ .transferring

/-- The program makes calls of one kind. -/
abbrev OnlyKind {α : Type} (kind : CallKind) (program : SpacebootProg α) :
    Prop :=
  Calls (fun call => call.kind = kind) program

/-- The calls of a search for files. -/
def SpacebootCall.IsSearch : SpacebootCall → Prop
  | .opendir _ => True
  | .lstat _ => True
  | .interrupted => True
  | .readFile _ => True
  | .uninitialisedIdent => True
  | _ => False

section Kinds

theorem SpacebootCall.IsSearch.kind_eq
    {call : SpacebootCall}
    (isSearch : call.IsSearch) :
    call.kind = .selecting := by
  cases call with
  | opendir =>
      rfl
  | lstat =>
      rfl
  | interrupted =>
      rfl
  | readFile =>
      rfl
  | uninitialisedIdent =>
      rfl
  | _ =>
      exact isSearch.elim

theorem calls_of_onlyKind
    {α : Type}
    {kind : CallKind}
    {allowed : CallKind → Prop}
    {program : SpacebootProg α}
    (only : OnlyKind kind program)
    (permits : allowed kind) :
    Calls (fun call => allowed call.kind) program := by
  refine only.mono fun call kindEq => ?_
  rw [kindEq]
  exact permits

theorem onlyKind_ping
    (node : Nat) :
    OnlyKind .contacting (ping node) :=
  .bind (calls_ask rfl) fun _ => calls_pure _

theorem onlyKind_setupBootImg
    (node slot id : Nat) :
    OnlyKind .registering (setupBootImg node slot id) := by
  refine .bind (calls_ask rfl) fun found => ?_
  split
  · exact calls_pure _
  · exact .bind (calls_ask rfl) fun _ =>
      .bind (calls_ask rfl) fun _ => calls_pure _

theorem onlyKind_setupBootImgs
    (node slot : Nat)
    (ids : List Nat) :
    OnlyKind .registering (setupBootImgs node slot ids) := by
  induction ids generalizing slot with
  | nil =>
      exact calls_pure _
  | cons id rest inductionHypothesis =>
      exact .bind (onlyKind_setupBootImg _ _ _) fun existed =>
        .bind (inductionHypothesis _) fun _ => calls_pure _

theorem onlyKind_removeBootImgs
    (marked : List (Nat × Bool)) :
    OnlyKind .registering (removeBootImgs marked) := by
  fun_induction removeBootImgs marked with
  | case1 =>
      exact calls_pure _
  | case2 id rest inductionHypothesis =>
      exact inductionHypothesis
  | case3 id rest inductionHypothesis =>
      exact .bind (calls_ask rfl) fun _ => inductionHypothesis

theorem calls_imageGet
    (path : CString) :
    Calls SpacebootCall.IsSearch (imageGet path) :=
  .bind (calls_ask trivial) fun _ => calls_pure _

theorem onlyKind_imageGet
    (path : CString) :
    OnlyKind .selecting (imageGet path) :=
  (calls_imageGet path).mono fun _ isSearch => isSearch.kind_eq

theorem calls_fileCallback
    (path lastEntry : CString)
    (binf : BinInfo) :
    Calls SpacebootCall.IsSearch (fileCallback path lastEntry binf) := by
  refine .bind (calls_ask trivial) fun ident => .bind ?_ fun checked => ?_
  · unfold isValidBinary
    split
    · exact calls_pure _
    · refine .bind (calls_imageGet path) fun opened => ?_
      cases opened with
      | none =>
          exact calls_pure _
      | some image =>
          exact calls_pure _
  · split
    · exact calls_pure _
    · exact calls_pure _

theorem calls_walk
    (pathSize depth : Nat)
    (path : CString)
    (binf : BinInfo) :
    Calls SpacebootCall.IsSearch
      (walkdir surroundings callbacks pathSize depth path binf) :=
  calls_walkdir
    (fun path =>
      @calls_ask _ _ SpacebootCall.IsSearch (.opendir path) trivial)
    (fun path => @calls_ask _ _ SpacebootCall.IsSearch (.lstat path) trivial)
    (@calls_ask _ _ SpacebootCall.IsSearch .interrupted trivial)
    (fun _ _ _ => calls_pure _) calls_fileCallback pathSize depth path binf

theorem calls_searchFiles
    (pathSize : Nat)
    (area : VmemArea)
    (binf : BinInfo) :
    Calls SpacebootCall.IsSearch (searchFiles pathSize area binf) := by
  refine .bind (calls_walk _ _ _ _) fun walked =>
    .bind (calls_ask trivial) fun interrupted => ?_
  split
  · exact calls_pure _
  · split
    · exact calls_pure _
    · exact calls_pure _

theorem onlyKind_readRows
    (binf : BinInfo)
    (toGo row : Nat) :
    OnlyKind .selecting (readRows binf toGo row) := by
  induction toGo generalizing row with
  | zero =>
      exact calls_ask rfl
  | succ toGo inductionHypothesis =>
      unfold readRows
      dsimp only
      split
      · exact calls_pure _
      · exact .bind (inductionHypothesis _) fun _ => calls_pure _

theorem onlyKind_pathAt
    (binf : BinInfo)
    (index : Int) :
    OnlyKind .selecting (pathAt binf index) := by
  unfold pathAt
  split
  · exact onlyKind_readRows _ _ _
  · exact calls_ask rfl

theorem onlyKind_chooseFile
    (binf : BinInfo) :
    OnlyKind .selecting (chooseFile binf) := by
  unfold chooseFile
  split
  · refine .bind (calls_ask rfl) fun typed => ?_
    split
    · exact calls_pure _
    · exact .bind (onlyKind_pathAt _ _) fun _ => calls_pure _
  · exact .bind (onlyKind_pathAt _ _) fun _ => calls_pure _

theorem onlyKind_selectFile
    (pathSize : Nat)
    (filename : Option CString)
    (area : VmemArea)
    (binf : BinInfo) :
    OnlyKind .selecting (selectFile pathSize filename area binf) := by
  refine .bind ?_ fun listed => ?_
  · cases filename with
    | some filename =>
        exact calls_pure _
    | none =>
        exact (calls_searchFiles _ _ _).mono fun _ isSearch =>
          isSearch.kind_eq
  · split
    · exact .bind (onlyKind_chooseFile _) fun _ => calls_pure _
    · exact calls_pure _

theorem onlyKind_confirmed
    (force : Bool) :
    OnlyKind .selecting (confirmed force) := by
  unfold confirmed
  split
  · exact calls_pure _
  · exact .bind (calls_ask rfl) fun _ => calls_pure _

theorem onlyKind_doUpload
    (settings : Settings)
    (node timeout : Nat)
    (address : Int)
    (data : List UInt8) :
    OnlyKind .transferring (doUpload settings node timeout address data) := by
  refine .bind (calls_ask rfl) fun count => ?_
  split
  · exact calls_pure _
  · split
    · exact calls_pure _
    · split
      · exact .bind (calls_ask rfl) fun _ =>
          .bind (calls_ask rfl) fun _ => calls_pure _
      · exact calls_pure _

theorem onlyKind_uploadAndVerify
    (settings : Settings)
    (node : Nat)
    (address : Int)
    (data : List UInt8) :
    OnlyKind .transferring (uploadAndVerify settings node address data) := by
  refine .bind (onlyKind_doUpload _ _ _ _ _) fun uploaded => ?_
  split
  · exact calls_pure _
  · refine .bind (calls_ask rfl) fun fresh =>
      .bind (calls_ask rfl) fun answer => ?_
    split
    · exact calls_pure _
    · exact calls_pure _

theorem onlyKind_uploadAndCompareCrc
    (settings : Settings)
    (node : Nat)
    (area : VmemArea)
    (data : List UInt8) :
    OnlyKind .transferring (uploadAndCompareCrc settings node area data) := by
  refine .bind (onlyKind_doUpload _ _ _ _ _) fun uploaded => ?_
  split
  · exact calls_pure _
  · refine .bind (calls_ask rfl) fun answer => ?_
    split
    · split
      · exact calls_pure _
      · exact calls_pure _
    · exact calls_pure _

theorem onlyKind_transfer
    (settings : Settings)
    (doCrc32 : Bool)
    (node : Nat)
    (area : VmemArea)
    (data : List UInt8) :
    OnlyKind .transferring (transfer settings doCrc32 node area data) := by
  unfold transfer
  split
  · exact onlyKind_uploadAndCompareCrc _ _ _ _
  · exact .bind (onlyKind_uploadAndVerify _ _ _ _) fun _ => calls_pure _

theorem onlyKind_resetAndReturn
    (settings : Settings)
    (result : SlashResult)
    (binf : BinInfo) :
    OnlyKind .configuring (resetAndReturn settings result binf) :=
  .bind (.bind (calls_ask rfl) fun _ => calls_pure _) fun _ => calls_pure _

end Kinds

/-- The steps of a run. -/
abbrev Trace : Type :=
  List (Step SpacebootAnswer)

/-- Every step is of one kind. -/
def Trace.Only (kind : CallKind) (trace : Trace) : Prop :=
  ∀ step ∈ trace, step.request.kind = kind

/-- The trace and the value of a run of `programSlot` that programs a file. -/
inductive Programs
    (settings : Settings)
    (programming : Programming)
    (binf : BinInfo) :
    Trace → SlashResult × BinInfo → Prop where
  | intro
      {selection pinging confirming transferring rest : Trace}
      {area : VmemArea}
      {path : CString}
      {file : FileRead}
      {image : Image}
      {outcome : Except SlashResult SlashResult}
      {final : BinInfo}
      {value : SlashResult × BinInfo}
      (size : area.size ≠ 0)
      (selected :
        Runs (selectFile programming.pathSize programming.filename area binf)
          selection (.ok path, final))
      (pinged : Runs (ping programming.node) pinging true)
      (confirmed : Runs programming.confirm confirming true)
      (read : file.image? = some image)
      (transferred :
        Runs
          (transfer settings programming.doCrc32 programming.node area
            image.data)
          transferring outcome)
      (finished :
        match outcome with
        | .error result => rest = [] ∧ value = (result, final)
        | .ok result => Runs (programming.finish result final) rest value) :
      Programs settings programming binf
        (⟨.vmemClientFind programming.node settings.slashDflTimeout
            programming.name, area⟩ ::
          (selection ++ (pinging ++ (confirming ++
            (⟨.readFile path, some file⟩ :: (transferring ++ rest))))))
        value

/-- The selection that left `bin_info` as it is, if there was one. -/
def Selected
    (settings : Settings)
    (programming : Programming)
    (binf : BinInfo)
    (trace : Trace)
    (final : BinInfo) :
    Prop :=
  final = binf ∨
    ∃ area selection chosen rest,
      trace =
          ⟨.vmemClientFind programming.node settings.slashDflTimeout
              programming.name, area⟩ :: (selection ++ rest) ∧
        Runs
          (selectFile programming.pathSize programming.filename area binf)
          selection (chosen, final)

/-- A call of `param_push_queue`, by which boot counters are written. -/
def SpacebootCall.IsPush : SpacebootCall → Prop
  | .paramPushQueue _ _ => True
  | _ => False

/-- A call of `vmem_upload`. -/
def SpacebootCall.IsUpload : SpacebootCall → Prop
  | .vmemUpload _ _ _ _ => True
  | _ => False

/-- A call of `vmem_client_find`. -/
def SpacebootCall.IsFind : SpacebootCall → Prop
  | .vmemClientFind _ _ _ => True
  | _ => False

/-- Nothing is uploaded. -/
def Trace.NoUpload (trace : Trace) : Prop :=
  ∀ step ∈ trace, ¬ step.request.IsUpload

/-- Nothing is uploaded and no boot counter is written. -/
def Trace.Idle (trace : Trace) : Prop :=
  ∀ step ∈ trace, ¬ step.request.IsUpload ∧ ¬ step.request.IsPush

section Idle

variable {kind : CallKind}
variable {trace first later : Trace}

theorem SpacebootCall.IsUpload.kind_eq
    {call : SpacebootCall}
    (isUpload : call.IsUpload) :
    call.kind = .transferring := by
  cases call with
  | vmemUpload =>
      rfl
  | _ =>
      exact isUpload.elim

theorem SpacebootCall.IsPush.kind_eq
    {call : SpacebootCall}
    (isPush : call.IsPush) :
    call.kind = .switching := by
  cases call with
  | paramPushQueue =>
      rfl
  | _ =>
      exact isPush.elim

theorem SpacebootCall.IsFind.kind_eq
    {call : SpacebootCall}
    (isFind : call.IsFind) :
    call.kind = .finding := by
  cases call with
  | vmemClientFind =>
      rfl
  | _ =>
      exact isFind.elim

theorem Trace.Only.noPush
    (only : trace.Only kind)
    (noSwitch : kind ≠ .switching) :
    ∀ step ∈ trace, ¬ step.request.IsPush :=
  fun step member isPush =>
    noSwitch ((only step member).symm.trans isPush.kind_eq)

/-- Only transfers upload and only switches write boot counters. -/
theorem Trace.Only.idle
    (only : trace.Only kind)
    (noTransfer : kind ≠ .transferring)
    (noSwitch : kind ≠ .switching) :
    trace.Idle := by
  intro step member
  refine ⟨fun isUpload => ?_, only.noPush noSwitch step member⟩
  exact noTransfer ((only step member).symm.trans isUpload.kind_eq)

theorem Trace.Idle.append
    (firstIdle : first.Idle)
    (laterIdle : later.Idle) :
    Trace.Idle (first ++ later) :=
  List.forall_mem_append.mpr ⟨firstIdle, laterIdle⟩

theorem Trace.Idle.noUpload
    (idle : trace.Idle) :
    trace.NoUpload :=
  fun step member => (idle step member).1

theorem Trace.NoUpload.append
    (firstNone : first.NoUpload)
    (laterNone : later.NoUpload) :
    Trace.NoUpload (first ++ later) :=
  List.forall_mem_append.mpr ⟨firstNone, laterNone⟩

end Idle

section Program

variable {settings : Settings}
variable {programming : Programming}
variable {binf : BinInfo}
variable {trace : Trace}
variable {result : SlashResult}

theorem runs_resetAndReturn_iff
    {value : SlashResult × BinInfo} :
    Runs (resetAndReturn settings result binf) trace value ↔
      trace = [⟨.cspRdpSetOpt settings.rdpDfl, ()⟩] ∧
        value = (result, binf) := by
  constructor
  · intro run
    obtain ⟨_, _, behind, rfl, configured, returned⟩ := runs_bind_iff.mp run
    obtain ⟨_, later, rfl, done⟩ := runs_ask_bind_iff.mp configured
    obtain ⟨rfl, _⟩ := runs_pure_iff.mp done
    obtain ⟨rfl, rfl⟩ := runs_pure_iff.mp returned
    exact ⟨rfl, rfl⟩
  · rintro ⟨rfl, rfl⟩
    exact .call _ (.done _)

theorem idle_resetAndReturn
    {value : SlashResult × BinInfo}
    (run : Runs (resetAndReturn settings result binf) trace value) :
    trace.Idle :=
  Trace.Only.idle (onlyKind_resetAndReturn _ _ _ trace value run)
    (by decide) (by decide)

theorem runs_imageGet_iff
    {path : CString}
    {opened : Option Image} :
    Runs (imageGet path) trace opened ↔
      ∃ file : Option FileRead,
        trace = [⟨.readFile path, file⟩] ∧
          opened = file.bind FileRead.image? :=
  runs_ask_return_iff

/-- An upload, and that it succeeds exactly when every byte was taken. -/
theorem doUpload_eq_upload_cons
    {node timeout : Nat}
    {address : Int}
    {data : List UInt8}
    (run : Runs (doUpload settings node timeout address data) trace result) :
    ∃ (count : Int) (more : Trace),
      trace = ⟨.vmemUpload node timeout address data, count⟩ :: more ∧
        ((count = data.length ∧ result = .success ∧ more = []) ∨
          (count ≠ data.length ∧ result.isError = true ∧
            Trace.NoUpload more)) := by
  obtain ⟨count, more, rfl, behind⟩ := runs_ask_bind_iff.mp run
  refine ⟨count, more, rfl, ?_⟩
  have timedout_neg := settings.timedout_neg
  have nobufs_neg := settings.nobufs_neg
  split at behind
  · rename_i timedout
    obtain ⟨rfl, rfl⟩ := runs_pure_iff.mp behind
    exact .inr ⟨by omega, rfl, by simp [Trace.NoUpload]⟩
  · split at behind
    · rename_i nobufs
      obtain ⟨rfl, rfl⟩ := runs_pure_iff.mp behind
      exact .inr ⟨by omega, rfl, by simp [Trace.NoUpload]⟩
    · split at behind
      · rename_i incomplete
        obtain ⟨window, _, rfl, behindGet⟩ := runs_ask_bind_iff.mp behind
        obtain ⟨_, _, rfl, behindPrint⟩ := runs_ask_bind_iff.mp behindGet
        obtain ⟨rfl, rfl⟩ := runs_pure_iff.mp behindPrint
        exact .inr
          ⟨incomplete, rfl, by
            simp [Trace.NoUpload, SpacebootCall.IsUpload]⟩
      · rename_i complete
        obtain ⟨rfl, rfl⟩ := runs_pure_iff.mp behind
        exact .inl ⟨not_not.mp complete, rfl, rfl⟩

/-- A run programs a file or changes nothing on the node. -/
theorem programSlot_programs
    {value : SlashResult × BinInfo}
    (confirms : OnlyKind .selecting programming.confirm)
    (run : Runs (programSlot settings programming binf) trace value) :
    (trace.Idle ∧ Selected settings programming binf trace value.2) ∨
      Programs settings programming binf trace value := by
  obtain ⟨area, _, rfl, behindFind⟩ := runs_ask_bind_iff.mp run
  have found :
      Trace.Idle
        [⟨.vmemClientFind programming.node settings.slashDflTimeout
          programming.name, area⟩] := by
    simp [Trace.Idle, SpacebootCall.IsUpload, SpacebootCall.IsPush]
  split at behindFind
  · obtain ⟨rfl, rfl⟩ := runs_resetAndReturn_iff.mp behindFind
    exact .inl
      ⟨found.append (idle_resetAndReturn behindFind), .inl rfl⟩
  · rename_i size
    obtain ⟨selection, selected, _, rfl, selecting, behindSelect⟩ :=
      runs_bind_iff.mp behindFind
    have selects : Trace.Idle selection :=
      Trace.Only.idle (onlyKind_selectFile _ _ _ _ _ _ selecting)
        (by decide) (by decide)
    -- Whatever fails behind the selection ends the command with its result.
    have ends :
        ∀ {behind later : Trace} {result : SlashResult},
          behind.Idle →
            Runs (resetAndReturn settings result selected.2) later value →
              Trace.Idle
                  (⟨.vmemClientFind programming.node
                      settings.slashDflTimeout programming.name, area⟩ ::
                    (selection ++ (behind ++ later))) ∧
                Selected settings programming binf
                  (⟨.vmemClientFind programming.node
                      settings.slashDflTimeout programming.name, area⟩ ::
                    (selection ++ (behind ++ later)))
                  value.2 := by
      intro behind later result idle returns
      have idleReturn := idle_resetAndReturn returns
      obtain ⟨_, rfl⟩ := runs_resetAndReturn_iff.mp returns
      exact
        ⟨found.append (selects.append (idle.append idleReturn)),
          .inr ⟨area, selection, selected.1, _, rfl, selecting⟩⟩
    split at behindSelect
    · exact .inl (@ends [] _ _ (by simp [Trace.Idle]) behindSelect)
    · rename_i path chosen
      obtain ⟨pinging, reachable, _, rfl, pings, behindPing⟩ :=
        runs_bind_iff.mp behindSelect
      have contacts : Trace.Idle pinging :=
        Trace.Only.idle (onlyKind_ping _ _ _ pings) (by decide) (by decide)
      split at behindPing
      · exact .inl (ends contacts behindPing)
      · rename_i reached
        obtain ⟨confirming, answer, _, rfl, asked, behindConfirm⟩ :=
          runs_bind_iff.mp behindPing
        have asks : Trace.Idle confirming :=
          Trace.Only.idle (confirms _ _ asked) (by decide) (by decide)
        split at behindConfirm
        · rw [← List.append_assoc pinging]
          exact .inl (ends (contacts.append asks) behindConfirm)
        · rename_i answered
          obtain ⟨reading, opened, _, rfl, reads, behindRead⟩ :=
            runs_bind_iff.mp behindConfirm
          obtain ⟨file, rfl, rfl⟩ := runs_imageGet_iff.mp reads
          split at behindRead
          · have readsFile :
                Trace.Idle [⟨.readFile path, file⟩] := by
              simp [Trace.Idle, SpacebootCall.IsUpload, SpacebootCall.IsPush]
            rw [← List.append_assoc pinging,
              ← List.append_assoc (pinging ++ confirming)]
            exact .inl
              (ends ((contacts.append asks).append readsFile) behindRead)
          · rename_i image opened
            obtain ⟨transferring, outcome, rest, rfl, transferred, finished⟩ :=
              runs_bind_iff.mp behindRead
            obtain ⟨file, rfl, read⟩ := Option.bind_eq_some_iff.mp opened
            obtain ⟨choice, final⟩ := selected
            obtain rfl : choice = .ok path := chosen
            rw [List.singleton_append]
            refine .inr (.intro size selecting ?_ ?_ read transferred ?_)
            · simpa [reached] using pings
            · simpa [answered] using asked
            · cases outcome with
              | error result =>
                  exact runs_pure_iff.mp finished
              | ok result =>
                  exact finished

end Program

section Switch

variable {node times : Nat}
variable {flash : Int}
variable {trace : Trace}

/--
A run of `reset_to_flash` sets the parameters up; for a valid slot it pushes the
boot counters, reboots, cleans up and pings.
-/
theorem exists_setup_of_resetToFlash
    (run : Runs (resetToFlash node flash times) trace ()) :
    ∃ setup existed,
      Runs (setupBootImgs node 0 bootParamIds) setup existed ∧
        (¬ (0 ≤ flash ∧ flash < 4) ∧ trace = setup ∨
          (0 ≤ flash ∧ flash < 4) ∧
            ∃ answer removing pinging reached,
              trace =
                  setup ++
                    ⟨.paramPushQueue node (bootQueue flash.toNat times),
                      answer⟩ ::
                      ⟨.cspReboot node, ()⟩ :: (removing ++ pinging) ∧
                Runs (removeBootImgs (bootParamIds.zip existed)) removing () ∧
                Runs (ping node) pinging reached) := by
  obtain ⟨setup, existed, _, rfl, sets, behind⟩ := runs_bind_iff.mp run
  refine ⟨setup, existed, sets, ?_⟩
  split at behind
  · rename_i invalid
    obtain ⟨rfl, _⟩ := runs_pure_iff.mp behind
    exact .inl ⟨by omega, List.append_nil setup⟩
  · rename_i valid
    obtain ⟨answer, _, rfl, behindPush⟩ := runs_ask_bind_iff.mp behind
    obtain ⟨_, _, rfl, behindReboot⟩ := runs_ask_bind_iff.mp behindPush
    obtain ⟨removing, _, _, rfl, removes, behindRemove⟩ :=
      runs_bind_iff.mp behindReboot
    obtain ⟨pinging, reached, _, rfl, pings, done⟩ :=
      runs_bind_iff.mp behindRemove
    obtain ⟨rfl, _⟩ := runs_pure_iff.mp done
    refine
      .inr ⟨by omega, answer, removing, pinging, reached, ?_, removes, pings⟩
    rw [List.append_nil]

/--
`reset_to_flash` only registers parameters for an invalid slot, and otherwise
pushes the boot counters of the slot once.
-/
theorem resetToFlash_cases
    (run : Runs (resetToFlash node flash times) trace ()) :
    (¬ (0 ≤ flash ∧ flash < 4) ∧ trace.Only .registering) ∨
      ((0 ≤ flash ∧ flash < 4) ∧
        ∃ setup answer rest,
          trace =
              setup ++
                ⟨.paramPushQueue node (bootQueue flash.toNat times),
                  answer⟩ :: rest ∧
            Trace.Only .registering setup ∧ Trace.Idle rest) := by
  obtain ⟨setup, existed, sets, ends⟩ := exists_setup_of_resetToFlash run
  have registers : Trace.Only .registering setup :=
    onlyKind_setupBootImgs node 0 bootParamIds setup existed sets
  rcases ends with
    ⟨invalid, rfl⟩ |
    ⟨valid, answer, removing, pinging, reached, rfl, removes, pings⟩
  · exact .inl ⟨invalid, registers⟩
  · have removed : Trace.Idle removing :=
      Trace.Only.idle (onlyKind_removeBootImgs _ _ _ removes)
        (by decide) (by decide)
    have contacts : Trace.Idle pinging :=
      Trace.Only.idle (onlyKind_ping _ _ _ pings) (by decide) (by decide)
    refine .inr ⟨valid, setup, answer, _, rfl, registers, ?_⟩
    exact List.forall_mem_cons.mpr ⟨⟨id, id⟩, removed.append contacts⟩

/-- `reset_to_flash` registers parameters, switches and contacts the node. -/
theorem calls_resetToFlash
    {allowed : CallKind → Prop}
    (registering : allowed .registering)
    (switching : allowed .switching)
    (contacting : allowed .contacting)
    (node : Nat)
    (flash : Int)
    (times : Nat) :
    Calls (fun call => allowed call.kind) (resetToFlash node flash times) := by
  refine
    .bind (calls_of_onlyKind (onlyKind_setupBootImgs _ _ _) registering)
      fun existed => ?_
  split
  · exact calls_pure _
  · refine
      .bind (calls_ask switching) fun _ =>
        .bind (calls_ask switching) fun _ => ?_
    refine
      .bind (calls_of_onlyKind (onlyKind_removeBootImgs _) registering)
        fun _ => ?_
    exact
      .bind (calls_of_onlyKind (onlyKind_ping _) contacting) fun _ =>
        calls_pure _

/-- `reset_to_flash` has nothing to do with the programming of a slot. -/
theorem aside_resetToFlash
    (node : Nat)
    (flash : Int)
    (times : Nat) :
    Calls (fun call => call.kind.Aside) (resetToFlash node flash times) :=
  @calls_resetToFlash CallKind.Aside (by decide) (by decide) (by decide)
    node flash times

theorem noUpload_resetToFlash
    (run : Runs (resetToFlash node flash times) trace ()) :
    trace.NoUpload := by
  intro step member isUpload
  have aside := aside_resetToFlash _ _ _ _ _ run step member
  exact aside.2.2 isUpload.kind_eq

theorem noFind_resetToFlash
    (run : Runs (resetToFlash node flash times) trace ()) :
    ∀ step ∈ trace, ¬ step.request.IsFind := by
  intro step member isFind
  have aside := aside_resetToFlash _ _ _ _ _ run step member
  exact aside.1 isFind.kind_eq

theorem eq_of_runs_rdpOptSet
    {options : RdpOptions}
    (run : Runs (rdpOptSet options) trace ()) :
    trace = [⟨.cspRdpSetOpt options, ()⟩] := by
  obtain ⟨_, rfl, _⟩ := runs_ask_return_iff.mp run
  rfl

/-- `sps` without both slots fails. -/
theorem slashSps_eq_cons
    {settings : Settings}
    {options : SpsOptions}
    {arguments : List CString}
    {binf : BinInfo}
    {value : SlashResult × BinInfo}
    (short : arguments.length < 2)
    (run : Runs (slashSps settings (some (options, arguments)) binf)
      trace value) :
    ∃ later,
      trace = ⟨.cspRdpSetOpt options.rdp, ()⟩ :: later ∧
        Runs (resetAndReturn settings .einval binf) later value := by
  obtain ⟨_, _, later, rfl, sets, behindSet⟩ := runs_bind_iff.mp run
  obtain rfl := eq_of_runs_rdpOptSet sets
  refine ⟨later, rfl, ?_⟩
  match arguments with
  | [] =>
      exact behindSet
  | [_] =>
      exact behindSet

/-- `sps` with both slots: the first switch, then the programming. -/
theorem slashSps_eq_append
    {settings : Settings}
    {options : SpsOptions}
    {fromText toText : CString}
    {arguments : List CString}
    {binf : BinInfo}
    {value : SlashResult × BinInfo}
    (run :
      Runs
        (slashSps settings (some (options, fromText :: toText :: arguments))
          binf)
        trace value) :
    ∃ switching slot,
      trace = ⟨.cspRdpSetOpt options.rdp, ()⟩ :: (switching ++ slot) ∧
        Runs (resetToFlash options.node (toInt (toUnsigned (atoi fromText))) 1)
          switching () ∧
        Runs
          (programSlot settings
            (options.programming settings (toUnsigned (atoi toText))) binf)
          slot value := by
  obtain ⟨_, _, _, rfl, sets, behindSet⟩ := runs_bind_iff.mp run
  obtain rfl := eq_of_runs_rdpOptSet sets
  obtain ⟨switching, _, slot, rfl, switches, programs⟩ :=
    runs_bind_iff.mp behindSet
  exact ⟨switching, slot, rfl, switches, programs⟩

end Switch

end Csh.Spaceboot
