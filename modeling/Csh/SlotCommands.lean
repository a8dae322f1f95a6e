import Csh.Lib.History
import Csh.SpacebootRuns

namespace Csh.Spaceboot

open Libc Interaction Walkdir History

/-!
# The commands that program a slot

`program` and `sps` differ in what they do in front of the programming and
behind it.  A run of either command that uploads anything has one shape: the
memory area is found, a file is selected, the node is contacted, the file is
read and its image is uploaded, once.
-/

/-- `program` or `sps`, with what the option parser hands it. -/
inductive SlotCommand where
  | program (parsed : Parsed ProgramOptions)
  | sps (parsed : Parsed SpsOptions)

/-- The command, from the `bin_info` that the commands before it left. -/
def SlotCommand.run
    (settings : Settings)
    (command : SlotCommand)
    (binf : BinInfo) :
    SpacebootProg (SlashResult × BinInfo) :=
  match command with
  | .program parsed => slashCspProgram settings parsed binf
  | .sps parsed => slashSps settings parsed binf

/-- The argument of `-f`. -/
def SlotCommand.filename? : SlotCommand → Option CString
  | .program parsed => parsed.bind (·.1.filename)
  | .sps parsed => parsed.bind (·.1.filename)

/-- A call of `image_get` for a file. -/
def SpacebootCall.IsRead : SpacebootCall → Prop
  | .readFile _ => True
  | _ => False

/-- No memory area is found, no file is read and nothing is uploaded. -/
def Trace.Plain (trace : Trace) : Prop :=
  ∀ step ∈ trace,
    ¬ step.request.IsFind ∧ ¬ step.request.IsRead ∧ ¬ step.request.IsUpload

/-- Everything is done aside from the programming of a slot. -/
def Trace.Aside (trace : Trace) : Prop :=
  ∀ step ∈ trace, step.request.kind.Aside

/--
The trace of a command that uploads, and the `bin_info` it leaves behind.
-/
inductive SlotCommand.Uploads
    (command : SlotCommand)
    (binf : BinInfo) :
    Trace → BinInfo → Prop where
  | intro
      {opening selection contacting rest : Trace}
      {node timeout pathSize : Nat}
      {name path : CString}
      {area : VmemArea}
      {file : FileRead}
      {image : Image}
      {count : Int}
      {final : BinInfo}
      (apart : opening.Aside)
      (size : area.size ≠ 0)
      (selected :
        Runs (selectFile pathSize command.filename? area binf)
          selection (.ok path, final))
      (contacts : contacting.Plain)
      (read : file.image? = some image)
      (plain : rest.Plain) :
      Uploads command binf
        (opening ++
            ⟨.vmemClientFind node timeout name, area⟩ ::
              (selection ++ contacting) ++
          ⟨.readFile path, some file⟩ ::
            ⟨.vmemUpload node 10000 (toInt area.vaddr) image.data, count⟩ ::
              rest)
        final

section Plain

variable {trace first later : Trace}

theorem SpacebootCall.IsRead.kind_eq
    {call : SpacebootCall}
    (isRead : call.IsRead) :
    call.kind = .selecting := by
  cases call with
  | readFile =>
      rfl
  | _ =>
      exact isRead.elim

theorem Trace.Aside.plain
    (aside : trace.Aside) :
    trace.Plain := by
  intro step member
  obtain ⟨noFind, noSelection, noTransfer⟩ := aside step member
  refine ⟨fun isFind => ?_, fun isRead => ?_, fun isUpload => ?_⟩
  · exact noFind isFind.kind_eq
  · exact noSelection isRead.kind_eq
  · exact noTransfer isUpload.kind_eq

theorem Trace.Only.aside
    {kind : CallKind}
    (only : trace.Only kind)
    (aside : kind.Aside) :
    trace.Aside := by
  intro step member
  rw [only step member]
  exact aside

theorem Trace.Plain.append
    (firstPlain : first.Plain)
    (laterPlain : later.Plain) :
    Trace.Plain (first ++ later) :=
  List.forall_mem_append.mpr ⟨firstPlain, laterPlain⟩

/-- A transfer without its uploads is plain. -/
theorem Trace.Only.plain_of_noUpload
    (only : trace.Only .transferring)
    (none : trace.NoUpload) :
    trace.Plain := by
  intro step member
  have kindEq := only step member
  refine ⟨fun isFind => ?_, fun isRead => ?_, none step member⟩
  · exact absurd (isFind.kind_eq.symm.trans kindEq) (by decide)
  · exact absurd (isRead.kind_eq.symm.trans kindEq) (by decide)

end Plain

section Runs

variable {settings : Settings}
variable {node : Nat}
variable {area : VmemArea}
variable {data : List UInt8}
variable {trace : Trace}
variable {binf : BinInfo}
variable {value : SlashResult × BinInfo}

/-- What follows an upload without another one keeps it the only one. -/
theorem exists_upload_of_runs_bind
    {α : Type}
    {timeout : Nat}
    {address : Int}
    {next : SlashResult → SpacebootProg α}
    {result : α}
    (noUpload : ∀ uploaded, Calls (fun call => ¬ call.IsUpload) (next uploaded))
    (run :
      Runs (doUpload settings node timeout address data >>= next)
        trace result) :
    ∃ (count : Int) (rest : Trace),
      trace = ⟨.vmemUpload node timeout address data, count⟩ :: rest ∧
        rest.NoUpload := by
  obtain ⟨_, uploaded, later, rfl, uploads, behind⟩ := runs_bind_iff.mp run
  obtain ⟨count, more, rfl, cases⟩ := doUpload_eq_upload_cons uploads
  refine ⟨count, more ++ later, rfl, ?_⟩
  have noMore : more.NoUpload := by
    rcases cases with ⟨_, _, rfl⟩ | ⟨_, _, none⟩
    · simp [Trace.NoUpload]
    · exact none
  exact noMore.append (noUpload uploaded later result behind)

/-- Both ways of transferring an image upload it first, and only once. -/
theorem exists_upload_of_runs_transfer
    {doCrc32 : Bool}
    {outcome : Except SlashResult SlashResult}
    (run : Runs (transfer settings doCrc32 node area data) trace outcome) :
    ∃ (count : Int) (rest : Trace),
      trace =
          ⟨.vmemUpload node 10000 (toInt area.vaddr) data, count⟩ :: rest ∧
        rest.NoUpload := by
  unfold transfer at run
  split at run
  · refine exists_upload_of_runs_bind (fun uploaded => ?_) run
    split
    · exact calls_pure _
    · refine .bind (calls_ask id) fun answer => ?_
      split
      · split
        · exact calls_pure _
        · exact calls_pure _
      · exact calls_pure _
  · obtain ⟨_, verdict, _, rfl, verifies, done⟩ := runs_bind_iff.mp run
    obtain ⟨rfl, _⟩ := runs_pure_iff.mp done
    rw [List.append_nil]
    refine exists_upload_of_runs_bind (fun uploaded => ?_) verifies
    split
    · exact calls_pure _
    · refine .bind (calls_ask id) fun fresh =>
        .bind (calls_ask id) fun answer => ?_
      split
      · exact calls_pure _
      · exact calls_pure _

end Runs

section Commands

variable {settings : Settings}
variable {command : SlotCommand}
variable {programming : Programming}
variable {binf : BinInfo}
variable {trace opening slot : Trace}
variable {value : SlashResult × BinInfo}

/-- The selection of a command that left `bin_info` as it is, if any. -/
def SlotCommand.Selects
    (command : SlotCommand)
    (binf : BinInfo)
    (trace : Trace)
    (final : BinInfo) :
    Prop :=
  final = binf ∨
    ∃ (opening selection rest : Trace) (node timeout pathSize : Nat)
      (name : CString) (area : VmemArea)
      (chosen : Except SlashResult CString),
      trace =
          opening ++
            ⟨.vmemClientFind node timeout name, area⟩ ::
              (selection ++ rest) ∧
        opening.Aside ∧
        Runs (selectFile pathSize command.filename? area binf) selection
          (chosen, final)

/-- The user is asked for a line and nothing else happens. -/
theorem plain_of_readlines
    (asks : ∀ step ∈ trace, step.request = .slashReadline) :
    trace.Plain := by
  intro step member
  rw [asks step member]
  exact ⟨id, id, id⟩

/-- The shape of a run whose programming and end are those of a command. -/
theorem uploads_of_programs
    (filename : programming.filename = command.filename?)
    (confirms : Calls (· = .slashReadline) programming.confirm)
    (ends :
      ∀ (result : SlashResult) (final : BinInfo) (rest : Trace)
        (outcome : SlashResult × BinInfo),
        Runs (programming.finish result final) rest outcome →
          rest.Aside ∧ outcome.2 = final)
    (apart : opening.Aside)
    (programs : Programs settings programming binf slot value) :
    command.Uploads binf (opening ++ slot) value.2 := by
  obtain @⟨selection, pinging, confirming, _, rest, area, path, file, image,
    outcome, final, _, size, selected, pinged, asked, read, transferred,
    finished⟩ := programs
  obtain ⟨count, more, rfl, none⟩ := exists_upload_of_runs_transfer transferred
  have transfers := onlyKind_transfer _ _ _ _ _ _ _ transferred
  have plainMore : Trace.Plain more :=
    Trace.Only.plain_of_noUpload
      (fun step member => transfers step (List.mem_cons_of_mem _ member)) none
  have contacts : Trace.Plain (pinging ++ confirming) :=
    (Trace.Only.aside (onlyKind_ping _ _ _ pinged) (by decide)).plain.append
      (plain_of_readlines (confirms _ _ asked))
  have finishes : Trace.Plain rest ∧ value.2 = final := by
    cases outcome with
    | error result =>
        obtain ⟨rfl, rfl⟩ := finished
        exact ⟨by simp [Trace.Plain], rfl⟩
    | ok result =>
        obtain ⟨aside, same⟩ := ends _ _ _ _ finished
        exact ⟨aside.plain, same⟩
  rw [filename] at selected
  have shaped :=
    @SlotCommand.Uploads.intro command binf opening selection
      (pinging ++ confirming) (more ++ rest) programming.node
      settings.slashDflTimeout programming.pathSize programming.name path
      area file image count final apart size selected contacts read
      (plainMore.append finishes.1)
  rw [finishes.2]
  simpa using shaped

/-- A command changes nothing on the node or has the shape of an upload. -/
theorem uploads_or_selects
    (filename : programming.filename = command.filename?)
    (confirms : Calls (· = .slashReadline) programming.confirm)
    (ends :
      ∀ (result : SlashResult) (final : BinInfo) (rest : Trace)
        (outcome : SlashResult × BinInfo),
        Runs (programming.finish result final) rest outcome →
          rest.Aside ∧ outcome.2 = final)
    (apart : opening.Aside)
    (run : Runs (programSlot settings programming binf) slot value) :
    (Trace.NoUpload (opening ++ slot) ∧
        command.Selects binf (opening ++ slot) value.2) ∨
      command.Uploads binf (opening ++ slot) value.2 := by
  have selecting : OnlyKind .selecting programming.confirm := by
    refine confirms.mono ?_
    rintro _ rfl
    rfl
  rcases programSlot_programs selecting run with
    ⟨idle, selected⟩ | programs
  · refine .inl ⟨?_, ?_⟩
    · refine .append (fun step member => ?_) idle.noUpload
      exact (apart.plain step member).2.2
    · rcases selected with
        same | ⟨area, selection, chosen, rest, rfl, selects⟩
      · exact .inl same
      · rw [filename] at selects
        exact .inr
          ⟨opening, selection, rest, _, _, _, _, area, chosen, rfl, apart,
            selects⟩
  · exact .inr (uploads_of_programs filename confirms ends apart programs)

theorem calls_confirmed
    (force : Bool) :
    Calls (· = .slashReadline) (confirmed force) := by
  unfold confirmed
  split
  · exact calls_pure _
  · exact .bind (calls_ask rfl) fun _ => calls_pure _

/-- The end of a command leaves `bin_info` alone. -/
theorem aside_of_resetAndReturn
    {result : SlashResult}
    (run : Runs (resetAndReturn settings result binf) trace value) :
    trace.Aside ∧ value.2 = binf := by
  obtain ⟨rfl, rfl⟩ := runs_resetAndReturn_iff.mp run
  simp [Trace.Aside, SpacebootCall.kind, CallKind.Aside]

theorem aside_of_switchAndReturn
    {node : Nat}
    {flash : Int}
    {result : SlashResult}
    (run : Runs (switchAndReturn settings node flash result binf) trace value) :
    trace.Aside ∧ value.2 = binf := by
  unfold switchAndReturn at run
  split at run
  · obtain ⟨switching, _, returning, rfl, switches, returns⟩ :=
      runs_bind_iff.mp run
    obtain ⟨aside, same⟩ := aside_of_resetAndReturn returns
    have switchesAside : Trace.Aside switching :=
      aside_resetToFlash _ _ _ _ _ switches
    exact ⟨List.forall_mem_append.mpr ⟨switchesAside, aside⟩, same⟩
  · exact aside_of_resetAndReturn run

/-- Every run of a command uploads nothing or has the shape of an upload. -/
theorem SlotCommand.uploads_or_selects_of_runs
    (run : Runs (command.run settings binf) trace value) :
    (trace.NoUpload ∧ command.Selects binf trace value.2) ∨
      command.Uploads binf trace value.2 := by
  have returned :
      ∀ {result : SlashResult} {trace : Trace},
        Runs (resetAndReturn settings result binf) trace value →
          trace.NoUpload ∧ command.Selects binf trace value.2 := by
    intro result trace returns
    obtain ⟨aside, same⟩ := aside_of_resetAndReturn returns
    exact ⟨fun step member => (aside.plain step member).2.2, .inl same⟩
  have returned_short :
      ∀ {options : SpsOptions} {arguments : List CString} {trace : Trace},
        arguments.length < 2 →
          Runs (slashSps settings (some (options, arguments)) binf)
            trace value →
            trace.NoUpload ∧ command.Selects binf trace value.2 := by
    intro options arguments trace short run
    obtain ⟨later, rfl, returns⟩ := slashSps_eq_cons short run
    exact
      ⟨List.forall_mem_cons.mpr ⟨id, (returned returns).1⟩,
        .inl (aside_of_resetAndReturn returns).2⟩
  match command with
  | .program none =>
      obtain ⟨rfl, rfl⟩ := runs_pure_iff.mp run
      exact .inl ⟨by simp [Trace.NoUpload], .inl rfl⟩
  | .program (some (options, [])) =>
      exact .inl (returned run)
  | .program (some (options, text :: arguments)) =>
      exact @uploads_or_selects _ _
        (options.programming settings (toUnsigned (atoi text))) _ [] _ _ rfl
        (calls_confirmed _)
        (fun _ _ _ _ returns => aside_of_resetAndReturn returns)
        (by simp [Trace.Aside]) run
  | .sps none =>
      exact .inl (returned run)
  | .sps (some (options, [])) =>
      exact .inl (@returned_short options [] trace (by simp) run)
  | .sps (some (options, [text])) =>
      exact .inl (@returned_short options [text] trace (by simp) run)
  | .sps (some (options, fromText :: toText :: arguments)) =>
      obtain ⟨switching, slot, rfl, switches, programs⟩ :=
        @slashSps_eq_append _ _ _ _ _ arguments _ _ run
      have switchesAside : Trace.Aside switching :=
        aside_resetToFlash _ _ _ _ _ switches
      rw [← List.cons_append]
      exact @uploads_or_selects _ _
        (options.programming settings (toUnsigned (atoi toText))) _ _ _ _ rfl
        (calls_pure true)
        (fun _ _ _ _ returns => aside_of_switchAndReturn returns)
        (List.forall_mem_cons.mpr
          ⟨show CallKind.configuring.Aside by decide, switchesAside⟩)
        programs

end Commands

section LastFile

variable {command : SlotCommand}
variable {binf final : BinInfo}
variable {trace before : Trace}
variable {path : CString}
variable {file : FileRead}

/-- The file is the last one that is read in front of an upload. -/
def Trace.ProgramsFile
    (trace before : Trace)
    (path : CString)
    (file : FileRead) :
    Prop :=
  ∃ after,
    trace = before ++ ⟨.readFile path, some file⟩ :: after ∧
      (∃ step ∈ after, step.request.IsUpload) ∧
      ∀ step ∈ after, ¬ step.request.IsRead

/-- Without an upload no file is programmed. -/
theorem not_programsFile_of_noUpload
    (none : trace.NoUpload) :
    ¬ trace.ProgramsFile before path file := by
  rintro ⟨after, rfl, ⟨step, member, isUpload⟩, _⟩
  exact none step (by simp [member]) isUpload

/-- The programmed file is the one whose image is uploaded. -/
theorem programsFile_iff
    {upload : Step SpacebootAnswer}
    {rest otherBefore : Trace}
    {otherPath : CString}
    {otherFile : FileRead}
    (isUpload : upload.request.IsUpload)
    (noRead : ∀ step ∈ upload :: rest, ¬ step.request.IsRead) :
    Trace.ProgramsFile
        (before ++ ⟨.readFile path, some file⟩ :: upload :: rest)
        otherBefore otherPath otherFile ↔
      otherBefore = before ∧ otherPath = path ∧ otherFile = file := by
  constructor
  · rintro ⟨after, same, _, noneAfter⟩
    obtain ⟨rfl, sameRead, rfl⟩ :=
      @append_cons_inj_of_last _ (·.request.IsRead) _ _ _ _ _ _ same trivial
        trivial noRead noneAfter
    cases sameRead
    exact ⟨rfl, rfl, rfl⟩
  · rintro ⟨rfl, rfl, rfl⟩
    exact ⟨upload :: rest, rfl, ⟨upload, by simp, isUpload⟩, noRead⟩

/-- Behind the request for the memory area no other one is found. -/
theorem noFind_behind_find
    {read upload : Step SpacebootAnswer}
    {selection contacting rest : Trace}
    (selects : selection.Only .selecting)
    (contacts : contacting.Plain)
    (isRead : read.request.IsRead)
    (isUpload : upload.request.IsUpload)
    (plain : rest.Plain) :
    ∀ step ∈ selection ++ contacting ++ read :: upload :: rest,
      ¬ step.request.IsFind := by
  have kind_ne :
      ∀ {call : SpacebootCall} {kind : CallKind},
        call.kind = kind → kind ≠ .finding → ¬ call.IsFind :=
    fun kindEq other isFind => other (kindEq.symm.trans isFind.kind_eq)
  simp only [List.forall_mem_append, List.forall_mem_cons]
  refine ⟨⟨fun step member => ?_, fun step member => ?_⟩, ?_, ?_, ?_⟩
  · exact kind_ne (selects step member) (by decide)
  · exact (contacts step member).1
  · exact kind_ne isRead.kind_eq (by decide)
  · exact kind_ne isUpload.kind_eq (by decide)
  · exact fun step member => (plain step member).1

/-- Nothing is uploaded up to the reading of the programmed file. -/
theorem noUpload_up_to_read
    {find read : Step SpacebootAnswer}
    {opening selection contacting : Trace}
    (apart : opening.Aside)
    (isFind : find.request.IsFind)
    (selects : selection.Only .selecting)
    (contacts : contacting.Plain)
    (isRead : read.request.IsRead) :
    Trace.NoUpload
      (opening ++ find :: (selection ++ contacting) ++ [read]) := by
  have kind_ne :
      ∀ {call : SpacebootCall} {kind : CallKind},
        call.kind = kind → kind ≠ .transferring → ¬ call.IsUpload :=
    fun kindEq other isUpload => other (kindEq.symm.trans isUpload.kind_eq)
  simp only [Trace.NoUpload, List.forall_mem_append, List.forall_mem_cons]
  refine ⟨⟨fun step early => (apart.plain step early).2.2, ?_,
    fun step member => ?_, fun step member => (contacts step member).2.2⟩,
    ?_, by simp⟩
  · exact kind_ne isFind.kind_eq (by decide)
  · exact kind_ne (selects step member) (by decide)
  · exact kind_ne isRead.kind_eq (by decide)

/-- The file is one that a search would enter for the slot. -/
def VmemArea.validates
    (area : VmemArea)
    (path : CString)
    (file : FileRead) :
    Bool :=
  hasBinExtension path &&
    file.image?.any fun image =>
      (isValidImage (BinInfo.zero.searching area) image
        (BinInfo.zero.idents 0)).1

/-- The verdict depends on the bounds of the slot alone. -/
theorem isValidImage_congr
    {binf other : BinInfo}
    (sameMin : binf.addrMin = other.addrMin)
    (sameMax : binf.addrMax = other.addrMax)
    (image : Image)
    (ident otherIdent : BinFileIdent) :
    (isValidImage binf image ident).1 =
      (isValidImage other image otherIdent).1 := by
  have sameSlot : binf.inSlot = other.inSlot := by
    funext addr
    simp [BinInfo.inSlot, sameMin, sameMax]
  have sameFits : binf.fits = other.fits := by
    funext len
    simp [BinInfo.fits, sameMin, sameMax]
  have sameEntry : binf.hasEntry = other.hasEntry := by
    funext image
    simp [BinInfo.hasEntry, sameSlot, sameFits]
  unfold isValidImage
  simp only [sameSlot, sameFits, sameEntry]
  split
  · split
    · cases findIdentBegin image with
      | none =>
          rfl
      | some identBegin =>
          dsimp only
          split
          · rfl
          · rfl
    · rfl
  · rfl

end LastFile

end Csh.Spaceboot
