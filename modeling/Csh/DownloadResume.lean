import Csh.FileTransfer
import Mathlib.Logic.Function.Basic

namespace Csh.FileTransfer

open Libc Interaction Spaceboot

/-!
# Downloads that resume one another

A sequence of downloads of one target, in a file system where every operation
succeeds.  The status file counts the bytes of the data file, unless a user
declines to resume and the download then fails: the data file is already
empty, and the status file still has its offset.
-/

/-- The bytes of a memory from an address on. -/
def memoryBytes (memory : Nat → UInt8) (address count : Nat) : List UInt8 :=
  (List.range count).map fun index => memory ((address + index) % 2 ^ 64)

/-- The bytes of a text in a file. -/
def textBytes (text : CString) : List UInt8 :=
  text.map fun c => UInt8.ofNat c.toNat

/-- The text that is read from bytes in a file. -/
def bytesText (bytes : List UInt8) : CString :=
  bytes.map fun byte => Char.ofNat byte.toNat

/-- The content of the files that exist. -/
abbrev Files : Type :=
  CString → Option (List UInt8)

/-- What one step does to the files. -/
def Files.after (files : Files) (step : Step FtpAnswer) : Files :=
  match step.request with
  | .openTruncate path => Function.update files path (some [])
  | .openAppend path =>
      Function.update files path (some ((files path).getD []))
  | .writeData path data =>
      Function.update files path (some ((files path).getD [] ++ data))
  | .writeStatus path text =>
      Function.update files path (some (textBytes text))
  | .removeFile path => Function.update files path none
  | _ => files

/-- The files behind the steps of a trace. -/
def Files.behind (files : Files) (trace : FtpTrace) : Files :=
  trace.foldl Files.after files

/--
The answer of a step is that of the files and of a remote memory: every file
can be opened for writing, and a download that does not fail delivers bytes of
the memory from the requested address on.
-/
def Answered (memory : Nat → UInt8) (files : Files) : Step FtpAnswer → Prop
  | ⟨.readStatus path, status⟩ => status = (files path).map bytesText
  | ⟨.openTruncate _, opened⟩ => opened = true
  | ⟨.openAppend _, opened⟩ => opened = true
  | ⟨.writeStatus _ _, written⟩ => written = true
  | ⟨.vmemDownload _ _ address _ _ _, answer⟩ =>
      0 ≤ answer.ret →
        answer.received = memoryBytes memory address answer.received.length
  | _ => True

/-- Every answer is that of the files its step finds. -/
def Faithful (memory : Nat → UInt8) : Files → FtpTrace → Prop
  | _, [] => True
  | files, step :: rest =>
      Answered memory files step ∧ Faithful memory (files.after step) rest

/-- One `download` of a target: its line, its steps and its result. -/
structure DownloadRun (settings : Settings) (target : Target) where
  options : DownloadOptions
  arguments : List CString
  trace : FtpTrace
  result : SlashResult
  names : downloadTarget arguments = .ok target
  runs :
    Runs (vmemClientSlashDownload settings (some (options, arguments)))
      trace result

/-- The number of bytes a download asks for, and what it returns. -/
def downloaded? : Step FtpAnswer → Option (Nat × Int)
  | ⟨.vmemDownload _ _ _ len _ _, answer⟩ => some (len, answer.ret)
  | _ => none

/-- The offset that is read from a status file. -/
def readOffset? : Step FtpAnswer → Option Nat
  | ⟨.readStatus _, some text⟩ => scanUnsigned text
  | _ => none

/-- The line that the user types. -/
def typedLine? : Step FtpAnswer → Option CString
  | ⟨.slashReadline, typed⟩ => some typed
  | _ => none

/-- The run receives all the bytes that it asks for. -/
def Completes (trace : FtpTrace) : Prop :=
  ∃ len : Nat, (len, (len : Int)) ∈ trace.filterMap downloaded?

/--
The status file has an offset other than 0, the user declines to resume from
there, and the download fails.
-/
def LosesData (trace : FtpTrace) : Prop :=
  (∃ offset ∈ trace.filterMap readOffset?, offset ≠ 0) ∧
    (∃ typed ∈ trace.filterMap typedLine?, typed ≠ "yes".toList) ∧
      ∃ download ∈ trace.filterMap downloaded?, download.2 < 0

/-- The offset that the status file of a file holds. -/
def Files.heldOffset? (files : Files) (file : CString) : Option Nat :=
  ((files (fileStatus file)).map bytesText).bind scanUnsigned

/-- The offset in the status file counts the bytes in the data file. -/
def Agree
    (memory : Nat → UInt8)
    (target : Target)
    (files : Files) :
    Prop :=
  ∀ offset,
    files.heldOffset? target.file = some offset →
      offset ≤ target.length ∧
        files target.file = some (memoryBytes memory target.address offset)

/-- The data file has all the bytes, and there is no status file. -/
def Finished
    (memory : Nat → UInt8)
    (target : Target)
    (files : Files) :
    Prop :=
  files target.file =
      some (memoryBytes memory target.address target.length) ∧
    files (fileStatus target.file) = none

section Files

variable {memory : Nat → UInt8}
variable {files : Files}
variable {first later : FtpTrace}

@[simp] theorem memoryBytes_zero
    (address : Nat) :
    memoryBytes memory address 0 = [] :=
  rfl

/-- Consecutive bytes of a memory, also across the end of the addresses. -/
theorem memoryBytes_append
    (address offset count : Nat) :
    memoryBytes memory address offset ++
        memoryBytes memory ((address + offset) % 2 ^ 64) count =
      memoryBytes memory address (offset + count) := by
  simp only [memoryBytes, List.range_add, List.map_append, List.map_map]
  congr 1
  refine List.map_congr_left fun index _ => ?_
  rw [Function.comp_apply, Nat.mod_add_mod, Nat.add_assoc]

/-- What `%u` prints is read back from a file. -/
theorem bytesText_textBytes_printUnsigned
    (value : Nat) :
    bytesText (textBytes (printUnsigned value)) = printUnsigned value := by
  rw [bytesText, textBytes, List.map_map]
  refine (List.map_congr_left fun c member => ?_).trans (List.map_id _)
  have digit := (isNumeral_printUnsigned value).2.1 c member
  have small : c.toNat < UInt8.size :=
    Nat.lt_of_le_of_lt (toNat_of_isDigit digit).2 (by decide)
  rw [Function.comp_apply, UInt8.toNat_ofNat_of_lt' small,
    Char.ofNat_toNat, id]

theorem fileStatus_ne
    {file : CString}
    (fits : file.length < 124) :
    fileStatus file ≠ file := by
  rw [fileStatus, List.take_of_length_le (by omega)]
  simp

theorem Files.behind_append :
    files.behind (first ++ later) = (files.behind first).behind later :=
  List.foldl_append

theorem faithful_append_iff :
    Faithful memory files (first ++ later) ↔
      Faithful memory files first ∧
        Faithful memory (files.behind first) later := by
  induction first generalizing files with
  | nil =>
      simp [Faithful, Files.behind]
  | cons step rest inductionHypothesis =>
      rw [List.cons_append, Faithful, Faithful, inductionHypothesis, and_assoc]
      rfl

end Files

section Runs

variable {settings : Settings}
variable {memory : Nat → UInt8}
variable {target : Target}
variable {files : Files}
variable {options : DownloadOptions}
variable {opening receiving : FtpTrace}
variable {offset : Nat}

/-- A declined offset other than 0. -/
def Declined (opening : FtpTrace) : Prop :=
  (∃ offset ∈ opening.filterMap readOffset?, offset ≠ 0) ∧
    ∃ typed ∈ opening.filterMap typedLine?, typed ≠ "yes".toList

/--
The data file is opened with the bytes in front of the offset, and the status
file is left alone.
-/
theorem opened_of_opens
    (fits : target.file.length < 124)
    (agree : Agree memory target files)
    (opens : Opens target.file opening (.ok offset))
    (faithful : Faithful memory files opening) :
    offset ≤ target.length ∧
      files.behind opening target.file =
          some (memoryBytes memory target.address offset) ∧
        (files.behind opening).heldOffset? target.file =
          files.heldOffset? target.file := by
  have different := fileStatus_ne fits
  generalize value_eq : (Except.ok offset : Except SlashResult Nat) = value
    at opens
  cases opens with
  | started opened =>
      obtain ⟨_, rfl, _⟩ := faithful
      obtain rfl : offset = 0 := by simpa [offsetIfOpened] using value_eq
      simp [Files.behind, Files.after, Files.heldOffset?, different]
  | unreadable unread =>
      cases value_eq
  | restarted read declined opened =>
      obtain ⟨_, _, rfl, _⟩ := faithful
      obtain rfl : offset = 0 := by simpa [offsetIfOpened] using value_eq
      simp [Files.behind, Files.after, Files.heldOffset?, different]
  | resumed read opened =>
      obtain ⟨found, _, rfl, _⟩ := faithful
      obtain rfl : offset = _ := by simpa [offsetIfOpened] using value_eq
      have held : files.heldOffset? target.file = some offset := by
        rw [Files.heldOffset?, ← found]
        exact read
      obtain ⟨within, data⟩ := agree offset held
      simp [Files.behind, Files.after, Files.heldOffset?, different, data,
        within]

theorem length_memoryBytes
    (address count : Nat) :
    (memoryBytes memory address count).length = count := by
  simp [memoryBytes]

/-- The files agree if the status file holds no other offset. -/
theorem agree_iff_of_data
    (within : offset ≤ target.length)
    (data :
      files target.file = some (memoryBytes memory target.address offset)) :
    Agree memory target files ↔
      ∀ held, files.heldOffset? target.file = some held → held = offset := by
  refine
    forall_congr' fun held => imp_congr_right fun _ =>
      ⟨fun stored => ?_, fun same => ?_⟩
  · have lengths := congrArg List.length (Option.some.inj (data ▸ stored.2))
    rw [length_memoryBytes, length_memoryBytes] at lengths
    exact lengths.symm
  · rw [same]
    exact ⟨within, data⟩

/-- Behind the opening the files agree unless an offset was declined. -/
theorem agree_behind_opens_iff
    (fits : target.file.length < 124)
    (agree : Agree memory target files)
    (opens : Opens target.file opening (.ok offset))
    (faithful : Faithful memory files opening) :
    Agree memory target (files.behind opening) ↔ ¬ Declined opening := by
  obtain ⟨within, data, kept⟩ := opened_of_opens fits agree opens faithful
  rw [agree_iff_of_data within data, kept, Files.heldOffset?]
  generalize value_eq : (Except.ok offset : Except SlashResult Nat) = value
    at opens
  cases opens with
  | started opened =>
      obtain ⟨found, _⟩ := faithful
      rw [← found]
      simp [Declined, readOffset?]
  | unreadable unread =>
      cases value_eq
  | @restarted text typed held read declined opened =>
      obtain ⟨found, _, rfl, _⟩ := faithful
      obtain rfl : offset = 0 := by simpa [offsetIfOpened] using value_eq
      have notYes : ¬ typed = ['y', 'e', 's'] := declined
      rw [← found]
      simp [Declined, readOffset?, typedLine?, read, notYes]
  | resumed read opened =>
      obtain ⟨found, _, rfl, _⟩ := faithful
      obtain rfl : offset = _ := by simpa [offsetIfOpened] using value_eq
      rw [← found]
      simp [Declined, readOffset?, typedLine?, read]

/-- The bytes that are delivered continue those in front of the offset. -/
theorem append_delivered
    {received : List UInt8}
    (delivered :
      received =
        memoryBytes memory ((target.address + offset) % 2 ^ 64)
          received.length) :
    memoryBytes memory target.address offset ++ received =
      memoryBytes memory target.address (offset + received.length) :=
  calc
    _ =
        memoryBytes memory target.address offset ++
          memoryBytes memory ((target.address + offset) % 2 ^ 64)
            received.length :=
      congrArg _ delivered
    _ = _ := memoryBytes_append _ _ _

/-- What a transfer does that did not begin beyond the end. -/
theorem receives_cases
    (fits : target.file.length < 124)
    (within : offset ≤ target.length)
    (data :
      files target.file = some (memoryBytes memory target.address offset))
    (receives : Receives settings options target offset receiving)
    (faithful : Faithful memory files receiving) :
    ((∃ download ∈ receiving.filterMap downloaded?, download.2 < 0) ∧
        ¬ Completes receiving ∧ files.behind receiving = files) ∨
      ((∀ download ∈ receiving.filterMap downloaded?, 0 ≤ download.2) ∧
        Agree memory target (files.behind receiving) ∧
          (Completes receiving →
            Finished memory target (files.behind receiving))) := by
  have different := fileStatus_ne fits
  have length_lt := target.length_lt
  cases receives with
  | beyond large =>
      omega
  | @failed answer negative =>
      refine Or.inl ⟨?_, ?_, rfl⟩
      · simpa [downloaded?] using negative
      · rintro ⟨len, completed⟩
        simp [downloaded?] at completed
        omega
  | @incomplete answer nonnegative missing written =>
      obtain ⟨delivered, _, rfl, _⟩ := faithful
      have ret_eq := answer.ret_eq
      have length_le := answer.length_le
      have stored := append_delivered (delivered nonnegative)
      have total :
          toUnsigned (answer.ret + offset) =
            offset + answer.received.length := by
        unfold toUnsigned
        omega
      have counted :
          scanUnsigned (printUnsigned (offset + answer.received.length)) =
            some (offset + answer.received.length) :=
        scanUnsigned_of_isNumeral (isNumeral_printUnsigned _) (by omega)
      refine Or.inr ⟨?_, ?_, ?_⟩
      · simpa [downloaded?] using nonnegative
      · rw [@agree_iff_of_data _ _ _ (offset + answer.received.length)
          (by omega) (by simp [Files.behind, Files.after, different.symm, data,
            stored])]
        simp [Files.behind, Files.after, Files.heldOffset?, total,
          bytesText_textBytes_printUnsigned, counted]
      · rintro ⟨len, completed⟩
        simp [downloaded?] at completed
        omega
  | @complete answer nonnegative whole =>
      obtain ⟨delivered, _⟩ := faithful
      have ret_eq := answer.ret_eq
      have stored := append_delivered (delivered nonnegative)
      have total : offset + answer.received.length = target.length := by
        omega
      rw [total] at stored
      refine Or.inr ⟨?_, ?_, fun _ => ⟨?_, ?_⟩⟩
      · simpa [downloaded?] using nonnegative
      · intro held found
        simp [Files.behind, Files.after, Files.heldOffset?] at found
      · simp [Files.behind, Files.after, different.symm, data, stored]
      · simp [Files.behind, Files.after]

theorem Opens.no_download
    {value : Except SlashResult Nat}
    (opens : Opens target.file opening value) :
    opening.filterMap downloaded? = [] := by
  cases opens with
  | started opened =>
      simp [downloaded?]
  | unreadable unread =>
      simp [downloaded?]
  | restarted read declined opened =>
      simp [downloaded?]
  | resumed read opened =>
      simp [downloaded?]

theorem Receives.no_reading
    (receives : Receives settings options target offset receiving) :
    receiving.filterMap readOffset? = [] ∧
      receiving.filterMap typedLine? = [] := by
  cases receives with
  | beyond large =>
      simp
  | failed negative =>
      simp [readOffset?, typedLine?]
  | incomplete nonnegative missing written =>
      simp [readOffset?, typedLine?]
  | complete nonnegative whole =>
      simp [readOffset?, typedLine?]

/-- Data is lost by a declined offset and a failed transfer. -/
theorem losesData_append_iff
    {value : Except SlashResult Nat}
    (opens : Opens target.file opening value)
    (receives : Receives settings options target offset receiving) :
    LosesData (opening ++ receiving) ↔
      Declined opening ∧
        ∃ download ∈ receiving.filterMap downloaded?, download.2 < 0 := by
  obtain ⟨noOffset, noLine⟩ := receives.no_reading
  rw [LosesData, Declined, List.filterMap_append, List.filterMap_append,
    List.filterMap_append, noOffset, noLine, opens.no_download,
    List.append_nil, List.append_nil, List.nil_append, and_assoc]

/-- An opening that fails leaves the files as they are and loses nothing. -/
theorem behind_of_opens_error
    {error : SlashResult}
    (opens : Opens target.file opening (.error error))
    (faithful : Faithful memory files opening) :
    files.behind opening = files ∧ opening.filterMap readOffset? = [] := by
  generalize value_eq : (Except.error error : Except SlashResult Nat) = value
    at opens
  cases opens with
  | started opened =>
      obtain ⟨_, rfl, _⟩ := faithful
      cases value_eq
  | unreadable unread =>
      simp [readOffset?, unread, Files.behind, Files.after]
  | restarted read declined opened =>
      obtain ⟨_, _, rfl, _⟩ := faithful
      cases value_eq
  | resumed read opened =>
      obtain ⟨_, _, rfl, _⟩ := faithful
      cases value_eq

/-- What one run does to files that agree. -/
theorem agree_behind_download_iff
    {trace : FtpTrace}
    {result : SlashResult}
    (fits : target.file.length < 124)
    (agree : Agree memory target files)
    (run : Runs (download settings options target) trace result)
    (faithful : Faithful memory files trace) :
    (Agree memory target (files.behind trace) ↔ ¬ LosesData trace) ∧
      (Completes trace → Finished memory target (files.behind trace)) := by
  rcases download_cases run with
    ⟨error, opens⟩ | ⟨offset, opening, receiving, rfl, opens, receives⟩
  · obtain ⟨same, noOffset⟩ := behind_of_opens_error opens faithful
    rw [same, LosesData, Completes, noOffset, opens.no_download]
    simpa using agree
  · obtain ⟨opensFaithful, receivesFaithful⟩ :=
      faithful_append_iff.mp faithful
    obtain ⟨within, data, _⟩ :=
      opened_of_opens fits agree opens opensFaithful
    have opened := agree_behind_opens_iff fits agree opens opensFaithful
    have completes :
        Completes (opening ++ receiving) ↔ Completes receiving := by
      rw [Completes, Completes, List.filterMap_append, opens.no_download,
        List.nil_append]
    rw [Files.behind_append, losesData_append_iff opens receives, completes]
    rcases receives_cases fits within data receives receivesFaithful with
      ⟨failed, incomplete, same⟩ | ⟨succeeded, agrees, finished⟩
    · rw [same, opened]
      exact
        ⟨not_congr (and_iff_left failed).symm,
          fun completed => absurd completed incomplete⟩
    · refine ⟨iff_of_true agrees ?_, finished⟩
      rintro ⟨_, download, member, negative⟩
      exact absurd (succeeded download member) (by omega)

/-- A run keeps the agreement of the files unless it loses data. -/
theorem DownloadRun.agree_behind_iff
    (run : DownloadRun settings target)
    (fits : target.file.length < 124)
    (agree : Agree memory target files)
    (faithful : Faithful memory files run.trace) :
    (Agree memory target (files.behind run.trace) ↔
        ¬ LosesData run.trace) ∧
      (Completes run.trace →
        Finished memory target (files.behind run.trace)) := by
  obtain ⟨later, shape, downloads⟩ := exists_of_runs_download run.runs
  rw [run.names] at downloads
  rw [shape] at faithful ⊢
  have later_faithful : Faithful memory files later :=
    faithful.2
  have kept := agree_behind_download_iff fits agree downloads later_faithful
  exact kept

/-- Runs that lose no data keep the agreement of the files. -/
theorem agree_behind_runs
    {runs : List (DownloadRun settings target)}
    (fits : target.file.length < 124)
    (agree : Agree memory target files)
    (faithful : Faithful memory files (runs.flatMap DownloadRun.trace))
    (kept : ∀ run ∈ runs, ¬ LosesData run.trace) :
    Agree memory target (files.behind (runs.flatMap DownloadRun.trace)) := by
  induction runs generalizing files with
  | nil =>
      exact agree
  | cons run rest inductionHypothesis =>
      obtain ⟨runKept, restKept⟩ := List.forall_mem_cons.mp kept
      rw [List.flatMap_cons] at faithful ⊢
      obtain ⟨runFaithful, restFaithful⟩ := faithful_append_iff.mp faithful
      rw [Files.behind_append]
      exact
        inductionHypothesis
          ((run.agree_behind_iff fits agree runFaithful).1.mpr runKept)
          restFaithful restKept

end Runs

/--
A sequence of downloads of one target from a memory that stays the same, with
no status file at the beginning.  The name of the status file fits in its
buffer.
-/
structure DownloadSession (settings : Settings) where
  memory : Nat → UInt8
  target : Target
  fits : target.file.length < 124
  start : Files
  fresh : start (fileStatus target.file) = none
  runs : List (DownloadRun settings target)
  faithful : Faithful memory start (runs.flatMap DownloadRun.trace)

namespace DownloadSession

variable {settings : Settings}

/-- The files behind the first runs of a session. -/
def filesBehind
    (session : DownloadSession settings)
    (runs : List (DownloadRun settings session.target)) :
    Files :=
  session.start.behind (runs.flatMap DownloadRun.trace)

/--
The two files agree behind every run, and a run that receives everything
leaves all the bytes and no status file.
-/
def Consistent (session : DownloadSession settings) : Prop :=
  (∀ before after,
    session.runs = before ++ after →
      Agree session.memory session.target (session.filesBehind before)) ∧
    ∀ before run after,
      session.runs = before ++ run :: after →
        Completes run.trace →
          Finished session.memory session.target
            (session.filesBehind (before ++ [run]))

/-- The start of a session is one where the files agree. -/
theorem agree_start (session : DownloadSession settings) :
    Agree session.memory session.target session.start := by
  intro offset held
  simp [Files.heldOffset?, session.fresh] at held

theorem faithful_split
    {session : DownloadSession settings}
    {before after : List (DownloadRun settings session.target)}
    (split : session.runs = before ++ after) :
    Faithful session.memory session.start
        (before.flatMap DownloadRun.trace) ∧
      Faithful session.memory (session.filesBehind before)
        (after.flatMap DownloadRun.trace) := by
  rw [filesBehind, ← faithful_append_iff, ← List.flatMap_append, ← split]
  exact session.faithful

/-- What the next run of a session does to files that agree. -/
theorem agree_next_iff
    {session : DownloadSession settings}
    {before after : List (DownloadRun settings session.target)}
    {run : DownloadRun settings session.target}
    (split : session.runs = before ++ run :: after)
    (agree :
      Agree session.memory session.target (session.filesBehind before)) :
    (Agree session.memory session.target
          (session.filesBehind (before ++ [run])) ↔
        ¬ LosesData run.trace) ∧
      (Completes run.trace →
        Finished session.memory session.target
          (session.filesBehind (before ++ [run]))) := by
  obtain ⟨_, faithful⟩ := faithful_split split
  rw [List.flatMap_cons] at faithful
  have next :
      session.filesBehind (before ++ [run]) =
        (session.filesBehind before).behind run.trace := by
    rw [filesBehind, filesBehind, List.flatMap_append, Files.behind_append,
      List.flatMap_singleton]
  rw [next]
  exact
    run.agree_behind_iff session.fits agree (faithful_append_iff.mp faithful).1

/--
The files stay consistent throughout a session exactly when no run of it loses
data.
-/
theorem consistent_iff_no_losesData
    (session : DownloadSession settings) :
    session.Consistent ↔ ∀ run ∈ session.runs, ¬ LosesData run.trace := by
  constructor
  · rintro ⟨agree, _⟩ run member
    obtain ⟨before, after, split⟩ := List.append_of_mem member
    have split' : session.runs = (before ++ [run]) ++ after := by
      rw [split, List.append_assoc, List.singleton_append]
    exact
      (agree_next_iff split (agree before (run :: after) split)).1.mp
        (agree (before ++ [run]) after split')
  · intro kept
    have agree :
        ∀ before after, session.runs = before ++ after →
          Agree session.memory session.target
            (session.filesBehind before) := by
      intro before after split
      refine
        agree_behind_runs session.fits session.agree_start
          (faithful_split split).1 fun run member => kept run ?_
      rw [split]
      exact List.mem_append_left _ member
    refine ⟨agree, fun before run after split => ?_⟩
    exact (agree_next_iff split (agree before (run :: after) split)).2


/-- Two bytes, to the file `f`. -/
def smallTarget : Target :=
  ⟨0, 2, ['f'], by decide⟩

/-- One byte of two. -/
def oneByte : FileDownload 2 where
  ret := 1
  received := [0]
  length_le := by decide
  ret_eq := .inl rfl
  ret_lt := by decide

/-- No byte, and a negative return value. -/
def noByte : FileDownload 2 where
  ret := -1
  received := []
  length_le := by decide
  ret_eq := .inr (by decide)
  ret_lt := by decide

/-- The options of both runs. -/
def defaultOptions : DownloadOptions :=
  ⟨0, 1000, 1, 1, deliveredSettings.rdpDfl⟩

/-- The first run receives one of two bytes. -/
def firstRun : DownloadRun deliveredSettings smallTarget where
  options := defaultOptions
  arguments := [['0'], ['2'], ['f']]
  trace :=
    [⟨.cspRdpSetOpt deliveredSettings.rdpDfl, ()⟩,
      ⟨.readStatus ['f', 's', 't', 'a', 't'], none⟩,
      ⟨.openTruncate ['f'], true⟩,
      ⟨.vmemDownload 0 1000 0 2 1 1, oneByte⟩,
      ⟨.writeData ['f'] [0], ()⟩,
      ⟨.writeStatus ['f', 's', 't', 'a', 't'] ['1'], true⟩,
      ⟨.cspRdpSetOpt deliveredSettings.rdpDfl, ()⟩]
  result := .success
  names := rfl
  runs := by
    iterate 7 (refine Runs.call _ ?_)
    exact .done _

/-- In the second run the user begins again, and the download fails. -/
def secondRun : DownloadRun deliveredSettings smallTarget where
  options := defaultOptions
  arguments := [['0'], ['2'], ['f']]
  trace :=
    [⟨.cspRdpSetOpt deliveredSettings.rdpDfl, ()⟩,
      ⟨.readStatus ['f', 's', 't', 'a', 't'], some ['1']⟩,
      ⟨.slashReadline, ['n', 'o']⟩,
      ⟨.openTruncate ['f'], true⟩,
      ⟨.vmemDownload 0 1000 0 2 1 1, noByte⟩]
  result := .einval
  names := rfl
  runs := by
    iterate 5 (refine Runs.call _ ?_)
    exact .done _

/-- Both runs, with a memory of zeros. -/
def twoRuns : DownloadSession deliveredSettings where
  memory _ := 0
  target := smallTarget
  fits := by decide
  start _ := none
  fresh := rfl
  runs := [firstRun, secondRun]
  faithful :=
    ⟨trivial, rfl, rfl, fun _ => rfl, trivial, rfl, trivial,
      trivial, rfl, trivial, rfl, fun _ => rfl, trivial⟩

/-- The status file still says that there is a byte in the empty data file. -/
theorem failed_restart_leaves_status :
    ¬ ∀ (settings : Settings) (session : DownloadSession settings),
      session.Consistent := by
  intro consistent
  obtain ⟨agree, _⟩ := consistent deliveredSettings twoRuns
  obtain ⟨_, data⟩ := agree [firstRun, secondRun] [] rfl 1 rfl
  have empty :
      twoRuns.filesBehind [firstRun, secondRun] ['f'] = some [] :=
    rfl
  exact absurd (empty.symm.trans data) (by decide)

end DownloadSession

end Csh.FileTransfer
