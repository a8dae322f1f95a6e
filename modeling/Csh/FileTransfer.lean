import Csh.Spaceboot

namespace Csh.FileTransfer

open Libc Interaction Spaceboot

/-!
# Downloading and uploading files

The commands `download` and `upload`.  The file system, the user and the node
answer freely.  A download keeps the number of bytes it has in a status file
beside the file, from which a later one resumes.
-/

/-- An answer of `vmem_download`, which returns an `int`. -/
structure FileDownload (len : Nat) extends Download len where
  ret_lt : ret < 2 ^ 31

/-- What the two commands ask of or do to their surroundings. -/
inductive FtpCall where
  | readStatus (path : CString)
  | openTruncate (path : CString)
  | openAppend (path : CString)
  | slashReadline
  | vmemDownload (node timeout address len version useRdp : Nat)
  | writeData (path : CString) (data : List UInt8)
  | writeStatus (path text : CString)
  | removeFile (path : CString)
  | readFile (path : CString)
  | vmemUpload
      (node timeout address : Nat) (data : List UInt8) (version : Nat)
  | cspRdpSetOpt (options : RdpOptions)
  | cspRdpGetOpt
  | printSuggestedOffset (offset : Nat)
  deriving DecidableEq

/--
The answers: the text or the bytes of a file that could be opened, whether one
could be opened for writing, and the window of `cspRdpGetOpt`.
-/
abbrev FtpAnswer : FtpCall → Type
  | .readStatus _ => Option CString
  | .openTruncate _ => Bool
  | .openAppend _ => Bool
  | .slashReadline => CString
  | .vmemDownload _ _ _ len _ _ => FileDownload len
  | .writeData _ _ => Unit
  | .writeStatus _ _ => Bool
  | .removeFile _ => Unit
  | .readFile _ => Option (List UInt8)
  | .vmemUpload _ _ _ _ _ => Int
  | .cspRdpSetOpt _ => Unit
  | .cspRdpGetOpt => Nat
  | .printSuggestedOffset _ => Unit

/-- A program over these calls. -/
abbrev FtpProg (α : Type) : Type :=
  Prog FtpAnswer α

/-- Make one of the calls. -/
abbrev request (call : FtpCall) : FtpProg (FtpAnswer call) :=
  Prog.ask call

/-- The steps of a run. -/
abbrev FtpTrace : Type :=
  List (Step FtpAnswer)

/-- `rdp_opt_set`; `rdp_opt_add` and the parser have filled `rdp_tmp_*`. -/
def rdpOptSet (options : RdpOptions) : FtpProg Unit := do
  let _ ← request (.cspRdpSetOpt options)
  pure ()

/-- `rdp_opt_reset`, in front of the return. -/
def resetAndReturn
    (settings : Settings)
    (result : SlashResult) :
    FtpProg SlashResult := do
  let _ ← request (.cspRdpSetOpt settings.rdpDfl)
  pure result

section Arguments

/-- `strtoul` in base 16, which has to read the whole text. -/
def parseAddress (text : CString) : Except SlashResult Nat :=
  let parsed := strtoul 16 text
  if parsed.2 ≠ [] then
    .error .eusage
  else
    .ok parsed.1

/-- The number `parse_length` reads, in base 10 or with `0x` in base 16. -/
def lengthNumber (text : CString) : Except SlashResult Nat :=
  let decimal := strtoul 10 text
  if decimal.2 ≠ [] then
    let hexadecimal := strtoul 16 text
    if hexadecimal.2 ≠ [] ∨ strncmpEq 2 text "0x".toList = false then
      .error .eusage
    else
      .ok hexadecimal.1
  else
    .ok decimal.1

/-- `parse_length`: a number that fits in `uint32_t`. -/
def parseLength (text : CString) :
    Except SlashResult { length : Nat // length < 2 ^ 32 } :=
  match lengthNumber text with
  | .error result => .error result
  | .ok length =>
      if large : 2 ^ 32 - 1 < length then
        .error .einval
      else
        .ok ⟨length, by omega⟩

/-- What is downloaded, and to which file. -/
structure Target where
  address : Nat
  length : Nat
  file : CString
  length_lt : length < 2 ^ 32

/-- The arguments of `download`. -/
def downloadTarget : List CString → Except SlashResult Target
  | [] => .error .einval
  | addressText :: rest =>
      match parseAddress addressText, rest with
      | .error result, _ => .error result
      | .ok _, [] => .error .einval
      | .ok address, lengthText :: rest =>
          match parseLength lengthText, rest with
          | .error result, _ => .error result
          | .ok _, [] => .error .einval
          | .ok length, file :: _ =>
              .ok ⟨address, length.val, file, length.property⟩

/-- The file and the address that `upload` is given. -/
def uploadTarget : List CString → Except SlashResult (CString × Nat)
  | [] => .error .einval
  | [_] => .error .einval
  | file :: addressText :: _ =>
      match parseAddress addressText with
      | .error result => .error result
      | .ok address => .ok (file, address)

end Arguments

section Download

/-- The name of the status file; `file_status` has room for 128 bytes. -/
def fileStatus (file : CString) : CString :=
  file.take 127 ++ "stat".toList

/-- The options of `download`. -/
structure DownloadOptions where
  node : Nat
  timeout : Nat
  version : Nat
  useRdp : Nat
  rdp : RdpOptions
  deriving Repr, DecidableEq

/-- The offset to download from, if the file could be opened. -/
def offsetIfOpened (opened : Bool) (offset : Nat) : Except SlashResult Nat :=
  if opened then .ok offset else .error .einval

/--
The opening of the file, with the offset to download from: the user decides
whether it resumes where the status file says.
-/
def openFile (file : CString) : FtpProg (Except SlashResult Nat) := do
  let status : Option CString ← request (.readStatus (fileStatus file))
  match status with
  | none => do
      let opened : Bool ← request (.openTruncate file)
      pure (offsetIfOpened opened 0)
  | some text =>
      match scanUnsigned text with
      | none => pure (.error .einval)
      | some offset => do
          let typed : CString ← request .slashReadline
          if typed ≠ "yes".toList then do
            let opened : Bool ← request (.openTruncate file)
            pure (offsetIfOpened opened 0)
          else do
            let opened : Bool ← request (.openAppend file)
            pure (offsetIfOpened opened offset)

/--
What follows a download of `count` bytes: the status file is written, or
removed when nothing is missing.
-/
def recordOutcome
    (settings : Settings)
    (target : Target)
    (offset : Nat)
    (count : Int) :
    FtpProg SlashResult :=
  if count = settings.cspErrTimedout then
    pure .eio
  else if count = settings.cspErrNobufs then
    pure .enomem
  else if count ≠ toInt (target.length - offset) then do
    let _ ←
      request
        (.writeStatus (fileStatus target.file)
          (printUnsigned (toUnsigned (count + offset))))
    pure .success
  else do
    let _ ← request (.removeFile (fileStatus target.file))
    pure .success

/-- The download from an offset on, behind the opening of the file. -/
def receive
    (settings : Settings)
    (options : DownloadOptions)
    (target : Target)
    (offset : Nat) :
    FtpProg SlashResult :=
  if target.length < offset then
    pure .einval
  else do
    let answer : FileDownload (target.length - offset) ←
      request
        (.vmemDownload options.node options.timeout
          ((target.address + offset) % 2 ^ 64) (target.length - offset)
          options.version options.useRdp)
    if answer.ret < 0 then
      pure .einval
    else do
      let _ ← request (.writeData target.file answer.received)
      let result ← recordOutcome settings target offset answer.ret
      resetAndReturn settings result

/-- The download of a target. -/
def download
    (settings : Settings)
    (options : DownloadOptions)
    (target : Target) :
    FtpProg SlashResult := do
  let opened ← openFile target.file
  match opened with
  | .error result => pure result
  | .ok offset => receive settings options target offset

/-- `vmem_client_slash_download`. -/
def vmemClientSlashDownload
    (settings : Settings)
    (parsed : Parsed DownloadOptions) :
    FtpProg SlashResult :=
  match parsed with
  | none => pure .einval
  | some (options, arguments) => do
      rdpOptSet options.rdp
      match downloadTarget arguments with
      | .error result => pure result
      | .ok target => download settings options target

end Download

section Upload

/-- The options of `upload`. -/
structure UploadOptions where
  node : Nat
  timeout : Nat
  version : Nat
  offset : Nat
  rdp : RdpOptions
  deriving Repr, DecidableEq

/-- The offset that is suggested for resuming, in unsigned arithmetic. -/
def suggestedUploadOffset (offset : Nat) (count : Int) (window mtu : Nat) :
    Nat :=
  let sent := toUnsigned (offset + count)
  let unacknowledged := (window + 1) * mtu % 2 ^ 32
  if unacknowledged < sent then
    sent - unacknowledged
  else
    0

/-- What follows `vmem_upload`. -/
def uploadOutcome
    (settings : Settings)
    (offset size : Nat)
    (count : Int) :
    FtpProg SlashResult :=
  if count = settings.cspErrTimedout then
    pure .eio
  else if count = settings.cspErrNobufs then
    pure .enomem
  else if count % 2 ^ 64 ≠ size then do
    let window : Nat ← request .cspRdpGetOpt
    let _ ←
      request
        (.printSuggestedOffset
          (suggestedUploadOffset offset count window settings.vmemServerMtu))
    pure .eio
  else
    pure .success

/-- The upload of a file to an address, from the offset of the options on. -/
def upload
    (settings : Settings)
    (options : UploadOptions)
    (file : CString)
    (address : Nat) :
    FtpProg SlashResult := do
  let opened : Option (List UInt8) ← request (.readFile file)
  match opened with
  | none => pure .einval
  | some content => do
      let data := content.drop options.offset
      let count : Int ←
        request
          (.vmemUpload options.node options.timeout
            ((address + options.offset) % 2 ^ 64) data options.version)
      let result ← uploadOutcome settings options.offset data.length count
      resetAndReturn settings result

/-- `vmem_client_slash_upload`. -/
def vmemClientSlashUpload
    (settings : Settings)
    (parsed : Parsed UploadOptions) :
    FtpProg SlashResult :=
  match parsed with
  | none => pure .einval
  | some (options, arguments) => do
      rdpOptSet options.rdp
      match uploadTarget arguments with
      | .error result => pure result
      | .ok (file, address) => upload settings options file address

end Upload

section Runs

variable {settings : Settings}
variable {trace : FtpTrace}
variable {result : SlashResult}

theorem eq_of_runs_rdpOptSet
    {options : RdpOptions}
    (run : Runs (rdpOptSet options) trace ()) :
    trace = [⟨.cspRdpSetOpt options, ()⟩] := by
  obtain ⟨_, rfl, _⟩ := runs_ask_return_iff.mp run
  rfl

theorem runs_resetAndReturn_iff
    {value : SlashResult} :
    Runs (resetAndReturn settings result) trace value ↔
      trace = [⟨.cspRdpSetOpt settings.rdpDfl, ()⟩] ∧ value = result := by
  constructor
  · intro run
    obtain ⟨_, rfl, rfl⟩ := runs_ask_return_iff.mp run
    exact ⟨rfl, rfl⟩
  · rintro ⟨rfl, rfl⟩
    exact .call _ (.done _)

/-- The steps that open the file, and the offset they lead to. -/
inductive Opens (file : CString) :
    FtpTrace → Except SlashResult Nat → Prop where
  | started (opened : Bool) :
      Opens file
        [⟨.readStatus (fileStatus file), none⟩, ⟨.openTruncate file, opened⟩]
        (offsetIfOpened opened 0)
  | unreadable
      {text : CString}
      (unread : scanUnsigned text = none) :
      Opens file [⟨.readStatus (fileStatus file), some text⟩] (.error .einval)
  | restarted
      {text typed : CString}
      {offset : Nat}
      (read : scanUnsigned text = some offset)
      (declined : typed ≠ "yes".toList)
      (opened : Bool) :
      Opens file
        [⟨.readStatus (fileStatus file), some text⟩, ⟨.slashReadline, typed⟩,
          ⟨.openTruncate file, opened⟩]
        (offsetIfOpened opened 0)
  | resumed
      {text : CString}
      {offset : Nat}
      (read : scanUnsigned text = some offset)
      (opened : Bool) :
      Opens file
        [⟨.readStatus (fileStatus file), some text⟩,
          ⟨.slashReadline, "yes".toList⟩, ⟨.openAppend file, opened⟩]
        (offsetIfOpened opened offset)

theorem opens_of_runs
    {file : CString}
    {value : Except SlashResult Nat}
    (run : Runs (openFile file) trace value) :
    Opens file trace value := by
  obtain ⟨status, _, rfl, behindStatus⟩ := runs_ask_bind_iff.mp run
  cases status with
  | none =>
      obtain ⟨opened, _, rfl, done⟩ := runs_ask_bind_iff.mp behindStatus
      obtain ⟨rfl, rfl⟩ := runs_pure_iff.mp done
      exact .started opened
  | some text =>
      dsimp only at behindStatus
      split at behindStatus
      · rename_i unread
        obtain ⟨rfl, rfl⟩ := runs_pure_iff.mp behindStatus
        exact .unreadable unread
      · rename_i offset read
        obtain ⟨typed, _, rfl, behindLine⟩ :=
          runs_ask_bind_iff.mp behindStatus
        split at behindLine
        · rename_i declined
          obtain ⟨opened, _, rfl, done⟩ := runs_ask_bind_iff.mp behindLine
          obtain ⟨rfl, rfl⟩ := runs_pure_iff.mp done
          exact .restarted read declined opened
        · rename_i accepted
          obtain ⟨opened, _, rfl, done⟩ := runs_ask_bind_iff.mp behindLine
          obtain ⟨rfl, rfl⟩ := runs_pure_iff.mp done
          obtain rfl := not_not.mp accepted
          exact .resumed read opened

/-- The comparison of two `int`s finds out whether everything arrived. -/
theorem eq_toInt_iff
    {target : Target}
    {offset : Nat}
    {count : Int}
    (count_nonneg : 0 ≤ count)
    (count_lt : count < 2 ^ 31)
    (offset_le : offset ≤ target.length) :
    count = toInt (target.length - offset) ↔
      count + offset = target.length := by
  have length_lt := target.length_lt
  unfold toInt
  rw [Int.bmod_def]
  omega

/-- The status file is removed if everything arrived and written otherwise. -/
theorem recordOutcome_cases
    {target : Target}
    {offset : Nat}
    {count : Int}
    (count_nonneg : 0 ≤ count)
    (count_lt : count < 2 ^ 31)
    (offset_le : offset ≤ target.length)
    (run : Runs (recordOutcome settings target offset count) trace result) :
    result = .success ∧
      if count + offset = target.length then
        trace = [⟨.removeFile (fileStatus target.file), ()⟩]
      else
        ∃ written,
          trace =
            [⟨.writeStatus (fileStatus target.file)
                (printUnsigned (toUnsigned (count + offset))), written⟩] := by
  have timedout_neg := settings.timedout_neg
  have nobufs_neg := settings.nobufs_neg
  have whole := eq_toInt_iff count_nonneg count_lt offset_le
  rw [recordOutcome, if_neg (by omega), if_neg (by omega)] at run
  by_cases complete : count + offset = target.length
  · rw [if_neg (not_not_intro (whole.mpr complete))] at run
    obtain ⟨_, rfl, rfl⟩ := runs_ask_return_iff.mp run
    rw [if_pos complete]
    exact ⟨rfl, rfl⟩
  · rw [if_pos (mt whole.mp complete)] at run
    obtain ⟨written, rfl, rfl⟩ := runs_ask_return_iff.mp run
    rw [if_neg complete]
    exact ⟨rfl, written, rfl⟩

/-- The call of `vmem_download` from an offset on. -/
abbrev downloadCall
    (options : DownloadOptions)
    (target : Target)
    (offset : Nat) :
    FtpCall :=
  .vmemDownload options.node options.timeout
    ((target.address + offset) % 2 ^ 64) (target.length - offset)
    options.version options.useRdp

/-- The steps of a download from an offset on, by what the node answers. -/
inductive Receives
    (settings : Settings)
    (options : DownloadOptions)
    (target : Target)
    (offset : Nat) :
    FtpTrace → Prop where
  | beyond (large : target.length < offset) :
      Receives settings options target offset []
  | failed
      {answer : FileDownload (target.length - offset)}
      (negative : answer.ret < 0) :
      Receives settings options target offset
        [⟨downloadCall options target offset, answer⟩]
  | incomplete
      {answer : FileDownload (target.length - offset)}
      (nonnegative : 0 ≤ answer.ret)
      (missing : answer.ret + offset ≠ target.length)
      (written : Bool) :
      Receives settings options target offset
        [⟨downloadCall options target offset, answer⟩,
          ⟨.writeData target.file answer.received, ()⟩,
          ⟨.writeStatus (fileStatus target.file)
              (printUnsigned (toUnsigned (answer.ret + offset))), written⟩,
          ⟨.cspRdpSetOpt settings.rdpDfl, ()⟩]
  | complete
      {answer : FileDownload (target.length - offset)}
      (nonnegative : 0 ≤ answer.ret)
      (whole : answer.ret + offset = target.length) :
      Receives settings options target offset
        [⟨downloadCall options target offset, answer⟩,
          ⟨.writeData target.file answer.received, ()⟩,
          ⟨.removeFile (fileStatus target.file), ()⟩,
          ⟨.cspRdpSetOpt settings.rdpDfl, ()⟩]

theorem receives_of_runs
    {options : DownloadOptions}
    {target : Target}
    {offset : Nat}
    (run : Runs (receive settings options target offset) trace result) :
    Receives settings options target offset trace := by
  unfold receive at run
  split at run
  · rename_i beyond
    obtain ⟨rfl, _⟩ := runs_pure_iff.mp run
    exact .beyond beyond
  · rename_i within
    obtain ⟨answer, _, rfl, behindDownload⟩ := runs_ask_bind_iff.mp run
    split at behindDownload
    · rename_i negative
      obtain ⟨rfl, _⟩ := runs_pure_iff.mp behindDownload
      exact .failed negative
    · rename_i nonnegative
      obtain ⟨_, _, rfl, behindWrite⟩ := runs_ask_bind_iff.mp behindDownload
      obtain ⟨recording, recorded, _, rfl, records, behindRecord⟩ :=
        runs_bind_iff.mp behindWrite
      obtain ⟨rfl, _⟩ := runs_resetAndReturn_iff.mp behindRecord
      obtain ⟨_, recording⟩ :=
        recordOutcome_cases (not_lt.mp nonnegative) answer.ret_lt
          (Nat.le_of_not_lt within) records
      split at recording
      · rename_i whole
        obtain rfl := recording
        exact .complete (not_lt.mp nonnegative) whole
      · rename_i missing
        obtain ⟨written, rfl⟩ := recording
        exact .incomplete (not_lt.mp nonnegative) missing written

/-- The opening of the file fails or a transfer follows it. -/
theorem download_cases
    {options : DownloadOptions}
    {target : Target}
    (run : Runs (download settings options target) trace result) :
    (∃ error, Opens target.file trace (.error error)) ∨
      ∃ offset opening receiving,
        trace = opening ++ receiving ∧
          Opens target.file opening (.ok offset) ∧
            Receives settings options target offset receiving := by
  obtain ⟨opening, opened, behind, rfl, opens, behindOpen⟩ :=
    runs_bind_iff.mp run
  have shape := opens_of_runs opens
  cases opened with
  | error error =>
      obtain ⟨rfl, _⟩ := runs_pure_iff.mp behindOpen
      rw [List.append_nil]
      exact .inl ⟨error, shape⟩
  | ok offset =>
      exact
        .inr ⟨offset, opening, behind, rfl, shape, receives_of_runs behindOpen⟩

/-- A line that is not rejected sets its options first. -/
theorem exists_of_runs_download
    {options : DownloadOptions}
    {arguments : List CString}
    (run :
      Runs (vmemClientSlashDownload settings (some (options, arguments)))
        trace result) :
    ∃ later,
      trace = ⟨.cspRdpSetOpt options.rdp, ()⟩ :: later ∧
        match downloadTarget arguments with
        | .error _ => later = []
        | .ok target =>
            Runs (download settings options target) later result := by
  obtain ⟨_, _, later, rfl, sets, behindSet⟩ := runs_bind_iff.mp run
  obtain rfl := eq_of_runs_rdpOptSet sets
  refine ⟨later, rfl, ?_⟩
  split at behindSet
  · exact (runs_pure_iff.mp behindSet).1
  · exact behindSet

end Runs

end Csh.FileTransfer
