import Csh.BinFile
import Csh.Lib.CNumber
import Csh.Slash

namespace Csh.Spaceboot

open Libc Interaction Walkdir

/-!
# Programming and switching slots

The commands `switch`, `program` and `sps`.  Everything outside the program is
a call with a free answer: the node, the file system, the user, and what a
fresh buffer holds.  `bin_info` outlives a command and is passed through it.
-/

/-- The six RDP options. -/
structure RdpOptions where
  window : Nat
  connTimeout : Nat
  packetTimeout : Nat
  delayedAcks : Nat
  ackTimeout : Nat
  ackCount : Nat
  deriving Repr, DecidableEq

/--
The defaults of the shell, the constants of libcsp and libparam and the CRC32
of libcsp.
-/
structure Settings where
  slashDflTimeout : Nat
  rdpDfl : RdpOptions
  cspErrTimedout : Int
  cspErrNobufs : Int
  vmemServerMtu : Nat
  cspCrc32Memory : List UInt8 → Nat
  timedout_neg : cspErrTimedout < 0
  nobufs_neg : cspErrNobufs < 0

/-- The shell as it is delivered; the CRC32 is only asked for with `-C`. -/
def deliveredSettings : Settings where
  slashDflTimeout := 1000
  rdpDfl := ⟨3, 10000, 5000, 1, 2000, 2⟩
  cspErrTimedout := -3
  cspErrNobufs := -9
  vmemServerMtu := 192
  cspCrc32Memory _ := 0
  timedout_neg := by decide
  nobufs_neg := by decide

/-- The address and size of a `vmem_list_t`, both `uint32_t`. -/
structure VmemArea where
  vaddr : Nat
  size : Nat
  vaddr_lt : vaddr < 2 ^ 32
  size_lt : size < 2 ^ 32

/-- One entry of the queue that sets the boot counters. -/
structure BootEntry where
  paramId : Nat
  offset : Int
  value : Nat
  deriving Repr, DecidableEq

/--
What `vmem_download` returns and stores in a buffer of `len` bytes: the bytes
it received, and their number or a negative error.
-/
structure Download (len : Nat) where
  ret : Int
  received : List UInt8
  length_le : received.length ≤ len
  ret_eq : ret = received.length ∨ ret < 0

/-- A fresh buffer of `malloc`, with whatever it holds. -/
abbrev FreshBuffer (len : Nat) : Type :=
  { bytes : List UInt8 // bytes.length = len }

/-- `vmem_client_calc_crc32`: its result and the CRC it stores. -/
structure Crc32Answer where
  res : Int
  crc : Nat
  deriving Repr, DecidableEq

/-- What the commands ask of or do to their surroundings. -/
inductive SpacebootCall where
  | cspCmpIdent (node : Nat)
  | paramListFindId (node id : Nat)
  | paramListCreateRemote (id node : Nat) (name : CString)
  | paramListAdd (id : Nat)
  | paramListRemoveSpecific (id : Nat)
  | paramPushQueue (node : Nat) (queue : List BootEntry)
  | cspReboot (node : Nat)
  | vmemClientFind (node timeout : Nat) (name : CString)
  | vmemUpload (node timeout : Nat) (address : Int) (data : List UInt8)
  | vmemDownload (node timeout : Nat) (address : Int) (len : Nat)
  | vmemClientCalcCrc32 (node timeout vaddr len : Nat)
  | cspRdpSetOpt (options : RdpOptions)
  | cspRdpGetOpt
  | printSuggestedOffset (offset : Nat)
  | opendir (path : CString)
  | lstat (path : CString)
  | interrupted
  | readFile (path : CString)
  | slashReadline
  | malloc (len : Nat)
  | uninitialisedIdent
  | textOutside (index : Int)
  deriving DecidableEq

/--
The answers.  `textOutside` is what a string that starts outside the table of
files reads as, and `cspRdpGetOpt` gives the window.
-/
abbrev SpacebootAnswer : SpacebootCall → Type
  | .cspCmpIdent _ => Int
  | .paramListFindId _ _ => Bool
  | .paramListCreateRemote _ _ _ => Unit
  | .paramListAdd _ => Int
  | .paramListRemoveSpecific _ => Unit
  | .paramPushQueue _ _ => Int
  | .cspReboot _ => Unit
  | .vmemClientFind _ _ _ => VmemArea
  | .vmemUpload _ _ _ _ => Int
  | .vmemDownload _ _ _ len => Download len
  | .vmemClientCalcCrc32 _ _ _ _ => Crc32Answer
  | .cspRdpSetOpt _ => Unit
  | .cspRdpGetOpt => Nat
  | .printSuggestedOffset _ => Unit
  | .opendir _ => Listing
  | .lstat _ => FileKind
  | .interrupted => Bool
  | .readFile _ => Option FileRead
  | .slashReadline => CString
  | .malloc len => FreshBuffer len
  | .uninitialisedIdent => BinFileIdent
  | .textOutside _ => CString

/-- A program over these calls. -/
abbrev SpacebootProg (α : Type) : Type :=
  Prog SpacebootAnswer α

/-- Make one of the calls. -/
abbrev request (call : SpacebootCall) : SpacebootProg (SpacebootAnswer call) :=
  Prog.ask call

section Switching

/-- `ping`. -/
def ping (node : Nat) : SpacebootProg Bool := do
  let answer : Int ← request (.cspCmpIdent node)
  pure (answer == 0)

/-- `param_id`, by slot. -/
def bootParamIds : List Nat :=
  [21, 20, 22, 23]

/--
The set-up of one remote parameter: whether it existed, which for a created
one is what `param_list_add` returns.
-/
def setupBootImg (node slot id : Nat) : SpacebootProg Bool := do
  let found : Bool ← request (.paramListFindId node id)
  if found then
    pure true
  else do
    let name := snprintf 10 ("boot_img".toList ++ printUnsigned slot)
    let _ ← request (.paramListCreateRemote id node name)
    let added : Int ← request (.paramListAdd id)
    pure (added != 0)

/-- The set-up of the remote parameters from slot `slot` on. -/
def setupBootImgs
    (node : Nat) :
    Nat → List Nat → SpacebootProg (List Bool)
  | _, [] => pure []
  | slot, id :: rest => do
      let existed ← setupBootImg node slot id
      let later ← setupBootImgs node (slot + 1) rest
      pure (existed :: later)

/-- Remove the parameters that are not marked as existing. -/
def removeBootImgs : List (Nat × Bool) → SpacebootProg Unit
  | [] => pure ()
  | (_, true) :: rest => removeBootImgs rest
  | (id, false) :: rest => do
      let _ ← request (.paramListRemoveSpecific id)
      removeBootImgs rest

/-- The queue that clears all boot counters and sets that of one slot. -/
def bootQueue (flash : Nat) (times : Nat) : List BootEntry :=
  (bootParamIds.map fun id => ⟨id, 0, 0⟩) ++
    [⟨bootParamIds.getD flash 0, 0, times % 256⟩]

/-- `reset_to_flash`; the waiting time is left out. -/
def resetToFlash
    (node : Nat)
    (flash : Int)
    (times : Nat) :
    SpacebootProg Unit := do
  let existed ← setupBootImgs node 0 bootParamIds
  if flash < 0 ∨ 4 ≤ flash then
    pure ()
  else do
    let _ ← request (.paramPushQueue node (bootQueue flash.toNat times))
    let _ ← request (.cspReboot node)
    removeBootImgs (bootParamIds.zip existed)
    let _ ← ping node
    pure ()

/-- The options of `switch`, without the delay. -/
structure SwitchOptions where
  node : Nat
  times : Nat
  deriving Repr, DecidableEq

/-- `slash_csp_switch`. -/
def slashCspSwitch
    (parsed : Parsed SwitchOptions) :
    SpacebootProg SlashResult :=
  match parsed with
  | none => pure .einval
  | some (_, []) => pure .einval
  | some (options, text :: _) => do
      let slot := toUnsigned (atoi text)
      resetToFlash options.node (toInt slot) options.times
      pure .success

end Switching

section Files

/-- `image_get`. -/
def imageGet (filename : CString) : SpacebootProg (Option Image) := do
  let opened : Option FileRead ← request (.readFile filename)
  pure (opened.bind FileRead.image?)

/-- `is_valid_binary`, from the uninitialised ident of its caller. -/
def isValidBinary
    (path : CString)
    (binf : BinInfo)
    (ident : BinFileIdent) :
    SpacebootProg (Bool × BinFileIdent) :=
  if hasBinExtension path = false then
    pure (false, ident)
  else do
    let opened ← imageGet path
    match opened with
    | none => pure (false, ident)
    | some image => pure (isValidImage binf image ident)

/-- `file_callback`. -/
def fileCallback
    (path : CString)
    (_lastEntry : CString)
    (binf : BinInfo) :
    SpacebootProg BinInfo := do
  let ident : BinFileIdent ← request .uninitialisedIdent
  let checked ← isValidBinary path binf ident
  if checked.1 then
    pure (binf.enter path checked.2)
  else
    pure binf

/-- `dir_callback`. -/
def dirCallback
    (_path _lastEntry : CString)
    (binf : BinInfo) :
    SpacebootProg (Bool × BinInfo) :=
  pure (true, binf)

/-- The file system and the signal of the shell. -/
def surroundings : Surroundings SpacebootAnswer where
  opendir path := request (.opendir path)
  lstat path := request (.lstat path)
  interrupted := request .interrupted

def callbacks : Callbacks SpacebootAnswer BinInfo where
  dirCb := dirCallback
  fileCb := fileCallback

/-- The end of the slot, computed with `uint32_t`. -/
def VmemArea.addrMax (area : VmemArea) : Nat :=
  (area.vaddr + area.size + (2 ^ 32 - 1)) % 2 ^ 32

/-- `bin_info` at the start of a search. -/
def BinInfo.searching (binf : BinInfo) (area : VmemArea) : BinInfo :=
  { binf with addrMin := area.vaddr, addrMax := area.addrMax, count := 0 }

/-- The string in the rows from `row` on, with the number of rows to go. -/
def readRows
    (binf : BinInfo) :
    Nat → Nat → SpacebootProg CString
  | 0, row => request (.textOutside row)
  | toGo + 1, row =>
      let text := (binf.files row).takeWhile (· != nul)
      if (binf.files row).contains nul then
        pure text
      else do
        let later ← readRows binf toGo (row + 1)
        pure (text ++ later)

/-- The string at `bin_info.files[index]`. -/
def pathAt (binf : BinInfo) (index : Int) : SpacebootProg CString :=
  if 0 ≤ index ∧ index < walkdirMaxEntries then
    readRows binf (walkdirMaxEntries - index.toNat) index.toNat
  else
    request (.textOutside index)

/-- `bin_info` with the `-f` argument as its first file. -/
def BinInfo.enterFilename (binf : BinInfo) (filename : CString) : BinInfo :=
  let row := strncpy nul (walkdirMaxPathSize - 1) (binf.files 0) filename
  { binf with
    files := fun index => if index = 0 then row else binf.files index
    count := 0 }

/-- The recursive search, and whether the command goes on behind it. -/
def searchFiles
    (pathSize : Nat)
    (area : VmemArea)
    (binf : BinInfo) :
    SpacebootProg (Bool × BinInfo) := do
  let walked ←
    walkdir surroundings callbacks pathSize 10 ['.'] (binf.searching area)
  let interrupted : Bool ← request .interrupted
  if interrupted then
    pure (false, walked.2)
  else if walked.2.count = 0 then
    pure (false, walked.2)
  else
    pure (true, walked.2)

/-- The files to choose from: the `-f` argument or what a search finds. -/
def listFiles
    (pathSize : Nat)
    (filename : Option CString)
    (area : VmemArea)
    (binf : BinInfo) :
    SpacebootProg (Bool × BinInfo) :=
  match filename with
  | some filename => pure (true, binf.enterFilename filename)
  | none => searchFiles pathSize area binf

/-- The path to program, with a prompt when there is more than one. -/
def chooseFile (binf : BinInfo) : SpacebootProg (Except SlashResult CString) :=
  if 1 < binf.count then do
    let typed : CString ← request .slashReadline
    if typed = [] then
      pure (.error .eusage)
    else do
      let path ← pathAt binf (atoi typed)
      pure (.ok path)
  else do
    let path ← pathAt binf 0
    pure (.ok path)

/-- The selection of the file to program. -/
def selectFile
    (pathSize : Nat)
    (filename : Option CString)
    (area : VmemArea)
    (binf : BinInfo) :
    SpacebootProg (Except SlashResult CString × BinInfo) := do
  let listed ← listFiles pathSize filename area binf
  if listed.1 then do
    let chosen ← chooseFile listed.2
    pure (chosen, listed.2)
  else
    pure (.error .einval, listed.2)

end Files

section Transfer

/-- The offset that is suggested for resuming, in 32-bit arithmetic. -/
def suggestedOffset (count : Int) (window mtu : Nat) : Nat :=
  if toInt ((toInt window + 1) * mtu) < count then
    toUnsigned (count - (window + 1) * mtu)
  else
    0

/-- `do_upload`. -/
def doUpload
    (settings : Settings)
    (node timeout : Nat)
    (address : Int)
    (data : List UInt8) :
    SpacebootProg SlashResult := do
  let count : Int ← request (.vmemUpload node timeout address data)
  if count = settings.cspErrTimedout then
    pure .eio
  else if count = settings.cspErrNobufs then
    pure .enomem
  else if count ≠ data.length then do
    let window : Nat ← request .cspRdpGetOpt
    let _ ←
      request
        (.printSuggestedOffset
          (suggestedOffset count window settings.vmemServerMtu))
    pure .eio
  else
    pure .success

/-- The buffer after a download: what was received, then what it held before. -/
def readBack
    {len : Nat}
    (fresh : List UInt8)
    (answer : Download len) :
    List UInt8 :=
  answer.received ++ fresh.drop answer.received.length

/-- `upload_and_verify`. -/
def uploadAndVerify
    (settings : Settings)
    (node : Nat)
    (address : Int)
    (data : List UInt8) :
    SpacebootProg SlashResult := do
  let res ← doUpload settings node 10000 address data
  if res.isError then
    pure res
  else do
    let fresh : FreshBuffer data.length ←
      request (.malloc data.length)
    let answer : Download data.length ←
      request (.vmemDownload node 10000 address data.length)
    if readBack fresh.val answer = data then
      pure .success
    else
      pure .einval

/-- The branch with `--crc32`; a failed upload returns from the command. -/
def uploadAndCompareCrc
    (settings : Settings)
    (node : Nat)
    (area : VmemArea)
    (data : List UInt8) :
    SpacebootProg (Except SlashResult SlashResult) := do
  let crc := settings.cspCrc32Memory data
  let result ← doUpload settings node 10000 (toInt area.vaddr) data
  if result.isError then
    pure (.error result)
  else do
    let answer : Crc32Answer ←
      request (.vmemClientCalcCrc32 node 10000 area.vaddr data.length)
    if 0 ≤ answer.res then
      if answer.crc = crc then
        pure (.ok result)
      else
        pure (.ok .enospc)
    else
      pure (.ok .enospc)

/-- Both branches of programming an image. -/
def transfer
    (settings : Settings)
    (doCrc32 : Bool)
    (node : Nat)
    (area : VmemArea)
    (data : List UInt8) :
    SpacebootProg (Except SlashResult SlashResult) :=
  if doCrc32 then
    uploadAndCompareCrc settings node area data
  else do
    let result ← uploadAndVerify settings node (toInt area.vaddr) data
    pure (.ok result)

/-- `rdp_opt_reset`. -/
def rdpOptReset (settings : Settings) : SpacebootProg Unit := do
  let _ ← request (.cspRdpSetOpt settings.rdpDfl)
  pure ()

/-- `rdp_opt_set`; `rdp_opt_add` and the parser have filled `rdp_tmp_*`. -/
def rdpOptSet (options : RdpOptions) : SpacebootProg Unit := do
  let _ ← request (.cspRdpSetOpt options)
  pure ()

/-- An error return behind `rdp_opt_reset`. -/
def resetAndReturn
    (settings : Settings)
    (result : SlashResult)
    (binf : BinInfo) :
    SpacebootProg (SlashResult × BinInfo) := do
  rdpOptReset settings
  pure (result, binf)

/-- The name of the memory area of a slot, in a buffer of five bytes. -/
def vmemName (slot : Nat) : CString :=
  snprintf 5 ("fl".toList ++ printUnsigned slot)

/--
What differs between `program` and `sps` once the slot is known: the name of
its memory area, the options, the size of the path buffer, the confirmation
and what follows a transfer that did not return from the command.
-/
structure Programming where
  node : Nat
  name : CString
  filename : Option CString
  pathSize : Nat
  doCrc32 : Bool
  confirm : SpacebootProg Bool
  finish : SlashResult → BinInfo → SpacebootProg (SlashResult × BinInfo)

/-- What `program` and `sps` share, from the request for the memory area on. -/
def programSlot
    (settings : Settings)
    (programming : Programming)
    (binf : BinInfo) :
    SpacebootProg (SlashResult × BinInfo) := do
  let area : VmemArea ←
    request
      (.vmemClientFind programming.node settings.slashDflTimeout
        programming.name)
  if area.size = 0 then
    resetAndReturn settings .einval binf
  else do
    let selected ←
      selectFile programming.pathSize programming.filename area binf
    match selected.1 with
    | .error result => resetAndReturn settings result selected.2
    | .ok path => do
        let reachable ← ping programming.node
        if reachable = false then
          resetAndReturn settings .einval selected.2
        else do
          let confirmed ← programming.confirm
          if confirmed = false then
            resetAndReturn settings .eusage selected.2
          else do
            let opened ← imageGet path
            match opened with
            | none => resetAndReturn settings .eio selected.2
            | some image => do
                let outcome ←
                  transfer settings programming.doCrc32 programming.node area
                    image.data
                match outcome with
                | .error result => pure (result, selected.2)
                | .ok result => programming.finish result selected.2

/-- The options of `program`; the RDP options given to it are not used. -/
structure ProgramOptions where
  node : Nat
  filename : Option CString
  force : Bool
  doCrc32 : Bool
  deriving Repr, DecidableEq

/-- The confirmation of `program`. -/
def confirmed (force : Bool) : SpacebootProg Bool :=
  if force then
    pure true
  else do
    let typed : CString ← request .slashReadline
    pure (typed == "yes".toList)

/-- How `program` programs a slot. -/
def ProgramOptions.programming
    (settings : Settings)
    (options : ProgramOptions)
    (slot : Nat) :
    Programming where
  node := options.node
  name := vmemName slot
  filename := options.filename
  pathSize := walkdirMaxPathSize - 10
  doCrc32 := options.doCrc32
  confirm := confirmed options.force
  finish := resetAndReturn settings

/-- `slash_csp_program`. -/
def slashCspProgram
    (settings : Settings)
    (parsed : Parsed ProgramOptions)
    (binf : BinInfo) :
    SpacebootProg (SlashResult × BinInfo) :=
  match parsed with
  | none => pure (.einval, binf)
  | some (_, []) => resetAndReturn settings .einval binf
  | some (options, text :: _) =>
      let slot := toUnsigned (atoi text)
      programSlot settings (options.programming settings slot) binf

/-- The options of `sps`, without the delay. -/
structure SpsOptions where
  node : Nat
  filename : Option CString
  doCrc32 : Bool
  rdp : RdpOptions
  deriving Repr, DecidableEq

/-- The end of `sps`: a programmed slot is switched to. -/
def switchAndReturn
    (settings : Settings)
    (node : Nat)
    (flash : Int)
    (result : SlashResult)
    (binf : BinInfo) :
    SpacebootProg (SlashResult × BinInfo) :=
  if result = .success then do
    resetToFlash node flash 1
    resetAndReturn settings result binf
  else
    resetAndReturn settings result binf

/-- How `sps` programs a slot; it asks for no confirmation. -/
def SpsOptions.programming
    (settings : Settings)
    (options : SpsOptions)
    (slot : Nat) :
    Programming where
  node := options.node
  name := vmemName slot
  filename := options.filename
  pathSize := walkdirMaxPathSize
  doCrc32 := options.doCrc32
  confirm := pure true
  finish := switchAndReturn settings options.node (toInt slot)

/-- `slash_sps`. -/
def slashSps
    (settings : Settings)
    (parsed : Parsed SpsOptions)
    (binf : BinInfo) :
    SpacebootProg (SlashResult × BinInfo) :=
  match parsed with
  | none => resetAndReturn settings .einval binf
  | some (options, arguments) => do
      rdpOptSet options.rdp
      match arguments with
      | [] => resetAndReturn settings .einval binf
      | [_] => resetAndReturn settings .einval binf
      | fromText :: toText :: _ => do
          let fromSlot := toUnsigned (atoi fromText)
          let toSlot := toUnsigned (atoi toText)
          resetToFlash options.node (toInt fromSlot) 1
          programSlot settings (options.programming settings toSlot) binf

end Transfer

end Csh.Spaceboot
