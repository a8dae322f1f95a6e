import Csh.FileTable

namespace Csh.Spaceboot

open Libc Interaction Walkdir History

/-!
# Uploads and the bounds of a slot

Only the validator of the search compares the length of an image with the slot,
in 32-bit arithmetic.  An upload leaves the slot if the image is longer: it came
with `-f`, was not what the search validated, or made the sum wrap.
-/

/-- Every upload lies in the memory area that was found for the slot. -/
def Trace.WithinSlot (trace : Trace) : Prop :=
  ∀ (node timeout : Nat) (name : CString) (area : VmemArea),
    ⟨.vmemClientFind node timeout name, area⟩ ∈ trace →
      0 < area.size →
        area.vaddr + area.size ≤ 2 ^ 32 →
          ∀ (node timeout : Nat) (address count : Int) (data : List UInt8),
            ⟨.vmemUpload node timeout address data, count⟩ ∈ trace →
              area.vaddr ≤ toUnsigned address ∧
                toUnsigned address + data.length ≤ area.vaddr + area.size

/--
The search of the command read the file with the same contents, and validated
it by a sum of the base address and the length that does not wrap.
-/
def SlotCommand.SizeTested
    (command : SlotCommand)
    (area : VmemArea)
    (before : Trace)
    (path : CString)
    (file : FileRead) :
    Prop :=
  command.filename? = none ∧
    area.vaddr + file.data.length < 2 ^ 32 ∧
    ∃ validated : FileRead,
      ⟨.readFile path, some validated⟩ ∈ before ∧
        area.validates path validated = true ∧
        validated.data = file.data

/-- A file longer than the slot is programmed. -/
def Trace.Overruns (trace : Trace) : Prop :=
  ∃ (before : Trace) (path : CString) (file : FileRead)
    (node timeout : Nat) (name : CString) (area : VmemArea),
    trace.ProgramsFile before path file ∧
      ⟨.vmemClientFind node timeout name, area⟩ ∈ before ∧
      area.vaddr + area.size ≤ 2 ^ 32 ∧
      area.size < file.data.length

section SizeTest

/-- Every accepted image has passed the size test. -/
theorem fits_of_isValidImage
    {binf : BinInfo}
    {image : Image}
    {ident : BinFileIdent}
    (accepted : (isValidImage binf image ident).1 = true) :
    binf.fits image.len = true := by
  have fits_of_hasEntry :
      binf.hasEntry image = true → binf.fits image.len = true := by
    intro entry
    exact (Bool.and_eq_true _ _ ▸ entry).1
  unfold isValidImage at accepted
  split at accepted
  · dsimp only at accepted
    split at accepted
    · rename_i placed
      exact (Bool.and_eq_true _ _ ▸ placed).2
    · simp at accepted
  · exact fits_of_hasEntry accepted

/-- In a slot that does not wrap the size test keeps the image inside. -/
theorem length_lt_of_fits
    {binf : BinInfo}
    {area : VmemArea}
    {len : Nat}
    (size : area.size ≠ 0)
    (inside : area.vaddr + area.size ≤ 2 ^ 32)
    (noWrap : area.vaddr + len < 2 ^ 32)
    (fits : (binf.searching area).fits len = true) :
    len < area.size := by
  have lastByte : area.addrMax = area.vaddr + area.size - 1 := by
    unfold VmemArea.addrMax
    omega
  have bound : (area.vaddr + len) % 2 ^ 32 ≤ area.addrMax :=
    of_decide_eq_true fits
  rw [lastByte, Nat.mod_eq_of_lt noWrap] at bound
  omega

/-- A file that passed the size test is shorter than the slot. -/
theorem SlotCommand.SizeTested.length_lt
    {command : SlotCommand}
    {area : VmemArea}
    {before : Trace}
    {path : CString}
    {file : FileRead}
    (tested : command.SizeTested area before path file)
    (size : area.size ≠ 0)
    (inside : area.vaddr + area.size ≤ 2 ^ 32) :
    file.data.length < area.size := by
  obtain ⟨_, noWrap, validated, _, validates, same⟩ := tested
  obtain ⟨_, accepted⟩ := Bool.and_eq_true _ _ ▸ validates
  obtain ⟨image, read, accepted⟩ := (Option.any_eq_true _ _).mp accepted
  have len : image.len = file.data.length := by
    unfold FileRead.image? at read
    split at read
    · simp at read
    · obtain rfl := Option.some.inj read
      rw [Image.len, same]
  have fits := fits_of_isValidImage accepted
  rw [len] at fits
  exact length_lt_of_fits size inside noWrap fits

/-- Nothing overruns a slot if each file that is programmed was tested. -/
theorem Trace.not_overruns_of_sizeTested
    {command : SlotCommand}
    {trace : Trace}
    (tested :
      ∀ before path file, trace.ProgramsFile before path file →
        ∀ (node timeout : Nat) (name : CString) (area : VmemArea),
          ⟨.vmemClientFind node timeout name, area⟩ ∈ before →
            area.size ≠ 0 ∧ command.SizeTested area before path file) :
    ¬ trace.Overruns := by
  rintro ⟨before, path, file, _, _, _, area, programs, found, inside, longer⟩
  obtain ⟨size, sizeTested⟩ := tested before path file programs _ _ _ area found
  have shorter := sizeTested.length_lt size inside
  omega

end SizeTest

section Bounds

variable {settings : Settings}
variable {command : SlotCommand}
variable {binf final : BinInfo}
variable {trace : Trace}

/-- The image holds the bytes that were read from its file. -/
theorem data_of_image?
    {file : FileRead}
    {image : Image}
    (read : file.image? = some image) :
    image.data = file.data := by
  unfold FileRead.image? at read
  split at read
  · simp at read
  · obtain rfl := Option.some.inj read
    rfl

/-- Addresses are cut to `int` and back without loss. -/
theorem toUnsigned_toInt_vaddr
    (area : VmemArea) :
    toUnsigned (toInt area.vaddr) = area.vaddr := by
  have bound := area.vaddr_lt
  have residue : toInt area.vaddr % 2 ^ 32 = (area.vaddr : Int) % 2 ^ 32 :=
    Int.bmod_emod
  rw [toUnsigned, residue]
  omega

/-- What the shape of an upload says about its range. -/
theorem withinSlot_iff_of_uploads
    (uploads : command.Uploads binf trace final) :
    trace.WithinSlot ↔ ¬ trace.Overruns := by
  obtain @⟨opening, selection, contacting, rest, node, timeout, pathSize,
    name, path, area, file, image, count, final, apart, size, selected,
    contacts, read, plain⟩ := uploads
  let find : Step SpacebootAnswer :=
    ⟨.vmemClientFind node timeout name, area⟩
  let reading : Step SpacebootAnswer := ⟨.readFile path, some file⟩
  let upload : Step SpacebootAnswer :=
    ⟨.vmemUpload node 10000 (toInt area.vaddr) image.data, count⟩
  let lead : Trace := opening ++ find :: (selection ++ contacting)
  have selects : Trace.Only .selecting selection :=
    onlyKind_selectFile _ _ _ _ _ _ selected
  have noFind :
      ∀ step ∈ selection ++ contacting ++ reading :: upload :: rest,
        ¬ step.request.IsFind :=
    noFind_behind_find selects contacts trivial trivial plain
  have noUpload : Trace.NoUpload (lead ++ [reading]) :=
    noUpload_up_to_read apart trivial selects contacts trivial
  have onlyFind :
      ∀ step ∈ lead ++ reading :: upload :: rest,
        step.request.IsFind →
          step = ⟨.vmemClientFind node timeout name, area⟩ := by
    intro step member isFind
    rw [List.append_assoc, List.cons_append] at member
    exact eq_of_mem_append_cons
      (fun step early => (apart.plain step early).1) noFind member isFind
  have onlyUpload :
      ∀ step ∈ lead ++ reading :: upload :: rest,
        step.request.IsUpload →
          step =
            ⟨.vmemUpload node 10000 (toInt area.vaddr) image.data,
              count⟩ := by
    intro step member isUpload
    rw [List.append_cons] at member
    exact eq_of_mem_append_cons noUpload
      (fun step late => (plain step late).2.2) member isUpload
  have findMember : find ∈ lead := by
    simp [lead]
  have programs_iff :
      ∀ {before : Trace} {otherPath : CString} {otherFile : FileRead}, _ :=
    fun {before otherPath otherFile} =>
      @programsFile_iff lead path file upload rest before otherPath otherFile
        trivial
        (List.forall_mem_cons.mpr
          ⟨id, fun step late => (plain step late).2.1⟩)
  have sameData := data_of_image? read
  constructor
  · rintro within ⟨_, _, _, _, _, _, _, programs, found, inside, longer⟩
    obtain ⟨rfl, rfl, rfl⟩ := programs_iff.mp programs
    cases onlyFind _ (List.mem_append_left _ found) trivial
    have range := within _ _ _ _ (List.mem_append_left _ findMember)
      (Nat.pos_of_ne_zero size) inside _ _ _ _ _
      (show upload ∈ lead ++ reading :: upload :: rest by simp)
    rw [toUnsigned_toInt_vaddr, sameData] at range
    omega
  · intro noOverrun _ _ _ otherArea found positive inside _ _ _ _ data uploaded
    cases onlyFind _ found trivial
    cases onlyUpload _ uploaded trivial
    rw [toUnsigned_toInt_vaddr, sameData]
    refine ⟨Nat.le_refl _, ?_⟩
    by_contra longer
    exact noOverrun ⟨lead, path, file, node, timeout, name, area,
      programs_iff.mpr ⟨rfl, rfl, rfl⟩, findMember, inside, by omega⟩

/--
The commands write past a slot exactly when a file that is longer than the
slot is programmed.
-/
theorem withinSlot_iff_not_overruns
    (settings : Settings)
    (command : SlotCommand)
    (binf : BinInfo) :
    ∀ (trace : Trace) (value : SlashResult × BinInfo),
      Runs (command.run settings binf) trace value →
        (trace.WithinSlot ↔ ¬ trace.Overruns) := by
  intro trace value run
  rcases command.uploads_or_selects_of_runs run with ⟨none, _⟩ | uploads
  · have within : trace.WithinSlot := by
      intro _ _ _ _ _ _ _ _ _ _ _ _ member
      exact (none _ member trivial).elim
    refine iff_of_true within ?_
    rintro ⟨before, path, file, _, _, _, _, programs, _⟩
    exact not_programsFile_of_noUpload none programs
  · exact withinSlot_iff_of_uploads uploads

/-- `program -F -f x 0`. -/
def programFile : SlotCommand :=
  .program (some (⟨1, some ['x'], true, false⟩, [['0']]))

/-- A file of eight bytes. -/
def eightBytes : FileRead :=
  ⟨8, List.replicate 8 0, fun _ => 0, [], by simp⟩

/-- The steps of `program` when the node takes eight bytes. -/
def programmedFile (area : VmemArea) : Trace :=
  [⟨.vmemClientFind 1 1000 ['f', 'l', '0'], area⟩,
    ⟨.cspCmpIdent 1, (0 : Int)⟩,
    ⟨.readFile ['x'], some eightBytes⟩,
    ⟨.vmemUpload 1 10000 (toInt area.vaddr) eightBytes.data, (8 : Int)⟩,
    ⟨.malloc 8, ⟨eightBytes.data, rfl⟩⟩,
    ⟨.vmemDownload 1 10000 (toInt area.vaddr) 8,
      ⟨8, eightBytes.data, by decide, .inl rfl⟩⟩,
    ⟨.cspRdpSetOpt deliveredSettings.rdpDfl, ()⟩]

theorem runs_programFile
    {area : VmemArea}
    (size : area.size ≠ 0) :
    Runs (programFile.run deliveredSettings BinInfo.zero)
      (programmedFile area)
      (.success, BinInfo.zero.enterFilename ['x']) := by
  refine runs_ask_bind_iff.mpr ⟨area, _, rfl, ?_⟩
  have fits : FitsRow ['x'] := by
    decide
  rw [if_neg size]
  change Runs (selectFile 246 (some ['x']) area BinInfo.zero >>= _) _ _
  rw [selectFile_filename fits (terminated_zero 0)]
  exact .call _ (.call _ (.call _ (.call _ (.call _ (.call _ (.done _))))))

/-- A slot of `size` bytes at address zero. -/
def slotOfSize (size : Nat) (size_lt : size < 2 ^ 32) : VmemArea :=
  ⟨0, size, by decide, size_lt⟩

/-- Eight bytes are written to a slot of eight. -/
theorem program_fills_slot :
    (programmedFile (slotOfSize 8 (by decide))).WithinSlot := by
  have run := @runs_programFile (slotOfSize 8 (by decide)) (by decide)
  refine (withinSlot_iff_not_overruns _ _ _ _ _ run).mpr ?_
  rintro ⟨before, path, file, node, timeout, name, area, programs, found, _,
    longer⟩
  obtain ⟨after, same, _⟩ := programs
  have read :
      ⟨.readFile path, some file⟩ ∈
        programmedFile (slotOfSize 8 (by decide)) := by
    rw [same]
    simp
  have find :
      ⟨.vmemClientFind node timeout name, area⟩ ∈
        programmedFile (slotOfSize 8 (by decide)) := by
    rw [same]
    exact List.mem_append_left _ found
  obtain ⟨_, rfl⟩ : path = ['x'] ∧ file = eightBytes := by
    simpa [programmedFile] using read
  obtain ⟨_, rfl⟩ :
      (node = 1 ∧ timeout = 1000 ∧ name = ['f', 'l', '0']) ∧
        area = slotOfSize 8 (by decide) := by
    simpa [programmedFile] using find
  revert longer
  decide

/-- Eight bytes are written to a slot of four. -/
theorem program_writes_past_slot :
    ¬ ∀ (settings : Settings) (command : SlotCommand) (binf : BinInfo)
      (trace : Trace) (value : SlashResult × BinInfo),
      Runs (command.run settings binf) trace value → trace.WithinSlot := by
  intro within
  have run := @runs_programFile (slotOfSize 4 (by decide)) (by decide)
  have uploaded :
      ⟨.vmemUpload 1 10000 (toInt (0 : Nat)) eightBytes.data, (8 : Int)⟩ ∈
        programmedFile (slotOfSize 4 (by decide)) :=
    .tail _ (.tail _ (.tail _ (.head _)))
  have range :=
    within _ _ _ _ _ run _ _ _ _ List.mem_cons_self (by decide) (by decide)
      _ _ _ _ _ uploaded
  revert range
  decide

end Bounds

end Csh.Spaceboot
