import Csh.SlotCommands
import Mathlib.Data.List.TakeDrop

namespace Csh.Spaceboot

open Libc Interaction Walkdir History

/-!
# Slot arguments

A slot argument goes through `atoi`, is taken as unsigned for the name of the
memory area, which is cut to four characters, and as signed for the boot
counters.  What is sent to the node acts on the slot that the text is a decimal
numeral of only for the numerals that survive all three.
-/

/-- Something is sent to the node. -/
def SpacebootCall.IsSent : SpacebootCall → Prop
  | .cspCmpIdent _ => True
  | .paramPushQueue _ _ => True
  | .cspReboot _ => True
  | .vmemClientFind _ _ _ => True
  | .vmemUpload _ _ _ _ => True
  | .vmemDownload _ _ _ _ => True
  | .vmemClientCalcCrc32 _ _ _ _ => True
  | _ => False

/--
Whatever is sent, the text is a numeral; a memory area is requested by its
name, and the boot counters are those of its number.
-/
def SpacebootCall.ActsOn (call : SpacebootCall) (text : CString) : Prop :=
  match call with
  | .vmemClientFind _ _ name =>
      ∃ slot, IsNumeral text slot ∧ name = "fl".toList ++ printUnsigned slot
  | .paramPushQueue _ queue =>
      ∃ slot times,
        slot < 4 ∧ IsNumeral text slot ∧ queue = bootQueue slot times
  | call => call.IsSent → ∃ slot, IsNumeral text slot

/-- Everything that is sent acts on the slot of the text. -/
def Trace.ActsOn (trace : Trace) (text : CString) : Prop :=
  ∀ step ∈ trace, step.request.ActsOn text

/-- Uploads go to the memory area that was found. -/
def Trace.UploadsToFound (trace : Trace) : Prop :=
  ∀ node timeout address data count,
    ⟨.vmemUpload node timeout address data, count⟩ ∈ trace →
      ∃ timeout name area,
        ⟨.vmemClientFind node timeout name, area⟩ ∈ trace ∧
          address = toInt area.vaddr

/--
The first request for a memory area divides a run of `sps`: what comes in front
of it acts on the slot of the first text, what begins with it on that of the
second, and both are numerals.
-/
def Trace.ActsOnBoth (trace : Trace) (fromText toText : CString) : Prop :=
  ∃ opening find slot,
    trace = opening ++ find :: slot ∧
      find.request.IsFind ∧
      (∀ step ∈ opening, ¬ step.request.IsFind) ∧
      (∃ number, IsNumeral fromText number) ∧
      Trace.ActsOn opening fromText ∧
      Trace.ActsOn (find :: slot) toText

section Names

variable {text : CString}
variable {slot : Nat}

theorem length_printUnsigned_le_two_iff
    (slot : Nat) :
    (printUnsigned slot).length ≤ 2 ↔ slot < 100 :=
  Nat.length_toDigits_le_iff (by decide) (by decide)

/-- The buffer of five bytes holds the names of a hundred slots. -/
theorem vmemName_eq_iff
    (slot : Nat) :
    vmemName slot = "fl".toList ++ printUnsigned slot ↔ slot < 100 := by
  have length :
      ("fl".toList ++ printUnsigned slot).length =
        2 + (printUnsigned slot).length :=
    List.length_append
  rw [vmemName, snprintf, List.take_eq_self_iff, length,
    ← length_printUnsigned_le_two_iff]
  omega

/-- `atoi` gives an `int`, which unsigned and back is the same. -/
theorem toInt_toUnsigned_atoi
    (text : CString) :
    toInt (toUnsigned (atoi text)) = atoi text := by
  have unsigned :
      ((toUnsigned (atoi text) : Nat) : Int) = atoi text % 2 ^ 32 :=
    Int.toNat_of_nonneg (Int.emod_nonneg _ (by decide))
  have residue :
      (atoi text % 2 ^ 32).bmod (2 ^ 32) = (atoi text).bmod (2 ^ 32) :=
    Int.emod_bmod _ _
  rw [unsigned, toInt, residue, atoi, toInt, Int.bmod_bmod]

/-- The small numerals are read as their numbers. -/
theorem atoi_of_isNumeral_of_lt
    (numeral : IsNumeral text slot)
    (small : slot < 2 ^ 31) :
    atoi text = slot := by
  rw [atoi_of_isNumeral numeral, toInt_toLong_of_lt small]

theorem IsNumeral.unique
    {other : Nat}
    (numeral : IsNumeral text slot)
    (otherNumeral : IsNumeral text other) :
    slot = other :=
  numeral.2.2.symm.trans otherNumeral.2.2

end Names

section Calls

variable {settings : Settings}
variable {text : CString}
variable {trace : Trace}

/-- Calls that name no slot only ask for a numeral. -/
theorem actsOn_of_unnamed
    {call : SpacebootCall}
    {slot : Nat}
    (noFind : ¬ call.IsFind)
    (noPush : ¬ call.IsPush)
    (numeral : IsNumeral text slot) :
    call.ActsOn text := by
  cases call with
  | vmemClientFind =>
      exact (noFind trivial).elim
  | paramPushQueue =>
      exact (noPush trivial).elim
  | _ =>
      exact fun _ => ⟨slot, numeral⟩

/-- Registering parameters sends nothing. -/
theorem actsOn_of_registering
    {call : SpacebootCall}
    (registers : call.kind = .registering) :
    call.ActsOn text := by
  cases call with
  | paramListFindId =>
      exact fun sent => sent.elim
  | paramListCreateRemote =>
      exact fun sent => sent.elim
  | paramListAdd =>
      exact fun sent => sent.elim
  | paramListRemoveSpecific =>
      exact fun sent => sent.elim
  | _ =>
      exact absurd registers (by simp [SpacebootCall.kind])

/-- A request for the memory area acts on the slot of small numerals only. -/
theorem find_actsOn_iff
    (node timeout : Nat)
    (text : CString) :
    (SpacebootCall.vmemClientFind node timeout
        (vmemName (toUnsigned (atoi text)))).ActsOn text ↔
      ∃ slot < 100, IsNumeral text slot := by
  have read :
      ∀ {slot : Nat},
        slot < 100 → IsNumeral text slot → toUnsigned (atoi text) = slot := by
    intro slot small numeral
    rw [atoi_of_isNumeral_of_lt numeral (small.trans (by decide)), toUnsigned]
    omega
  constructor
  · rintro ⟨slot, numeral, name⟩
    refine ⟨slot, (length_printUnsigned_le_two_iff slot).mp ?_, numeral⟩
    have room : (vmemName (toUnsigned (atoi text))).length ≤ 4 :=
      List.length_take_le _ _
    rw [name, List.length_append] at room
    have letters : "fl".toList.length = 2 := rfl
    omega
  · rintro ⟨slot, small, numeral⟩
    refine ⟨slot, numeral, ?_⟩
    rw [read small numeral]
    exact (vmemName_eq_iff slot).mpr small

/--
`reset_to_flash` acts on the slot of the text unless the text only happens to
begin with the number of a slot, or with none.
-/
theorem resetToFlash_actsOn_iff
    {node times : Nat}
    (run :
      Runs (resetToFlash node (toInt (toUnsigned (atoi text))) times)
        trace ()) :
    trace.ActsOn text ↔
      (0 ≤ atoi text ∧ atoi text < 4 → IsNumeral text (atoi text).toNat) := by
  have aside := aside_resetToFlash _ _ _ _ _ run
  rw [toInt_toUnsigned_atoi] at run
  rcases resetToFlash_cases run with
    ⟨invalid, registers⟩ | ⟨valid, setup, answer, rest, rfl, registers, idle⟩
  · refine iff_of_true (fun step member => ?_) fun valid => ?_
    · exact actsOn_of_registering (registers step member)
    · exact (invalid valid).elim
  · constructor
    · intro acts _
      obtain ⟨slot, _, small, numeral, _⟩ :=
        acts ⟨.paramPushQueue _ _, answer⟩ (by simp)
      rw [atoi_of_isNumeral_of_lt numeral (small.trans (by decide)),
        Int.toNat_natCast]
      exact numeral
    · intro numeral step member
      have numeral := numeral valid
      rcases List.mem_append.mp member with inSetup | inPush
      · exact actsOn_of_registering (registers step inSetup)
      · rcases List.mem_cons.mp inPush with rfl | inRest
        · exact ⟨_, times, by omega, numeral, rfl⟩
        · refine actsOn_of_unnamed (fun isFind => ?_) (idle step inRest).2
            numeral
          exact (aside step member).1 isFind.kind_eq

/-- The calls of programming a slot, in terms of those of its parts. -/
theorem calls_programSlot
    {allowed : SpacebootCall → Prop}
    {programming : Programming}
    (find :
      allowed
        (.vmemClientFind programming.node settings.slashDflTimeout
          programming.name))
    (others :
      ∀ call : SpacebootCall,
        call.kind ≠ .finding →
          call.kind ≠ .switching → allowed call)
    (confirms : Calls allowed programming.confirm)
    (finishes :
      ∀ result final, Calls allowed (programming.finish result final))
    (binf : BinInfo) :
    Calls allowed (programSlot settings programming binf) := by
  have kept :
      ∀ {α : Type} {kind : CallKind} {program : SpacebootProg α},
        OnlyKind kind program →
          kind ≠ .finding → kind ≠ .switching → Calls allowed program := by
    intro α kind program only noFind noSwitch
    refine only.mono fun call kindEq => ?_
    exact others call (kindEq ▸ noFind) (kindEq ▸ noSwitch)
  have returns :
      ∀ result final,
        Calls allowed (resetAndReturn settings result final) := by
    intro result final
    exact kept (onlyKind_resetAndReturn _ _ _) (by decide) (by decide)
  refine .bind (calls_ask find) fun area => ?_
  split
  · exact returns _ _
  · refine .bind (kept (onlyKind_selectFile _ _ _ _) (by decide) (by decide))
      fun selected => ?_
    split
    · exact returns _ _
    · refine .bind (kept (onlyKind_ping _) (by decide) (by decide))
        fun reachable => ?_
      split
      · exact returns _ _
      · refine .bind confirms fun confirmed => ?_
        split
        · exact returns _ _
        · refine .bind
            (kept (onlyKind_imageGet _) (by decide) (by decide))
            fun opened => ?_
          split
          · exact returns _ _
          · refine .bind
              (kept (onlyKind_transfer _ _ _ _ _) (by decide) (by decide))
              fun outcome => ?_
            split
            · exact calls_pure _
            · exact finishes _ _

end Calls

section Commands

variable {settings : Settings}
variable {text fromText toText : CString}
variable {arguments : List CString}
variable {binf : BinInfo}
variable {trace slot : Trace}
variable {value : SlashResult × BinInfo}

/-- A run that programs a slot begins with the request for its memory area. -/
theorem programSlot_eq_find_cons
    {programming : Programming}
    (run : Runs (programSlot settings programming binf) slot value) :
    ∃ area later,
      slot =
        ⟨.vmemClientFind programming.node settings.slashDflTimeout
          programming.name, area⟩ :: later := by
  obtain ⟨area, later, rfl, _⟩ := runs_ask_bind_iff.mp run
  exact ⟨area, later, rfl⟩

/-- An upload goes where the memory area was found. -/
theorem uploadsToFound_of_runs
    {command : SlotCommand}
    (run : Runs (command.run settings binf) trace value) :
    trace.UploadsToFound := by
  intro node timeout address data count member
  rcases command.uploads_or_selects_of_runs run with ⟨none, _⟩ | uploads
  · exact (none _ member trivial).elim
  · obtain @⟨opening, selection, contacting, rest, findNode, findTimeout,
      pathSize, name, path, area, file, image, uploaded, final, apart, size,
      selected, contacts, read, plain⟩ := uploads
    have noUpload :
        Trace.NoUpload
          (opening ++
              ⟨.vmemClientFind findNode findTimeout name, area⟩ ::
                (selection ++ contacting) ++
            [⟨.readFile path, some file⟩]) :=
      noUpload_up_to_read apart trivial
        (onlyKind_selectFile _ _ _ _ _ _ selected) contacts trivial
    have find :
        ⟨.vmemClientFind findNode findTimeout name, area⟩ ∈
          opening ++
            ⟨.vmemClientFind findNode findTimeout name, area⟩ ::
              (selection ++ contacting) := by
      simp
    rw [List.append_cons] at member
    have same :=
      @eq_of_mem_append_cons (Step SpacebootAnswer) (·.request.IsUpload) _ _
        _ ⟨.vmemUpload node timeout address data, count⟩ noUpload
        (fun step late => (plain step late).2.2) member trivial
    cases same
    exact ⟨findTimeout, name, area, List.mem_append_left _ find, rfl⟩

/-- Calls of the other kinds need no more than a numeral. -/
theorem calls_actsOn_of_onlyKind
    {α : Type}
    {kind : CallKind}
    {program : SpacebootProg α}
    {number : Nat}
    (only : OnlyKind kind program)
    (noFind : kind ≠ .finding)
    (noSwitch : kind ≠ .switching)
    (numeral : IsNumeral text number) :
    Calls (fun call => call.ActsOn text) program := by
  refine only.mono fun call kindEq => actsOn_of_unnamed ?_ ?_ numeral
  · exact fun isFind => noFind (kindEq.symm.trans isFind.kind_eq)
  · exact fun isPush => noSwitch (kindEq.symm.trans isPush.kind_eq)

/-- Programming the slot of a small numeral acts on it. -/
theorem calls_actsOn_programSlot
    {programming : Programming}
    (name : programming.name = vmemName (toUnsigned (atoi text)))
    (small : ∃ slot < 100, IsNumeral text slot)
    (confirms : OnlyKind .selecting programming.confirm)
    (finishes :
      ∀ result final,
        Calls (fun call => call.ActsOn text)
          (programming.finish result final)) :
    Calls (fun call => call.ActsOn text)
      (programSlot settings programming binf) := by
  obtain ⟨number, _, numeral⟩ := small
  refine calls_programSlot ?_ (fun call noFind noSwitch => ?_) ?_ finishes binf
  · rw [name]
    exact (find_actsOn_iff _ _ text).mpr ⟨number, ‹_›, numeral⟩
  · exact actsOn_of_unnamed (fun isFind => noFind isFind.kind_eq)
      (fun isPush => noSwitch isPush.kind_eq) numeral
  · exact calls_actsOn_of_onlyKind confirms (by decide) (by decide) numeral

/-- `program` with a slot argument. -/
theorem slashCspProgram_actsOn_iff
    {options : ProgramOptions}
    (run :
      Runs (slashCspProgram settings (some (options, text :: arguments)) binf)
        trace value) :
    trace.ActsOn text ↔ ∃ slot < 100, IsNumeral text slot := by
  constructor
  · intro acts
    obtain ⟨area, later, rfl⟩ := programSlot_eq_find_cons run
    exact (find_actsOn_iff _ _ text).mp (acts _ List.mem_cons_self)
  · intro small
    refine
      @calls_actsOn_programSlot settings text binf
        (options.programming settings (toUnsigned (atoi text))) rfl small
        (onlyKind_confirmed _) (fun result final => ?_) trace value run
    obtain ⟨_, _, numeral⟩ := small
    exact calls_actsOn_of_onlyKind (onlyKind_resetAndReturn _ _ _)
      (by decide) (by decide) numeral

/-- `switch` with a slot argument. -/
theorem slashCspSwitch_actsOn_iff
    {options : SwitchOptions}
    {result : SlashResult}
    (run :
      Runs (slashCspSwitch (some (options, text :: arguments))) trace
        result) :
    trace.ActsOn text ↔
      (0 ≤ atoi text ∧ atoi text < 4 → IsNumeral text (atoi text).toNat) := by
  obtain ⟨_, _, _, rfl, resets, done⟩ := runs_bind_iff.mp run
  obtain ⟨rfl, _⟩ := runs_pure_iff.mp done
  rw [List.append_nil]
  exact resetToFlash_actsOn_iff resets

/-- The switch to a slot that was programmed acts on its number. -/
theorem calls_actsOn_switchAndReturn
    {node : Nat}
    {result : SlashResult}
    (small : ∃ slot < 100, IsNumeral text slot) :
    Calls (fun call => call.ActsOn text)
      (switchAndReturn settings node (toInt (toUnsigned (atoi text))) result
        binf) := by
  obtain ⟨number, bound, numeral⟩ := small
  have returns :
      Calls (fun call => call.ActsOn text)
        (resetAndReturn settings result binf) :=
    calls_actsOn_of_onlyKind (onlyKind_resetAndReturn _ _ _) (by decide)
      (by decide) numeral
  unfold switchAndReturn
  split
  · refine .bind (fun trace _ resets => ?_) fun _ => returns
    refine (resetToFlash_actsOn_iff resets).mpr fun _ => ?_
    rw [atoi_of_isNumeral_of_lt numeral (bound.trans (by decide)),
      Int.toNat_natCast]
    exact numeral
  · exact returns

/-- `sps` with both slot arguments. -/
theorem slashSps_actsOnBoth_iff
    {options : SpsOptions}
    (run :
      Runs
        (slashSps settings (some (options, fromText :: toText :: arguments))
          binf)
        trace value) :
    trace.ActsOnBoth fromText toText ↔
      (∃ number, IsNumeral fromText number) ∧
        (0 ≤ atoi fromText ∧ atoi fromText < 4 →
          IsNumeral fromText (atoi fromText).toNat) ∧
        ∃ slot < 100, IsNumeral toText slot := by
  obtain ⟨switching, slot, rfl, switches, programs⟩ :=
    @slashSps_eq_append _ _ _ _ _ arguments _ _ run
  obtain ⟨area, later, rfl⟩ := programSlot_eq_find_cons programs
  have noFind :
      ∀ step ∈ ⟨.cspRdpSetOpt options.rdp, ()⟩ :: switching,
        ¬ step.request.IsFind :=
    List.forall_mem_cons.mpr ⟨id, noFind_resetToFlash switches⟩
  have openingActs :
      Trace.ActsOn (⟨.cspRdpSetOpt options.rdp, ()⟩ :: switching) fromText ↔
        Trace.ActsOn switching fromText := by
    simp only [Trace.ActsOn, List.forall_mem_cons]
    exact and_iff_right fun sent => sent.elim
  rw [← resetToFlash_actsOn_iff switches, ← openingActs, ← List.cons_append]
  constructor
  · rintro ⟨opening, find, rest, shape, isFind, none, numeral, actsFrom,
      actsTo⟩
    obtain ⟨rfl, rfl, rfl⟩ :=
      @append_cons_inj_of_first _ (·.request.IsFind) _ _ _ _ _ _ shape trivial
        isFind noFind none
    exact ⟨numeral, actsFrom,
      (find_actsOn_iff _ _ toText).mp (actsTo _ List.mem_cons_self)⟩
  · rintro ⟨numeral, actsFrom, small⟩
    refine ⟨_, _, _, rfl, trivial, noFind, numeral, actsFrom, ?_⟩
    exact
      @calls_actsOn_programSlot settings toText binf
        (options.programming settings (toUnsigned (atoi toText))) rfl small
        (calls_pure true) (fun _ _ => calls_actsOn_switchAndReturn small) _
        value programs

/--
`program`, `switch` and `sps` act on the slots their texts are numerals of
exactly for these texts: below 100 for a memory area, and for a boot counter
whatever `atoi` does not take for the number of another slot.
-/
theorem slot_texts_iff
    (settings : Settings) :
    (∀ (options : ProgramOptions) (text : CString) (arguments : List CString)
        (binf : BinInfo) (trace : Trace) (value : SlashResult × BinInfo),
      Runs (slashCspProgram settings (some (options, text :: arguments)) binf)
          trace value →
        (trace.ActsOn text ∧ trace.UploadsToFound ↔
          ∃ slot < 100, IsNumeral text slot)) ∧
    (∀ (options : SwitchOptions) (text : CString) (arguments : List CString)
        (trace : Trace) (result : SlashResult),
      Runs (slashCspSwitch (some (options, text :: arguments)))
          trace result →
        (trace.ActsOn text ↔
          (0 ≤ atoi text ∧ atoi text < 4 →
            IsNumeral text (atoi text).toNat))) ∧
    ∀ (options : SpsOptions) (fromText toText : CString)
        (arguments : List CString) (binf : BinInfo) (trace : Trace)
        (value : SlashResult × BinInfo),
      Runs
          (slashSps settings
            (some (options, fromText :: toText :: arguments)) binf)
          trace value →
        (trace.ActsOnBoth fromText toText ∧ trace.UploadsToFound ↔
          (∃ number, IsNumeral fromText number) ∧
            (0 ≤ atoi fromText ∧ atoi fromText < 4 →
              IsNumeral fromText (atoi fromText).toNat) ∧
            ∃ slot < 100, IsNumeral toText slot) := by
  refine ⟨fun options text arguments binf trace value run => ?_,
    fun options text arguments trace result run => ?_,
    fun options fromText toText arguments binf trace value run => ?_⟩
  · have found :=
      @uploadsToFound_of_runs settings binf trace value
        (.program (some (options, text :: arguments))) run
    rw [and_iff_left found]
    exact slashCspProgram_actsOn_iff run
  · exact slashCspSwitch_actsOn_iff run
  · have found :=
      @uploadsToFound_of_runs settings binf trace value
        (.sps (some (options, fromText :: toText :: arguments))) run
    rw [and_iff_left found]
    exact slashSps_actsOnBoth_iff run

/-- The steps of a switch to slot 0 when its parameters are all known. -/
def switchTrace : Trace :=
  [⟨.paramListFindId 1 21, true⟩, ⟨.paramListFindId 1 20, true⟩,
    ⟨.paramListFindId 1 22, true⟩, ⟨.paramListFindId 1 23, true⟩,
    ⟨.paramPushQueue 1 (bootQueue 0 1), (0 : Int)⟩, ⟨.cspReboot 1, ()⟩,
    ⟨.cspCmpIdent 1, (0 : Int)⟩]

theorem runs_switchTrace
    (zero : atoi text = 0) :
    Runs (slashCspSwitch (some (⟨1, 1⟩, [text]))) switchTrace .success := by
  change Runs (resetToFlash 1 (toInt (toUnsigned (atoi text))) 1 >>= _) _ _
  rw [toInt_toUnsigned_atoi, zero]
  unfold switchTrace
  iterate 7 (refine Runs.call _ ?_)
  exact .done _

/-- The text `0` switches to slot 0. -/
theorem switch_acts_on_zero :
    switchTrace.ActsOn ['0'] :=
  ((slot_texts_iff deliveredSettings).2.1 ⟨1, 1⟩ ['0'] [] _ _
    (runs_switchTrace (by decide))).mpr
      fun _ => ⟨by decide, List.all_eq_true.mp rfl, by decide⟩

/-- A text without a number switches to slot 0, too. -/
theorem switch_acts_without_numeral :
    ¬ ∀ (options : SwitchOptions) (text : CString) (arguments : List CString)
      (trace : Trace) (result : SlashResult),
      Runs (slashCspSwitch (some (options, text :: arguments)))
          trace result →
        trace.ActsOn text := by
  intro acts
  have acted :=
    acts ⟨1, 1⟩ ['x'] [] _ _ (runs_switchTrace (by decide))
  obtain ⟨slot, numeral⟩ :=
    acted ⟨.cspCmpIdent 1, (0 : Int)⟩ (by simp [switchTrace]) trivial
  exact absurd (numeral.2.1 'x' (by simp)) (by decide)

end Commands

end Csh.Spaceboot
