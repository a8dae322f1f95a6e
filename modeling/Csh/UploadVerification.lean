import Csh.SpacebootRuns

namespace Csh.Spaceboot

open Libc Interaction Walkdir

/-!
# Verified uploads

`upload_and_verify` compares the image with a buffer that `vmem_download` has
filled.  The result of the download is not looked at, so that the part of the
buffer it did not reach is compared with whatever `malloc` left there.
-/

/-- A complete upload, the buffer for reading it back, and the download. -/
def ReadsBack
    (trace : Trace)
    (data : List UInt8)
    (fresh : FreshBuffer data.length)
    (answer : Download data.length) :
    Prop :=
  ∃ before after node timeout address,
    trace =
      before ++
        ⟨.vmemUpload node timeout address data, (data.length : Int)⟩ ::
          ⟨.malloc data.length, fresh⟩ ::
            ⟨.vmemDownload node timeout address data.length, answer⟩ :: after

/-- The upload was complete and the download brought the whole image back. -/
def Trace.Verified (trace : Trace) : Prop :=
  ∃ data fresh answer,
    ReadsBack trace data fresh answer ∧
      answer.ret = data.length ∧ answer.received = data

/--
The upload was complete, the download was not, and the bytes it received go on
with what the fresh buffer held to make up the image.
-/
def Trace.StaleMatch (trace : Trace) : Prop :=
  ∃ data fresh answer,
    ReadsBack trace data fresh answer ∧
      answer.ret ≠ data.length ∧ readBack fresh.val answer = data

section Transfers

variable {settings : Settings}
variable {node timeout : Nat}
variable {address : Int}
variable {data : List UInt8}
variable {trace : Trace}
variable {result : SlashResult}

/--
The upload failed, or it was complete and the verdict is the comparison of the
image with the buffer.
-/
theorem uploadAndVerify_cases
    (run : Runs (uploadAndVerify settings node address data) trace result) :
    ∃ (count : Int) (more : Trace),
      trace = ⟨.vmemUpload node 10000 address data, count⟩ :: more ∧
        Trace.NoUpload more ∧
          ((count ≠ data.length ∧ result.isError = true) ∨
            (count = data.length ∧
              ∃ (fresh : FreshBuffer data.length)
                (answer : Download data.length),
                more =
                    [⟨.malloc data.length, fresh⟩,
                      ⟨.vmemDownload node 10000 address data.length,
                        answer⟩] ∧
                  (result = .success ↔
                    readBack fresh.val answer = data))) := by
  obtain ⟨_, res, later, rfl, uploading, behind⟩ := runs_bind_iff.mp run
  obtain ⟨count, more, rfl, uploaded⟩ := doUpload_eq_upload_cons uploading
  refine ⟨count, more ++ later, rfl, ?_⟩
  rcases uploaded with ⟨complete, rfl, rfl⟩ | ⟨incomplete, failed, none⟩
  · obtain ⟨fresh, _, rfl, behindMalloc⟩ := runs_ask_bind_iff.mp behind
    obtain ⟨answer, _, rfl, behindDownload⟩ :=
      runs_ask_bind_iff.mp behindMalloc
    have none :
        Trace.NoUpload
          [⟨.malloc data.length, fresh⟩,
            ⟨.vmemDownload node 10000 address data.length, answer⟩] := by
      simp [Trace.NoUpload, SpacebootCall.IsUpload]
    split at behindDownload
    · rename_i same
      obtain ⟨rfl, rfl⟩ := runs_pure_iff.mp behindDownload
      exact ⟨none, .inr ⟨complete, fresh, answer, rfl, by simp [same]⟩⟩
    · rename_i different
      obtain ⟨rfl, rfl⟩ := runs_pure_iff.mp behindDownload
      exact ⟨none, .inr ⟨complete, fresh, answer, rfl, by simp [different]⟩⟩
  · rw [if_pos failed] at behind
    obtain ⟨rfl, rfl⟩ := runs_pure_iff.mp behind
    exact ⟨none.append (by simp [Trace.NoUpload]), .inl ⟨incomplete, failed⟩⟩

/-- The only upload of a trace is read back by what follows it. -/
theorem readsBack_iff
    {before after : Trace}
    {count : Int}
    (noneBefore : Trace.NoUpload before)
    (noneAfter : Trace.NoUpload after)
    {other : List UInt8}
    {fresh : FreshBuffer other.length}
    {answer : Download other.length} :
    ReadsBack
        (before ++ ⟨.vmemUpload node timeout address data, count⟩ :: after)
        other fresh answer ↔
      data = other ∧ count = data.length ∧
        ∃ rest,
          after =
            ⟨.malloc other.length, fresh⟩ ::
              ⟨.vmemDownload node timeout address other.length, answer⟩ ::
                rest := by
  constructor
  · rintro ⟨leading, rest, otherNode, otherTimeout, otherAddress, shape⟩
    have outside :
        ∀ (trace : Trace) (step : Step SpacebootAnswer),
          Trace.NoUpload trace → step.request.IsUpload → step ∉ trace :=
      fun trace step none isUpload member => none step member isUpload
    obtain ⟨_, sameUpload, sameAfter⟩ :=
      (List.append_cons_inj_of_notMem
        (outside before _ noneBefore (by trivial))
        (outside after _ noneAfter (by trivial))).mp shape
    cases sameUpload
    exact ⟨rfl, rfl, rest, sameAfter⟩
  · rintro ⟨rfl, rfl, rest, rfl⟩
    exact ⟨before, rest, node, timeout, address, rfl⟩

end Transfers

section Verdicts

variable {settings : Settings}
variable {node : Nat}
variable {address : Int}
variable {data : List UInt8}
variable {trace before after : Trace}
variable {result : SlashResult}

/-- A complete download leaves nothing of the fresh buffer. -/
theorem readBack_eq_received
    {len : Nat}
    {answer : Download len}
    (complete : answer.ret = len)
    (fresh : FreshBuffer len) :
    readBack fresh.val answer = answer.received := by
  have received : answer.received.length = len := by
    rcases answer.ret_eq with count | failed
    · omega
    · omega
  have nothing : fresh.val.drop answer.received.length = [] :=
    List.drop_eq_nil_of_le (by rw [fresh.property, received])
  rw [readBack, nothing, List.append_nil]

/-- Only the transfer itself decides what was read back. -/
theorem readsBack_append_iff
    (noneBefore : before.NoUpload)
    (noneAfter : after.NoUpload)
    (run : Runs (uploadAndVerify settings node address data) trace result)
    {other : List UInt8}
    {fresh : FreshBuffer other.length}
    {answer : Download other.length} :
    ReadsBack (before ++ (trace ++ after)) other fresh answer ↔
      ReadsBack trace other fresh answer := by
  obtain ⟨count, more, rfl, noMore, cases⟩ := uploadAndVerify_cases run
  have alone := @readsBack_iff node 10000 address data [] more count
    (by simp [Trace.NoUpload]) noMore other fresh answer
  rw [List.nil_append] at alone
  rw [List.cons_append, readsBack_iff noneBefore (noMore.append noneAfter),
    alone]
  rcases cases with ⟨incomplete, _⟩ | ⟨_, _, _, rfl, _⟩
  · simp [incomplete]
  · simp

/-- Success means a verified upload or stale bytes, and never both. -/
theorem success_iff
    (run : Runs (uploadAndVerify settings node address data) trace result) :
    (result = .success ↔ trace.Verified ∨ trace.StaleMatch) ∧
      ¬ (trace.Verified ∧ trace.StaleMatch) := by
  obtain ⟨count, more, rfl, noMore, cases⟩ := uploadAndVerify_cases run
  have alone :
      ∀ {other : List UInt8} {fresh : FreshBuffer other.length}
        {answer : Download other.length}, _ :=
    fun {other fresh answer} =>
      @readsBack_iff node 10000 address data [] more count
        (by simp [Trace.NoUpload]) noMore other fresh answer
  simp only [List.nil_append] at alone
  unfold Trace.Verified Trace.StaleMatch
  simp only [alone]
  rcases cases with
    ⟨incomplete, failed⟩ | ⟨complete, fresh, answer, rfl, verdict⟩
  · have notSuccess : result ≠ .success := by
      rintro rfl
      simp [SlashResult.isError] at failed
    simp [incomplete, notSuccess]
  · constructor
    · rw [verdict]
      constructor
      · intro matched
        by_cases whole : answer.ret = data.length
        · rw [readBack_eq_received whole] at matched
          exact .inl
            ⟨data, fresh, answer, ⟨rfl, complete, [], rfl⟩, whole, matched⟩
        · exact .inr
            ⟨data, fresh, answer, ⟨rfl, complete, [], rfl⟩, whole, matched⟩
      · rintro (⟨_, _, _, ⟨rfl, _, _, shape⟩, whole, matched⟩ |
          ⟨_, _, _, ⟨rfl, _, _, shape⟩, _, matched⟩)
        · cases shape
          rw [readBack_eq_received whole]
          exact matched
        · cases shape
          exact matched
    · rintro ⟨⟨_, _, _, ⟨rfl, _, _, shape⟩, whole, _⟩,
        ⟨_, _, _, ⟨rfl, _, _, otherShape⟩, short, _⟩⟩
      cases shape
      cases otherShape
      exact short whole

end Verdicts

section Switches

variable {trace opening quiet slot later : Trace}

/--
Whenever boot counters are written behind the request for the memory area, a
verified upload comes first.
-/
def Trace.SwitchesVerified (trace : Trace) : Prop :=
  ∀ before push after,
    trace = before ++ push :: after →
      push.request.IsPush →
        (∃ step ∈ before, step.request.IsFind) →
          Trace.Verified before

/-- The slot that `sps` programs has a number it can switch to. -/
def SwitchTarget : Parsed SpsOptions → Prop
  | some (_, _ :: toText :: _) =>
      0 ≤ toInt (toUnsigned (atoi toText)) ∧
        toInt (toUnsigned (atoi toText)) < 4
  | _ => False

/-- Writes to the boot counters lie behind what writes none. -/
theorem exists_eq_append_push
    {before after : Trace}
    {push : Step SpacebootAnswer}
    (none : ∀ step ∈ quiet, ¬ step.request.IsPush)
    (isPush : push.request.IsPush)
    (shape : quiet ++ later = before ++ push :: after) :
    ∃ middle, before = quiet ++ middle ∧ later = middle ++ push :: after := by
  rcases List.append_eq_append_iff.mp shape with
    ⟨middle, rfl, behind⟩ | ⟨rest, rfl, behind⟩
  · exact ⟨middle, rfl, behind⟩
  · cases rest with
    | nil =>
        exact ⟨[], by simp, by simpa using behind.symm⟩
    | cons step rest =>
        obtain ⟨rfl, _⟩ := List.cons_eq_cons.mp behind
        exact (none push (by simp) isPush).elim

/-- What comes in front of the request for the memory area is not looked at. -/
theorem switchesVerified_append_iff
    (noFind : ∀ step ∈ opening, ¬ step.request.IsFind) :
    Trace.SwitchesVerified (opening ++ slot) ↔
      ∀ middle push after,
        slot = middle ++ push :: after →
          push.request.IsPush →
            (∃ step ∈ middle, step.request.IsFind) →
              Trace.Verified (opening ++ middle) := by
  constructor
  · rintro switches middle push after rfl isPush ⟨find, member, isFind⟩
    exact switches _ push after (by simp) isPush
      ⟨find, List.mem_append_right _ member, isFind⟩
  · rintro switches before push after shape isPush ⟨find, member, isFind⟩
    rcases List.append_eq_append_iff.mp shape with
      ⟨middle, rfl, behind⟩ | ⟨rest, rfl, _⟩
    · rcases List.mem_append.mp member with early | late
      · exact (noFind find early isFind).elim
      · exact switches middle push after behind isPush ⟨find, late, isFind⟩
    · exact (noFind find (List.mem_append_left _ member) isFind).elim

/-- Only what lies behind the last quiet part can switch. -/
theorem switchesVerified_iff
    {find : Step SpacebootAnswer}
    (isFind : find.request.IsFind)
    (noFind : ∀ step ∈ opening, ¬ step.request.IsFind)
    (noPush : ∀ step ∈ find :: quiet, ¬ step.request.IsPush) :
    Trace.SwitchesVerified (opening ++ (find :: quiet ++ later)) ↔
      ∀ middle push after,
        later = middle ++ push :: after →
          push.request.IsPush →
            Trace.Verified (opening ++ (find :: quiet ++ middle)) := by
  rw [switchesVerified_append_iff noFind]
  constructor
  · rintro switches middle push after rfl isPush
    exact switches _ push after (by simp) isPush ⟨find, by simp, isFind⟩
  · rintro switches before push after shape isPush _
    obtain ⟨middle, rfl, rfl⟩ := exists_eq_append_push noPush isPush shape
    exact switches middle push after rfl isPush

/-- A slot that is not switched to needs no verdict. -/
theorem switchesVerified_of_noPush
    (noFind : ∀ step ∈ opening, ¬ step.request.IsFind)
    (noPush : ∀ step ∈ slot, ¬ step.request.IsPush) :
    Trace.SwitchesVerified (opening ++ slot) := by
  rw [switchesVerified_append_iff noFind]
  rintro middle push after rfl isPush _
  exact (noPush push (by simp) isPush).elim

/-- The end of `sps` uploads nothing, and switches to a programmed slot. -/
theorem switchAndReturn_push_iff
    {settings : Settings}
    {node : Nat}
    {flash : Int}
    {result : SlashResult}
    {binf : BinInfo}
    {value : SlashResult × BinInfo}
    (run :
      Runs (switchAndReturn settings node flash result binf) trace value) :
    trace.NoUpload ∧
      ((∃ step ∈ trace, step.request.IsPush) ↔
        result = .success ∧ (0 ≤ flash ∧ flash < 4)) := by
  unfold switchAndReturn at run
  split at run
  · rename_i success
    obtain ⟨switching, _, returning, rfl, switches, returns⟩ :=
      runs_bind_iff.mp run
    have idle := idle_resetAndReturn returns
    refine ⟨(noUpload_resetToFlash switches).append idle.noUpload, ?_⟩
    rcases resetToFlash_cases switches with
      ⟨invalid, registers⟩ | ⟨valid, setup, answer, rest, rfl, _, _⟩
    · have registered :=
        Trace.Only.idle registers (by decide) (by decide)
      have none := registered.append idle
      constructor
      · rintro ⟨step, member, isPush⟩
        exact ((none step member).2 isPush).elim
      · rintro ⟨_, valid⟩
        exact (invalid valid).elim
    · constructor
      · intro _
        exact ⟨success, valid⟩
      · intro _
        exact ⟨⟨.paramPushQueue _ _, answer⟩, by simp, trivial⟩
  · rename_i failed
    have idle := idle_resetAndReturn run
    refine ⟨idle.noUpload, ?_⟩
    constructor
    · rintro ⟨step, member, isPush⟩
      exact ((idle step member).2 isPush).elim
    · rintro ⟨success, _⟩
      exact (failed success).elim

/-- Programming a slot is a selection, a transfer and the end of `sps`. -/
theorem exists_transfer_of_programs
    {settings : Settings}
    {options : SpsOptions}
    {number : Nat}
    {binf : BinInfo}
    {value : SlashResult × BinInfo}
    (noCrc : options.doCrc32 = false)
    (programs :
      Programs settings (options.programming settings number) binf slot
        value) :
    ∃ find choosing transferring rest address data result final,
      slot = find :: choosing ++ (transferring ++ rest) ∧
        find.request.IsFind ∧
        Trace.Idle (find :: choosing) ∧
        Runs (uploadAndVerify settings options.node address data)
          transferring result ∧
        Runs
          (switchAndReturn settings options.node (toInt number) result final)
          rest value := by
  obtain @⟨selection, pinging, _, _, rest, area, path, file, image, _, final,
    _, _, selected, pinged, asked, _, transferred, finished⟩ := programs
  have chooses :=
    Trace.Only.idle (onlyKind_selectFile _ _ _ _ _ _ selected)
      (by decide) (by decide)
  have contacts :=
    Trace.Only.idle (onlyKind_ping _ _ _ pinged) (by decide) (by decide)
  obtain ⟨rfl, _⟩ := runs_pure_iff.mp asked
  simp only [SpsOptions.programming, noCrc, transfer, Bool.false_eq_true,
    ↓reduceIte] at transferred
  obtain ⟨transferring, result, _, rfl, verifies, done⟩ :=
    runs_bind_iff.mp transferred
  obtain ⟨rfl, rfl⟩ := runs_pure_iff.mp done
  refine
    ⟨⟨.vmemClientFind options.node settings.slashDflTimeout
        (vmemName number), area⟩,
      selection ++ (pinging ++ [⟨.readFile path, some file⟩]),
      transferring, rest, toInt area.vaddr, image.data, result, final,
      ?_, trivial, ?_, verifies, finished⟩
  · simp [SpsOptions.programming]
  · refine List.forall_mem_cons.mpr ⟨⟨id, id⟩, ?_⟩
    refine chooses.append (contacts.append ?_)
    simp [Trace.Idle, SpacebootCall.IsUpload, SpacebootCall.IsPush]

/-- The transfer alone decides about the switch to a slot with a number. -/
theorem switchesVerified_transfer_iff
    {settings : Settings}
    {node : Nat}
    {address flash : Int}
    {data : List UInt8}
    {find : Step SpacebootAnswer}
    {choosing transferring rest : Trace}
    {result : SlashResult}
    {binf : BinInfo}
    {value : SlashResult × BinInfo}
    (noFind : ∀ step ∈ opening, ¬ step.request.IsFind)
    (noUpload : opening.NoUpload)
    (isFind : find.request.IsFind)
    (chooses : Trace.Idle (find :: choosing))
    (verifies :
      Runs (uploadAndVerify settings node address data) transferring result)
    (ends :
      Runs (switchAndReturn settings node flash result binf) rest value) :
    Trace.SwitchesVerified
        (opening ++ (find :: choosing ++ (transferring ++ rest))) ↔
      ¬ (Trace.StaleMatch
          (opening ++ (find :: choosing ++ (transferring ++ rest))) ∧
        (0 ≤ flash ∧ flash < 4)) := by
  obtain ⟨noneRest, push_iff⟩ := switchAndReturn_push_iff ends
  obtain ⟨success_iff, notBoth⟩ := success_iff verifies
  have noneBefore : Trace.NoUpload (opening ++ (find :: choosing)) :=
    noUpload.append chooses.noUpload
  have stale_iff :
      Trace.StaleMatch
          (opening ++ (find :: choosing ++ (transferring ++ rest))) ↔
        Trace.StaleMatch transferring := by
    unfold Trace.StaleMatch
    simp only [← List.append_assoc opening,
      readsBack_append_iff noneBefore noneRest verifies]
  have noPush :
      ∀ step ∈ find :: (choosing ++ transferring),
        ¬ step.request.IsPush := by
    rw [← List.cons_append]
    refine List.forall_mem_append.mpr ⟨fun step member => ?_, ?_⟩
    · exact (chooses step member).2
    · exact Trace.Only.noPush
        (onlyKind_uploadAndVerify _ _ _ _ _ _ verifies) (by decide)
  have behind :
      ∀ middle : Trace,
        opening ++ (find :: (choosing ++ transferring) ++ middle) =
          opening ++ (find :: choosing ++ (transferring ++ middle)) := by
    simp
  rw [stale_iff, ← behind, switchesVerified_iff isFind noFind noPush]
  simp only [behind]
  have verified_iff :
      ∀ middle : Trace,
        middle.NoUpload →
          (Trace.Verified
              (opening ++ (find :: choosing ++ (transferring ++ middle))) ↔
            Trace.Verified transferring) := by
    intro middle none
    unfold Trace.Verified
    simp only [← List.append_assoc opening,
      readsBack_append_iff noneBefore none verifies]
  constructor
  · rintro switches ⟨stale, valid⟩
    obtain ⟨push, member, isPush⟩ :=
      push_iff.mpr ⟨success_iff.mpr (.inr stale), valid⟩
    obtain ⟨middle, after, rfl⟩ := List.append_of_mem member
    have verified := switches middle push after rfl isPush
    rw [verified_iff middle fun step early =>
      noneRest step (List.mem_append_left _ early)] at verified
    exact notBoth ⟨verified, stale⟩
  · rintro notStale middle push after rfl isPush
    rw [verified_iff middle fun step early =>
      noneRest step (List.mem_append_left _ early)]
    obtain ⟨success, valid⟩ := push_iff.mp ⟨push, by simp, isPush⟩
    rcases success_iff.mp success with verified | stale
    · exact verified
    · exact (notStale ⟨stale, valid⟩).elim

/-- Without an upload nothing is stale. -/
theorem not_staleMatch_of_noUpload
    (none : trace.NoUpload) :
    ¬ trace.StaleMatch := by
  rintro ⟨data, fresh, answer, ⟨_, _, _, _, _, rfl⟩, _⟩
  exact none _ (List.mem_append_right _ List.mem_cons_self) trivial

/-- A trace that changes nothing behind its opening keeps the order. -/
theorem switchesVerified_iff_of_idle
    (noFind : ∀ step ∈ opening, ¬ step.request.IsFind)
    (noUpload : opening.NoUpload)
    (idle : slot.Idle)
    (target : Prop) :
    Trace.SwitchesVerified (opening ++ slot) ↔
      ¬ (Trace.StaleMatch (opening ++ slot) ∧ target) := by
  have switches :=
    switchesVerified_of_noPush noFind fun step member => (idle step member).2
  have notStale :=
    not_staleMatch_of_noUpload (noUpload.append idle.noUpload)
  exact iff_of_true switches fun ⟨stale, _⟩ => notStale stale

/-- What `sps` without `-C` switches to in the end. -/
theorem slashSps_switchesVerified_iff
    {settings : Settings}
    {parsed : Parsed SpsOptions}
    {binf : BinInfo}
    {value : SlashResult × BinInfo}
    (noCrc : ∀ call ∈ parsed, call.1.doCrc32 = false)
    (run : Runs (slashSps settings parsed binf) trace value) :
    trace.SwitchesVerified ↔ ¬ (trace.StaleMatch ∧ SwitchTarget parsed) := by
  have idle_iff :
      trace.Idle →
        (trace.SwitchesVerified ↔
          ¬ (trace.StaleMatch ∧ SwitchTarget parsed)) := by
    intro idle
    exact @switchesVerified_iff_of_idle [] trace (by simp)
      (by simp [Trace.NoUpload]) idle _
  have idle_short :
      ∀ {options : SpsOptions} {arguments : List CString} {trace : Trace},
        arguments.length < 2 →
          Runs (slashSps settings (some (options, arguments)) binf)
            trace value →
            trace.Idle := by
    intro options arguments trace short run
    obtain ⟨later, rfl, returns⟩ := slashSps_eq_cons short run
    exact List.forall_mem_cons.mpr ⟨⟨id, id⟩, idle_resetAndReturn returns⟩
  rcases parsed with
    _ | ⟨options, _ | ⟨fromText, _ | ⟨toText, arguments⟩⟩⟩
  · exact idle_iff (idle_resetAndReturn run)
  · exact idle_iff (idle_short (by simp) run)
  · exact idle_iff (idle_short (by simp) run)
  · obtain ⟨switching, slot, rfl, switches, programs⟩ :=
      slashSps_eq_append run
    have noFind :
        ∀ step ∈ ⟨.cspRdpSetOpt options.rdp, ()⟩ :: switching,
          ¬ step.request.IsFind :=
      List.forall_mem_cons.mpr ⟨id, noFind_resetToFlash switches⟩
    have noUpload :
        Trace.NoUpload (⟨.cspRdpSetOpt options.rdp, ()⟩ :: switching) :=
      List.forall_mem_cons.mpr ⟨id, noUpload_resetToFlash switches⟩
    rw [← List.cons_append]
    rcases programSlot_programs (calls_pure true) programs with
      ⟨idle, _⟩ | programs
    · exact switchesVerified_iff_of_idle noFind noUpload idle _
    · obtain ⟨find, choosing, transferring, rest, address, data, result,
        final, rfl, isFind, chooses, verifies, ends⟩ :=
        exists_transfer_of_programs (noCrc _ rfl) programs
      exact switchesVerified_transfer_iff noFind noUpload isFind chooses
        verifies ends

end Switches

section Verification

/--
A success of `upload_and_verify` and the last switch of `sps` without `-C` are
backed by a verified upload exactly when the download was not cut short in
front of bytes that the buffer happened to hold already.
-/
theorem verified_iff_not_staleMatch
    (settings : Settings) :
    (∀ {node : Nat} {address : Int} {data : List UInt8} {trace : Trace}
        {result : SlashResult},
      Runs (uploadAndVerify settings node address data) trace result →
        ((result = .success → trace.Verified) ↔ ¬ trace.StaleMatch)) ∧
      ∀ {parsed : Parsed SpsOptions} {binf : BinInfo} {trace : Trace}
        {value : SlashResult × BinInfo},
        (∀ call ∈ parsed, call.1.doCrc32 = false) →
          Runs (slashSps settings parsed binf) trace value →
            (trace.SwitchesVerified ↔
              ¬ (trace.StaleMatch ∧ SwitchTarget parsed)) := by
  constructor
  · intro node address data trace result run
    obtain ⟨success_iff, notBoth⟩ := success_iff run
    constructor
    · intro verified stale
      exact notBoth ⟨verified (success_iff.mpr (.inr stale)), stale⟩
    · intro notStale success
      exact (success_iff.mp success).resolve_right notStale
  · intro parsed binf trace value noCrc run
    exact slashSps_switchesVerified_iff noCrc run

/-- A run of `upload_and_verify` with an image of one byte that is taken. -/
theorem runs_uploadAndVerify_byte
    {fresh : FreshBuffer 1}
    {answer : Download 1}
    (matched : readBack fresh.val answer = [0x5A]) :
    Runs (uploadAndVerify deliveredSettings 1 0 [0x5A])
      [⟨.vmemUpload 1 10000 0 [0x5A], (1 : Int)⟩, ⟨.malloc 1, fresh⟩,
        ⟨.vmemDownload 1 10000 0 1, answer⟩]
      .success := by
  have uploaded :
      Runs (doUpload deliveredSettings 1 10000 0 [0x5A])
        [⟨.vmemUpload 1 10000 0 [0x5A], (1 : Int)⟩] .success :=
    .call _ (.done _)
  refine uploaded.bind ?_
  rw [if_neg (by decide)]
  refine runs_ask_bind_iff.mpr ⟨fresh, _, rfl, ?_⟩
  refine runs_ask_bind_iff.mpr ⟨answer, _, rfl, ?_⟩
  rw [if_pos matched]
  exact .done _

/-- A download that brings the byte back is a verification. -/
theorem uploadAndVerify_verifies_byte :
    Trace.Verified
      [⟨.vmemUpload 1 10000 0 [0x5A], (1 : Int)⟩, ⟨.malloc 1, ⟨[0], rfl⟩⟩,
        ⟨.vmemDownload 1 10000 0 1, ⟨1, [0x5A], by simp, .inl rfl⟩⟩] := by
  have run :=
    @runs_uploadAndVerify_byte ⟨[0], rfl⟩ ⟨1, [0x5A], by simp, .inl rfl⟩ rfl
  refine (((verified_iff_not_staleMatch deliveredSettings).1 run).mpr ?_) rfl
  rintro ⟨data, fresh, answer, ⟨before, after, _, _, _, shape⟩, short, _⟩
  rcases before with _ | ⟨_, _ | ⟨_, _ | ⟨_, _⟩⟩⟩
  · cases shape
    exact short rfl
  · simp at shape
  · simp at shape
  · simp at shape

/-- The download fails, and the buffer held the byte already. -/
theorem uploadAndVerify_succeeds_on_stale_byte :
    ¬ ∀ (settings : Settings) (node : Nat) (address : Int)
      (data : List UInt8) (trace : Trace) (result : SlashResult),
      Runs (uploadAndVerify settings node address data) trace result →
        result = .success → trace.Verified := by
  intro verified
  have run :=
    @runs_uploadAndVerify_byte ⟨[0x5A], rfl⟩
      ⟨-3, [], by simp, .inr (by decide)⟩ rfl
  have stale :
      Trace.StaleMatch
        [⟨.vmemUpload 1 10000 0 [0x5A], (1 : Int)⟩,
          ⟨.malloc 1, ⟨[0x5A], rfl⟩⟩,
          ⟨.vmemDownload 1 10000 0 1,
            ⟨-3, [], by simp, .inr (by decide)⟩⟩] :=
    ⟨[0x5A], ⟨[0x5A], rfl⟩, ⟨-3, [], by simp, .inr (by decide)⟩,
      ⟨[], [], 1, 10000, 0, rfl⟩, by decide, rfl⟩
  exact (success_iff run).2 ⟨verified _ _ _ _ _ _ run rfl, stale⟩

end Verification

end Csh.Spaceboot
