import Csh.FileTransfer
import Csh.SpacebootRuns

namespace Csh.FileTransfer

open Libc Interaction Spaceboot

/-!
# The offset to resume at

An upload that stays incomplete suggests where to go on.  Of what was sent, the
last packets may be missing, one more than the RDP window holds.  `upload`
computes in unsigned arithmetic and adds the offset of the file; `do_upload`
starts at 0 and compares signed numbers.
-/

/-- The first byte that may be missing. -/
def resumeOffset (offset : Nat) (count : Int) (window mtu : Nat) : Int :=
  max 0 (offset + max count 0 - (window + 1) * mtu)

/--
The sum of offset and count neither exceeds 32 bits nor is negative, and a
negative count is not subtracted from an offset behind the window.
-/
def SumFits (offset : Nat) (count : Int) (window mtu : Nat) : Prop :=
  (0 ≤ count ∧ offset + count < 2 ^ 32) ∨
    (count < 0 ∧ 0 ≤ offset + count ∧ offset ≤ (window + 1) * mtu)

section Numbers

variable {offset window mtu : Nat}
variable {count : Int}

theorem suggestedUploadOffset_eq_iff
    (offset_lt : offset < 2 ^ 32)
    (count_ge : -2 ^ 31 ≤ count)
    (count_lt : count < 2 ^ 31)
    (small : (window + 1) * mtu < 2 ^ 31) :
    suggestedUploadOffset offset count window mtu =
        resumeOffset offset count window mtu ↔
      SumFits offset count window mtu := by
  have bytes : ((window : Int) + 1) * mtu = ((window + 1) * mtu : Nat) := by
    push_cast
    rfl
  rw [suggestedUploadOffset, resumeOffset, SumFits, toUnsigned, bytes]
  generalize (window + 1) * mtu = unacknowledged at small ⊢
  split <;> omega

/-- A window of at least one packet is a positive `int`. -/
theorem toInt_window
    (small : (window + 1) * mtu < 2 ^ 31) :
    toInt ((toInt window + 1) * mtu) = ((window + 1) * mtu : Nat) := by
  rcases Nat.eq_zero_or_pos mtu with rfl | positive
  · simp [toInt]
  · have windowSmall : window + 1 ≤ (window + 1) * mtu :=
      Nat.le_mul_of_pos_right _ positive
    have same : toInt window = window :=
      toInt_of_range (by omega)
    have bytes : ((window : Int) + 1) * mtu = ((window + 1) * mtu : Nat) := by
      push_cast
      rfl
    rw [same, bytes]
    exact toInt_of_range (by omega)

theorem suggestedOffset_eq
    (count_ge : -2 ^ 31 ≤ count)
    (count_lt : count < 2 ^ 31)
    (small : (window + 1) * mtu < 2 ^ 31) :
    suggestedOffset count window mtu = resumeOffset 0 count window mtu := by
  have bytes : ((window : Int) + 1) * mtu = ((window + 1) * mtu : Nat) := by
    push_cast
    rfl
  rw [suggestedOffset, toInt_window small, resumeOffset, toUnsigned, bytes]
  generalize (window + 1) * mtu = unacknowledged at small ⊢
  split <;> omega

end Numbers

section Runs

variable {settings : Settings}
variable {options : UploadOptions}
variable {arguments : List CString}
variable {result : SlashResult}
variable {offset size window suggested : Nat}
variable {count : Int}

/-- `vmem_upload` sent so much, and with the window this was suggested. -/
structure Suggests
    (trace : FtpTrace)
    (count : Int)
    (window suggested : Nat) :
    Prop where
  sent :
    ∃ node timeout address data version,
      ⟨.vmemUpload node timeout address data version, count⟩ ∈ trace
  asked : ⟨.cspRdpGetOpt, window⟩ ∈ trace
  printed : ⟨.printSuggestedOffset suggested, ()⟩ ∈ trace

/-- The same of a run of `do_upload`. -/
structure DoUploadSuggests
    (trace : Trace)
    (count : Int)
    (window suggested : Nat) :
    Prop where
  sent :
    ∃ node timeout address data,
      ⟨.vmemUpload node timeout address data, count⟩ ∈ trace
  asked : ⟨.cspRdpGetOpt, window⟩ ∈ trace
  printed : ⟨.printSuggestedOffset suggested, ()⟩ ∈ trace

/-- What `upload` does behind the transfer. -/
theorem uploadOutcome_cases
    {trace : FtpTrace}
    (run : Runs (uploadOutcome settings offset size count) trace result) :
    trace = [] ∨
      ∃ window : Nat,
        trace =
          [⟨.cspRdpGetOpt, window⟩,
            ⟨.printSuggestedOffset
              (suggestedUploadOffset offset count window
                settings.vmemServerMtu), ()⟩] := by
  unfold uploadOutcome at run
  split at run
  · exact .inl (runs_pure_iff.mp run).1
  · split at run
    · exact .inl (runs_pure_iff.mp run).1
    · split at run
      · obtain ⟨window, _, rfl, behindGet⟩ := runs_ask_bind_iff.mp run
        obtain ⟨_, _, rfl, behindPrint⟩ := runs_ask_bind_iff.mp behindGet
        obtain ⟨rfl, _⟩ := runs_pure_iff.mp behindPrint
        exact .inr ⟨window, rfl⟩
      · exact .inl (runs_pure_iff.mp run).1

/-- What `upload` suggests is computed from its offset. -/
theorem upload_suggests
    {trace : FtpTrace}
    (run :
      Runs (vmemClientSlashUpload settings (some (options, arguments)))
        trace result)
    (suggests : Suggests trace count window suggested) :
    suggested =
      suggestedUploadOffset options.offset count window
        settings.vmemServerMtu := by
  obtain ⟨⟨_, _, _, _, _, sent⟩, asked, printed⟩ := suggests
  obtain ⟨_, _, later, rfl, sets, behindSet⟩ := runs_bind_iff.mp run
  obtain rfl := eq_of_runs_rdpOptSet sets
  split at behindSet
  · obtain ⟨rfl, _⟩ := runs_pure_iff.mp behindSet
    simp at sent
  · obtain ⟨opened, _, rfl, behindRead⟩ := runs_ask_bind_iff.mp behindSet
    cases opened with
    | none =>
        obtain ⟨rfl, _⟩ := runs_pure_iff.mp behindRead
        simp at sent
    | some content =>
        obtain ⟨answered, _, rfl, behindUpload⟩ :=
          runs_ask_bind_iff.mp behindRead
        obtain ⟨outcome, _, _, rfl, follows, behindOutcome⟩ :=
          runs_bind_iff.mp behindUpload
        obtain ⟨rfl, _⟩ := runs_resetAndReturn_iff.mp behindOutcome
        rcases uploadOutcome_cases follows with rfl | ⟨got, rfl⟩
        · simp at printed
        · simp at sent asked printed
          rw [printed, ← sent.2, ← asked]

/-- An upload that stays incomplete ends with a suggestion. -/
theorem exists_suggests
    {file : CString}
    {address : Nat}
    {content : List UInt8}
    (target : uploadTarget arguments = .ok (file, address))
    (unhandled :
      count ≠ settings.cspErrTimedout ∧ count ≠ settings.cspErrNobufs)
    (incomplete : count % 2 ^ 64 ≠ (content.drop options.offset).length)
    (window : Nat) :
    ∃ trace,
      Runs (vmemClientSlashUpload settings (some (options, arguments)))
        trace .eio ∧
        Suggests trace count window
          (suggestedUploadOffset options.offset count window
            settings.vmemServerMtu) := by
  have outcome :
      Runs
        (uploadOutcome settings options.offset
          (content.drop options.offset).length count)
        [⟨.cspRdpGetOpt, window⟩,
          ⟨.printSuggestedOffset
            (suggestedUploadOffset options.offset count window
              settings.vmemServerMtu), ()⟩]
        .eio := by
    rw [uploadOutcome, if_neg unhandled.1, if_neg unhandled.2,
      if_pos incomplete]
    exact .call _ (.call _ (.done _))
  have closes :
      Runs (resetAndReturn settings .eio)
        [⟨.cspRdpSetOpt settings.rdpDfl, ()⟩] .eio :=
    runs_resetAndReturn_iff.mpr ⟨rfl, rfl⟩
  have uploads :
      Runs (upload settings options file address)
        [⟨.readFile file, some content⟩,
          ⟨.vmemUpload options.node options.timeout
            ((address + options.offset) % 2 ^ 64)
            (content.drop options.offset) options.version, count⟩,
          ⟨.cspRdpGetOpt, window⟩,
          ⟨.printSuggestedOffset
            (suggestedUploadOffset options.offset count window
              settings.vmemServerMtu), ()⟩,
          ⟨.cspRdpSetOpt settings.rdpDfl, ()⟩]
        .eio := by
    refine runs_ask_bind_iff.mpr ⟨some content, _, rfl, ?_⟩
    exact runs_ask_bind_iff.mpr ⟨count, _, rfl, outcome.bind closes⟩
  have sets :
      Runs (rdpOptSet options.rdp) [⟨.cspRdpSetOpt options.rdp, ()⟩] () :=
    .call _ (.done _)
  refine
    ⟨_, sets.bind (by rw [target]; exact uploads),
      ⟨_, _, _, _, _, .tail _ (.tail _ (.head _))⟩,
      .tail _ (.tail _ (.tail _ (.head _))),
      .tail _ (.tail _ (.tail _ (.tail _ (.head _))))⟩

/-- What `do_upload` suggests is computed from the count alone. -/
theorem doUpload_suggests
    {node timeout : Nat}
    {address : Int}
    {data : List UInt8}
    {trace : Trace}
    (run : Runs (doUpload settings node timeout address data) trace result)
    (suggests : DoUploadSuggests trace count window suggested) :
    suggested = suggestedOffset count window settings.vmemServerMtu := by
  obtain ⟨⟨_, _, _, _, sent⟩, asked, printed⟩ := suggests
  obtain ⟨answered, _, rfl, behind⟩ := runs_ask_bind_iff.mp run
  split at behind
  · obtain ⟨rfl, _⟩ := runs_pure_iff.mp behind
    simp at printed
  · split at behind
    · obtain ⟨rfl, _⟩ := runs_pure_iff.mp behind
      simp at printed
    · split at behind
      · obtain ⟨got, _, rfl, behindGet⟩ := runs_ask_bind_iff.mp behind
        obtain ⟨_, _, rfl, behindPrint⟩ := runs_ask_bind_iff.mp behindGet
        obtain ⟨rfl, _⟩ := runs_pure_iff.mp behindPrint
        simp at sent asked printed
        rw [printed, sent.2, asked]
      · obtain ⟨rfl, _⟩ := runs_pure_iff.mp behind
        simp at printed

end Runs

/--
`do_upload` suggests the first byte that may be missing.  `upload` does so
exactly when the sum of offset and count fits.
-/
theorem suggests_resumeOffset
    (settings : Settings)
    {count : Int}
    {window : Nat}
    (count_ge : -2 ^ 31 ≤ count)
    (count_lt : count < 2 ^ 31)
    (small : (window + 1) * settings.vmemServerMtu < 2 ^ 31) :
    (∀ {options : UploadOptions} {arguments : List CString}
        {trace : FtpTrace} {result : SlashResult} {suggested : Nat},
        options.offset < 2 ^ 32 →
          Runs (vmemClientSlashUpload settings (some (options, arguments)))
            trace result →
            Suggests trace count window suggested →
              (suggested =
                  resumeOffset options.offset count window
                    settings.vmemServerMtu ↔
                SumFits options.offset count window
                  settings.vmemServerMtu)) ∧
      (∀ {node timeout : Nat} {address : Int} {data : List UInt8}
        {trace : Trace} {result : SlashResult} {suggested : Nat},
        Runs (doUpload settings node timeout address data) trace result →
          DoUploadSuggests trace count window suggested →
            suggested =
              resumeOffset 0 count window settings.vmemServerMtu) := by
  constructor
  · intro options arguments trace result suggested offset_lt run suggests
    rw [upload_suggests run suggests]
    exact suggestedUploadOffset_eq_iff offset_lt count_ge count_lt small
  · intro node timeout address data trace result suggested run suggests
    rw [doUpload_suggests run suggests]
    exact suggestedOffset_eq count_ge count_lt small

/-- Of 2000 bytes 1000 were sent, from offset 500, with a window of 3. -/
theorem suggests_resumeOffset_from_offset :
    (732 : Nat) = resumeOffset 500 1000 3 192 := by
  obtain ⟨trace, run, suggests⟩ :=
    @exists_suggests deliveredSettings
      ⟨1, 1000, 1, 500, deliveredSettings.rdpDfl⟩
      ["image.bin".toList, "0".toList] 1000 "image.bin".toList 0
      (List.replicate 2000 0) rfl (by decide)
      (by rw [List.length_drop, List.length_replicate]; decide) 3
  have printed : Suggests trace 1000 3 732 := suggests
  exact
    ((suggests_resumeOffset deliveredSettings (by decide) (by decide)
      (by decide)).1 (by decide) run printed).mpr (.inl (by decide))

/-- An error in front of the first byte suggests an offset near `2 ^ 32`. -/
theorem upload_suggests_wrapped :
    ∃ trace,
      Runs
        (vmemClientSlashUpload deliveredSettings
          (some
            (⟨1, 1000, 1, 0, deliveredSettings.rdpDfl⟩,
              ["image.bin".toList, "0".toList])))
        trace .eio ∧
        Suggests trace (-1) 3 4294966527 ∧ resumeOffset 0 (-1) 3 192 = 0 := by
  obtain ⟨trace, run, suggests⟩ :=
    @exists_suggests deliveredSettings
      ⟨1, 1000, 1, 0, deliveredSettings.rdpDfl⟩
      ["image.bin".toList, "0".toList] (-1) "image.bin".toList 0
      [0] rfl (by decide) (by decide) 3
  exact ⟨trace, run, suggests, by decide⟩

end Csh.FileTransfer
