import Csh.Base16
import Csh.Lib.Transducer
import Mathlib.Data.List.Chain

namespace Csh.StdbufLog

open Libc Base16

/-!
# The log of a node's output

`stdbuf` reads the output of a node in packets, prints it, and writes it to a
log in which a run of line ends is one line end and a control character is
its number.  The log treats each packet by itself.
-/

/-- `isprint`. -/
def isprint (byte : UInt8) : Bool :=
  0x20 ≤ byte && byte ≤ 0x7E

/-- The byte is a carriage return or a line feed. -/
def isLineEnd (byte : UInt8) : Bool :=
  byte == 13 || byte == 10

/-- A packet of at least one byte: whether more are to come, and the others. -/
structure StdbufPacket where
  again : UInt8
  payload : List UInt8
  deriving Repr, DecidableEq

/-- The character of a byte. -/
def character (byte : UInt8) : Char :=
  Char.ofNat byte.toNat

/-- What the loop over one packet writes to the log. -/
def logPayload : List UInt8 → CString
  | [] => []
  | byte :: rest =>
      if isprint byte then
        character byte :: logPayload rest
      else if isLineEnd byte then
        '\n' :: logPayload (rest.dropWhile isLineEnd)
      else
        '0' :: 'x' :: (printHexByte byte ++ logPayload rest)
termination_by bytes => bytes.length
decreasing_by
  · simp
  · have shorter := List.length_dropWhile_le isLineEnd rest
    simp only [List.length_cons]
    omega
  · simp

/-- What `stdbuf_v2` prints and logs of the packets that are read. -/
def stdbufV2 : List StdbufPacket → List UInt8 × CString
  | [] => ([], [])
  | packet :: rest =>
      let later := if packet.again = 0 then ([], []) else stdbufV2 rest
      (packet.payload ++ later.1, logPayload packet.payload ++ later.2)

/-- The loop as a machine: it is in a run of line ends, or it is not. -/
def logger : Transducer Bool UInt8 Char where
  next _ byte := !isprint byte && isLineEnd byte
  emit inRun byte :=
    if isprint byte then
      [character byte]
    else if isLineEnd byte then
      if inRun then [] else ['\n']
    else
      '0' :: 'x' :: printHexByte byte

/-- The packets that are handled: up to the first without another behind it. -/
def handled : List StdbufPacket → List StdbufPacket
  | [] => []
  | packet :: rest =>
      packet :: if packet.again = 0 then [] else handled rest

/-- The bytes of some packets. -/
def stream (packets : List StdbufPacket) : List UInt8 :=
  (packets.map StdbufPacket.payload).flatten

/-- The last byte is a line end. -/
def EndsLine (bytes : List UInt8) : Prop :=
  bytes.getLast?.any isLineEnd = true

/-- The first byte is a line end. -/
def StartsWithLineEnd (bytes : List UInt8) : Prop :=
  bytes.head?.any isLineEnd = true

/-- No run of line ends goes on from one packet that has bytes into the next. -/
def RunsWhole (packets : List StdbufPacket) : Prop :=
  ((packets.map StdbufPacket.payload).filter (· ≠ [])).IsChain
    fun first second => ¬ (EndsLine first ∧ StartsWithLineEnd second)

section Logger

variable {bytes rest : List UInt8}
variable {packets : List StdbufPacket}

theorem not_isprint_of_isLineEnd
    {byte : UInt8}
    (ends : isLineEnd byte = true) :
    isprint byte = false := by
  rcases (by simpa [isLineEnd] using ends : byte = 13 ∨ byte = 10) with
    rfl | rfl <;> rfl

/-- A run that does not go on leaves no trace. -/
theorem output_of_not_starts
    (fresh : ¬ StartsWithLineEnd bytes) :
    logger.output true bytes = logger.output false bytes := by
  cases bytes with
  | nil =>
      rfl
  | cons byte rest =>
      have notEnd : isLineEnd byte = false := by
        simpa [StartsWithLineEnd] using fresh
      simp [logger, notEnd]

/-- A run that goes on is one line end less. -/
theorem output_of_starts
    (starts : StartsWithLineEnd bytes) :
    logger.output false bytes = '\n' :: logger.output true bytes := by
  cases bytes with
  | nil =>
      cases starts
  | cons byte rest =>
      have isEnd : isLineEnd byte = true := by
        simpa [StartsWithLineEnd] using starts
      have silent := not_isprint_of_isLineEnd isEnd
      simp [logger, isEnd, silent]

/-- The loop over a packet is the machine from its start. -/
theorem logPayload_eq
    (bytes : List UInt8) :
    logPayload bytes = logger.output false bytes := by
  induction bytes using logPayload.induct with
  | case1 =>
      rw [logPayload]
      rfl
  | case2 byte rest prints inductionHypothesis =>
      rw [logPayload, if_pos prints, inductionHypothesis]
      simp [logger, prints]
  | case3 byte rest silent ends inductionHypothesis =>
      have skips : ∀ symbol,
          isLineEnd symbol = true → logger.Skips true symbol := by
        intro symbol isEnd
        have unprinted := not_isprint_of_isLineEnd isEnd
        exact ⟨by simp [logger, isEnd, unprinted],
          by simp [logger, isEnd, unprinted]⟩
      have fresh : ¬ StartsWithLineEnd (rest.dropWhile isLineEnd) := by
        intro starts
        cases behind : rest.dropWhile isLineEnd with
        | nil =>
            rw [behind] at starts
            cases starts
        | cons first later =>
            have kept := List.head?_dropWhile_not isLineEnd rest
            rw [behind] at kept starts
            simp [StartsWithLineEnd] at kept starts
            simp [starts] at kept
      rw [logPayload, if_neg silent, if_pos ends, inductionHypothesis,
        ← output_of_not_starts fresh, logger.output_dropWhile skips]
      simp [logger, silent, ends]
  | case4 byte rest silent notEnd inductionHypothesis =>
      rw [logPayload, if_neg silent, if_neg notEnd, inductionHypothesis]
      simp [logger, silent, notEnd]

/-- The state behind some bytes. -/
theorem final_eq
    {inRun : Bool}
    (nonempty : bytes ≠ []) :
    logger.final inRun bytes = true ↔ EndsLine bytes := by
  obtain ⟨first, last, rfl⟩ :=
    (List.eq_nil_or_concat bytes).resolve_left nonempty
  have silent : isLineEnd last = true → isprint last = false :=
    not_isprint_of_isLineEnd
  simp [Transducer.final, EndsLine, logger]
  exact silent

/-- What is logged of some payloads, each by itself. -/
def separately (payloads : List (List UInt8)) : CString :=
  (payloads.map logPayload).flatten

/-- A boundary within a run is a line end more, and any other is none. -/
theorem separately_eq_iff
    {payloads : List (List UInt8)}
    (nonempty : ∀ payload ∈ payloads, payload ≠ []) :
    (logPayload payloads.flatten).length ≤ (separately payloads).length ∧
      (separately payloads = logPayload payloads.flatten ↔
        payloads.IsChain fun first second =>
          ¬ (EndsLine first ∧ StartsWithLineEnd second)) := by
  induction payloads with
  | nil =>
      simp [separately, logPayload]
  | cons first rest inductionHypothesis =>
      obtain ⟨firstNonempty, restNonempty⟩ := List.forall_mem_cons.mp nonempty
      obtain ⟨shorter, equal⟩ := inductionHypothesis restNonempty
      cases rest with
      | nil =>
          simp [separately]
      | cons second others =>
          have secondNonempty := restNonempty second (by simp)
          have whole :
              logPayload (first :: second :: others).flatten =
                logPayload first ++
                  logger.output (logger.final false first)
                    (second :: others).flatten := by
            rw [List.flatten_cons, logPayload_eq, logger.output_append,
              logPayload_eq]
          have parts :
              separately (first :: second :: others) =
                logPayload first ++ separately (second :: others) := by
            simp [separately]
          have starts :
              StartsWithLineEnd (second :: others).flatten ↔
                StartsWithLineEnd second := by
            obtain ⟨byte, more, rfl⟩ :=
              List.exists_cons_of_ne_nil secondNonempty
            simp [StartsWithLineEnd]
          rw [logPayload_eq] at shorter equal
          rw [whole, parts, List.append_cancel_left_eq,
            List.isChain_cons_cons, List.length_append, List.length_append]
          by_cases joins : EndsLine first ∧ StartsWithLineEnd second
          · have inRun := (@final_eq first false firstNonempty).mpr joins.1
            have less := output_of_starts (starts.mpr joins.2)
            rw [less, List.length_cons] at shorter
            rw [inRun]
            refine ⟨by omega, iff_of_false (fun same => ?_) ?_⟩
            · rw [same] at shorter
              omega
            · exact fun chain => chain.1 joins
          · have apart :
                logger.output (logger.final false first)
                    (second :: others).flatten =
                  logger.output false (second :: others).flatten := by
              cases run : logger.final false first with
              | false =>
                  rfl
              | true =>
                  have ends := (final_eq firstNonempty).mp run
                  exact output_of_not_starts fun begins =>
                    joins ⟨ends, starts.mp begins⟩
            rw [apart]
            refine ⟨by omega, equal.trans ?_⟩
            exact (and_iff_right joins).symm

/-- Payloads without a byte make no difference. -/
theorem separately_filter
    (payloads : List (List UInt8)) :
    separately (payloads.filter (· ≠ [])) = separately payloads := by
  induction payloads with
  | nil =>
      rfl
  | cons first rest inductionHypothesis =>
      by_cases empty : first = []
      · subst empty
        simpa [separately, logPayload] using inductionHypothesis
      · rw [List.filter_cons_of_pos (by simpa using empty)]
        simp only [separately, List.map_cons, List.flatten_cons] at *
        rw [inductionHypothesis]

/-- What is printed and logged is what the packets hold, each by itself. -/
theorem stdbufV2_eq
    (packets : List StdbufPacket) :
    stdbufV2 packets =
      (stream (handled packets),
        separately ((handled packets).map StdbufPacket.payload)) := by
  induction packets with
  | nil =>
      rfl
  | cons packet rest inductionHypothesis =>
      rw [stdbufV2, handled]
      split
      · rfl
      · rw [inductionHypothesis]
        rfl

/-- A line feed, or a character that is seen in a terminal. -/
def Plain (c : Char) : Prop :=
  c = '\n' ∨ (0x20 ≤ c.toNat ∧ c.toNat ≤ 0x7E)

theorem plain_digitChar
    {digit : Nat}
    (small : digit < 16) :
    Plain (Nat.digitChar digit) := by
  have visible : ∀ value < 16,
      0x20 ≤ (Nat.digitChar value).toNat ∧
        (Nat.digitChar value).toNat ≤ 0x7E := by
    decide
  exact Or.inr (visible digit small)

theorem plain_character
    {byte : UInt8}
    (prints : isprint byte = true) :
    Plain (character byte) := by
  simp only [isprint, Bool.and_eq_true, decide_eq_true_eq,
    UInt8.le_iff_toNat_le] at prints
  have visible : ∀ code < 0x7F,
      0x20 ≤ code →
        0x20 ≤ (Char.ofNat code).toNat ∧ (Char.ofNat code).toNat ≤ 0x7E := by
    decide
  exact Or.inr (visible byte.toNat (Nat.lt_succ_of_le prints.2) prints.1)

/-- Everything in the log can be seen. -/
theorem plain_of_mem_logPayload
    {c : Char}
    (member : c ∈ logPayload bytes) :
    Plain c := by
  rw [logPayload_eq] at member
  refine logger.forall_mem_output (fun inRun byte _ c emitted => ?_) _ c member
  have small : byte.toNat < 256 := byte.toNat_lt
  simp only [logger] at emitted
  split at emitted
  · rw [List.mem_singleton.mp emitted]
    exact plain_character ‹_›
  · split at emitted
    · split at emitted
      · cases emitted
      · exact Or.inl (List.mem_singleton.mp emitted)
    · simp only [printHexByte, List.mem_cons, List.not_mem_nil,
        or_false] at emitted
      rcases emitted with rfl | rfl | rfl | rfl
      · exact Or.inr (by decide)
      · exact Or.inr (by decide)
      · exact plain_digitChar (by omega)
      · exact plain_digitChar (by omega)

/--
Of every sequence of packets the bytes are printed up to the first packet
without another behind it.  The log is that of the printed bytes, as if they
had come at once, exactly when no run of line ends is cut by a packet boundary.
Nothing in it is a control character but the line feeds.
-/
theorem stdbufV2_log_iff
    (packets : List StdbufPacket) :
    (stdbufV2 packets).1 = stream (handled packets) ∧
      ((stdbufV2 packets).2 = logPayload (stdbufV2 packets).1 ↔
          RunsWhole (handled packets)) ∧
        ∀ c ∈ (stdbufV2 packets).2, Plain c := by
  rw [stdbufV2_eq]
  refine ⟨rfl, ?_, fun c member => ?_⟩
  rotate_left
  · obtain ⟨logged, isLogged, inside⟩ := List.mem_flatten.mp member
    obtain ⟨payload, _, rfl⟩ := List.mem_map.mp isLogged
    exact plain_of_mem_logPayload inside
  have nonempty : ∀ payload ∈
      ((handled packets).map StdbufPacket.payload).filter (· ≠ []),
        payload ≠ [] := by
    intro payload member
    simpa using (List.mem_filter.mp member).2
  have boundaries := (separately_eq_iff nonempty).2
  rw [separately_filter, List.flatten_filter_ne_nil] at boundaries
  exact boundaries

end Logger

end Csh.StdbufLog
