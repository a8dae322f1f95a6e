import Mathlib.Algebra.Order.Ring.Int
import Mathlib.Tactic.Tauto

namespace Csh.ParamSniffer

/-!
# The data that the sniffer decodes

`param_sniffer` takes every packet from the network, offers it to
`hk_param_sniffer`, and hands what is behind the header of a parameter message
to the decoder.  The accesses to the data are kept with the packet as it is
then, whose length says which bytes are valid.
-/

/-- A packet: source, ports, two of the flags, and `length` bytes of data. -/
structure CspPacket where
  src : Nat
  sport : Nat
  dport : Nat
  fcrc32 : Bool
  frdp : Bool
  length : Nat
  data : Nat → UInt8
  bound : length < 2 ^ 16

/-- Take bytes off the end. -/
def CspPacket.shorten (packet : CspPacket) (n : Nat) : CspPacket :=
  { packet with
    length := packet.length - n
    bound := Nat.lt_of_le_of_lt (Nat.sub_le _ _) packet.bound }

/--
What the sniffer uses of the libraries: `csp_crc32_verify`, which takes a valid
checksum off the packet, `PARAM_PORT_SERVER`, and the types of the responses.
-/
structure Libraries where
  crc32Verify : CspPacket → Option CspPacket
  strips :
    ∀ packet checked,
      crc32Verify packet = some checked → checked = packet.shorten 4
  portServer : Nat
  pullResponse : UInt8
  pullResponseV2 : UInt8

/-- What is done with the data of a packet. -/
inductive Access where
  | read (packet : CspPacket) (index : Nat)
  | decode (packet : CspPacket) (start : Nat) (len : Int) (version : Nat)

variable (libs : Libraries)

/-- `param_sniffer_crc`: the packet without its checksum, or none. -/
def paramSnifferCrc (packet : CspPacket) : Option CspPacket :=
  if packet.fcrc32 then
    if packet.length < 4 then
      none
    else
      libs.crc32Verify packet
  else
    some packet

/-- The bytes that RDP adds to the end of a packet. -/
def rdpTrailer (packet : CspPacket) : Nat :=
  if packet.frdp then 5 else 0

/--
`hk_param_sniffer`: what it decodes, or none where it returns false.  The
length is a `size_t`.
-/
def hkParamSniffer (packet : CspPacket) : Option Access :=
  if packet.sport ≠ 13 then
    none
  else
    match paramSnifferCrc libs packet with
    | none => none
    | some packet =>
        let headerSize : Nat := 5
        let dataLen : Int :=
          ((packet.length : Int) - headerSize - rdpTrailer packet) % 2 ^ 64
        some (.decode packet headerSize dataLen 2)

/-- What `param_sniffer` does with a packet. -/
def paramSniffer (packet : CspPacket) : List Access :=
  match hkParamSniffer libs packet with
  | some access => [access]
  | none =>
      if packet.sport ≠ libs.portServer ∧ packet.dport ≠ libs.portServer then
        []
      else
        match paramSnifferCrc libs packet with
        | none => []
        | some packet =>
            let type := packet.data 0
            if type ≠ libs.pullResponse ∧ type ≠ libs.pullResponseV2 then
              [.read packet 0]
            else
              [.read packet 0,
                .decode packet 2 ((packet.length : Int) - 2)
                  (if type = libs.pullResponse then 1 else 2)]

/--
The access stays inside the packet, and what is decoded is all that is between
the header and the trailer.
-/
def Access.Inside : Access → Prop
  | .read packet index => index < packet.length
  | .decode packet start len _ =>
      len = (packet.length : Int) - start - rdpTrailer packet ∧ 0 ≤ len ∧
        start + len ≤ packet.length

/-- The packet has no checksum, or a valid one. -/
def PassesCrc (packet : CspPacket) : Prop :=
  packet.fcrc32 = true →
    4 ≤ packet.length ∧ (libs.crc32Verify packet).isSome = true

/-- The length without the checksum. -/
def lengthWithoutCrc (packet : CspPacket) : Nat :=
  if packet.fcrc32 then packet.length - 4 else packet.length

/--
A housekeeping packet has room for header and trailer; a packet of the
parameter port has a first byte and, if that is the type of a response, two
bytes and no trailer.
-/
def LongEnough (packet : CspPacket) : Prop :=
  PassesCrc libs packet →
    if packet.sport = 13 then
      5 + rdpTrailer packet ≤ lengthWithoutCrc packet
    else
      packet.sport = libs.portServer ∨ packet.dport = libs.portServer →
        0 < lengthWithoutCrc packet ∧
          (packet.data 0 = libs.pullResponse ∨
              packet.data 0 = libs.pullResponseV2 →
            2 ≤ lengthWithoutCrc packet ∧ packet.frdp = false)

variable {libs}
variable {packet checked : CspPacket}

/-- A packet that passes differs from the received one in its length. -/
theorem paramSnifferCrc_eq_some
    (passed : paramSnifferCrc libs packet = some checked) :
    PassesCrc libs packet ∧ checked.length = lengthWithoutCrc packet ∧
      checked.data = packet.data ∧ checked.frdp = packet.frdp := by
  unfold paramSnifferCrc at passed
  unfold PassesCrc lengthWithoutCrc
  cases crc : packet.fcrc32 with
  | false =>
      rw [crc, if_neg Bool.false_ne_true, Option.some.injEq] at passed
      subst passed
      simp
  | true =>
      rw [crc, if_pos rfl] at passed
      split at passed
      · cases passed
      · rename_i long
        have stripped := libs.strips packet checked passed
        refine ⟨fun _ => ⟨by omega, by simp [passed]⟩, ?_⟩
        subst stripped
        simp [CspPacket.shorten]

theorem not_passesCrc
    (failed : paramSnifferCrc libs packet = none) :
    ¬ PassesCrc libs packet := by
  intro passes
  unfold paramSnifferCrc at failed
  unfold PassesCrc at passes
  split at failed
  · rename_i crc
    obtain ⟨long, valid⟩ := passes crc
    rw [if_neg (by omega)] at failed
    simp [failed] at valid
  · cases failed

/-- The length of a housekeeping packet is long enough or wraps. -/
theorem inside_hk_iff
    (packet : CspPacket)
    (version : Nat) :
    (Access.decode packet 5
        (((packet.length : Int) - (5 : Nat) - rdpTrailer packet) % 2 ^ 64)
        version).Inside ↔
      5 + rdpTrailer packet ≤ packet.length := by
  have bound := packet.bound
  unfold Access.Inside
  constructor
  · rintro ⟨same, positive, _⟩
    omega
  · intro long
    refine ⟨?_, ?_, ?_⟩ <;> omega

/-- What is decoded of a response goes up to the end of the packet. -/
theorem inside_response_iff
    (packet : CspPacket)
    (version : Nat) :
    (Access.decode packet 2 ((packet.length : Int) - 2) version).Inside ↔
      2 ≤ packet.length ∧ packet.frdp = false := by
  unfold Access.Inside
  cases frdp : packet.frdp with
  | false =>
      have none : rdpTrailer packet = 0 := by
        simp [rdpTrailer, frdp]
      simp only [none, and_true]
      omega
  | true =>
      have five : rdpTrailer packet = 5 := by
        simp [rdpTrailer, frdp]
      simp only [five, Bool.true_eq_false, and_false, iff_false]
      omega

/--
The sniffer stays inside a packet, and decodes what is between its header and
its trailer, if and only if the packet is long enough.
-/
theorem inside_iff_longEnough
    (libs : Libraries)
    (packet : CspPacket) :
    (∀ access ∈ paramSniffer libs packet, access.Inside) ↔
      LongEnough libs packet := by
  unfold paramSniffer hkParamSniffer LongEnough
  cases crc : paramSnifferCrc libs packet with
  | none =>
      have fails := not_passesCrc crc
      by_cases hk : packet.sport = 13 <;> simp [hk, fails]
  | some checked =>
      obtain ⟨passes, length, data, frdp⟩ := paramSnifferCrc_eq_some crc
      have trailer : rdpTrailer checked = rdpTrailer packet := by
        simp [rdpTrailer, frdp]
      by_cases hk : packet.sport = 13
      · simp only [hk, ne_eq, not_true_eq_false, if_false, if_true,
          List.mem_singleton, forall_eq]
        rw [inside_hk_iff, length, trailer]
        simp [passes]
      · by_cases port :
            packet.sport = libs.portServer ∨ packet.dport = libs.portServer
        · have onPort :
              ¬ (packet.sport ≠ libs.portServer ∧
                packet.dport ≠ libs.portServer) := by
            tauto
          rw [← data, ← length, ← frdp]
          simp only [hk, ne_eq, not_false_eq_true, if_true, if_false, onPort,
            port, passes, forall_const]
          by_cases response :
              checked.data 0 = libs.pullResponse ∨
                checked.data 0 = libs.pullResponseV2
          · have isResponse :
                ¬ (¬ checked.data 0 = libs.pullResponse ∧
                  ¬ checked.data 0 = libs.pullResponseV2) := by
              tauto
            simp only [isResponse, if_false, List.forall_mem_cons,
              inside_response_iff, List.not_mem_nil, response, forall_const]
            simp [Access.Inside]
          · have isNone :
                ¬ checked.data 0 = libs.pullResponse ∧
                  ¬ checked.data 0 = libs.pullResponseV2 := by
              tauto
            simp [isNone, Access.Inside]
        · have offPort :
              packet.sport ≠ libs.portServer ∧
                packet.dport ≠ libs.portServer := by
            tauto
          simp [hk, offPort]

/-- An empty housekeeping packet is decoded from behind its end. -/
theorem not_inside_empty_packet :
    ¬ ∀ (libs : Libraries) (packet : CspPacket),
      ∀ access ∈ paramSniffer libs packet, access.Inside := by
  intro inside
  have accessed :=
    inside ⟨fun _ => none, by simp, 10, 1, 2⟩
      ⟨1, 13, 10, false, false, 0, fun _ => 0, by decide⟩
      (.decode _ 5 (2 ^ 64 - 5) 2) (List.mem_singleton.mpr rfl)
  obtain ⟨_, _, upTo⟩ := accessed
  revert upTo
  decide

end Csh.ParamSniffer
