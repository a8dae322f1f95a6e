import Csh.Lib.CNumber
import Csh.Lib.Interaction
import Csh.Slash

namespace Csh.Poke

open Libc Interaction

/-!
# The poke command

`slash_csp_cmp_poke` decodes its data argument with `base16_decode` straight
into the request.  The decoder stores each byte before it looks at the end
pointer of `strtoul`, and its negative error ends up in the one-byte length
field of a request that is sent all the same.
-/

/-- `EINVAL`. -/
def einval : Int :=
  22

/--
The loop of `base16_decode` behind the bytes `raw`: the bytes stored when it
ends and the value returned.
-/
def base16DecodeFrom (raw : List UInt8) : CString → List UInt8 × Int
  | [] => (raw, toInt raw.length)
  | [_] => (raw, -einval)
  | first :: second :: rest =>
      let converted := strtoul 16 [first, second]
      let stored := raw ++ [UInt8.ofNat converted.1]
      if converted.2 ≠ [] then
        (stored, -einval)
      else
        base16DecodeFrom stored rest

/-- `base16_decode`: the bytes stored and the length or negative error. -/
def base16Decode (encoded : CString) : List UInt8 × Int :=
  base16DecodeFrom [] encoded

/-- A number in network byte order, as `htobe32` and `htobe64` give it. -/
def bigEndian (bytes value : Nat) : List UInt8 :=
  (List.range bytes).map fun index =>
    UInt8.ofNat (value / 256 ^ (bytes - 1 - index))

/--
`struct csp_cmp_message` as far as a poke fills it: the address field, the
one-byte length and the bytes the decoder stored in the data field.
-/
structure PokeMessage where
  addr : List UInt8
  len : UInt8
  data : List UInt8
  deriving Repr, DecidableEq

/-- What a poke sends to the node. -/
inductive PokeCall where
  | cspCmpPoke (node timeout : Nat) (message : PokeMessage)
  | cspCmpPokeV2 (node timeout : Nat) (message : PokeMessage)
  deriving Repr, DecidableEq

/-- Both requests answer with a CSP error code; zero is `CSP_ERR_NONE`. -/
abbrev PokeAnswer (_ : PokeCall) : Type :=
  Int

/--
`CSP_CMP_POKE_MAX_LEN` and `CSP_CMP_POKE_V2_MAX_LEN` of libcsp, the sizes of
the two data fields, which the one-byte length can express.
-/
structure PokeLimits where
  pokeMaxLen : Nat
  pokeV2MaxLen : Nat
  pokeMaxLen_le : pokeMaxLen ≤ 255
  pokeV2MaxLen_le : pokeV2MaxLen ≤ 255

/-- The options of `poke`. -/
structure PokeOptions where
  node : Nat
  timeout : Nat
  version : Nat
  deriving Repr, DecidableEq

/-- The request a decoded data argument is put in. -/
def pokeMessage
    (addr : List UInt8)
    (data : CString) :
    PokeMessage :=
  let decoded := base16Decode data
  {
    addr := addr
    len := UInt8.ofNat (decoded.2 % 256).toNat
    data := decoded.1
  }

/-- The end of both branches: an answer other than none is an error. -/
def pokeResult (answer : Int) : SlashResult :=
  if answer ≠ 0 then .einval else .success

/-- `slash_csp_cmp_poke`. -/
def slashCspCmpPoke
    (limits : PokeLimits)
    (parsed : Parsed PokeOptions) :
    Prog PokeAnswer SlashResult :=
  match parsed with
  | none => pure .einval
  | some (_, []) => pure .einval
  | some (options, address :: arguments) =>
      let converted := strtoul 16 address
      if converted.2 ≠ [] then
        pure .eusage
      else
        match arguments with
        | [] => pure .einval
        | data :: _ =>
            if options.version < 1 ∨ 2 < options.version then
              pure .einval
            else
              let dataStrLen := data.length % 2 ^ 32
              if dataStrLen % 2 = 1 then
                pure .eusage
              else if options.version = 1 then
                if 0xFFFFFFFF < converted.1 then
                  pure .einval
                else if limits.pokeMaxLen < dataStrLen / 2 then
                  pure .eusage
                else do
                  let answer ←
                    Prog.ask (.cspCmpPoke options.node options.timeout
                      (pokeMessage (bigEndian 4 converted.1) data))
                  pure (pokeResult answer)
              else if limits.pokeV2MaxLen < dataStrLen / 2 then
                pure .eusage
              else do
                let answer ←
                  Prog.ask (.cspCmpPokeV2 options.node options.timeout
                    (pokeMessage (bigEndian 8 converted.1) data))
                pure (pokeResult answer)

section Decoding

/-- The bytes an even-length sequence of hexadecimal digits denotes. -/
def hexBytes? : CString → Option (List UInt8)
  | [] => some []
  | [_] => none
  | first :: second :: rest =>
      if isDigitOf 16 first = true ∧ isDigitOf 16 second = true then
        (hexBytes? rest).map
          (UInt8.ofNat (digitsValue 16 [first, second]) :: ·)
      else
        none

/-- A text that denotes bytes is made of their digit pairs. -/
theorem hexBytes?_eq_some
    {text : CString}
    {bytes : List UInt8}
    (denoted : hexBytes? text = some bytes) :
    text.length = 2 * bytes.length ∧
      ∀ c ∈ text, isDigitOf 16 c = true := by
  fun_induction hexBytes? text generalizing bytes with
  | case1 =>
      simp only [Option.some.injEq] at denoted
      subst denoted
      simp
  | case2 =>
      simp at denoted
  | case3 first second rest digits inductionHypothesis =>
      obtain ⟨later, laterDenoted, rfl⟩ := Option.map_eq_some_iff.mp denoted
      obtain ⟨length, allDigits⟩ := inductionHypothesis laterDenoted
      constructor
      · simp only [List.length_cons, length]
        omega
      · simp only [List.mem_cons]
        rintro c (rfl | rfl | member)
        · exact digits.1
        · exact digits.2
        · exact allDigits c member
  | case4 =>
      simp at denoted

/-- Every even-length sequence of hexadecimal digits denotes bytes. -/
theorem exists_hexBytes?
    {text : CString}
    (even : text.length % 2 = 0)
    (allDigits : ∀ c ∈ text, isDigitOf 16 c = true) :
    ∃ bytes, hexBytes? text = some bytes := by
  fun_induction hexBytes? text with
  | case1 =>
      exact ⟨[], rfl⟩
  | case2 =>
      simp at even
  | case3 first second rest digits inductionHypothesis =>
      simp only [List.length_cons] at even
      obtain ⟨later, laterDenoted⟩ :=
        inductionHypothesis (by omega)
          (fun c member => allDigits c (by simp [member]))
      exact ⟨_, Option.map_eq_some_iff.mpr ⟨later, laterDenoted, rfl⟩⟩
  | case4 first second rest notDigits =>
      exact (notDigits ⟨allDigits first (by simp),
        allDigits second (by simp)⟩).elim

/-- `strtoul` converts a pair of hexadecimal digits to the end. -/
theorem strtoul_pair
    {first second : Char}
    (firstDigit : isDigitOf 16 first = true)
    (secondDigit : isDigitOf 16 second = true) :
    strtoul 16 [first, second] = (digitsValue 16 [first, second], []) := by
  have scanned :=
    @scanNumeral_digits 16 [first, second] [] (by simp)
      (by simp [firstDigit, secondDigit]) (by simp [skipHexMark])
      (by simp [NoDigitAhead])
  have small : digitsValue 16 [first, second] < 256 :=
    digitsValue_lt_pow (by simp [firstDigit, secondDigit])
  simp only [List.append_nil] at scanned
  simp only [strtoul, scanned, Numeral.value]
  rw [if_neg (by omega)]
  simp only [Bool.false_eq_true, ↓reduceIte, Prod.mk.injEq, and_true]
  omega

/-- The decoder appends the bytes a well-formed text denotes. -/
theorem base16DecodeFrom_of_hexBytes?
    {text : CString}
    {bytes : List UInt8}
    (denoted : hexBytes? text = some bytes)
    (raw : List UInt8) :
    base16DecodeFrom raw text =
      (raw ++ bytes, toInt (raw ++ bytes).length) := by
  fun_induction hexBytes? text generalizing bytes raw with
  | case1 =>
      simp only [Option.some.injEq] at denoted
      subst denoted
      simp [base16DecodeFrom]
  | case2 =>
      simp at denoted
  | case3 first second rest digits inductionHypothesis =>
      obtain ⟨later, laterDenoted, rfl⟩ := Option.map_eq_some_iff.mp denoted
      simp [base16DecodeFrom, strtoul_pair digits.1 digits.2,
        inductionHypothesis laterDenoted]
  | case4 =>
      simp at denoted

/-- A well-formed text is decoded to the bytes it denotes. -/
theorem base16Decode_of_hexBytes?
    {text : CString}
    {bytes : List UInt8}
    (denoted : hexBytes? text = some bytes) :
    base16Decode text = (bytes, toInt bytes.length) := by
  rw [base16Decode, base16DecodeFrom_of_hexBytes? denoted, List.nil_append]

end Decoding

section Requests

/-- The data field of the request of a version. -/
def PokeLimits.maxLen (limits : PokeLimits) (version : Nat) : Nat :=
  if version = 1 then limits.pokeMaxLen else limits.pokeV2MaxLen

/-- The data field is at most what the length field can express. -/
theorem PokeLimits.maxLen_le
    (limits : PokeLimits)
    (version : Nat) :
    limits.maxLen version ≤ 255 := by
  unfold PokeLimits.maxLen
  split
  · exact limits.pokeMaxLen_le
  · exact limits.pokeV2MaxLen_le

/-- The request of a version. -/
def PokeOptions.request
    (options : PokeOptions)
    (message : PokeMessage) :
    PokeCall :=
  if options.version = 1 then
    .cspCmpPoke options.node options.timeout message
  else
    .cspCmpPokeV2 options.node options.timeout message

/-- The address field of the request of a version. -/
def PokeOptions.addressField
    (options : PokeOptions)
    (address : CString) :
    List UInt8 :=
  bigEndian (if options.version = 1 then 4 else 8) (strtoul 16 address).1

/-- A version of the command and an address it can express. -/
structure AddressValid (options : PokeOptions) (address : CString) : Prop where
  supported : options.version = 1 ∨ options.version = 2
  whole : (strtoul 16 address).2 = []
  inRange : options.version = 1 → (strtoul 16 address).1 ≤ 0xFFFFFFFF

/-- `data_str_len`, the length of the data argument as `unsigned int`. -/
def dataStrLen (data : CString) : Nat :=
  data.length % 2 ^ 32

/-- Behind a valid address only the length of the data is looked at. -/
theorem slashCspCmpPoke_of_addressValid
    {options : PokeOptions}
    {address : CString}
    (valid : AddressValid options address)
    (limits : PokeLimits)
    (data : CString)
    (extra : List CString) :
    slashCspCmpPoke limits (some (options, address :: data :: extra)) =
      if dataStrLen data % 2 = 1 then
        pure .eusage
      else if limits.maxLen options.version < dataStrLen data / 2 then
        pure .eusage
      else
        Prog.ask (options.request
            (pokeMessage (options.addressField address) data)) >>=
          fun answer => pure (pokeResult answer) := by
  obtain ⟨node, timeout, version⟩ := options
  obtain ⟨supported, whole, inRange⟩ := valid
  rcases supported with rfl | rfl
  · have fits : ¬ 0xFFFFFFFF < (strtoul 16 address).1 := by
      have bound := inRange rfl
      omega
    simp only [slashCspCmpPoke, whole, ne_eq, not_true_eq_false, ↓reduceIte,
      fits, Nat.lt_irrefl, Nat.reduceLT, or_self]
    rfl
  · simp only [slashCspCmpPoke, whole, ne_eq, not_true_eq_false, ↓reduceIte,
      Nat.lt_irrefl, Nat.reduceLT, or_self, OfNat.ofNat_ne_one]
    rfl

/--
What a poke should send for its data argument: one request with exactly the
bytes the text denotes when there are such bytes and they fit, else nothing.
-/
def PokesExactly
    (limits : PokeLimits)
    (options : PokeOptions)
    (data : CString)
    (trace : List (Step PokeAnswer))
    (result : SlashResult) :
    Prop :=
  match hexBytes? data with
  | some bytes =>
      if bytes.length ≤ limits.maxLen options.version then
        ∃ message answer,
          trace = [⟨options.request message, answer⟩] ∧
            message.len.toNat = bytes.length ∧
            message.data = bytes
      else
        trace = [] ∧ result.isError = true
  | none =>
      trace = [] ∧ result.isError = true

/--
The data arguments `poke` treats as it should: those its length tests refuse,
and hexadecimal digits whose number `unsigned int` can hold.
-/
def DataHandled
    (limits : PokeLimits)
    (version : Nat)
    (data : CString) :
    Prop :=
  dataStrLen data % 2 = 1 ∨
    limits.maxLen version < dataStrLen data / 2 ∨
    (data.length < 2 ^ 32 ∧ ∀ c ∈ data, isDigitOf 16 c = true)

/-- A refused data argument denotes no bytes that would fit. -/
theorem pokesExactly_of_refused
    {limits : PokeLimits}
    {options : PokeOptions}
    {data : CString}
    (refused :
      dataStrLen data % 2 = 1 ∨
        limits.maxLen options.version < dataStrLen data / 2) :
    PokesExactly limits options data [] .eusage := by
  unfold PokesExactly
  unfold dataStrLen at refused
  cases denoted : hexBytes? data with
  | none =>
      exact ⟨rfl, rfl⟩
  | some bytes =>
      have length := (hexBytes?_eq_some denoted).1
      have tooLong : ¬ bytes.length ≤ limits.maxLen options.version := by
        omega
      simp [tooLong, SlashResult.isError]

/-- A short sequence of digit pairs is sent as it should be. -/
theorem pokesExactly_of_digits
    {limits : PokeLimits}
    {options : PokeOptions}
    {data : CString}
    (even : dataStrLen data % 2 ≠ 1)
    (fits : ¬ limits.maxLen options.version < dataStrLen data / 2)
    (short : data.length < 2 ^ 32)
    (allDigits : ∀ c ∈ data, isDigitOf 16 c = true)
    (addr : List UInt8)
    (answer : Int)
    (result : SlashResult) :
    PokesExactly limits options data
      [⟨options.request (pokeMessage addr data), answer⟩] result := by
  unfold dataStrLen at even fits
  obtain ⟨bytes, denoted⟩ :=
    exists_hexBytes? (by omega) allDigits
  have length := (hexBytes?_eq_some denoted).1
  have bound := limits.maxLen_le options.version
  have decoded := base16Decode_of_hexBytes? denoted
  have small : toInt (bytes.length : Int) = bytes.length :=
    toInt_of_range (by omega)
  have few : bytes.length ≤ limits.maxLen options.version := by
    omega
  simp only [PokesExactly, denoted, few, ↓reduceIte]
  refine ⟨_, answer, rfl, ?_, ?_⟩
  · simp only [pokeMessage, decoded, small, UInt8.toNat_ofNat']
    omega
  · simp [pokeMessage, decoded]

/-- A request that goes out for anything else is not what should be sent. -/
theorem digits_of_pokesExactly
    {limits : PokeLimits}
    {options : PokeOptions}
    {data : CString}
    {step : Step PokeAnswer}
    {result : SlashResult}
    (exactly : PokesExactly limits options data [step] result) :
    data.length < 2 ^ 32 ∧ ∀ c ∈ data, isDigitOf 16 c = true := by
  have bound := limits.maxLen_le options.version
  unfold PokesExactly at exactly
  cases denoted : hexBytes? data with
  | none =>
      simp [denoted] at exactly
  | some bytes =>
      obtain ⟨length, allDigits⟩ := hexBytes?_eq_some denoted
      by_cases few : bytes.length ≤ limits.maxLen options.version
      · exact ⟨by omega, allDigits⟩
      · simp [denoted, few] at exactly

/--
For a valid address, `poke` sends exactly the bytes its data argument denotes,
and nothing when there are none, for the handled data arguments and no others.
-/
theorem poke_sends_exactly_iff
    {options : PokeOptions}
    {address : CString}
    (valid : AddressValid options address)
    (limits : PokeLimits)
    (data : CString)
    (extra : List CString) :
    (∀ trace result,
        Runs (slashCspCmpPoke limits
          (some (options, address :: data :: extra))) trace result →
        PokesExactly limits options data trace result) ↔
      DataHandled limits options.version data := by
  rw [slashCspCmpPoke_of_addressValid valid]
  by_cases odd : dataStrLen data % 2 = 1
  · simp only [odd, ↓reduceIte, runs_pure_iff]
    constructor
    · intro _
      exact .inl odd
    · rintro _ _ _ ⟨rfl, rfl⟩
      exact pokesExactly_of_refused (.inl odd)
  · by_cases long : limits.maxLen options.version < dataStrLen data / 2
    · simp only [odd, long, ↓reduceIte, runs_pure_iff]
      constructor
      · intro _
        exact .inr (.inl long)
      · rintro _ _ _ ⟨rfl, rfl⟩
        exact pokesExactly_of_refused (.inr long)
    · simp only [odd, long, ↓reduceIte, runs_ask_bind_iff, runs_pure_iff]
      constructor
      · intro exactly
        have sent := exactly _ _ ⟨0, [], rfl, rfl, rfl⟩
        exact .inr (.inr (digits_of_pokesExactly sent))
      · rintro handled _ _ ⟨answer, _, rfl, rfl, rfl⟩
        have digits :
            data.length < 2 ^ 32 ∧ ∀ c ∈ data, isDigitOf 16 c = true :=
          (handled.resolve_left odd).resolve_left long
        exact pokesExactly_of_digits odd long digits.1 digits.2 _ _ _

/-- The data fields of libcsp. -/
def cspLimits : PokeLimits where
  pokeMaxLen := 200
  pokeV2MaxLen := 196
  pokeMaxLen_le := by decide
  pokeV2MaxLen_le := by decide

/-- A 32-bit poke to address 0x10. -/
theorem addressValid_sixteen :
    AddressValid ⟨1, 1000, 1⟩ ['1', '0'] :=
  ⟨.inl rfl, by decide, by decide⟩

/-- Hexadecimal data is sent as the bytes it denotes. -/
theorem poke_sends_hexadecimal_data :
    DataHandled cspLimits 1 ['0', 'a', 'F', 'F'] ∧
      ∀ trace result,
        Runs (slashCspCmpPoke cspLimits
          (some (⟨1, 1000, 1⟩, [['1', '0'], ['0', 'a', 'F', 'F']])))
          trace result →
        PokesExactly cspLimits ⟨1, 1000, 1⟩ ['0', 'a', 'F', 'F']
          trace result := by
  have handled : DataHandled cspLimits 1 ['0', 'a', 'F', 'F'] :=
    Or.inr (Or.inr ⟨by decide, List.all_eq_true.mp rfl⟩)
  refine ⟨handled, ?_⟩
  exact
    (poke_sends_exactly_iff addressValid_sixteen cspLimits
      ['0', 'a', 'F', 'F'] []).mpr handled

/-- The data argument `zz` denotes no byte, and a request is sent for it. -/
theorem poke_sends_undecodable_data :
    ¬ ∀ (limits : PokeLimits) (options : PokeOptions)
      (address data : CString) (extra : List CString),
      AddressValid options address →
        ∀ trace result,
          Runs (slashCspCmpPoke limits
            (some (options, address :: data :: extra))) trace result →
          PokesExactly limits options data trace result := by
  intro sendsExactly
  have claimed :=
    sendsExactly cspLimits ⟨1, 1000, 1⟩ ['1', '0'] ['z', 'z'] []
      addressValid_sixteen _ _ (runs_exec (fun _ _ => (0 : Int)) 0 _)
  have nothingSent := congrArg List.isEmpty claimed.1
  revert nothingSent
  decide

end Requests

end Csh.Poke
