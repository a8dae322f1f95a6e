import Csh.Lib.CNumber
import Csh.Slash
import Mathlib.Data.List.Induction
import Mathlib.Data.List.Nodup
import Mathlib.Data.List.Pairwise
import Mathlib.Logic.Function.Basic

namespace Csh.CspInit

open Libc

/-!
# The interfaces of CSP

Each `csp add` command sets up interfaces of its kind.  Their names are made of
the kind and of a counter that the command keeps for itself and only raises
when it succeeds.
-/

/-- The options that all these commands have. -/
structure IfOptions where
  promisc : Int := 0
  mask : Int := 8
  dfl : Int := 0

structure ZmqOptions extends IfOptions where
  keyFile : Option CString := none
  subport : UInt32 := 0
  pubport : UInt32 := 0

structure KissOptions extends IfOptions where
  baud : Int := 1000000
  device : CString := "/dev/ttyUSB0".toList

structure CanOptions extends IfOptions where
  baud : Int := 1000000
  device : CString := "can0".toList

structure EthOptions extends IfOptions where
  device : CString := "e".toList
  mtu : Int := 1200

structure UdpOptions extends IfOptions where
  listenPort : Int := 9220
  remotePort : Int := 9220

/-- The kinds of interfaces. -/
inductive IfKind where
  | zmq
  | kiss
  | can
  | eth
  | udp
  | tun
  deriving Repr, DecidableEq

/-- What the library is given for an interface, besides name and address. -/
inductive Driver where
  | zmq
      (server : CString)
      (promisc : Int)
      (secKey : Option CString)
      (subport pubport : UInt32)
  | kiss (device : CString) (baudrate : Int)
  | can (device : CString) (bitrate promisc : Int)
  | eth (device : CString) (mtu : Int) (promisc : Bool)
  | udp (host : CString) (lport rport : Int)
  | tun (tunSrc tunDst : UInt32)
  deriving Repr, DecidableEq

/-- `csp_iface_t`, as far as the commands fill it in. -/
structure Iface where
  name : Option CString
  driver : Driver
  addr : UInt32
  netmask : Int
  isDefault : Int
  deriving Repr, DecidableEq

/-- An entry of `getifaddrs`: its name, and if it has an address. -/
structure IfAddress where
  ifaName : CString
  hasAddr : Bool
  deriving Repr, DecidableEq

/--
What the system answers: the user's directory, which is set, the contents of
files, the addresses of `getifaddrs`, and whether the library accepts an
interface.
-/
structure Host where
  home : CString
  contents : CString → Option CString
  addresses : Option (List IfAddress)
  accepts : Driver → Bool

/-- The name of an interface, in an array of `nameMax + 1` characters. -/
def ifName (nameMax : Nat) (label : CString) (ifidx : Nat) : CString :=
  snprintf nameMax (label ++ printUnsigned ifidx)

/-- `strtoul` of an argument that it has to read to its end. -/
def addrArgument (word : CString) : Option UInt32 :=
  let read := strtoul 10 word
  if read.2 = [] then some (UInt32.ofNat read.1) else none

/-- What the commands share: the address first, then what the driver takes. -/
def ifadd
    (host : Host)
    (name : Option CString)
    (options : IfOptions)
    (driver : List CString → Option Driver) :
    List CString → Option Iface
  | [] => none
  | word :: rest => do
      let addr ← addrArgument word
      let driver ← driver rest
      if host.accepts driver then
        some
          { name := name
            driver := driver
            addr := addr
            netmask := options.mask
            isDefault := options.dfl }
      else
        none

/-- The port that is given, or the default one, which a key makes another. -/
def portOrDefault
    (port default : UInt32)
    (keyFile : Option CString) :
    UInt32 :=
  if port = 0 then
    default + (if keyFile = none then 0 else 1)
  else
    port

/-- `CURVE_KEYLEN`. -/
def curveKeylen : Nat :=
  41

/-- The path of the key, with the user's directory in place of a tilde. -/
def keyFileLocal (home keyFile : CString) : CString :=
  match keyFile with
  | '~' :: rest => home ++ rest
  | path => path

/-- The first line of the key file, as far as it fits. -/
def readKey (host : Host) (keyFile : CString) : Option CString :=
  match host.contents (keyFileLocal host.home keyFile) with
  | none => none
  | some [] => none
  | some text => some ((text.take (curveKeylen - 1)).takeWhile (· ≠ '\n'))

/-- The server and the key of a ZMQ interface. -/
def zmqDriver
    (host : Host)
    (options : ZmqOptions) :
    List CString → Option Driver
  | [] => none
  | server :: _ =>
      let subport := portOrDefault options.subport 6000 options.keyFile
      let pubport := portOrDefault options.pubport 7000 options.keyFile
      match options.keyFile with
      | none => some (.zmq server options.promisc none subport pubport)
      | some keyFile =>
          (readKey host keyFile).map fun key =>
            .zmq server options.promisc (some key) subport pubport

/-- `csp_ifadd_zmq_cmd`. -/
def cspIfaddZmqCmd
    (nameMax ifidx : Nat)
    (host : Host) :
    Parsed ZmqOptions → Option Iface
  | none => none
  | some (options, args) =>
      ifadd host (some (ifName nameMax "ZMQ".toList ifidx)) options.toIfOptions
        (zmqDriver host options) args

/-- `csp_ifadd_kiss_cmd`. -/
def cspIfaddKissCmd
    (nameMax ifidx : Nat)
    (host : Host) :
    Parsed KissOptions → Option Iface
  | none => none
  | some (options, args) =>
      ifadd host (some (ifName nameMax "KISS".toList ifidx))
        options.toIfOptions
        (fun _ => some (.kiss options.device options.baud)) args

/-- `csp_ifadd_can_cmd`. -/
def cspIfaddCanCmd
    (nameMax ifidx : Nat)
    (host : Host) :
    Parsed CanOptions → Option Iface
  | none => none
  | some (options, args) =>
      ifadd host (some (ifName nameMax "CAN".toList ifidx)) options.toIfOptions
        (fun _ => some (.can options.device options.baud options.promisc)) args

/-- The loop of `eth_select_interface`; a selection ends it. -/
def selectFrom (device : CString) : List IfAddress → CString → CString
  | [], selected => selected
  | address :: rest, selected =>
      if selected ≠ [] then
        selected
      else if address.hasAddr ∧ address.ifaName ≠ "lo".toList ∧
          device.isPrefixOf address.ifaName then
        selectFrom device rest (address.ifaName.take 19)
      else
        selectFrom device rest selected

/-- `eth_select_interface`. -/
def ethSelectInterface (host : Host) (device : CString) : CString :=
  match host.addresses with
  | none => []
  | some addresses => selectFrom device addresses []

/-- `csp_ifadd_eth_cmd`. -/
def cspIfaddEthCmd
    (nameMax ifidx : Nat)
    (host : Host) :
    Parsed EthOptions → Option Iface
  | none => none
  | some (options, args) =>
      ifadd host (some (ifName nameMax "ETH".toList ifidx)) options.toIfOptions
        (fun _ =>
          let device := ethSelectInterface host options.device
          if device = [] then
            none
          else
            some (.eth device options.mtu (options.promisc == 1)))
        args

/-- `csp_ifadd_udp_cmd`; the library accepts it while there is memory. -/
def cspIfaddUdpCmd
    (nameMax ifidx : Nat)
    (host : Host) :
    Parsed UdpOptions → Option Iface
  | none => none
  | some (options, args) =>
      ifadd host (some (ifName nameMax "UDP".toList ifidx)) options.toIfOptions
        (fun rest =>
          rest.head?.map fun server =>
            .udp server options.listenPort options.remotePort)
        args

/-- The two ends of a tunnel; what follows their digits is not looked at. -/
def tunDriver : List CString → Option Driver
  | tunSrc :: tunDst :: _ =>
      some
        (.tun (UInt32.ofNat (strtoul 10 tunSrc).1)
          (UInt32.ofNat (strtoul 10 tunDst).1))
  | _ => none

/-- `csp_ifadd_tun_cmd`, which makes up a name and does not use it. -/
def cspIfaddTunCmd
    (host : Host) :
    Parsed IfOptions → Option Iface
  | none => none
  | some (options, args) =>
      ifadd host none options tunDriver args

/-- A command line of `csp add`. -/
inductive IfCommand where
  | zmq (line : Parsed ZmqOptions)
  | kiss (line : Parsed KissOptions)
  | can (line : Parsed CanOptions)
  | eth (line : Parsed EthOptions)
  | udp (line : Parsed UdpOptions)
  | tun (line : Parsed IfOptions)

namespace IfCommand

def kind : IfCommand → IfKind
  | .zmq _ => .zmq
  | .kiss _ => .kiss
  | .can _ => .can
  | .eth _ => .eth
  | .udp _ => .udp
  | .tun _ => .tun

/-- The interface that the command adds, if it succeeds. -/
def exec (nameMax ifidx : Nat) (host : Host) : IfCommand → Option Iface
  | .zmq line => cspIfaddZmqCmd nameMax ifidx host line
  | .kiss line => cspIfaddKissCmd nameMax ifidx host line
  | .can line => cspIfaddCanCmd nameMax ifidx host line
  | .eth line => cspIfaddEthCmd nameMax ifidx host line
  | .udp line => cspIfaddUdpCmd nameMax ifidx host line
  | .tun line => cspIfaddTunCmd host line

end IfCommand

/-- The counters of the commands, and the interfaces in the order they come. -/
structure InitState where
  ifidx : IfKind → Nat
  ifaces : List Iface

/-- One command, with what the system answers. -/
def addInterface
    (nameMax : Nat)
    (state : InitState)
    (issued : Host × IfCommand) :
    InitState :=
  let kind := issued.2.kind
  match issued.2.exec nameMax (state.ifidx kind) issued.1 with
  | none => state
  | some iface =>
      { ifidx := Function.update state.ifidx kind (state.ifidx kind + 1)
        ifaces := state.ifaces ++ [iface] }

/-- One command after the other, from the start of csh. -/
def addInterfaces
    (nameMax : Nat)
    (issued : List (Host × IfCommand)) :
    InitState :=
  issued.foldl (addInterface nameMax) ⟨fun _ => 0, []⟩

def IfKind.label : IfKind → CString
  | .zmq => "ZMQ".toList
  | .kiss => "KISS".toList
  | .can => "CAN".toList
  | .eth => "ETH".toList
  | .udp => "UDP".toList
  | .tun => "TUN".toList

def Driver.kind : Driver → IfKind
  | .zmq .. => .zmq
  | .kiss .. => .kiss
  | .can .. => .can
  | .eth .. => .eth
  | .udp .. => .udp
  | .tun .. => .tun

/-- The name that the interface with a number of a kind is given. -/
def nameOf (nameMax : Nat) (kind : IfKind) (number : Nat) : Option CString :=
  if kind = .tun then none else some (ifName nameMax kind.label number)

/-- How many digits of the number fit behind the kind. -/
def digitsIn (nameMax : Nat) (kind : IfKind) : Nat :=
  nameMax - 1 - kind.label.length

section Commands

variable {host : Host}
variable {iface : Iface}
variable {nameMax ifidx : Nat}

/-- What is added has the name that is given, and a driver that is made. -/
theorem ifadd_eq_some
    {kind : IfKind}
    {name : Option CString}
    {options : IfOptions}
    {driver : List CString → Option Driver}
    {args : List CString}
    (ofKind : ∀ rest made, driver rest = some made → made.kind = kind)
    (added : ifadd host name options driver args = some iface) :
    iface.driver.kind = kind ∧ iface.name = name := by
  cases args with
  | nil => cases added
  | cons word rest =>
      simp only [ifadd, Option.bind_eq_bind, Option.bind_eq_some_iff] at added
      obtain ⟨addr, _, made, isMade, last⟩ := added
      split at last
      · cases last
        exact ⟨ofKind rest made isMade, rfl⟩
      · cases last

theorem kind_zmqDriver
    {options : ZmqOptions}
    {args : List CString}
    {driver : Driver}
    (made : zmqDriver host options args = some driver) :
    driver.kind = .zmq := by
  cases args with
  | nil => cases made
  | cons server rest =>
      simp only [zmqDriver] at made
      split at made
      · cases made
        rfl
      · obtain ⟨key, _, rfl⟩ := Option.map_eq_some_iff.mp made
        rfl

/-- What a command adds is of its kind and named by its counter. -/
theorem exec_eq_some
    {command : IfCommand}
    (added : command.exec nameMax ifidx host = some iface) :
    iface.driver.kind = command.kind ∧
      iface.name = nameOf nameMax command.kind ifidx := by
  cases command with
  | zmq line =>
      cases line with
      | none => cases added
      | some line =>
          exact ifadd_eq_some (fun rest made => kind_zmqDriver) added
  | kiss line =>
      cases line with
      | none => cases added
      | some line =>
          refine ifadd_eq_some (fun rest made isMade => ?_) added
          cases isMade
          rfl
  | can line =>
      cases line with
      | none => cases added
      | some line =>
          refine ifadd_eq_some (fun rest made isMade => ?_) added
          cases isMade
          rfl
  | eth line =>
      cases line with
      | none => cases added
      | some line =>
          refine ifadd_eq_some (fun rest made isMade => ?_) added
          simp only at isMade
          split at isMade
          · cases isMade
          · cases isMade
            rfl
  | udp line =>
      cases line with
      | none => cases added
      | some line =>
          refine ifadd_eq_some (fun rest made isMade => ?_) added
          obtain ⟨server, _, rfl⟩ := Option.map_eq_some_iff.mp isMade
          rfl
  | tun line =>
      cases line with
      | none => cases added
      | some line =>
          refine ifadd_eq_some (fun rest made isMade => ?_) added
          unfold tunDriver at isMade
          split at isMade
          · cases isMade
            rfl
          · cases isMade

end Commands

/-- The interfaces are numbered within each kind, without gaps. -/
structure Numbered
    (nameMax : Nat)
    (state : InitState)
    (marks : List (IfKind × Nat)) :
    Prop where
  named :
    state.ifaces.map (fun iface => (iface.driver.kind, iface.name)) =
      marks.map fun mark => (mark.1, nameOf nameMax mark.1 mark.2)
  distinct : marks.Nodup
  counted : ∀ kind number, (kind, number) ∈ marks ↔ number < state.ifidx kind

section Runs

variable {nameMax : Nat}
variable {state : InitState}
variable {marks : List (IfKind × Nat)}

/-- A command that succeeds takes the next number of its kind. -/
theorem Numbered.add
    (numbered : Numbered nameMax state marks)
    (issued : Host × IfCommand) :
    ∃ marks, Numbered nameMax (addInterface nameMax state issued) marks := by
  unfold addInterface
  simp only
  split
  · exact ⟨marks, numbered⟩
  · rename_i iface added
    obtain ⟨isKind, isName⟩ := exec_eq_some added
    refine
      ⟨marks ++ [(issued.2.kind, state.ifidx issued.2.kind)], ?_, ?_, ?_⟩
    · simp only [List.map_append, List.map_singleton, numbered.named, isKind,
        isName]
    · refine numbered.distinct.append (List.nodup_singleton _) ?_
      rw [List.disjoint_singleton, numbered.counted]
      exact Nat.lt_irrefl _
    · intro kind number
      rw [List.mem_append, List.mem_singleton, numbered.counted,
        Prod.mk.injEq]
      simp only [Function.update_apply]
      by_cases same : kind = issued.2.kind
      · subst same
        rw [if_pos rfl]
        simp only [true_and]
        omega
      · rw [if_neg same]
        exact or_iff_left fun both => same both.1

theorem exists_numbered
    (nameMax : Nat)
    (issued : List (Host × IfCommand)) :
    ∃ marks, Numbered nameMax (addInterfaces nameMax issued) marks := by
  induction issued using List.reverseRecOn with
  | nil =>
      exact
        ⟨[], rfl, List.nodup_nil, fun kind number =>
          iff_of_false List.not_mem_nil (Nat.not_lt_zero _)⟩
  | append_singleton earlier last inductionHypothesis =>
      obtain ⟨marks, numbered⟩ := inductionHypothesis
      rw [addInterfaces, List.foldl_concat]
      exact numbered.add last

end Runs

section Names

variable {nameMax : Nat}
variable {first second : IfKind}

/-- The kinds are told apart by their first letter. -/
theorem kind_eq_of_head
    (same : first.label.head? = second.label.head?) :
    first = second := by
  revert same
  cases first <;> cases second <;> decide

theorem length_label_lt
    (roomy : 6 ≤ nameMax)
    (kind : IfKind) :
    kind.label.length < nameMax - 1 := by
  have short : kind.label.length ≤ 4 := by
    cases kind <;> decide
  omega

/-- A name is its kind and as many of the digits as fit. -/
theorem ifName_eq
    (roomy : 6 ≤ nameMax)
    (kind : IfKind)
    (number : Nat) :
    ifName nameMax kind.label number =
      kind.label ++ (printUnsigned number).take (digitsIn nameMax kind) := by
  rw [ifName, snprintf, digitsIn, List.take_append,
    List.take_of_length_le (length_label_lt roomy kind).le]

theorem label_head_isSome
    (kind : IfKind) :
    kind.label ≠ [] := by
  cases kind <;> decide

theorem kind_eq_of_ifName
    (roomy : 6 ≤ nameMax)
    {number other : Nat}
    (same :
      ifName nameMax first.label number = ifName nameMax second.label other) :
    first = second := by
  rw [ifName_eq roomy, ifName_eq roomy] at same
  refine kind_eq_of_head ?_
  rw [← List.head?_append_of_ne_nil _ (label_head_isSome first), same,
    List.head?_append_of_ne_nil _ (label_head_isSome second)]

/-- Numbers whose digits fit have different names. -/
theorem number_eq_of_ifName
    (roomy : 6 ≤ nameMax)
    {kind : IfKind}
    {number other : Nat}
    (fits : number < 10 ^ digitsIn nameMax kind)
    (otherFits : other < 10 ^ digitsIn nameMax kind)
    (same :
      ifName nameMax kind.label number = ifName nameMax kind.label other) :
    number = other := by
  have positive : 0 < digitsIn nameMax kind :=
    Nat.sub_pos_of_lt (length_label_lt roomy kind)
  have whole :
      ∀ value : Nat, value < 10 ^ digitsIn nameMax kind →
        (printUnsigned value).take (digitsIn nameMax kind) =
          printUnsigned value :=
    fun value small =>
      List.take_of_length_le
        ((Nat.length_toDigits_le_iff (by decide) positive).mpr small)
  rw [ifName_eq roomy, ifName_eq roomy, whole number fits,
    whole other otherFits] at same
  exact printUnsigned_injective (List.append_cancel_left same)

/-- A power of ten has one digit more than it has zeros. -/
theorem lt_length_printUnsigned
    (zeros : Nat) :
    zeros < (printUnsigned (10 ^ zeros)).length := by
  by_contra short
  rw [not_lt] at short
  rcases Nat.eq_zero_or_pos zeros with rfl | positive
  · exact
      Nat.toDigits_ne_nil (List.length_eq_zero_iff.mp (Nat.le_zero.mp short))
  · exact
      Nat.lt_irrefl _
        ((Nat.length_toDigits_le_iff (by decide) positive).mp short)

/-- The first number that is cut has the name of its tenth. -/
theorem ifName_cut
    (roomy : 6 ≤ nameMax)
    (kind : IfKind) :
    ifName nameMax kind.label (10 ^ digitsIn nameMax kind) =
      ifName nameMax kind.label (10 ^ (digitsIn nameMax kind - 1)) := by
  obtain ⟨zeros, shape⟩ :=
    Nat.exists_eq_succ_of_ne_zero
      (Nat.sub_pos_of_lt (length_label_lt roomy kind)).ne'
  have tenth : digitsIn nameMax kind = zeros + 1 :=
    shape
  have longer :
      printUnsigned (10 ^ (zeros + 1)) =
        printUnsigned (10 ^ zeros) ++ ['0'] := by
    have digits :=
      Nat.toDigits_append_toDigits (b := 10) (n := 10 ^ zeros) (d := 0)
        (by decide) (Nat.pow_pos (by decide)) (by decide)
    rw [Nat.toDigits_zero, Nat.add_zero, Nat.mul_comm] at digits
    rw [Nat.pow_succ]
    exact digits.symm
  rw [ifName_eq roomy, ifName_eq roomy, tenth, Nat.add_sub_cancel, longer,
    List.take_append_of_le_length (lt_length_printUnsigned zeros)]

end Names

section Marks

variable {nameMax : Nat}
variable {state : InitState}
variable {marks : List (IfKind × Nat)}

theorem Numbered.names_eq
    (numbered : Numbered nameMax state marks) :
    state.ifaces.filterMap Iface.name =
      marks.filterMap fun mark => nameOf nameMax mark.1 mark.2 := by
  have both := congrArg (List.filterMap Prod.snd) numbered.named
  rw [List.filterMap_map, List.filterMap_map] at both
  exact both

/-- The counter of a kind is the number of its interfaces. -/
theorem Numbered.count_eq
    (numbered : Numbered nameMax state marks)
    (kind : IfKind) :
    (state.ifaces.filter fun iface => iface.driver.kind = kind).length =
      state.ifidx kind := by
  have both :=
    congrArg
      (fun pairs => (pairs.filter fun pair => pair.1 = kind).length)
      numbered.named
  simp only [List.filter_map, List.length_map] at both
  have same :
      (marks.filter fun mark => mark.1 = kind).Perm
        ((List.range (state.ifidx kind)).map fun number => (kind, number)) := by
    refine
      (List.perm_ext_iff_of_nodup (numbered.distinct.filter _)
        (List.nodup_range.map fun _ _ equal => (Prod.mk.inj equal).2)).mpr
        fun mark => ?_
    obtain ⟨other, number⟩ := mark
    simp only [List.mem_filter, decide_eq_true_eq, List.mem_map,
      List.mem_range, numbered.counted, Prod.mk.injEq]
    constructor
    · rintro ⟨below, rfl⟩
      exact ⟨number, below, rfl, rfl⟩
    · rintro ⟨_, below, rfl, rfl⟩
      exact ⟨below, rfl⟩
  have counted := same.length_eq
  rw [List.length_map, List.length_range] at counted
  exact both.trans counted

/-- Two marks of one name make a name that is given twice. -/
theorem Numbered.name_ne
    (numbered : Numbered nameMax state marks)
    (distinct : (state.ifaces.filterMap Iface.name).Nodup)
    {kind : IfKind}
    (isNamed : kind ≠ .tun)
    {number other : Nat}
    (below : number < state.ifidx kind)
    (otherBelow : other < state.ifidx kind)
    (different : number ≠ other) :
    ifName nameMax kind.label number ≠ ifName nameMax kind.label other := by
  rw [numbered.names_eq, List.Nodup, List.pairwise_filterMap] at distinct
  have symmetric :
      Std.Symm fun first second : IfKind × Nat =>
        ∀ name, nameOf nameMax first.1 first.2 = some name →
          ∀ same, nameOf nameMax second.1 second.2 = some same →
            name ≠ same :=
    ⟨fun first second apart name isName same isSame equal =>
      apart same isSame name isName equal.symm⟩
  exact
    distinct.forall ((numbered.counted kind number).mpr below)
      ((numbered.counted kind other).mpr otherBelow)
      (fun equal => different (Prod.mk.inj equal).2) _ (if_neg isNamed) _
      (if_neg isNamed)

end Marks

/--
In every sequence of `csp add` commands, whatever the system answers and
whichever of them fail, the names that are given to interfaces are different if
and only if no kind has more interfaces than the digits behind it can number.
-/
theorem names_nodup_iff
    {nameMax : Nat}
    (roomy : 6 ≤ nameMax)
    (issued : List (Host × IfCommand)) :
    ((addInterfaces nameMax issued).ifaces.filterMap Iface.name).Nodup ↔
      ∀ kind : IfKind, kind ≠ .tun →
        ((addInterfaces nameMax issued).ifaces.filter fun iface =>
            iface.driver.kind = kind).length ≤
          10 ^ digitsIn nameMax kind := by
  obtain ⟨marks, numbered⟩ := exists_numbered nameMax issued
  simp only [numbered.count_eq]
  constructor
  · intro distinct kind isNamed
    by_contra many
    rw [not_le] at many
    have positive : 0 < digitsIn nameMax kind :=
      Nat.sub_pos_of_lt (length_label_lt roomy kind)
    have smaller :
        10 ^ (digitsIn nameMax kind - 1) < 10 ^ digitsIn nameMax kind :=
      Nat.pow_lt_pow_right (by decide) (Nat.sub_lt positive Nat.one_pos)
    exact
      numbered.name_ne distinct isNamed many (smaller.trans many) smaller.ne'
        (ifName_cut roomy kind)
  · intro few
    rw [numbered.names_eq, List.Nodup, List.pairwise_filterMap]
    refine
      numbered.distinct.imp_of_mem fun {first second} left right differ => ?_
    rintro name isName _ isSame rfl
    obtain ⟨kind, number⟩ := first
    obtain ⟨otherKind, other⟩ := second
    unfold nameOf at isName isSame
    split at isName
    · cases isName
    · rename_i isNamed
      split at isSame
      · cases isSame
      · have equal :=
          (Option.some.inj isName).trans (Option.some.inj isSame).symm
        obtain rfl := kind_eq_of_ifName roomy equal
        rw [numbered.counted] at left right
        refine differ (congrArg (Prod.mk kind) ?_)
        exact
          number_eq_of_ifName roomy (left.trans_le (few kind isNamed))
            (right.trans_le (few kind isNamed)) equal

/-- A second interface of a kind, behind one that the library refuses. -/
theorem names_nodup_three :
    ((addInterfaces 10
        [(⟨[], fun _ => none, none, fun _ => true⟩,
            .kiss (some ({}, ["5".toList]))),
          (⟨[], fun _ => none, none, fun _ => false⟩,
            .kiss (some ({}, ["6".toList]))),
          (⟨[], fun _ => none, none, fun _ => true⟩,
            .kiss (some ({}, ["7".toList])))]).ifaces.filterMap
      Iface.name).Nodup := by
  refine (names_nodup_iff (by decide) _).mpr fun kind _ => ?_
  cases kind <;> decide

end Csh.CspInit
