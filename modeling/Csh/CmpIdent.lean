import Csh.CspScan
import Csh.HostFile
import Csh.Lib.Overlay

namespace Csh.CmpIdent

open Libc Overlay KnownHosts CspScan

/-!
# The identification of nodes

`ident` asks a node, or all of them at a broadcast address, for their names and
adds each reply to the table of known hosts.  All replies are copied into the
same message, which is not cleared in between.
-/

/-- What is used of `struct csp_cmp_message`: the part of it that is sent and
copied, where its name starts, and the values of its type and its code. -/
structure CmpLayout where
  size : Nat
  hostname : Nat
  cmpRequest : Char
  cmpIdent : Char
  code_lt : 1 < hostname
  hostname_lt : hostname < size

/-- The options of the command. -/
structure IdentOptions where
  node : Int32
  timeout : UInt32
  override : Bool

/-- A packet that is read: its source and its data. -/
structure Reply where
  src : UInt16
  data : List Char

/-- `msg` as it is initialised. -/
def CmpLayout.request (layout : CmpLayout) : List Char :=
  layout.cmpRequest :: layout.cmpIdent :: List.replicate (layout.size - 2) nul

/-- The entry that a message asks for, once a reply is copied into it. -/
def CmpLayout.entry
    (layout : CmpLayout)
    (override : Bool)
    (src : UInt16)
    (msg : List Char) :
    List AddCall :=
  if msg[1]? = some layout.cmpIdent then
    [⟨Int32.ofNat src.toNat, stringAt msg layout.hostname, override⟩]
  else
    []

/-- The entries that the replies ask for, from a message on. -/
def identCalls
    (layout : CmpLayout)
    (override : Bool) :
    List Char → List Reply → List AddCall
  | _, [] => []
  | msg, packet :: rest =>
      let msg := overlay msg packet.data
      layout.entry override packet.src msg ++
        identCalls layout override msg rest

/--
`slash_csp_cmp_ident`; the packet to send is there.  `network` tells whether a
node can be connected to and what is read from it until a read times out.
-/
def slashCspCmpIdent
    (layout : CmpLayout)
    (network : Int32 → UInt32 → Option (List Reply))
    (parsed : Parsed IdentOptions)
    (store : HostStore) :
    SlashResult × HostStore :=
  match parsed with
  | none => (.einval, store)
  | some (options, args) =>
      let node :=
        match args with
        | [] => some options.node
        | arg :: _ => getHostByAddrOrName arg store.knownHosts
      match node with
      | none => (.einval, store)
      | some node =>
          match network node options.timeout with
          | none => (.success, store)
          | some replies =>
              (.success,
                runCalls
                  (identCalls layout options.override layout.request replies)
                  store)

section Replies

variable {layout : CmpLayout}
variable {override : Bool}
variable {msg : List Char}
variable {packet : Reply}
variable {earlier replies : List Reply}

/-- The message behind some replies. -/
def received (msg : List Char) (replies : List Reply) : List Char :=
  (replies.map Reply.data).foldl overlay msg

theorem identCalls_append :
    identCalls layout override msg (earlier ++ replies) =
      identCalls layout override msg earlier ++
        identCalls layout override (received msg earlier) replies := by
  induction earlier generalizing msg with
  | nil =>
      rfl
  | cons packet rest inductionHypothesis =>
      rw [List.cons_append, identCalls, inductionHypothesis, identCalls,
        List.append_assoc]
      rfl

theorem identCalls_singleton :
    identCalls layout override msg [packet] =
      layout.entry override packet.src (overlay msg packet.data) :=
  List.append_nil _

/-- The entry for the last of some replies. -/
theorem identCalls_append_singleton :
    identCalls layout override msg (earlier ++ [packet]) =
      identCalls layout override msg earlier ++
        layout.entry override packet.src
          (overlay (received msg earlier) packet.data) := by
  rw [identCalls_append, identCalls_singleton]

theorem length_request :
    layout.request.length = layout.size := by
  have code := layout.code_lt
  have hostname := layout.hostname_lt
  simp only [CmpLayout.request, List.length_cons, List.length_replicate]
  omega

theorem length_received :
    (received msg replies).length = msg.length :=
  length_foldl_overlay

/-- Each byte of the message is that of the last reply that reaches it. -/
theorem getElem?_received
    {place : Nat}
    (inside : place < layout.size) :
    (received layout.request replies)[place]? =
      (lastAt (replies.map Reply.data) place).or layout.request[place]? :=
  getElem?_foldl_overlay (by rw [length_request]; exact inside)

/-- The entry for a reply cannot depend on earlier replies: the reply reaches
the end of the message or of the name, or it has a code of its own. -/
def SpeaksForItself (layout : CmpLayout) (data : List Char) : Prop :=
  layout.size ≤ data.length ∨
    nul ∈ data.drop layout.hostname ∨
      ∃ code, data[1]? = some code ∧ code ≠ layout.cmpIdent

/-- A message behind a short reply. -/
theorem overlay_short
    {data : List Char}
    (short : data.length < msg.length) :
    overlay msg data = data ++ msg.drop data.length := by
  rw [overlay, List.take_of_length_le short.le]

/-- The code of a reply that has one. -/
theorem code_overlay
    {data : List Char}
    (long : 1 < data.length)
    (short : data.length < msg.length) :
    (overlay msg data)[1]? = data[1]? := by
  rw [overlay_short short, List.getElem?_append_left long]

/-- The name of a reply that ends within it. -/
theorem name_overlay
    {data : List Char}
    {start : Nat}
    (ends : nul ∈ data.drop start)
    (short : data.length < msg.length) :
    stringAt (overlay msg data) start = stringAt data start := by
  have inside : start < data.length := by
    have nonempty := List.length_pos_of_mem ends
    rw [List.length_drop] at nonempty
    omega
  have stops :
      ((data.drop start).takeWhile (· != nul)).length ≠
        (data.drop start).length := by
    intro whole
    have same := (List.takeWhile_prefix (· != nul)).eq_of_length whole
    simpa using List.takeWhile_eq_self_iff.mp same nul ends
  rw [overlay_short short, stringAt, List.drop_append_of_le_length inside.le,
    List.takeWhile_append, if_neg stops]
  rfl

/-- A reply that speaks for itself asks for the same entry in any message. -/
theorem entry_of_speaks
    {other : List Char}
    (speaks : SpeaksForItself layout packet.data)
    (size : msg.length = layout.size)
    (otherSize : other.length = layout.size) :
    layout.entry override packet.src (overlay msg packet.data) =
      layout.entry override packet.src (overlay other packet.data) := by
  rcases Nat.lt_or_ge packet.data.length layout.size with short | long
  · have hostname := layout.code_lt
    rcases speaks with long | ends | ⟨code, isCode, different⟩
    · exact absurd long (Nat.not_le_of_lt short)
    · have reaches := List.length_pos_of_mem ends
      rw [List.length_drop] at reaches
      rw [CmpLayout.entry, CmpLayout.entry, code_overlay (by omega) (by omega),
        code_overlay (by omega) (by omega), name_overlay ends (by omega),
        name_overlay ends (by omega)]
    · have has : 1 < packet.data.length :=
        (List.getElem?_eq_some_iff.mp isCode).1
      have notIdent : packet.data[1]? ≠ some layout.cmpIdent := by
        rw [isCode]
        exact fun same => different (Option.some.inj same)
      rw [CmpLayout.entry, CmpLayout.entry, code_overlay has (by omega),
        code_overlay has (by omega), if_neg notIdent, if_neg notIdent]
  · rw [overlay_of_le (by omega), overlay_of_le (by omega), size, otherSize]

/-- The name of a reply that does not reach its end, over one character. -/
theorem name_overlay_replicate
    {data : List Char}
    {c : Char}
    (short : data.length < layout.size)
    (plain : nul ∉ data.drop layout.hostname)
    (same : msg.drop data.length =
      List.replicate (layout.size - data.length) c)
    (size : msg.length = layout.size) :
    ∃ count,
      stringAt (overlay msg data) layout.hostname =
        data.drop layout.hostname ++
          (List.replicate (count + 1) c).takeWhile (· != nul) := by
  have inside := layout.hostname_lt
  refine
    ⟨layout.size - data.length - (layout.hostname - data.length) - 1, ?_⟩
  rw [overlay_short (by omega), same, stringAt, List.drop_append,
    List.drop_replicate,
    List.takeWhile_append_of_pos (bne_of_not_mem plain)]
  congr 3
  omega

theorem exists_fill
    (code : Char) :
    ∃ fill, fill ≠ nul ∧ fill ≠ code := by
  by_cases isX : code = 'x'
  · exact ⟨'y', by decide, by rw [isX]; decide⟩
  · exact ⟨'x', by decide, fun same => isX same.symm⟩

/-- A reply of one character all through. -/
theorem received_fill
    (fill : Char) :
    received layout.request [⟨0, List.replicate layout.size fill⟩] =
      List.replicate layout.size fill := by
  change overlay layout.request (List.replicate layout.size fill) = _
  rw [overlay_of_le (by rw [length_request, List.length_replicate]),
    length_request, List.take_of_length_le (by simp)]

/-- Behind its code the request is empty. -/
theorem drop_request
    {count : Nat}
    (coded : 1 < count) :
    layout.request.drop count = List.replicate (layout.size - count) nul := by
  obtain ⟨more, rfl⟩ : ∃ more, count = more + 2 :=
    ⟨count - 2, by omega⟩
  rw [CmpLayout.request, List.drop_succ_cons, List.drop_succ_cons,
    List.drop_replicate]
  congr 1
  omega

/--
The entry that a reply asks for is the one it would ask for alone, whatever
replies came before it, exactly when it speaks for itself.
-/
theorem ident_own_entry_iff :
    (∀ earlier,
        identCalls layout override layout.request (earlier ++ [packet]) =
          identCalls layout override layout.request earlier ++
            identCalls layout override layout.request [packet]) ↔
      SpeaksForItself layout packet.data := by
  constructor
  · intro own
    by_contra mute
    simp only [SpeaksForItself, not_or, not_exists, not_and, not_not,
      Nat.not_le] at mute
    obtain ⟨short, plain, codes⟩ := mute
    obtain ⟨fill, notNul, notIdent⟩ := exists_fill layout.cmpIdent
    have entries := own [⟨0, List.replicate layout.size fill⟩]
    rw [identCalls_append_singleton] at entries
    have same := List.append_cancel_left entries
    rw [received_fill, identCalls_singleton] at same
    have filled : (List.replicate layout.size fill).length = layout.size :=
      List.length_replicate
    have codeBound := layout.code_lt
    have nameBound := layout.hostname_lt
    by_cases coded : 1 < packet.data.length
    · have isIdent : packet.data[1]? = some layout.cmpIdent := by
        rw [List.getElem?_eq_getElem coded]
        exact congrArg some (codes _ (List.getElem?_eq_getElem coded))
      obtain ⟨surplus, surplusFill⟩ :=
        name_overlay_replicate short plain
          (List.drop_replicate (a := fill)) filled
      obtain ⟨alone, aloneRequest⟩ :=
        name_overlay_replicate short plain (drop_request coded) length_request
      rw [CmpLayout.entry, CmpLayout.entry, code_overlay coded (by omega),
        code_overlay coded (by rw [length_request]; omega), if_pos isIdent,
        if_pos isIdent, surplusFill, aloneRequest] at same
      have names := congrArg AddCall.name (List.singleton_inj.mp same)
      have fillRead :
          (List.replicate (surplus + 1) fill).takeWhile (· != nul) =
            List.replicate (surplus + 1) fill :=
        takeWhile_of_not_mem fun member =>
          notNul (List.eq_of_mem_replicate member).symm
      have lengths := congrArg List.length (List.append_cancel_left names)
      rw [fillRead, List.replicate_succ, List.replicate_succ,
        List.takeWhile_cons_of_neg (by simp)] at lengths
      cases lengths
    · have noCode : packet.data[1]? = none :=
        List.getElem?_eq_none (by omega)
      have fillCode :
          (overlay (List.replicate layout.size fill) packet.data)[1]? =
            some fill := by
        rw [getElem?_overlay (by omega), noCode, Option.none_or,
          List.getElem?_replicate_of_lt (by omega)]
      have requestCode :
          (overlay layout.request packet.data)[1]? =
            some layout.cmpIdent := by
        rw [getElem?_overlay (by rw [length_request]; omega), noCode]
        rfl
      rw [CmpLayout.entry, CmpLayout.entry, fillCode, requestCode,
        if_neg fun codes => notIdent (Option.some.inj codes), if_pos rfl]
        at same
      cases same
  · intro speaks earlier
    rw [identCalls_append_singleton, identCalls_singleton,
      entry_of_speaks speaks (length_received.trans length_request)
        length_request]

end Replies

end Csh.CmpIdent
