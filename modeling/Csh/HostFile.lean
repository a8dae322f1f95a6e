import Csh.HostVariables
import Csh.Slash

namespace Csh.KnownHosts

open Libc KeyedList Environment

/-!
# Saving hosts and replaying the file

`node save` writes a `node add` line for each host, from the head of the table.
Replaying the lines inserts each host at the head, so that the order of the
table is reversed.  Addresses are found as before; names are if no two hosts
share one.
-/

/-- One line of the file, without its newline. -/
def nodeAddLine (address name : CString) : CString :=
  "node add -n ".toList ++ address ++ ' ' :: name

/-- `node_save`: the lines it writes. -/
def nodeSave : List Host → List CString
  | [] => []
  | host :: next =>
      if host.node ≠ 0 then
        nodeAddLine (printInt host.node.toInt) host.name :: nodeSave next
      else
        nodeSave next

/-- `get_host_by_addr_or_name`: the node it stores, or that it failed. -/
def getHostByAddrOrName
    (arg : CString)
    (knownHosts : List Host) :
    Option Int32 :=
  let number := strtol 10 arg
  if number.1 ≠ 2 ^ 31 - 1 ∧ number.1 < 16384 ∧ number.2 = [] then
    some (Int32.ofInt number.1)
  else
    let node := knownHostsGetNode arg knownHosts
    if 0 ≤ node then some node else none

/-- What a line of `node add` holds: the argument of `-n` and the others. -/
structure NodeAddArgs where
  node : Option CString
  arguments : List CString
  deriving DecidableEq

/-- A text that is one argument of a line. -/
def SingleToken (text : CString) : Prop :=
  text ≠ [] ∧ ∀ c ∈ text, isspace c = false

instance (text : CString) : Decidable (SingleToken text) :=
  @instDecidableAnd _ _ _ (List.decidableBAll _ _)

/-- Libslash, as far as it splits the lines that are written. -/
structure Libslash where
  splitNodeAdd : CString → Option NodeAddArgs
  split_nodeAddLine : ∀ address name,
    SingleToken address → SingleToken name →
      splitNodeAdd (nodeAddLine address name) = some ⟨some address, [name]⟩

/-- The node of a line: the default, or what its `-n` argument stands for. -/
def nodeOption
    (slashDflNode : Int32)
    (node : Option CString)
    (knownHosts : List Host) :
    Option Int32 :=
  match node with
  | none => some slashDflNode
  | some arg => getHostByAddrOrName arg knownHosts

/-- `cmd_node_add`, for a line. -/
def cmdNodeAdd
    (lib : Libslash)
    (slashDflNode : Int32)
    (line : CString)
    (store : HostStore) :
    SlashResult × HostStore :=
  match lib.splitNodeAdd line with
  | none => (.einval, store)
  | some args =>
      match nodeOption slashDflNode args.node store.knownHosts with
      | none => (.einval, store)
      | some node =>
          if node = 0 then
            (.einval, store)
          else
            match args.arguments with
            | [] => (.einval, store)
            | name :: _ =>
                match knownHostsAdd node name true store with
                | (none, added) => (.enomem, added)
                | (some _, added) => (.success, added)

/-- The lines of a file, in order. -/
def replay
    (lib : Libslash)
    (slashDflNode : Int32)
    (lines : List CString)
    (store : HostStore) :
    HostStore :=
  lines.foldl (fun store line => (cmdNodeAdd lib slashDflNode line store).2)
    store

/-- A call with a node address and a name of one token. -/
structure NodeCall extends AddCall where
  addr_pos : 0 < addr.toInt
  addr_lt : addr.toInt < 16384
  single : SingleToken name

/-- The table that a sequence of such calls leaves. -/
def savedHosts (calls : List NodeCall) : List Host :=
  (addCalls (calls.map NodeCall.toAddCall)).knownHosts

/-- The table after its file has been replayed into an empty one. -/
def restoredHosts
    (lib : Libslash)
    (slashDflNode : Int32)
    (calls : List NodeCall) :
    List Host :=
  (replay lib slashDflNode (nodeSave (savedHosts calls)) .empty).knownHosts

/-- A host that a line can add again. -/
structure Savable (host : Host) : Prop where
  node_pos : 0 < host.node.toInt
  node_lt : host.node.toInt < 16384
  single : SingleToken host.name
  fits : host.name.length < hostnameMaxlen

section Lines

variable {host : Host}
variable {store : HostStore}
variable {lib : Libslash}
variable {slashDflNode : Int32}

theorem Savable.node_ne_zero
    (savable : Savable host) :
    host.node ≠ 0 := by
  intro isZero
  have positive := savable.node_pos
  rw [isZero] at positive
  exact absurd positive (by decide)

theorem Savable.printInt_eq
    (savable : Savable host) :
    printInt host.node.toInt = printUnsigned host.node.toInt.toNat := by
  have positive := savable.node_pos
  rw [printInt, if_neg (by omega)]
  congr 1
  omega

theorem singleToken_printUnsigned
    (value : Nat) :
    SingleToken (printUnsigned value) := by
  obtain ⟨nonempty, decimal, _⟩ := isNumeral_printUnsigned value
  refine ⟨nonempty, fun c member => ?_⟩
  apply @isspace_of_isDigitOf 10
  rw [isDigitOf_ten, decimal c member]

/-- The printed address of a host is read as the address. -/
theorem getHostByAddrOrName_printInt
    (savable : Savable host)
    (knownHosts : List Host) :
    getHostByAddrOrName (printInt host.node.toInt) knownHosts =
      some host.node := by
  have positive := savable.node_pos
  have bound := savable.node_lt
  have number :
      strtol 10 (printInt host.node.toInt) = (host.node.toInt, []) := by
    rw [savable.printInt_eq, strtol_of_isNumeral (isNumeral_printUnsigned _),
      Int.toNat_of_nonneg positive.le]
    rw [toLong, min_eq_left (by omega), max_eq_right (by omega)]
  rw [getHostByAddrOrName, number, if_pos ⟨by omega, bound, rfl⟩,
    Int32.ofInt_toInt]

/-- A line of the file adds its host, in the place of one for its address. -/
theorem cmdNodeAdd_nodeAddLine
    (savable : Savable host) :
    cmdNodeAdd lib slashDflNode
        (nodeAddLine (printInt host.node.toInt) host.name) store =
      (.success, (AddCall.mk host.node host.name true).run store) := by
  have single : SingleToken (printInt host.node.toInt) := by
    rw [savable.printInt_eq]
    exact singleToken_printUnsigned _
  rw [cmdNodeAdd, lib.split_nodeAddLine _ _ single savable.single]
  simp only [nodeOption, getHostByAddrOrName_printInt savable,
    if_neg savable.node_ne_zero]
  rw [AddCall.run, knownHostsAdd, if_neg savable.node_ne_zero, if_pos rfl]
  rfl

end Lines

section Replay

variable {lib : Libslash}
variable {slashDflNode : Int32}
variable {hosts : List Host}
variable {store : HostStore}

/-- Replaying the file puts its hosts in front, the last one first. -/
theorem knownHosts_replay_nodeSave
    (savable : ∀ host ∈ hosts, Savable host)
    (distinct : Distinct Host.node (hosts.reverse ++ store.knownHosts)) :
    (replay lib slashDflNode (nodeSave hosts) store).knownHosts =
      hosts.reverse ++ store.knownHosts := by
  induction hosts generalizing store with
  | nil =>
      rfl
  | cons host next inductionHypothesis =>
      have hostSavable := savable host List.mem_cons_self
      have nextSavable : ∀ later ∈ next, Savable later :=
        fun later member => savable later (List.mem_cons_of_mem _ member)
      rw [List.reverse_cons, List.append_assoc, List.singleton_append]
        at distinct ⊢
      have notInStore :
          ∀ old ∈ store.knownHosts, old.node ≠ host.node := by
        intro old member sameNode
        rw [Distinct, List.map_append, List.map_cons] at distinct
        have notBehind :=
          (List.nodup_cons.mp (List.nodup_append.mp distinct).2.1).1
        apply notBehind
        rw [← sameNode]
        exact List.mem_map_of_mem member
      have added :
          ((AddCall.mk host.node host.name true).run store).knownHosts =
            host :: store.knownHosts := by
        have cut : storedName host.name = host.name :=
          List.take_of_length_le (Nat.le_of_lt_succ hostSavable.fits)
        rw [AddCall.run, knownHostsAdd, if_neg hostSavable.node_ne_zero,
          if_pos rfl, insertHost, cut, knownHostsDel_eq_filter]
        exact congrArg (List.cons host)
          (List.filter_eq_self.mpr fun old member => by
            simpa using notInStore old member)
      rw [nodeSave, if_pos hostSavable.node_ne_zero, replay,
        List.foldl_cons, cmdNodeAdd_nodeAddLine hostSavable]
      refine
        (inductionHypothesis nextSavable (by rw [added]; exact distinct)).trans
          ?_
      rw [added]

theorem savable_savedHosts
    (calls : List NodeCall) :
    ∀ host ∈ savedHosts calls, Savable host := by
  intro host member
  obtain ⟨position, before, call, after, shape, _, _, rfl, _⟩ :=
    mem_addCalls_iff.mp member
  obtain ⟨nodeCall, _, rfl⟩ : ∃ nodeCall ∈ calls, nodeCall.toAddCall = call := by
    apply List.mem_map.mp
    rw [shape]
    simp
  obtain ⟨nonempty, noBlank⟩ := nodeCall.single
  refine ⟨nodeCall.addr_pos, nodeCall.addr_lt, ⟨?_, ?_⟩, length_storedName_lt _⟩
  · intro isNil
    rcases List.take_eq_nil_iff.mp isNil with isZero | isEmpty
    · exact absurd isZero (by decide)
    · exact nonempty isEmpty
  · exact fun c inName => noBlank c (List.mem_of_mem_take inName)

/-- The restored table is the saved one in the other order. -/
theorem restoredHosts_eq_reverse
    (lib : Libslash)
    (slashDflNode : Int32)
    (calls : List NodeCall) :
    restoredHosts lib slashDflNode calls = (savedHosts calls).reverse := by
  have distinct : Distinct Host.node (savedHosts calls) := distinct_addCalls _
  rw [restoredHosts,
    knownHosts_replay_nodeSave (savable_savedHosts calls) ?_]
  · exact List.append_nil _
  · change ((_ ++ []).map Host.node).Nodup
    rw [List.append_nil, List.map_reverse]
    exact List.nodup_reverse.mpr distinct

/--
The restored table answers both lookups as the saved one, if and only if no
two of the saved hosts share a name.
-/
theorem restored_answers_iff_distinct_names
    (lib : Libslash)
    (slashDflNode : Int32)
    (calls : List NodeCall) :
    ((∀ addr buffer buflen,
        knownHostsGetName addr buffer buflen
            (restoredHosts lib slashDflNode calls) =
          knownHostsGetName addr buffer buflen (savedHosts calls)) ∧
      ∀ name,
        knownHostsGetNode name (restoredHosts lib slashDflNode calls) =
          knownHostsGetNode name (savedHosts calls)) ↔
      Distinct Host.name (savedHosts calls) := by
  have distinct : Distinct Host.node (savedHosts calls) := distinct_addCalls _
  have fit : NamesFit (savedHosts calls) := namesFit_addCalls _
  have fitReverse : NamesFit (savedHosts calls).reverse :=
    fun host member => fit host (List.mem_reverse.mp member)
  rw [restoredHosts_eq_reverse]
  generalize savedHosts calls = hosts at *
  constructor
  · rintro ⟨_, sameNode⟩
    have nodup : hosts.Nodup := List.Nodup.of_map Host.node distinct
    refine (List.nodup_map_iff_inj_on nodup).mpr ?_
    intro first firstMember second secondMember sameName
    obtain ⟨found, isFound⟩ := exists_lookup_of_mem firstMember
    obtain ⟨last, isLast⟩ :=
      exists_lookup_of_mem (List.mem_reverse.mpr firstMember)
    have foundNode := sameNode first.name
    rw [knownHostsGetNode_of_lookup fit isFound,
      knownHostsGetNode_of_lookup fitReverse isLast] at foundNode
    have sameHost : last = found := by
      have byNode := lookup_of_mem distinct (mem_of_lookup isFound)
      rw [← foundNode,
        lookup_of_mem distinct (List.mem_reverse.mp (mem_of_lookup isLast))]
        at byNode
      exact Option.some.inj byNode
    rw [sameHost] at isLast
    calc
      first = found :=
        eq_of_lookup_reverse nodup isFound isLast firstMember rfl
      _ = second :=
        (eq_of_lookup_reverse nodup isFound isLast secondMember
          sameName.symm).symm
  · intro distinctNames
    refine ⟨fun addr buffer buflen => ?_, fun name => ?_⟩
    · rw [knownHostsGetName, lookup_reverse distinct]
      rfl
    · rw [knownHostsGetNode_eq_lookup fitReverse,
        knownHostsGetNode_eq_lookup fit, lookup_reverse distinctNames]

end Replay

/-- A line split at its blanks. -/
def splitAtBlanks (line : CString) : Option NodeAddArgs :=
  match tokens isspace line with
  | [_, _, _, address, name] => some ⟨some address, [name]⟩
  | _ => none

theorem tokens_nodeAddLine
    {address name : CString}
    (addressToken : SingleToken address)
    (nameToken : SingleToken name) :
    tokens isspace (nodeAddLine address name) =
      ["node".toList, "add".toList, "-n".toList, address, name] := by
  have blank : isspace ' ' = true := by decide
  have shape :
      nodeAddLine address name =
        "node".toList ++ ' ' :: ("add".toList ++ ' ' :: ("-n".toList ++
          ' ' :: (address ++ ' ' :: name))) :=
    rfl
  have word :
      ∀ text : CString, SingleToken text → tokens isspace text = [text] :=
    fun _ single => tokens_of_no_delimiter isspace single.1 single.2
  rw [shape]
  simp only [tokens_append_delimiter isspace blank]
  rw [word _ addressToken, word _ nameToken, word "node".toList (by decide),
    word "add".toList (by decide), word "-n".toList (by decide)]
  rfl

/-- Splitting at blanks is one way to split the lines that are written. -/
def blankLibslash : Libslash where
  splitNodeAdd := splitAtBlanks
  split_nodeAddLine address name addressToken nameToken := by
    rw [splitAtBlanks, tokens_nodeAddLine addressToken nameToken]

/-- Two nodes with one name. -/
def sharingCalls : List NodeCall :=
  [⟨⟨5, ['a'], true⟩, by decide, by decide, by decide⟩,
    ⟨⟨6, ['a'], true⟩, by decide, by decide, by decide⟩]

/-- Node 6 is found under the shared name, and node 5 after the replay. -/
theorem shared_name_finds_other_host :
    ¬ ((∀ addr buffer buflen,
          knownHostsGetName addr buffer buflen
              (restoredHosts blankLibslash 0 sharingCalls) =
            knownHostsGetName addr buffer buflen (savedHosts sharingCalls)) ∧
        ∀ name,
          knownHostsGetNode name
              (restoredHosts blankLibslash 0 sharingCalls) =
            knownHostsGetNode name (savedHosts sharingCalls)) := by
  rintro ⟨_, sameNode⟩
  have found := sameNode ['a']
  rw [restoredHosts_eq_reverse] at found
  exact absurd found (by decide)

end Csh.KnownHosts
