import Csh.Environment
import Mathlib.Data.List.Find

namespace Csh.KnownHosts

open Libc KeyedList History Environment

/-!
# The table of known hosts

`known_hosts` is a linked list of addresses and names.  A call inserts at the
head, after it has removed the old entry for the address or instead of which it
keeps it.  Each entry is also put into the environment, under its name.
-/

/-- `HOSTNAME_MAXLEN`. -/
def hostnameMaxlen : Nat :=
  50

/-- `host_t`; the name is what the array of characters reads as. -/
structure Host where
  node : Int32
  name : CString
  deriving DecidableEq

/-- The table of hosts, from its head, and the environment. -/
structure HostStore where
  knownHosts : List Host
  env : CshEnv

/-- The name a new entry gets, with room for its NUL. -/
def storedName (newName : CString) : CString :=
  newName.take (hostnameMaxlen - 1)

/-- `address_str`. -/
def addressStr (node : Int32) : CString :=
  snprintf (64 - 1) (printInt node.toInt)

/--
The loop of `known_hosts_del`, with the entries in front of the current one and
those from it on: an unlinked entry still leads to the next.
-/
def knownHostsDelFrom (host : Int32) : List Host → List Host → List Host
  | before, [] => before
  | before, element :: next =>
      if element.node = host then
        knownHostsDelFrom host before next
      else
        knownHostsDelFrom host (before ++ [element]) next

/-- `known_hosts_del`. -/
def knownHostsDel (host : Int32) (knownHosts : List Host) : List Host :=
  knownHostsDelFrom host [] knownHosts

/-- The end of `known_hosts_add`: a new entry, in the environment and the table. -/
def insertHost
    (addr : Int32)
    (newName : CString)
    (store : HostStore) :
    Option Host × HostStore :=
  let host : Host := ⟨addr, storedName newName⟩
  let env := (cshPutvar host.name (addressStr host.node) store.env).2
  (some host, ⟨host :: store.knownHosts, env⟩)

/-- `known_hosts_add`; allocation succeeds. -/
def knownHostsAdd
    (addr : Int32)
    (newName : CString)
    (overrideExisting : Bool)
    (store : HostStore) :
    Option Host × HostStore :=
  if addr = 0 then
    (none, store)
  else if overrideExisting then
    insertHost addr newName
      { store with knownHosts := knownHostsDel addr store.knownHosts }
  else
    match lookup Host.node addr store.knownHosts with
    | some host => (some host, store)
    | none => insertHost addr newName store

/-- `known_hosts_get_name`: its result and what it leaves in the buffer. -/
def knownHostsGetName
    (findHost : Int32)
    (name : List Char)
    (buflen : Nat)
    (knownHosts : List Host) :
    Int × List Char :=
  match lookup Host.node findHost knownHosts with
  | some host => (1, strncpy nul buflen name host.name)
  | none => (0, name)

/-- `known_hosts_get_node`. -/
def knownHostsGetNode
    (findName : CString)
    (knownHosts : List Host) :
    Int32 :=
  match
    knownHosts.find? fun host =>
      strncmpEq hostnameMaxlen findName host.name
  with
  | some host => host.node
  | none => -1

section Table

variable {knownHosts : List Host}
variable {host : Int32}
variable {name : CString}

/-- The removal during the walk leaves exactly the other entries. -/
theorem knownHostsDelFrom_eq
    (before next : List Host) :
    knownHostsDelFrom host before next =
      before ++ next.filter fun element => element.node ≠ host := by
  induction next generalizing before with
  | nil =>
      exact (List.append_nil before).symm
  | cons element next inductionHypothesis =>
      rw [knownHostsDelFrom]
      by_cases isHost : element.node = host
      · rw [if_pos isHost, inductionHypothesis]
        simp [isHost]
      · rw [if_neg isHost, inductionHypothesis]
        simp [isHost]

theorem knownHostsDel_eq_filter :
    knownHostsDel host knownHosts =
      knownHosts.filter fun element => element.node ≠ host := by
  rw [knownHostsDel, knownHostsDelFrom_eq, List.nil_append]

theorem length_storedName_lt
    (newName : CString) :
    (storedName newName).length < hostnameMaxlen :=
  Nat.lt_of_le_of_lt (List.length_take_le _ _) (by decide)

/-- A comparison up to the size of the array compares with the whole name. -/
theorem strncmpEq_iff
    {findName : CString}
    (fits : name.length < hostnameMaxlen) :
    strncmpEq hostnameMaxlen findName name = true ↔ findName = name := by
  rw [strncmpEq, beq_iff_eq, List.take_of_length_le fits.le]
  constructor
  · intro sameStart
    rw [← sameStart, List.length_take] at fits
    rw [← sameStart, List.take_of_length_le (by omega)]
  · rintro rfl
    exact List.take_of_length_le fits.le

/-- Every stored name leaves room for its NUL. -/
def NamesFit (knownHosts : List Host) : Prop :=
  ∀ host ∈ knownHosts, host.name.length < hostnameMaxlen

/-- A name is looked up as a key of the list. -/
theorem knownHostsGetNode_eq_lookup
    (fit : NamesFit knownHosts) :
    knownHostsGetNode name knownHosts =
      match lookup Host.name name knownHosts with
      | some host => host.node
      | none => -1 := by
  have sameFind :
      (knownHosts.find? fun host =>
          strncmpEq hostnameMaxlen name host.name) =
        lookup Host.name name knownHosts := by
    apply List.find?_congr
    intro host member
    rw [Bool.eq_iff_iff, strncmpEq_iff (fit host member)]
    simp [eq_comm]
  rw [knownHostsGetNode, sameFind]

/-- The decimal text of an address fits its buffer. -/
theorem addressStr_eq
    (node : Int32) :
    addressStr node = printInt node.toInt := by
  have lower := node.le_toInt
  have upper := node.toInt_lt
  have digits : (printUnsigned node.toInt.natAbs).length ≤ 10 :=
    (Nat.length_toDigits_le_iff (by decide) (by decide)).mpr (by omega)
  apply List.take_of_length_le
  rw [printInt]
  split
  · rw [List.length_cons]
    omega
  · omega

end Table

/-!
## Sequences of calls
-/

/-- One call of `known_hosts_add`. -/
structure AddCall where
  addr : Int32
  name : CString
  overrideExisting : Bool
  deriving DecidableEq

/-- The entry the call makes if it takes effect. -/
def AddCall.host (call : AddCall) : Host :=
  ⟨call.addr, storedName call.name⟩

/-- What the call does to the table and the environment. -/
def AddCall.run (call : AddCall) (store : HostStore) : HostStore :=
  (knownHostsAdd call.addr call.name call.overrideExisting store).2

/-- No hosts and no variables. -/
def HostStore.empty : HostStore :=
  ⟨[], []⟩

/-- The table and the environment after a sequence of calls. -/
def addCalls (calls : List AddCall) : HostStore :=
  calls.foldl (fun store call => call.run store) .empty

/-- The call makes an entry: the first for its address, or an override. -/
def TakesEffect (before : List AddCall) (call : AddCall) : Prop :=
  call.addr ≠ 0 ∧
    (call.overrideExisting = true ∨
      ∀ earlier ∈ before, earlier.addr ≠ call.addr)

/--
The call at a position took effect with this entry, and no later call replaced
it: none for the same address has the override flag.
-/
def StoredAt
    (calls : List AddCall)
    (position : Nat)
    (host : Host) :
    Prop :=
  ∃ before call after,
    calls = before ++ call :: after ∧
      before.length = position ∧
      TakesEffect before call ∧
      call.host = host ∧
      ∀ later ∈ after, later.addr = call.addr → later.overrideExisting = false

section Calls

variable {calls : List AddCall}
variable {call : AddCall}
variable {store : HostStore}

theorem addCalls_append_singleton :
    addCalls (calls ++ [call]) = call.run (addCalls calls) := by
  simp [addCalls]

/-- The table behind one call, by the three things a call can do. -/
theorem knownHosts_run_cases
    (call : AddCall)
    (store : HostStore) :
    (call.addr = 0 ∧ call.run store = store) ∨
      (call.addr ≠ 0 ∧ call.overrideExisting = false ∧
        (∃ host ∈ store.knownHosts, host.node = call.addr) ∧
        call.run store = store) ∨
      (call.addr ≠ 0 ∧
        (call.overrideExisting = true ∨
          ∀ host ∈ store.knownHosts, host.node ≠ call.addr) ∧
        call.run store =
          ⟨call.host ::
              store.knownHosts.filter fun host => host.node ≠ call.addr,
            (cshPutvar call.host.name (addressStr call.addr) store.env).2⟩) := by
  unfold AddCall.run knownHostsAdd
  by_cases isZero : call.addr = 0
  · exact Or.inl ⟨isZero, by rw [if_pos isZero]⟩
  refine Or.inr ?_
  rw [if_neg isZero]
  by_cases isOverride : call.overrideExisting = true
  · refine Or.inr ⟨isZero, Or.inl isOverride, ?_⟩
    rw [if_pos isOverride, knownHostsDel_eq_filter]
    rfl
  · rw [if_neg isOverride]
    split
    · rename_i host found
      exact Or.inl
        ⟨isZero, by simpa using isOverride,
          ⟨host, mem_of_lookup found, key_of_lookup found⟩, rfl⟩
    · rename_i missing
      have absent : ∀ host ∈ store.knownHosts, host.node ≠ call.addr := by
        intro host member sameAddr
        apply lookup_eq_none_iff.mp missing
        exact List.mem_map.mpr ⟨host, member, sameAddr⟩
      have nothingRemoved :
          (store.knownHosts.filter fun host => host.node ≠ call.addr) =
            store.knownHosts :=
        List.filter_eq_self.mpr fun host member => by
          simpa using absent host member
      refine Or.inr ⟨isZero, Or.inr absent, ?_⟩
      rw [nothingRemoved]
      rfl

theorem storedAt_append_singleton_iff
    {position : Nat}
    {host : Host} :
    StoredAt (calls ++ [call]) position host ↔
      (calls.length = position ∧ TakesEffect calls call ∧
        call.host = host) ∨
      (StoredAt calls position host ∧
        (host.node = call.addr → call.overrideExisting = false)) := by
  constructor
  · rintro ⟨before, stored, after, shape, isPosition, effect, rfl, kept⟩
    rcases split_append_singleton_iff.mp shape with
      ⟨rfl, rfl, rfl⟩ | ⟨later, rfl, rfl⟩
    · exact Or.inl ⟨isPosition, effect, rfl⟩
    · refine Or.inr
        ⟨⟨before, stored, later, rfl, isPosition, effect, rfl, ?_⟩, ?_⟩
      · intro event member
        exact kept event (List.mem_append_left _ member)
      · intro sameAddr
        exact kept call (by simp) sameAddr.symm
  · rintro (⟨isPosition, effect, rfl⟩ |
      ⟨⟨before, stored, after, rfl, isPosition, effect, rfl, kept⟩, last⟩)
    · exact ⟨calls, call, [], rfl, isPosition, effect, rfl, by simp⟩
    · refine
        ⟨before, stored, after ++ [call], by simp, isPosition, effect, rfl,
          fun later member => ?_⟩
      rcases List.mem_append.mp member with inAfter | isLast
      · exact kept later inAfter
      · obtain rfl := List.mem_singleton.mp isLast
        exact fun sameAddr => last sameAddr.symm

theorem StoredAt.node_ne_zero
    {position : Nat}
    {host : Host}
    (stored : StoredAt calls position host) :
    host.node ≠ 0 := by
  obtain ⟨before, call, after, _, _, effect, rfl, _⟩ := stored
  exact effect.1

theorem StoredAt.name_fits
    {position : Nat}
    {host : Host}
    (stored : StoredAt calls position host) :
    host.name.length < hostnameMaxlen := by
  obtain ⟨before, call, after, _, _, _, rfl, _⟩ := stored
  exact length_storedName_lt call.name

theorem StoredAt.position_lt
    {position : Nat}
    {host : Host}
    (stored : StoredAt calls position host) :
    position < calls.length := by
  obtain ⟨before, call, after, rfl, rfl, _⟩ := stored
  simp

theorem StoredAt.exists_call
    {position : Nat}
    {host : Host}
    (stored : StoredAt calls position host) :
    ∃ call ∈ calls, call.addr = host.node := by
  obtain ⟨before, call, after, rfl, _, _, rfl, _⟩ := stored
  exact ⟨call, by simp, rfl⟩

/-- A call that takes effect replaces the entry for its address. -/
theorem storedAt_append_of_takesEffect
    {position : Nat}
    {host : Host}
    (effect : TakesEffect calls call) :
    StoredAt (calls ++ [call]) position host ↔
      (position, host) = (calls.length, call.host) ∨
        (StoredAt calls position host ∧ host.node ≠ call.addr) := by
  rw [storedAt_append_singleton_iff]
  constructor
  · rintro (⟨rfl, _, rfl⟩ | ⟨stored, kept⟩)
    · exact Or.inl rfl
    · refine Or.inr ⟨stored, fun sameAddr => ?_⟩
      obtain ⟨_, overrides | isFirst⟩ := effect
      · rw [kept sameAddr] at overrides
        cases overrides
      · obtain ⟨earlier, member, isNode⟩ := stored.exists_call
        exact isFirst earlier member (isNode.trans sameAddr)
  · rintro (isNew | ⟨stored, otherAddr⟩)
    · obtain ⟨rfl, rfl⟩ := Prod.mk.inj isNew
      exact Or.inl ⟨rfl, effect, rfl⟩
    · exact Or.inr ⟨stored, fun sameAddr => absurd sameAddr otherAddr⟩

/-- A call that takes no effect leaves every entry stored. -/
theorem storedAt_append_of_not_takesEffect
    {position : Nat}
    {host : Host}
    (noEffect : ¬ TakesEffect calls call)
    (noOverride : call.addr = 0 ∨ call.overrideExisting = false) :
    StoredAt (calls ++ [call]) position host ↔
      StoredAt calls position host := by
  rw [storedAt_append_singleton_iff]
  constructor
  · rintro (⟨_, effect, _⟩ | ⟨stored, _⟩)
    · exact absurd effect noEffect
    · exact stored
  · intro stored
    refine Or.inr ⟨stored, fun sameAddr => ?_⟩
    rcases noOverride with isZero | keeps
    · exact absurd (sameAddr.trans isZero) stored.node_ne_zero
    · exact keeps

/-- The table holds exactly the addresses other than 0 that were added. -/
theorem exists_node_addCalls_iff
    {addr : Int32} :
    (∃ host ∈ (addCalls calls).knownHosts, host.node = addr) ↔
      addr ≠ 0 ∧ ∃ call ∈ calls, call.addr = addr := by
  induction calls using List.reverseRecOn with
  | nil =>
      simp [addCalls, HostStore.empty]
  | append_singleton earlier call inductionHypothesis =>
      rw [addCalls_append_singleton]
      have split :
          (∃ stored ∈ earlier ++ [call], stored.addr = addr) ↔
            (∃ stored ∈ earlier, stored.addr = addr) ∨ call.addr = addr := by
        simp [or_and_right, exists_or]
      rw [split]
      rcases knownHosts_run_cases call (addCalls earlier) with
        ⟨isZero, same⟩ | ⟨nonzero, _, ⟨host, member, sameAddr⟩, same⟩ |
          ⟨nonzero, _, changed⟩
      · rw [same, inductionHypothesis]
        refine and_congr_right fun nonzero => (or_iff_left_of_imp ?_).symm
        rintro rfl
        exact absurd isZero nonzero
      · rw [same, inductionHypothesis]
        refine and_congr_right fun _ => (or_iff_left_of_imp ?_).symm
        rintro rfl
        exact (inductionHypothesis.mp ⟨host, member, sameAddr⟩).2
      · rw [changed]
        by_cases isNew : call.addr = addr
        · subst isNew
          exact
            iff_of_true ⟨call.host, List.mem_cons_self, rfl⟩
              ⟨nonzero, Or.inr rfl⟩
        · rw [or_iff_left isNew, ← inductionHypothesis]
          constructor
          · rintro ⟨host, member, rfl⟩
            rcases List.mem_cons.mp member with rfl | inOld
            · exact absurd rfl isNew
            · exact ⟨host, List.mem_of_mem_filter inOld, rfl⟩
          · rintro ⟨host, member, rfl⟩
            refine ⟨host, List.mem_cons_of_mem _ ?_, rfl⟩
            exact List.mem_filter.mpr ⟨member, by simpa using Ne.symm isNew⟩

/-- A call that takes effect puts its entry in the place of the old one. -/
theorem run_of_takesEffect
    (effect : TakesEffect calls call) :
    call.run (addCalls calls) =
      ⟨call.host ::
          (addCalls calls).knownHosts.filter fun host =>
            host.node ≠ call.addr,
        (cshPutvar call.host.name (addressStr call.addr)
          (addCalls calls).env).2⟩ := by
  obtain ⟨nonzero, overrides | isFirst⟩ := effect
  · rcases knownHosts_run_cases call (addCalls calls) with
      ⟨isZero, _⟩ | ⟨_, keeps, _⟩ | ⟨_, _, changed⟩
    · exact absurd isZero nonzero
    · rw [overrides] at keeps
      cases keeps
    · exact changed
  · rcases knownHosts_run_cases call (addCalls calls) with
      ⟨isZero, _⟩ | ⟨_, _, present, _⟩ | ⟨_, _, changed⟩
    · exact absurd isZero nonzero
    · obtain ⟨_, earlier, member, sameAddr⟩ :=
        exists_node_addCalls_iff.mp present
      exact absurd sameAddr (isFirst earlier member)
    · exact changed

/-- Any other call changes nothing, and is for address 0 or no override. -/
theorem run_of_not_takesEffect
    (noEffect : ¬ TakesEffect calls call) :
    call.run (addCalls calls) = addCalls calls ∧
      (call.addr = 0 ∨ call.overrideExisting = false) := by
  rcases knownHosts_run_cases call (addCalls calls) with
    ⟨isZero, same⟩ | ⟨_, keeps, _, same⟩ | ⟨nonzero, overrides, _⟩
  · exact ⟨same, Or.inl isZero⟩
  · exact ⟨same, Or.inr keeps⟩
  · refine (noEffect ⟨nonzero, overrides.imp_right fun absent => ?_⟩).elim
    intro earlier member sameAddr
    obtain ⟨host, inTable, sameNode⟩ :=
      exists_node_addCalls_iff.mpr
        ⟨nonzero, earlier, member, sameAddr⟩
    exact absent host inTable sameNode

end Calls

/-!
## The log of the stored entries
-/

/-- The entries of the table with their positions, the latest first. -/
structure HostLog (calls : List AddCall) (log : List (Nat × Host)) : Prop where
  entries : log.map Prod.snd = (addCalls calls).knownHosts
  ordered : log.Pairwise fun later earlier => earlier.1 < later.1
  stored : ∀ position host,
    (position, host) ∈ log ↔ StoredAt calls position host

section Log

variable {calls : List AddCall}
variable {call : AddCall}
variable {log : List (Nat × Host)}

theorem hostLog_nil :
    HostLog [] [] := by
  refine ⟨rfl, List.Pairwise.nil, fun position host => ?_⟩
  refine iff_of_false (by simp) fun stored => ?_
  exact absurd stored.position_lt (Nat.not_lt_zero _)

/-- What one call does to the log. -/
theorem HostLog.step
    (hostLog : HostLog calls log)
    (call : AddCall) :
    ∃ later, HostLog (calls ++ [call]) later := by
  by_cases effect : TakesEffect calls call
  · refine
      ⟨(calls.length, call.host) ::
        log.filter fun entry => entry.2.node ≠ call.addr, ?_, ?_, ?_⟩
    · rw [addCalls_append_singleton, run_of_takesEffect effect,
        ← hostLog.entries, List.filter_map]
      rfl
    · refine List.pairwise_cons.mpr ⟨fun entry member => ?_, ?_⟩
      · exact
          ((hostLog.stored entry.1 entry.2).mp
            (List.mem_of_mem_filter member)).position_lt
      · exact hostLog.ordered.filter _
    · intro position host
      rw [storedAt_append_of_takesEffect effect, List.mem_cons,
        List.mem_filter, hostLog.stored]
      simp
  · obtain ⟨same, noChange⟩ := run_of_not_takesEffect effect
    refine ⟨log, ?_, hostLog.ordered, fun position host => ?_⟩
    · rw [addCalls_append_singleton, same, hostLog.entries]
    · rw [hostLog.stored]
      exact (storedAt_append_of_not_takesEffect effect noChange).symm

theorem exists_hostLog
    (calls : List AddCall) :
    ∃ log, HostLog calls log := by
  induction calls using List.reverseRecOn with
  | nil =>
      exact ⟨[], hostLog_nil⟩
  | append_singleton earlier call inductionHypothesis =>
      obtain ⟨log, hostLog⟩ := inductionHypothesis
      exact hostLog.step call

/-- The table holds exactly the entries that no later call replaced. -/
theorem mem_addCalls_iff
    {host : Host} :
    host ∈ (addCalls calls).knownHosts ↔
      ∃ position, StoredAt calls position host := by
  obtain ⟨log, hostLog⟩ := exists_hostLog calls
  rw [← hostLog.entries]
  simp [hostLog.stored]

theorem namesFit_addCalls
    (calls : List AddCall) :
    NamesFit (addCalls calls).knownHosts := by
  intro host member
  obtain ⟨position, stored⟩ := mem_addCalls_iff.mp member
  exact stored.name_fits

/-- No two entries are for the same address. -/
theorem distinct_addCalls
    (calls : List AddCall) :
    Distinct Host.node (addCalls calls).knownHosts := by
  induction calls using List.reverseRecOn with
  | nil =>
      exact List.nodup_nil
  | append_singleton earlier call inductionHypothesis =>
      rw [addCalls_append_singleton]
      by_cases effect : TakesEffect earlier call
      · rw [run_of_takesEffect effect]
        refine List.nodup_cons.mpr ⟨fun member => ?_, ?_⟩
        · obtain ⟨host, inOld, sameAddr⟩ := List.mem_map.mp member
          have otherAddr : host.node ≠ call.addr := by
            simpa using (List.mem_filter.mp inOld).2
          exact otherAddr sameAddr
        · exact inductionHypothesis.sublist
            ((List.filter_sublist).map Host.node)
      · rw [(run_of_not_takesEffect effect).1]
        exact inductionHypothesis

/-- A name finds the entry stored last under it, or else there is none. -/
theorem knownHostsGetNode_addCalls
    (calls : List AddCall)
    (name : CString) :
    (∃ position host,
        StoredAt calls position host ∧ host.name = name ∧
          (∀ earlier other,
            StoredAt calls earlier other → other.name = name →
              earlier ≤ position) ∧
          knownHostsGetNode name (addCalls calls).knownHosts = host.node) ∨
      ((∀ position host, StoredAt calls position host → host.name ≠ name) ∧
        knownHostsGetNode name (addCalls calls).knownHosts = -1) := by
  obtain ⟨log, hostLog⟩ := exists_hostLog calls
  have finds := @knownHostsGetNode_eq_lookup _ name (namesFit_addCalls calls)
  cases found : lookup Host.name name (addCalls calls).knownHosts with
  | none =>
      rw [found] at finds
      refine Or.inr ⟨fun position host stored sameName => ?_, finds⟩
      apply lookup_eq_none_iff.mp found
      exact List.mem_map.mpr
        ⟨host, mem_addCalls_iff.mpr ⟨position, stored⟩, sameName⟩
  | some host =>
      rw [found] at finds
      rw [← hostLog.entries, lookup, List.find?_map] at found
      obtain ⟨⟨position, stored⟩, inLog, rfl⟩ :=
        Option.map_eq_some_iff.mp found
      obtain ⟨isName, latest, rest, shape, othersBefore⟩ :=
        List.find?_eq_some_iff_append.mp inLog
      have ordered := hostLog.ordered
      rw [shape] at ordered
      refine
        Or.inl ⟨position, stored, ?_, by simpa using isName, ?_, finds⟩
      · rw [← hostLog.stored, shape]
        simp
      · intro earlier other isStored sameName
        rw [← hostLog.stored, shape] at isStored
        rcases List.mem_append.mp isStored with inLatest | inRest
        · have otherName := othersBefore _ inLatest
          simp [sameName] at otherName
        · rcases List.mem_cons.mp inRest with same | isEarlier
          · exact (Prod.mk.inj same).1.le
          · have behind :=
              (List.pairwise_cons.mp (List.pairwise_append.mp ordered).2.1).1
            exact (behind _ isEarlier).le

end Log

/-- The buffer that `known_hosts_get_name` is given reads as the name. -/
theorem knownHostsGetName_of_mem
    {knownHosts : List Host}
    {host : Host}
    (distinct : Distinct Host.node knownHosts)
    (fit : NamesFit knownHosts)
    (member : host ∈ knownHosts)
    (name : List Char)
    {buflen : Nat}
    (large : hostnameMaxlen ≤ buflen) :
    ∃ behind,
      knownHostsGetName host.node name buflen knownHosts =
        (1, host.name ++ nul :: behind) := by
  have short := fit host member
  obtain ⟨padding, isPadding⟩ :
      ∃ padding, buflen - host.name.length = padding + 1 :=
    ⟨buflen - host.name.length - 1, by omega⟩
  refine ⟨List.replicate padding nul ++ name.drop buflen, ?_⟩
  rw [knownHostsGetName, lookup_of_mem distinct member]
  simp only [strncpy, isPadding, List.replicate_succ]
  rw [List.take_of_length_le (by omega)]
  simp

/--
After any sequence of calls: no address 0 and no address twice, for each
address the name of the last call that took effect, and both lookups find it.
-/
theorem knownHosts_addCalls
    (calls : List AddCall) :
    (∀ host ∈ (addCalls calls).knownHosts, host.node ≠ 0) ∧
      Distinct Host.node (addCalls calls).knownHosts ∧
      (∀ host,
        host ∈ (addCalls calls).knownHosts ↔
          ∃ position, StoredAt calls position host) ∧
      (∀ addr,
        (∃ host ∈ (addCalls calls).knownHosts, host.node = addr) ↔
          addr ≠ 0 ∧ ∃ call ∈ calls, call.addr = addr) ∧
      (∀ host ∈ (addCalls calls).knownHosts, ∀ (buffer : List Char) buflen,
        hostnameMaxlen ≤ buflen →
          ∃ behind,
            knownHostsGetName host.node buffer buflen
                (addCalls calls).knownHosts =
              (1, host.name ++ nul :: behind)) ∧
      ∀ name,
        (∃ position host,
          StoredAt calls position host ∧ host.name = name ∧
            (∀ earlier other,
              StoredAt calls earlier other → other.name = name →
                earlier ≤ position) ∧
            knownHostsGetNode name (addCalls calls).knownHosts =
              host.node) ∨
        ((∀ position host, StoredAt calls position host → host.name ≠ name) ∧
          knownHostsGetNode name (addCalls calls).knownHosts = -1) := by
  refine
    ⟨fun host member => ?_, distinct_addCalls calls,
      fun _ => mem_addCalls_iff, fun _ => exists_node_addCalls_iff,
      fun host member buffer buflen large => ?_,
      knownHostsGetNode_addCalls calls⟩
  · obtain ⟨position, stored⟩ := mem_addCalls_iff.mp member
    exact stored.node_ne_zero
  · exact
      knownHostsGetName_of_mem (distinct_addCalls calls)
        (namesFit_addCalls calls) member buffer large

end Csh.KnownHosts
