import Csh.KnownHosts
import Csh.Lib.CNumber

namespace Csh.KnownHosts

open Libc KeyedList History Environment

/-!
# Hosts and their variables

`known_hosts_add` puts each new entry into the environment as well, but an
entry that is replaced leaves only the table.  The variable of a name and the
lookup of the name agree until an override gives another name to the latest of
several hosts with one name: the lookup then finds an older host.
-/

/-- Each name in the table is a variable with the address the name finds. -/
def Agrees (store : HostStore) : Prop :=
  ∀ host ∈ store.knownHosts,
    cshGetvar host.name store.env =
      some (printInt (knownHostsGetNode host.name store.knownHosts).toInt)

/--
An override gives another name to a host whose name is that of an older host
as well, and of no later one.
-/
def RevealsOlder (knownHosts : List Host) (call : AddCall) : Prop :=
  call.addr ≠ 0 ∧ call.overrideExisting = true ∧
    ∃ before replaced after,
      knownHosts = before ++ replaced :: after ∧
        replaced.node = call.addr ∧
        replaced.name ≠ call.host.name ∧
        (∀ host ∈ before, host.name ≠ replaced.name) ∧
        ∃ older ∈ after, older.name = replaced.name

section Lookup

variable {knownHosts : List Host}
variable {host : Host}
variable {name : CString}

theorem NamesFit.filter
    (fit : NamesFit knownHosts)
    (keeps : Host → Bool) :
    NamesFit (knownHosts.filter keeps) :=
  fun host member => fit host (List.mem_of_mem_filter member)

theorem knownHostsGetNode_of_lookup
    (fit : NamesFit knownHosts)
    (found : lookup Host.name name knownHosts = some host) :
    knownHostsGetNode name knownHosts = host.node := by
  rw [knownHostsGetNode_eq_lookup fit, found]

/-- A name of the table finds some host with that name. -/
theorem exists_lookup_of_mem
    (member : host ∈ knownHosts) :
    ∃ found, lookup Host.name host.name knownHosts = some found := by
  apply Option.ne_none_iff_exists'.mp
  intro missing
  exact lookup_eq_none_iff.mp missing (List.mem_map_of_mem member)

end Lookup

section Step

variable {store : HostStore}
variable {call : AddCall}

/-- The store behind a call that makes an entry. -/
def inserted (call : AddCall) (store : HostStore) : HostStore :=
  ⟨call.host :: store.knownHosts.filter fun host => host.node ≠ call.addr,
    (cshPutvar call.host.name (addressStr call.addr) store.env).2⟩

theorem namesFit_inserted
    (fit : NamesFit store.knownHosts) :
    NamesFit (inserted call store).knownHosts := by
  intro host member
  rcases List.mem_cons.mp member with rfl | inOld
  · exact length_storedName_lt call.name
  · exact fit.filter _ host inOld

/-- The new entry agrees with its variable. -/
theorem inserted_agrees_same
    (fit : NamesFit store.knownHosts) :
    cshGetvar call.host.name (inserted call store).env =
      some
        (printInt
          (knownHostsGetNode call.host.name
            (inserted call store).knownHosts).toInt) := by
  have found :
      lookup Host.name call.host.name (inserted call store).knownHosts =
        some call.host :=
    lookup_cons_of_eq rfl
  rw [knownHostsGetNode_of_lookup (namesFit_inserted fit) found]
  exact cshGetvar_putvar_same.trans (congrArg some (addressStr_eq call.addr))

/-- Another name keeps its variable and the lookup of the older entries. -/
theorem inserted_other
    (fit : NamesFit store.knownHosts)
    {name : CString}
    (otherName : name ≠ call.host.name) :
    cshGetvar name (inserted call store).env = cshGetvar name store.env ∧
      knownHostsGetNode name (inserted call store).knownHosts =
        knownHostsGetNode name
          (store.knownHosts.filter fun host => host.node ≠ call.addr) := by
  refine ⟨cshGetvar_putvar_other otherName, ?_⟩
  rw [knownHostsGetNode_eq_lookup (namesFit_inserted fit),
    knownHostsGetNode_eq_lookup (fit.filter _)]
  unfold inserted
  rw [lookup_cons_of_ne otherName.symm]

/-- A call that reveals an older host leaves its variable behind. -/
theorem not_agrees_of_revealsOlder
    (fit : NamesFit store.knownHosts)
    (distinct : Distinct Host.node store.knownHosts)
    (agrees : Agrees store)
    (reveals : RevealsOlder store.knownHosts call) :
    ¬ Agrees (inserted call store) := by
  obtain ⟨_, _, before, replaced, after, shape, isAddr, renamed, latest,
    older, isOlder, sameName⟩ := reveals
  have replacedMember : replaced ∈ store.knownHosts := by
    rw [shape]
    simp
  have olderMember : older ∈ store.knownHosts := by
    rw [shape]
    simp [isOlder]
  have olderNode : older.node ≠ call.addr := by
    intro sameAddr
    rw [Distinct, shape, List.map_append, List.map_cons] at distinct
    have notBehind :=
      (List.nodup_cons.mp (List.nodup_append.mp distinct).2.1).1
    apply notBehind
    rw [isAddr, ← sameAddr]
    exact List.mem_map_of_mem isOlder
  have olderKept :
      older ∈
        store.knownHosts.filter fun host => host.node ≠ call.addr :=
    List.mem_filter.mpr ⟨olderMember, by simpa using olderNode⟩
  have foundBefore :
      lookup Host.name replaced.name store.knownHosts = some replaced := by
    rw [shape]
    exact lookup_of_split rfl latest
  obtain ⟨found, foundAfter⟩ := exists_lookup_of_mem olderKept
  have foundNode : found.node ≠ call.addr := by
    simpa using (List.mem_filter.mp (mem_of_lookup foundAfter)).2
  have otherName : older.name ≠ call.host.name := by
    rw [sameName]
    exact renamed
  obtain ⟨sameVariable, sameNode⟩ := inserted_other fit otherName
  intro agreesAfter
  have newText := agreesAfter older (List.mem_cons_of_mem _ olderKept)
  rw [sameVariable, sameNode,
    knownHostsGetNode_of_lookup (fit.filter _) foundAfter, sameName,
    agrees replaced replacedMember,
    knownHostsGetNode_of_lookup fit foundBefore, isAddr] at newText
  have sameInt := printInt_injective (Option.some.inj newText)
  exact foundNode (Int32.toInt_inj.mp sameInt).symm

/-- Any other call that makes an entry keeps the agreement. -/
theorem agrees_of_not_revealsOlder
    (fit : NamesFit store.knownHosts)
    (agrees : Agrees store)
    (nonzero : call.addr ≠ 0)
    (effect :
      call.overrideExisting = true ∨
        ∀ host ∈ store.knownHosts, host.node ≠ call.addr)
    (hides : ¬ RevealsOlder store.knownHosts call) :
    Agrees (inserted call store) := by
  intro host member
  by_cases sameName : host.name = call.host.name
  · rw [sameName]
    exact inserted_agrees_same fit
  have isOld :
      host ∈ store.knownHosts.filter fun host => host.node ≠ call.addr := by
    rcases List.mem_cons.mp member with rfl | inOld
    · exact absurd rfl sameName
    · exact inOld
  obtain ⟨inTable, kept⟩ := List.mem_filter.mp isOld
  obtain ⟨found, isFound⟩ := exists_lookup_of_mem inTable
  have foundKept : found.node ≠ call.addr := by
    -- otherwise the host stands behind the entry that is replaced
    intro isAddr
    obtain ⟨before, after, shape, others⟩ := exists_split_of_lookup isFound
    have foundName : found.name = host.name := key_of_lookup isFound
    apply hides
    refine ⟨nonzero, ?_, before, found, after, shape, isAddr, ?_, ?_, host,
      ?_, foundName.symm⟩
    · rcases effect with overrides | absent
      · exact overrides
      · exact absurd isAddr (absent found (mem_of_lookup isFound))
    · rw [foundName]
      exact sameName
    · intro earlier inBefore
      rw [foundName]
      exact others earlier inBefore
    · rw [shape] at inTable
      rcases List.mem_append.mp inTable with inBefore | inRest
      · exact absurd rfl (others host inBefore)
      · rcases List.mem_cons.mp inRest with rfl | inAfter
        · simp [isAddr] at kept
        · exact inAfter
  obtain ⟨sameVariable, sameNode⟩ := inserted_other fit sameName
  rw [sameVariable, sameNode, agrees host inTable,
    knownHostsGetNode_of_lookup fit isFound,
    knownHostsGetNode_of_lookup (fit.filter _)
      (lookup_filter_of_keeps isFound (by simpa using foundKept))]

/-- One call keeps the agreement exactly when it reveals no older host. -/
theorem agrees_run_iff
    (fit : NamesFit store.knownHosts)
    (distinct : Distinct Host.node store.knownHosts)
    (agrees : Agrees store) :
    Agrees (call.run store) ↔ ¬ RevealsOlder store.knownHosts call := by
  rcases knownHosts_run_cases call store with
    ⟨isZero, same⟩ | ⟨_, keeps, _, same⟩ | ⟨nonzero, effect, changed⟩
  · rw [same]
    exact iff_of_true agrees fun reveals => reveals.1 isZero
  · rw [same]
    refine iff_of_true agrees fun reveals => ?_
    rw [reveals.2.1] at keeps
    cases keeps
  · rw [changed]
    constructor
    · intro agreesAfter reveals
      exact
        not_agrees_of_revealsOlder fit distinct agrees reveals agreesAfter
    · exact agrees_of_not_revealsOlder fit agrees nonzero effect

end Step

section Runs

variable {calls : List AddCall}

theorem agrees_addCalls_append_iff
    {call : AddCall}
    (agrees : Agrees (addCalls calls)) :
    Agrees (addCalls (calls ++ [call])) ↔
      ¬ RevealsOlder (addCalls calls).knownHosts call := by
  rw [addCalls_append_singleton]
  exact agrees_run_iff (namesFit_addCalls calls) (distinct_addCalls calls) agrees

/--
In a run of calls the variables agree with the lookups all along, if and only
if no call reveals an older host.
-/
theorem agrees_throughout_iff
    (calls : List AddCall) :
    (∀ earlier, earlier <+: calls → Agrees (addCalls earlier)) ↔
      ∀ before call after, calls = before ++ call :: after →
        ¬ RevealsOlder (addCalls before).knownHosts call := by
  constructor
  · rintro agrees before call after rfl
    rw [← agrees_addCalls_append_iff
      (agrees before (List.prefix_append before _))]
    exact agrees _ ⟨after, by simp⟩
  · intro hides earlier isPrefix
    induction earlier using List.reverseRecOn with
    | nil =>
        intro host member
        exact absurd member (by simp [addCalls, HostStore.empty])
    | append_singleton earlier call inductionHypothesis =>
        obtain ⟨after, rfl⟩ := isPrefix
        rw [agrees_addCalls_append_iff
          (inductionHypothesis ⟨call :: after, by simp⟩)]
        exact hides earlier call after (by simp)

/-- Two nodes share a name and the later one is renamed. -/
theorem renamed_host_leaves_variable :
    ¬ Agrees
      (addCalls
        [⟨5, ['a'], true⟩, ⟨6, ['a'], true⟩, ⟨6, ['b'], true⟩]) := by
  intro agrees
  have text := agrees ⟨5, ['a']⟩ (by decide)
  exact absurd text (by decide)

end Runs

end Csh.KnownHosts
