import Csh.KnownHosts
import Csh.Lib.Interaction
import Csh.Slash

namespace Csh.CspScan

open Libc KeyedList Interaction KnownHosts

/-!
# The scan for nodes

`csp scan` pings every address of a range, asks the ones that answer for their
name, and adds those whose name it looks for to the table of known hosts.  The
answers of the nodes and of the user are arbitrary.
-/

/-- The options of the command. -/
structure ScanOptions where
  beginNode : UInt32
  endNode : UInt32
  searchStr : Option CString
  override : Bool

/-- What the scan asks for. -/
inductive ScanCall where
  | ping (node timeout size : UInt32)
  | cmpIdent (node timeout : UInt32)
  | waitInterruptible (timeout : UInt32)
  deriving Repr, DecidableEq

/-- The reply time, the name if there is a reply, and whether to stop. -/
abbrev ScanAnswer : ScanCall → Type
  | .ping .. => Int
  | .cmpIdent .. => Option CString
  | .waitInterruptible .. => Int

/-- The name is one that is searched for. -/
def ScanOptions.wants (options : ScanOptions) (hostname : CString) : Bool :=
  match options.searchStr with
  | some searchStr => !(0 < searchStr.length) || strstr hostname searchStr
  | none => true

/-- The body of the loop up to the check for exit. -/
def scanNode
    (options : ScanOptions)
    (i : UInt32)
    (store : HostStore) :
    Prog ScanAnswer HostStore := do
  let reply ← Prog.ask (.ping i 20 0)
  if 0 ≤ (reply : Int) then
    let message ← Prog.ask (.cmpIdent i 100)
    match (message : Option CString) with
    | some hostname =>
        if options.wants hostname then
          pure (knownHostsAdd i.toInt32 hostname options.override store).2
        else
          pure store
    | none => pure store
  else
    pure store

/-- The loop, for as many turns as there is fuel. -/
def scanLoop
    (options : ScanOptions) :
    Nat → UInt32 → HostStore → Prog ScanAnswer (Option HostStore)
  | 0, _, _ => pure none
  | fuel + 1, i, store =>
      if i ≤ options.endNode then do
        let store ← scanNode options i store
        let exit ← Prog.ask (.waitInterruptible 0)
        if (exit : Int) ≠ 0 then
          pure (some store)
        else
          scanLoop options fuel (i + 1) store
      else
        pure (some store)

/-- `csp_scan`. -/
def cspScan
    (fuel : Nat)
    (parsed : Parsed ScanOptions)
    (store : HostStore) :
    Prog ScanAnswer (Option (SlashResult × HostStore)) :=
  match parsed with
  | none => pure (some (.einval, store))
  | some (options, _) => do
      let scanned ← scanLoop options fuel options.beginNode store
      pure (scanned.map fun store => (.success, store))

/-- The node that a step pings. -/
def pingedNode : Step ScanAnswer → Option UInt32
  | ⟨.ping node _ _, _⟩ => some node
  | _ => none

/-- The nodes that were pinged, in their order. -/
def pinged (trace : List (Step ScanAnswer)) : List UInt32 :=
  trace.filterMap pingedNode

/-- The entry that a step asks for. -/
def scanCall (options : ScanOptions) : Step ScanAnswer → Option AddCall
  | ⟨.cmpIdent node _, some hostname⟩ =>
      if options.wants hostname then
        some ⟨node.toInt32, hostname, options.override⟩
      else
        none
  | _ => none

/-- The entries that a scan asks for, in their order. -/
def scanCalls
    (options : ScanOptions)
    (trace : List (Step ScanAnswer)) :
    List AddCall :=
  trace.filterMap (scanCall options)

/-- The user stops the scan. -/
def Interrupts : Step ScanAnswer → Prop
  | ⟨.waitInterruptible _, exit⟩ => (exit : Int) ≠ 0
  | _ => False

/-- The store behind some calls of `known_hosts_add`. -/
def runCalls (calls : List AddCall) (store : HostStore) : HostStore :=
  calls.foldl (fun store call => call.run store) store

section Runs

variable {options : ScanOptions}
variable {store result : HostStore}
variable {trace first later : List (Step ScanAnswer)}
variable {i : UInt32}

theorem pinged_append :
    pinged (first ++ later) = pinged first ++ pinged later :=
  List.filterMap_append

theorem scanCalls_append :
    scanCalls options (first ++ later) =
      scanCalls options first ++ scanCalls options later :=
  List.filterMap_append

theorem runCalls_append
    {calls more : List AddCall} :
    runCalls (calls ++ more) store = runCalls more (runCalls calls store) :=
  List.foldl_append

/-- A node that answers with its name. -/
theorem scanCalls_ident
    {node timeout : UInt32}
    {hostname : CString}
    {reply : ScanAnswer (.ping i 20 0)} :
    scanCalls options
        [⟨.ping i 20 0, reply⟩, ⟨.cmpIdent node timeout, some hostname⟩] =
      if options.wants hostname then
        [⟨node.toInt32, hostname, options.override⟩]
      else
        [] := by
  change
    List.filterMap (scanCall options)
        [⟨.cmpIdent node timeout, some hostname⟩] = _
  rw [List.filterMap_cons, scanCall]
  by_cases wanted : options.wants hostname = true
  · rw [if_pos wanted, if_pos wanted]
    rfl
  · rw [if_neg wanted, if_neg wanted]
    rfl

/-- What the scan of one node does. -/
structure ScannedNode
    (options : ScanOptions)
    (i : UInt32)
    (store : HostStore)
    (trace : List (Step ScanAnswer))
    (result : HostStore) :
    Prop where
  pings : pinged trace = [i]
  addrs :
    (scanCalls options trace).map AddCall.addr = [] ∨
      (scanCalls options trace).map AddCall.addr = [i.toInt32]
  stores : result = runCalls (scanCalls options trace) store
  goesOn : ∀ step ∈ trace, ¬ Interrupts step

theorem scannedNode_of_runs
    (run : Runs (scanNode options i store) trace result) :
    ScannedNode options i store trace result := by
  obtain ⟨reply, behind, rfl, rest⟩ := runs_ask_bind_iff.mp run
  by_cases answered : 0 ≤ (reply : Int)
  · rw [if_pos answered] at rest
    obtain ⟨message, last, rfl, ending⟩ := runs_ask_bind_iff.mp rest
    clear rest
    cases message with
    | none =>
        obtain ⟨rfl, rfl⟩ := runs_pure_iff.mp ending
        exact ⟨rfl, Or.inl rfl, rfl, by simp [Interrupts]⟩
    | some hostname =>
        by_cases wanted : options.wants hostname = true
        · simp only [wanted, if_true] at ending
          obtain ⟨rfl, rfl⟩ := runs_pure_iff.mp ending
          have calls := @scanCalls_ident options i i 100 hostname reply
          rw [if_pos wanted] at calls
          exact
            ⟨rfl, Or.inr (by rw [calls]; rfl), by rw [calls]; rfl,
              by simp [Interrupts]⟩
        · simp only [wanted, if_false, Bool.false_eq_true] at ending
          obtain ⟨rfl, rfl⟩ := runs_pure_iff.mp ending
          have calls := @scanCalls_ident options i i 100 hostname reply
          rw [if_neg wanted] at calls
          exact
            ⟨rfl, Or.inl (by rw [calls]; rfl), by rw [calls]; rfl,
              by simp [Interrupts]⟩
  · rw [if_neg answered] at rest
    obtain ⟨rfl, rfl⟩ := runs_pure_iff.mp rest
    exact ⟨rfl, Or.inl rfl, rfl, by simp [Interrupts]⟩

theorem ScannedNode.addrs_sublist
    (node : ScannedNode options i store trace result) :
    ((scanCalls options trace).map AddCall.addr).Sublist [i.toInt32] := by
  rcases node.addrs with none | one
  · rw [none]
    exact List.nil_sublist _
  · rw [one]

/-- The address behind one that is not the last of all. -/
theorem toNat_add_one
    (ends : options.endNode ≠ 0xFFFFFFFF)
    (inside : i ≤ options.endNode) :
    (i + 1).toNat = i.toNat + 1 := by
  have le := UInt32.le_iff_toNat_le.mp inside
  have notLast : options.endNode.toNat ≠ 2 ^ 32 - 1 :=
    fun last => ends (UInt32.toNat_inj.mp last)
  have small := options.endNode.toNat_lt
  rw [UInt32.toNat_add]
  exact Nat.mod_eq_of_lt (by simp; omega)

/-- What a scan from a node on does. -/
structure Scanned
    (options : ScanOptions)
    (i : UInt32)
    (store : HostStore)
    (trace : List (Step ScanAnswer))
    (result : HostStore) :
    Prop where
  pings :
    (pinged trace).map UInt32.toNat =
      List.range' i.toNat (pinged trace).length
  few : (pinged trace).length ≤ options.endNode.toNat + 1 - i.toNat
  all :
    (∀ step ∈ trace, ¬ Interrupts step) →
      (pinged trace).length = options.endNode.toNat + 1 - i.toNat
  addrs :
    ((scanCalls options trace).map AddCall.addr).Sublist
      ((pinged trace).map UInt32.toInt32)
  stores : result = runCalls (scanCalls options trace) store

/-- A range that does not end at `UINT_MAX` is scanned as a whole. -/
theorem scanned_of_runs
    {fuel : Nat}
    {outcome : Option HostStore}
    (ends : options.endNode ≠ 0xFFFFFFFF)
    (enough : options.endNode.toNat + 1 - i.toNat < fuel)
    (run : Runs (scanLoop options fuel i store) trace outcome) :
    ∃ result,
      outcome = some result ∧ Scanned options i store trace result := by
  induction fuel generalizing i store trace with
  | zero =>
      exact absurd enough (Nat.not_lt_zero _)
  | succ fuel inductionHypothesis =>
      rw [scanLoop] at run
      by_cases inside : i ≤ options.endNode
      · rw [if_pos inside] at run
        have le : i.toNat ≤ options.endNode.toNat :=
          UInt32.le_iff_toNat_le.mp inside
        obtain ⟨first, middle, behind, rfl, nodeRun, rest⟩ :=
          runs_bind_iff.mp run
        have node := scannedNode_of_runs nodeRun
        obtain ⟨exit, later, rfl, ending⟩ := runs_ask_bind_iff.mp rest
        have pings :
            pinged (first ++ ⟨.waitInterruptible 0, exit⟩ :: later) =
              i :: pinged later := by
          rw [pinged_append, node.pings]
          rfl
        have calls :
            scanCalls options (first ++ ⟨.waitInterruptible 0, exit⟩ :: later) =
              scanCalls options first ++ scanCalls options later := by
          rw [scanCalls_append]
          rfl
        by_cases stops : (exit : Int) ≠ 0
        · rw [if_pos stops] at ending
          obtain ⟨rfl, rfl⟩ := runs_pure_iff.mp ending
          refine ⟨middle, rfl, ?_, ?_, fun quiet => ?_, ?_, ?_⟩
          · rw [pings]
            rfl
          · rw [pings]
            change 1 ≤ _
            omega
          · exact absurd stops (quiet ⟨.waitInterruptible 0, exit⟩ (by simp))
          · rw [calls, List.map_append, pings]
            exact node.addrs_sublist.append_right []
          · rw [calls, runCalls_append, ← node.stores]
            rfl
        · rw [if_neg stops] at ending
          have next : (i + 1).toNat = i.toNat + 1 :=
            toNat_add_one ends inside
          obtain ⟨result, rfl, scanned⟩ :=
            inductionHypothesis (by omega) ending
          refine ⟨result, rfl, ?_, ?_, fun quiet => ?_, ?_, ?_⟩
          · rw [pings, List.map_cons, scanned.pings, next]
            rfl
          · have few := scanned.few
            rw [pings, List.length_cons]
            omega
          · have all :=
              scanned.all fun step member => quiet step (by simp [member])
            rw [pings, List.length_cons]
            omega
          · rw [calls, List.map_append, pings]
            exact node.addrs_sublist.append scanned.addrs
          · rw [calls, runCalls_append, ← node.stores]
            exact scanned.stores
      · rw [if_neg inside] at run
        have lt : options.endNode.toNat < i.toNat := by
          rw [UInt32.le_iff_toNat_le] at inside
          exact Nat.lt_of_not_le inside
        obtain ⟨rfl, rfl⟩ := runs_pure_iff.mp run
        refine ⟨store, rfl, rfl, Nat.zero_le _, fun _ => ?_, ?_, rfl⟩
        · exact (Nat.sub_eq_zero_of_le lt).symm
        · exact List.Sublist.slnil

/-- Every entry of a scan has its override flag. -/
theorem override_of_mem_scanCalls
    {call : AddCall}
    (member : call ∈ scanCalls options trace) :
    call.overrideExisting = options.override := by
  obtain ⟨step, _, isCall⟩ := List.mem_filterMap.mp member
  obtain ⟨request, answer⟩ := step
  cases request with
  | ping node timeout size =>
      cases isCall
  | waitInterruptible timeout =>
      cases isCall
  | cmpIdent node timeout =>
      cases answer with
      | none =>
          cases isCall
      | some hostname =>
          rw [scanCall] at isCall
          split at isCall
          · rw [← Option.some.inj isCall]
          · cases isCall

/-- No two entries of a scan are for the same address. -/
theorem Scanned.nodup_addrs
    {outcome : HostStore}
    (scanned : Scanned options i store trace outcome) :
    ((scanCalls options trace).map AddCall.addr).Nodup := by
  refine scanned.addrs.nodup ?_
  have pings : ((pinged trace).map UInt32.toNat).Nodup := by
    rw [scanned.pings]
    exact List.nodup_range'
  refine (List.Nodup.of_map _ pings).map fun first second same => ?_
  exact congrArg Int32.toUInt32 same

end Runs

/-- What becomes of the entry for a node whose name has been heard. -/
def learned
    (override : Bool)
    (node : Int32)
    (hostname : Option CString)
    (entry : Option Host) :
    Option Host :=
  match hostname with
  | none => entry
  | some hostname =>
      if node ≠ 0 ∧ (override = true ∨ entry = none) then
        some ⟨node, storedName hostname⟩
      else
        entry

/-- The name with which a node has answered, if it is searched for. -/
def heard
    (options : ScanOptions)
    (trace : List (Step ScanAnswer))
    (node : Int32) :
    Option CString :=
  ((scanCalls options trace).find? (·.addr = node)).map AddCall.name

section Table

variable {node : Int32}
variable {store : HostStore}
variable {call : AddCall}
variable {calls : List AddCall}

theorem lookup_run_same :
    lookup Host.node call.addr (call.run store).knownHosts =
      learned call.overrideExisting call.addr (some call.name)
        (lookup Host.node call.addr store.knownHosts) := by
  rcases knownHosts_run_cases call store with
    ⟨zero, same⟩ | ⟨_, keeps, ⟨host, member, isAddr⟩, same⟩ |
      ⟨nonzero, takes, run⟩
  · rw [same, learned, if_neg fun learns => learns.1 zero]
  · have present : lookup Host.node call.addr store.knownHosts ≠ none :=
      fun missing => lookup_eq_none_iff.mp missing
        (List.mem_map.mpr ⟨host, member, isAddr⟩)
    rw [same, learned, if_neg]
    rintro ⟨_, overrides | missing⟩
    · rw [keeps] at overrides
      cases overrides
    · exact present missing
  · have inserted : lookup Host.node call.addr
        (call.host ::
          store.knownHosts.filter fun host => host.node ≠ call.addr) =
          some call.host :=
      lookup_cons_of_eq rfl
    rw [run, inserted, learned, if_pos]
    · rfl
    · refine ⟨nonzero, takes.imp_right fun absent => ?_⟩
      refine lookup_eq_none_iff.mpr fun member => ?_
      obtain ⟨host, inTable, isAddr⟩ := List.mem_map.mp member
      exact absent host inTable isAddr

theorem lookup_run_other
    (other : call.addr ≠ node) :
    lookup Host.node node (call.run store).knownHosts =
      lookup Host.node node store.knownHosts := by
  rcases knownHosts_run_cases call store with
    ⟨_, same⟩ | ⟨_, _, _, same⟩ | ⟨_, _, run⟩
  · rw [same]
  · rw [same]
  · have behind : lookup Host.node node
        (call.host ::
          store.knownHosts.filter fun host => host.node ≠ call.addr) =
          lookup Host.node node
            (store.knownHosts.filter fun host => host.node ≠ call.addr) :=
      lookup_cons_of_ne other
    rw [run, behind]
    cases found : lookup Host.node node store.knownHosts with
    | none =>
        rw [lookup_eq_none_iff] at found ⊢
        exact fun member =>
          found ((List.filter_sublist.map Host.node).subset member)
    | some host =>
        refine lookup_filter_of_keeps found ?_
        rw [key_of_lookup found]
        simpa using other.symm

/-- The calls of a scan change the entry of each node for itself. -/
theorem lookup_runCalls
    {override : Bool}
    (flags : ∀ call ∈ calls, call.overrideExisting = override)
    (distinct : (calls.map AddCall.addr).Nodup) :
    lookup Host.node node (runCalls calls store).knownHosts =
      learned override node ((calls.find? (·.addr = node)).map AddCall.name)
        (lookup Host.node node store.knownHosts) := by
  induction calls generalizing store with
  | nil =>
      rfl
  | cons call rest inductionHypothesis =>
      obtain ⟨flag, restFlags⟩ := List.forall_mem_cons.mp flags
      obtain ⟨fresh, restDistinct⟩ := List.nodup_cons.mp distinct
      change
        lookup Host.node node (runCalls rest (call.run store)).knownHosts = _
      rw [inductionHypothesis restFlags restDistinct]
      by_cases same : call.addr = node
      · subst same
        have missing : rest.find? (·.addr = call.addr) = none := by
          refine List.find?_eq_none.mpr fun other member => ?_
          simp only [decide_eq_true_eq]
          exact fun sameAddr =>
            fresh (List.mem_map.mpr ⟨other, member, sameAddr⟩)
        rw [missing, List.find?_cons_of_pos (by simp), lookup_run_same, flag]
        rfl
      · rw [List.find?_cons_of_neg (by simpa using same),
          lookup_run_other same]

end Table

section Command

variable {options : ScanOptions}
variable {args : List CString}
variable {store : HostStore}
variable {fuel : Nat}
variable {trace : List (Step ScanAnswer)}
variable {outcome : Option (SlashResult × HostStore)}

/--
A scan whose range ends below `UINT_MAX` pings the nodes of the range in order,
all of them unless the user stops it.  Afterwards a node that has answered with
a name that is searched for has an entry with it, unless it had one already
that is not to be overridden; every other entry is as before.
-/
theorem cspScan_table
    (ends : options.endNode ≠ 0xFFFFFFFF)
    (enough :
      options.endNode.toNat + 1 - options.beginNode.toNat < fuel)
    (run : Runs (cspScan fuel (some (options, args)) store) trace outcome) :
    ∃ result,
      outcome = some (.success, result) ∧
        (pinged trace).map UInt32.toNat =
            List.range' options.beginNode.toNat (pinged trace).length ∧
          (pinged trace).length ≤
              options.endNode.toNat + 1 - options.beginNode.toNat ∧
            ((∀ step ∈ trace, ¬ Interrupts step) →
              (pinged trace).length =
                options.endNode.toNat + 1 - options.beginNode.toNat) ∧
              ∀ node,
                lookup Host.node node result.knownHosts =
                  learned options.override node (heard options trace node)
                    (lookup Host.node node store.knownHosts) := by
  obtain ⟨first, scan, later, rfl, scanRun, rest⟩ := runs_bind_iff.mp run
  obtain ⟨rfl, rfl⟩ := runs_pure_iff.mp rest
  obtain ⟨result, rfl, scanned⟩ := scanned_of_runs ends enough scanRun
  rw [List.append_nil]
  refine
    ⟨result, rfl, scanned.pings, scanned.few, scanned.all, fun node => ?_⟩
  rw [scanned.stores]
  exact
    lookup_runCalls (fun _ => override_of_mem_scanCalls) scanned.nodup_addrs

/-- Every node answers with the same name. -/
def sameName : Nat → (request : ScanCall) → ScanAnswer request
  | _, .ping .. => (3 : Int)
  | _, .cmpIdent .. => some "obc".toList
  | _, .waitInterruptible .. => (0 : Int)

/-- A scan of two nodes, with nothing in the table before. -/
theorem cspScan_table_two :
    ∃ result,
      ((cspScan 3 (some (⟨5, 6, none, false⟩, [])) .empty).exec
          sameName 0).2 = some (.success, result) ∧
        ∀ node,
          lookup Host.node node result.knownHosts =
            learned false node
              (heard ⟨5, 6, none, false⟩
                ((cspScan 3 (some (⟨5, 6, none, false⟩, [])) .empty).exec
                  sameName 0).1 node)
              none := by
  obtain ⟨result, isResult, _, _, _, table⟩ :=
    cspScan_table (by decide) (by decide)
      (runs_exec sameName 0
        (cspScan 3 (some (⟨5, 6, none, false⟩, [])) .empty))
  exact ⟨result, isResult, table⟩

/-- Nothing but an interrupt ends a scan up to `UINT_MAX`. -/
theorem scanLoop_of_max
    {i : UInt32}
    {result : Option HostStore}
    (max : options.endNode = 0xFFFFFFFF)
    (run : Runs (scanLoop options fuel i store) trace result)
    (quiet : ∀ step ∈ trace, ¬ Interrupts step) :
    result = none := by
  induction fuel generalizing i store trace with
  | zero =>
      exact (runs_pure_iff.mp run).2
  | succ fuel inductionHypothesis =>
      have inside : i ≤ options.endNode := by
        rw [max, UInt32.le_iff_toNat_le]
        exact Nat.le_pred_of_lt i.toNat_lt
      rw [scanLoop, if_pos inside] at run
      obtain ⟨first, middle, behind, rfl, _, rest⟩ := runs_bind_iff.mp run
      obtain ⟨exit, later, rfl, ending⟩ := runs_ask_bind_iff.mp rest
      have goesOn : ¬ (exit : Int) ≠ 0 :=
        quiet ⟨.waitInterruptible 0, exit⟩ (by simp)
      rw [if_neg goesOn] at ending
      exact inductionHypothesis ending fun step member =>
        quiet step (by simp [member])

/--
The scan comes to its end whatever is answered, exactly when the last node is
not `UINT_MAX`.
-/
theorem cspScan_ends_iff :
    (∃ fuel,
        ∀ trace outcome,
          Runs (cspScan fuel (some (options, args)) store) trace outcome →
            outcome ≠ none) ↔
      options.endNode ≠ 0xFFFFFFFF := by
  constructor
  · rintro ⟨fuel, ends⟩ max
    have answers : ∀ request : ScanCall,
        ∃ answer : ScanAnswer request, ¬ Interrupts ⟨request, answer⟩ := by
      intro request
      cases request with
      | ping node timeout size =>
          exact ⟨(0 : Int), id⟩
      | cmpIdent node timeout =>
          exact ⟨none, id⟩
      | waitInterruptible timeout =>
          exact ⟨(0 : Int), fun stops => stops rfl⟩
    obtain ⟨trace, outcome, run, quiet⟩ :=
      @exists_runs_of_answers ScanCall ScanAnswer
        (Option (SlashResult × HostStore)) (fun step => ¬ Interrupts step)
        answers (cspScan fuel (some (options, args)) store)
    obtain ⟨first, scan, later, rfl, scanRun, rest⟩ := runs_bind_iff.mp run
    obtain ⟨rfl, rfl⟩ := runs_pure_iff.mp rest
    have endless := scanLoop_of_max max scanRun fun step member =>
      quiet step (List.mem_append_left _ member)
    exact ends _ _ run (by rw [endless]; rfl)
  · intro ends
    refine
      ⟨options.endNode.toNat + 1 - options.beginNode.toNat + 1,
        fun trace outcome run => ?_⟩
    obtain ⟨first, scan, later, rfl, scanRun, rest⟩ := runs_bind_iff.mp run
    obtain ⟨rfl, rfl⟩ := runs_pure_iff.mp rest
    obtain ⟨result, rfl, _⟩ :=
      scanned_of_runs ends (Nat.lt_succ_self _) scanRun
    simp

end Command

end Csh.CspScan
