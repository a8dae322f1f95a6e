import Csh.HostFile
import Csh.Lib.Interaction
import Mathlib.Algebra.Order.Ring.Int

namespace Csh.PullNodes

open Libc Interaction KnownHosts

/-!
# The nodes of a pull

`cmd_pull` takes its list of nodes apart in two passes.  The first overwrites
the commas and counts the items for an array, the second walks from NUL to NUL
and stores the nodes that it finds.  Both count in 8 bits, and behind an empty
item the second one misses the next NUL.
-/

/-- The options of `pull`. -/
structure PullOptions where
  timeout : Nat
  server : Nat
  includeMaskStr : Option CString
  excludeMaskStr : Option CString
  nodesStr : Option CString
  paramver : Int
  prio : Int
  deriving Repr, DecidableEq

/-- What `cmd_pull` takes from libparam for its masks. -/
structure MaskLibrary where
  paramMaskstrToMask : CString → Nat
  pmRemote : Nat
  pmHwreg : Nat

/-- A call of `param_pull_all`. -/
structure PullRequest where
  prio : Int
  verbose : Int
  node : Int32
  includeMask : Nat
  excludeMask : Nat
  timeout : Nat
  paramver : Int
  deriving DecidableEq

/-- `param_pull_all` answers with a code, zero on success. -/
abbrev PullAnswer : PullRequest → Type :=
  fun _ => Int

/-- The first pass: the text with its commas overwritten, and `num_nodes`. -/
def cutItems : CString → Nat → List Char × Nat
  | [], numNodes => ([], numNodes)
  | c :: rest, numNodes =>
      if c = ',' then
        let later := cutItems rest ((numNodes + 1) % 2 ^ 8)
        (nul :: later.1, later.2)
      else
        let later := cutItems rest numNodes
        (c :: later.1, later.2)

/-- The array `nodes`, `idx`, and the indices stored to so far. -/
structure NodeArray where
  nodes : List Int32
  idx : Nat
  stores : List Nat
  deriving DecidableEq

/-- `nodes[idx++] = node_id`. -/
def NodeArray.store (array : NodeArray) (node : Int32) : NodeArray where
  nodes := array.nodes.set array.idx node
  idx := (array.idx + 1) % 2 ^ 8
  stores := array.stores ++ [array.idx]

/-- No store was outside of the array. -/
def NodeArray.StoredInside (array : NodeArray) : Prop :=
  ∀ index ∈ array.stores, index < array.nodes.length

instance (array : NodeArray) : Decidable array.StoredInside :=
  List.decidableBAll _ _

/--
The second pass, from `cur_node` to `end`.  It steps over one character before
it looks for the NUL behind the item.
-/
def storeNodes
    (knownHosts : List Host) :
    List Char → NodeArray → NodeArray
  | [], array => array
  | c :: rest, array =>
      let item := (c :: rest).takeWhile (· ≠ nul)
      let array :=
        match getHostByAddrOrName item knownHosts with
        | some node => array.store node
        | none => array
      storeNodes knownHosts (rest.dropWhile (· ≠ nul)).tail array
termination_by buffer => buffer.length
decreasing_by
  have shorter := List.length_dropWhile_le (· ≠ nul) rest
  simp only [List.length_tail, List.length_cons]
  omega

/-- The array that `calloc` gives, and what the second pass leaves in it. -/
def nodeArray
    (knownHosts : List Host)
    (nodesStr : CString) :
    NodeArray :=
  let cut := cutItems nodesStr 0
  let numNodes := (cut.2 + 1) % 2 ^ 8
  storeNodes knownHosts cut.1 ⟨List.replicate numNodes 0, 0, []⟩

/-- Pull from the nodes in order; one without a response is an error. -/
def pullNodes
    (request : Int32 → PullRequest) :
    List Int32 → SlashResult → Prog PullAnswer SlashResult
  | [], result => pure result
  | node :: rest, result => do
      let answer ← Prog.ask (request node)
      pullNodes request rest (if (answer : Int) ≠ 0 then .eio else result)

/--
`cmd_pull`; allocation succeeds.  `none` stands for a store outside of the
array, behind which nothing is known.
-/
def cmdPull
    (lib : MaskLibrary)
    (knownHosts : List Host)
    (parsed : Parsed PullOptions) :
    Option (Prog PullAnswer SlashResult) :=
  match parsed with
  | none => some (pure .einval)
  | some (options, _) =>
      let includeMask :=
        match options.includeMaskStr with
        | some text => lib.paramMaskstrToMask text
        | none => 0xFFFFFFFF
      let excludeMask :=
        match options.excludeMaskStr with
        | some text => lib.paramMaskstrToMask text
        | none => lib.pmRemote ||| lib.pmHwreg
      let request := fun node =>
        ⟨options.prio, 1, node, includeMask, excludeMask, options.timeout,
          options.paramver⟩
      match options.nodesStr with
      | none =>
          some (pullNodes request [Int32.ofNat options.server] .success)
      | some nodesStr =>
          let array := nodeArray knownHosts nodesStr
          if array.StoredInside then
            some (pullNodes request (array.nodes.take array.idx) .success)
          else
            none

section Walk

variable {knownHosts : List Host}
variable {array : NodeArray}

/-- The first pass leaves the items with a NUL behind each. -/
theorem cutItems_text
    (text : CString)
    (numNodes : Nat) :
    (cutItems text numNodes).1 = [nul].intercalate (text.splitOn ',') := by
  induction text generalizing numNodes with
  | nil =>
      rfl
  | cons c rest inductionHypothesis =>
      obtain ⟨first, later, pieces⟩ :=
        List.exists_cons_of_ne_nil (List.splitOn_ne_nil ',' rest)
      rw [List.splitOn_cons_eq_if_modifyHead, cutItems]
      by_cases comma : c = ','
      · simp [comma, inductionHypothesis, pieces,
          List.intercalate_cons_cons]
      · cases later with
        | nil =>
            simp [comma, inductionHypothesis, pieces]
        | cons second later =>
            simp [comma, inductionHypothesis, pieces,
              List.intercalate_cons_cons]

/-- It counts the commas in 8 bits. -/
theorem cutItems_count
    (text : CString)
    (numNodes : Nat) :
    (cutItems text numNodes).2 % 2 ^ 8 =
      (numNodes + text.count ',') % 2 ^ 8 := by
  induction text generalizing numNodes with
  | nil =>
      rfl
  | cons c rest inductionHypothesis =>
      rw [cutItems]
      by_cases comma : c = ','
      · simp only [comma, ↓reduceIte, List.count_cons_self]
        rw [inductionHypothesis]
        omega
      · rw [if_neg comma, List.count_cons_of_ne comma]
        exact inductionHypothesis numNodes

/-- The items that the second pass looks up. -/
def lookedUp : List CString → List CString
  | [] => []
  | [last] => if last = [] then [] else [last]
  | item :: next :: later =>
      if item = [] then
        item :: lookedUp later
      else
        item :: lookedUp (next :: later)

/-- A search for a NUL leaves what stands behind the item. -/
theorem tail_dropWhile_intercalate
    {item : CString}
    (noNul : nul ∉ item)
    (later : List CString) :
    (([nul].intercalate (item :: later)).dropWhile (· ≠ nul)).tail =
      [nul].intercalate later := by
  have dropped : item.dropWhile (· ≠ nul) = [] :=
    List.dropWhile_eq_nil_iff.mpr fun c member => by
      simpa using ne_of_mem_of_not_mem member noNul
  cases later with
  | nil =>
      rw [List.intercalate_singleton, dropped]
      rfl
  | cons next later =>
      rw [List.intercalate_cons_cons, List.append_assoc,
        List.dropWhile_append, dropped]
      simp

theorem takeWhile_intercalate
    {item : CString}
    (noNul : nul ∉ item)
    (later : List CString) :
    ([nul].intercalate (item :: later)).takeWhile (· ≠ nul) = item := by
  have all : ∀ c ∈ item, decide (c ≠ nul) = true :=
    fun c member => by simpa using ne_of_mem_of_not_mem member noNul
  cases later with
  | nil =>
      rw [List.intercalate_singleton, List.takeWhile_eq_self_iff.mpr all]
  | cons next later =>
      rw [List.intercalate_cons_cons, List.append_assoc,
        List.takeWhile_append_of_pos all]
      simp

/-- What the second pass does with the text of an item. -/
def storeFound
    (knownHosts : List Host)
    (item : CString)
    (array : NodeArray) :
    NodeArray :=
  match getHostByAddrOrName item knownHosts with
  | some node => array.store node
  | none => array

/-- Behind an item that is not empty the pass comes to the next one. -/
theorem storeNodes_cons
    {c : Char}
    {rest : CString}
    {later : List CString}
    (noNul : nul ∉ c :: rest) :
    storeNodes knownHosts ([nul].intercalate ((c :: rest) :: later)) array =
      storeNodes knownHosts ([nul].intercalate later)
        (storeFound knownHosts (c :: rest) array) := by
  have first := takeWhile_intercalate noNul later
  have behind :=
    @tail_dropWhile_intercalate rest
      (fun member => noNul (List.mem_cons_of_mem c member)) later
  have shape :
      [nul].intercalate ((c :: rest) :: later) =
        c :: [nul].intercalate (rest :: later) := by
    cases later with
    | nil =>
        simp
    | cons next later =>
        simp [List.intercalate_cons_cons]
  rw [shape] at first ⊢
  rw [storeNodes, first, behind]
  rfl

/-- Behind an empty item it comes to the item behind the next one. -/
theorem storeNodes_empty
    {next : CString}
    {later : List CString}
    (noNul : nul ∉ next) :
    storeNodes knownHosts ([nul].intercalate ([] :: next :: later)) array =
      storeNodes knownHosts ([nul].intercalate later)
        (storeFound knownHosts [] array) := by
  have behind := tail_dropWhile_intercalate noNul later
  rw [List.intercalate_cons_cons, List.nil_append, List.singleton_append,
    storeNodes, behind]
  rfl

theorem foldl_store_cons
    (item : CString)
    (items : List CString) :
    ((item :: items).filterMap
        (getHostByAddrOrName · knownHosts)).foldl NodeArray.store array =
      (items.filterMap
        (getHostByAddrOrName · knownHosts)).foldl NodeArray.store
        (storeFound knownHosts item array) := by
  rw [List.filterMap_cons, storeFound]
  cases getHostByAddrOrName item knownHosts with
  | none =>
      rfl
  | some node =>
      rfl

/-- The second pass stores the nodes of the items that it looks up. -/
theorem storeNodes_intercalate
    {items : List CString}
    (noNul : ∀ item ∈ items, nul ∉ item) :
    storeNodes knownHosts ([nul].intercalate items) array =
      ((lookedUp items).filterMap
        (getHostByAddrOrName · knownHosts)).foldl NodeArray.store array := by
  fun_induction lookedUp items generalizing array with
  | case1 =>
      rw [List.intercalate_nil, storeNodes]
      rfl
  | case2 =>
      rw [List.intercalate_singleton, storeNodes]
      rfl
  | case3 last nonempty =>
      obtain ⟨c, rest, rfl⟩ := List.exists_cons_of_ne_nil nonempty
      rw [storeNodes_cons (noNul _ List.mem_cons_self), foldl_store_cons,
        List.intercalate_nil, storeNodes]
      rfl
  | case4 next later inductionHypothesis =>
      simp only [List.forall_mem_cons] at noNul
      rw [storeNodes_empty noNul.2.1, foldl_store_cons,
        inductionHypothesis noNul.2.2]
  | case5 item next later nonempty inductionHypothesis =>
      obtain ⟨c, rest, rfl⟩ := List.exists_cons_of_ne_nil nonempty
      rw [List.forall_mem_cons] at noNul
      rw [storeNodes_cons noNul.1, foldl_store_cons,
        inductionHypothesis noNul.2]

/-- An array for `numNodes` nodes, with these nodes stored one by one. -/
structure Holds
    (numNodes : Nat)
    (found : List Int32)
    (array : NodeArray) :
    Prop where
  length : array.nodes.length = numNodes
  idx : array.idx = found.length % 2 ^ 8
  stores : array.stores = (List.range found.length).map (· % 2 ^ 8)
  nodes :
    found.length ≤ numNodes → array.nodes.take found.length = found

variable {numNodes : Nat}
variable {found : List Int32}

theorem holds_initial
    (numNodes : Nat) :
    Holds numNodes [] ⟨List.replicate numNodes 0, 0, []⟩ where
  length := List.length_replicate
  idx := rfl
  stores := rfl
  nodes _ := rfl

/-- One more store. -/
theorem Holds.store
    (holds : Holds numNodes found array)
    (counted : numNodes < 2 ^ 8)
    (node : Int32) :
    Holds numNodes (found ++ [node]) (array.store node) where
  length := by
    rw [NodeArray.store, List.length_set, holds.length]
  idx := by
    simp only [NodeArray.store, holds.idx, List.length_append,
      List.length_singleton]
    omega
  stores := by
    simp only [NodeArray.store, holds.stores, holds.idx, List.length_append,
      List.length_singleton, List.range_succ, List.map_append, List.map_cons,
      List.map_nil]
  nodes room := by
    rw [List.length_append, List.length_singleton] at room ⊢
    have unwrapped : array.idx = found.length := by
      rw [holds.idx]
      omega
    have inside : found.length < array.nodes.length := by
      rw [holds.length]
      omega
    have before := holds.nodes (by omega)
    rw [NodeArray.store, unwrapped, List.set_eq_take_append_cons_drop,
      if_pos inside, before, ← List.singleton_append, ← List.append_assoc]
    exact List.take_left' (by simp)

/-- All stores. -/
theorem Holds.foldl
    (holds : Holds numNodes found array)
    (counted : numNodes < 2 ^ 8)
    (nodes : List Int32) :
    Holds numNodes (found ++ nodes) (nodes.foldl NodeArray.store array) := by
  induction nodes generalizing found array with
  | nil =>
      rw [List.append_nil]
      exact holds
  | cons node later inductionHypothesis =>
      have stored := inductionHypothesis (holds.store counted node)
      rwa [List.append_assoc, List.singleton_append] at stored

/-- All stores are inside if and only if there are not more than cells. -/
theorem Holds.storedInside_iff
    (holds : Holds numNodes found array)
    (counted : numNodes < 2 ^ 8) :
    array.StoredInside ↔ found.length ≤ numNodes := by
  unfold NodeArray.StoredInside
  rw [holds.stores, holds.length]
  constructor
  · intro inside
    by_contra more
    have member : numNodes % 2 ^ 8 ∈
        (List.range found.length).map (· % 2 ^ 8) :=
      List.mem_map.mpr ⟨numNodes, List.mem_range.mpr (by omega), rfl⟩
    have belowItself := inside _ member
    omega
  · intro room index member
    obtain ⟨stored, inRange, rfl⟩ := List.mem_map.mp member
    have inList := List.mem_range.mp inRange
    omega

/-- The nodes of the items that are looked up, if they are known. -/
def foundNodes
    (knownHosts : List Host)
    (nodesStr : CString) :
    List Int32 :=
  (lookedUp (nodesStr.splitOn ',')).filterMap
    (getHostByAddrOrName · knownHosts)

/-- The second pass stores the nodes that it finds in the array. -/
theorem holds_nodeArray
    {nodesStr : CString}
    (noNul : nul ∉ nodesStr) :
    Holds ((nodesStr.splitOn ',').length % 2 ^ 8)
      (foundNodes knownHosts nodesStr) (nodeArray knownHosts nodesStr) := by
  have noNulInside : ∀ item ∈ nodesStr.splitOn ',', nul ∉ item :=
    fun item member inside => noNul (mem_of_mem_splitOn member inside).1
  have counted :
      ((cutItems nodesStr 0).2 + 1) % 2 ^ 8 =
        (nodesStr.splitOn ',').length % 2 ^ 8 := by
    have commas := cutItems_count nodesStr 0
    rw [length_splitOn]
    omega
  have filled :=
    (holds_initial ((nodesStr.splitOn ',').length % 2 ^ 8)).foldl
      (Nat.mod_lt _ (by decide)) (foundNodes knownHosts nodesStr)
  rw [List.nil_append, foundNodes, ← storeNodes_intercalate noNulInside]
    at filled
  rw [nodeArray, cutItems_text, counted]
  exact filled

end Walk

section Items

variable {resolve : CString → Option Int32}
variable {items : List CString}

/-- The nodes of the items that are not empty, if they are known. -/
def resolvedNodes
    (resolve : CString → Option Int32)
    (items : List CString) :
    List Int32 :=
  (items.filter (· ≠ [])).filterMap resolve

/-- An empty item stands in front of an item that is known as node 0. -/
def EmptyBeforeZero
    (resolve : CString → Option Int32)
    (item next : CString) :
    Prop :=
  item = [] → next ≠ [] ∧ resolve next = some 0

theorem filterMap_cons_toList
    (item : CString)
    (items : List CString) :
    (item :: items).filterMap resolve =
      (resolve item).toList ++ items.filterMap resolve := by
  rw [List.filterMap_cons]
  cases resolve item with
  | none =>
      rfl
  | some node =>
      rfl

theorem resolvedNodes_cons
    {item : CString}
    (nonempty : item ≠ [])
    (items : List CString) :
    resolvedNodes resolve (item :: items) =
      (resolve item).toList ++ resolvedNodes resolve items := by
  rw [resolvedNodes, List.filter_cons_of_pos (by simpa using nonempty),
    filterMap_cons_toList]
  rfl

theorem resolvedNodes_empty
    (items : List CString) :
    resolvedNodes resolve ([] :: items) = resolvedNodes resolve items :=
  rfl

/-- An item that is missed makes room for the node of the empty one. -/
theorem length_resolvedNodes_le
    (zero : resolve [] = some 0)
    (items : List CString) :
    (resolvedNodes resolve items).length ≤
      ((lookedUp items).filterMap resolve).length := by
  fun_induction lookedUp items with
  | case1 =>
      exact le_refl _
  | case2 =>
      exact le_refl _
  | case3 last nonempty =>
      rw [resolvedNodes_cons nonempty, filterMap_cons_toList]
      exact le_refl _
  | case4 next later inductionHypothesis =>
      rw [filterMap_cons_toList, zero, resolvedNodes_empty]
      by_cases nonempty : next = []
      · rw [nonempty, resolvedNodes_empty]
        simp only [List.length_append, Option.toList_some,
          List.length_singleton]
        omega
      · rw [resolvedNodes_cons nonempty]
        have atMostOne : (resolve next).toList.length ≤ 1 := by
          cases resolve next with
          | none =>
              exact Nat.zero_le 1
          | some node =>
              exact le_refl 1
        simp only [List.length_append, Option.toList_some,
          List.length_singleton]
        omega
  | case5 item next later nonempty inductionHypothesis =>
      rw [resolvedNodes_cons nonempty, filterMap_cons_toList,
        List.length_append, List.length_append]
      omega

/-- An item that is not empty may stand in front of any items. -/
theorem isChain_cons_iff
    {item : CString}
    (nonempty : item ≠ [])
    (items : List CString) :
    (item :: items).IsChain (EmptyBeforeZero resolve) ↔
      items.IsChain (EmptyBeforeZero resolve) := by
  cases items with
  | nil =>
      simp
  | cons next later =>
      rw [List.isChain_cons_cons]
      exact and_iff_right fun empty => absurd empty nonempty

/-- An item that is missed leaves one node too many if none takes its place. -/
theorem zero_cons_lookedUp_ne
    (zero : resolve [] = some 0)
    (items : List CString) :
    0 :: (lookedUp items).filterMap resolve ≠ resolvedNodes resolve items := by
  intro same
  have shorter := length_resolvedNodes_le zero items
  rw [← same, List.length_cons] at shorter
  omega

/--
The items looked up give the nodes of the items that are not empty if and only
if every empty item but the last stands in front of one known as node 0.
-/
theorem filterMap_lookedUp_eq_iff
    (zero : resolve [] = some 0)
    (items : List CString) :
    (lookedUp items).filterMap resolve = resolvedNodes resolve items ↔
      items.IsChain (EmptyBeforeZero resolve) := by
  fun_induction lookedUp items with
  | case1 =>
      simp [resolvedNodes]
  | case2 =>
      simp [resolvedNodes]
  | case3 last nonempty =>
      simp [resolvedNodes, nonempty]
  | case4 next later inductionHypothesis =>
      have notMissed := zero_cons_lookedUp_ne zero later
      rw [filterMap_cons_toList, zero, resolvedNodes_empty,
        List.isChain_cons_cons]
      by_cases nonempty : next = []
      · rw [nonempty, resolvedNodes_empty]
        exact iff_of_false notMissed fun chain => (chain.1 rfl).1 rfl
      · rw [resolvedNodes_cons nonempty, isChain_cons_iff nonempty,
          ← inductionHypothesis]
        cases known : resolve next with
        | none =>
            refine iff_of_false notMissed fun chain => ?_
            simpa [known] using (chain.1 rfl).2
        | some node =>
            simp only [Option.toList_some, List.singleton_append,
              List.cons.injEq, EmptyBeforeZero, forall_const, known,
              Option.some.injEq, ne_eq, nonempty, not_false_eq_true,
              true_and, @eq_comm _ node]
  | case5 item next later nonempty inductionHypothesis =>
      rw [resolvedNodes_cons nonempty, filterMap_cons_toList,
        List.append_cancel_left_eq, inductionHypothesis,
        isChain_cons_iff nonempty]

end Items

section Command

variable {lib : MaskLibrary}
variable {knownHosts : List Host}
variable {options : PullOptions}
variable {args : List CString}
variable {nodesStr : CString}

/-- The nodes that were pulled from, in order. -/
def pulledNodes (trace : List (Step PullAnswer)) : List Int32 :=
  trace.map fun step => step.request.node

/-- The command is without a store outside and pulls from exactly these. -/
def PullsExactly
    (lib : MaskLibrary)
    (knownHosts : List Host)
    (parsed : Parsed PullOptions)
    (nodes : List Int32) :
    Prop :=
  ∃ program,
    cmdPull lib knownHosts parsed = some program ∧
      ∀ trace result,
        Runs program trace result → pulledNodes trace = nodes

/--
Every store lies inside the array, and as many nodes are pulled from as there
were stores.
-/
structure StoresCounted
    (lib : MaskLibrary)
    (knownHosts : List Host)
    (parsed : Parsed PullOptions)
    (nodesStr : CString) :
    Prop where
  inside : (nodeArray knownHosts nodesStr).StoredInside
  counted :
    ∀ program,
      cmdPull lib knownHosts parsed = some program →
        ∀ trace result,
          Runs program trace result →
            (pulledNodes trace).length =
              (nodeArray knownHosts nodesStr).stores.length

theorem pulledNodes_of_runs
    {request : Int32 → PullRequest}
    (forNode : ∀ node, (request node).node = node)
    {nodes : List Int32}
    {before result : SlashResult}
    {trace : List (Step PullAnswer)}
    (run : Runs (pullNodes request nodes before) trace result) :
    pulledNodes trace = nodes := by
  induction nodes generalizing before trace with
  | nil =>
      obtain ⟨rfl, _⟩ := runs_pure_iff.mp run
      rfl
  | cons node later inductionHypothesis =>
      obtain ⟨answer, behind, rfl, rest⟩ := runs_ask_bind_iff.mp run
      rw [pulledNodes, List.map_cons, forNode]
      exact congrArg (node :: ·) (inductionHypothesis rest)

/-- With a list of nodes the command pulls from what the array holds. -/
theorem cmdPull_of_nodesStr
    (isList : options.nodesStr = some nodesStr) :
    ∃ request : Int32 → PullRequest,
      (∀ node, (request node).node = node) ∧
        cmdPull lib knownHosts (some (options, args)) =
          if (nodeArray knownHosts nodesStr).StoredInside then
            some
              (pullNodes request
                ((nodeArray knownHosts nodesStr).nodes.take
                  (nodeArray knownHosts nodesStr).idx)
                .success)
          else
            none := by
  simp only [cmdPull, isList]
  exact ⟨_, fun _ => rfl, rfl⟩

/-- The stores lie inside if the nodes found are not more than cells. -/
theorem cmdPull_storesInside_iff
    (noNul : nul ∉ nodesStr) :
    (nodeArray knownHosts nodesStr).StoredInside ↔
      (foundNodes knownHosts nodesStr).length ≤
        (nodesStr.splitOn ',').length % 2 ^ 8 :=
  (holds_nodeArray noNul).storedInside_iff (Nat.mod_lt _ (by decide))

/-- The nodes found are pulled from if there are not more than cells. -/
theorem pullsExactly_iff
    {nodes : List Int32}
    (isList : options.nodesStr = some nodesStr)
    (noNul : nul ∉ nodesStr) :
    PullsExactly lib knownHosts (some (options, args)) nodes ↔
      (foundNodes knownHosts nodesStr).length ≤
          (nodesStr.splitOn ',').length % 2 ^ 8 ∧
        foundNodes knownHosts nodesStr = nodes := by
  have counted : (nodesStr.splitOn ',').length % 2 ^ 8 < 2 ^ 8 :=
    Nat.mod_lt _ (by decide)
  have holds := @holds_nodeArray knownHosts nodesStr noNul
  obtain ⟨request, forNode, command⟩ :=
    @cmdPull_of_nodesStr lib knownHosts options args nodesStr isList
  unfold PullsExactly
  rw [command]
  by_cases room :
      (foundNodes knownHosts nodesStr).length ≤
        (nodesStr.splitOn ',').length % 2 ^ 8
  · have all : (nodeArray knownHosts nodesStr).nodes.take
        (nodeArray knownHosts nodesStr).idx =
          foundNodes knownHosts nodesStr := by
      rw [holds.idx, Nat.mod_eq_of_lt (by omega)]
      exact holds.nodes room
    rw [if_pos ((cmdPull_storesInside_iff noNul).mpr room), all]
    simp only [Option.some.injEq, exists_eq_left', room, true_and]
    constructor
    · intro pulls
      obtain ⟨trace, result, run⟩ :=
        @exists_runs _ PullAnswer _ (fun _ => ⟨(0 : Int)⟩)
          (pullNodes request (foundNodes knownHosts nodesStr) .success)
      rw [← pulledNodes_of_runs forNode run, pulls trace result run]
    · rintro rfl trace result run
      exact pulledNodes_of_runs forNode run
  · rw [if_neg fun inside =>
      room ((cmdPull_storesInside_iff noNul).mp inside)]
    refine iff_of_false ?_ fun both => room both.1
    rintro ⟨program, nothing, _⟩
    cases nothing

/--
The nodes pulled are those of the items that are not empty if and only if
every empty item but the last stands in front of one known as node 0, and no
more of them are known than the count of the items in 8 bits.
-/
theorem cmdPull_pullsResolved_iff
    (isList : options.nodesStr = some nodesStr)
    (noNul : nul ∉ nodesStr) :
    PullsExactly lib knownHosts (some (options, args))
        (resolvedNodes (getHostByAddrOrName · knownHosts)
          (nodesStr.splitOn ',')) ↔
      (nodesStr.splitOn ',').IsChain
          (EmptyBeforeZero (getHostByAddrOrName · knownHosts)) ∧
        (resolvedNodes (getHostByAddrOrName · knownHosts)
            (nodesStr.splitOn ',')).length ≤
          (nodesStr.splitOn ',').length % 2 ^ 8 := by
  have sameNodes :=
    @filterMap_lookedUp_eq_iff (getHostByAddrOrName · knownHosts) rfl
      (nodesStr.splitOn ',')
  rw [pullsExactly_iff isList noNul, foundNodes, sameNodes, and_comm]
  refine and_congr_right fun chain => ?_
  rw [sameNodes.mpr chain]

/--
The stores are inside and counted if and only if no more of the items looked
up are known than the count of all items in 8 bits.
-/
theorem cmdPull_storesCounted_iff
    (isList : options.nodesStr = some nodesStr)
    (noNul : nul ∉ nodesStr) :
    StoresCounted lib knownHosts (some (options, args)) nodesStr ↔
      (foundNodes knownHosts nodesStr).length ≤
        (nodesStr.splitOn ',').length % 2 ^ 8 := by
  have holds := @holds_nodeArray knownHosts nodesStr noNul
  rw [← cmdPull_storesInside_iff noNul]
  refine ⟨StoresCounted.inside, fun inside => ⟨inside, ?_⟩⟩
  intro program isProgram trace result run
  have room := (cmdPull_storesInside_iff noNul).mp inside
  obtain ⟨other, sameProgram, pulls⟩ :=
    (@pullsExactly_iff lib knownHosts options args nodesStr _ isList
      noNul).mpr ⟨room, rfl⟩
  obtain rfl := Option.some.inj (isProgram.symm.trans sameProgram)
  rw [pulls trace result run, holds.stores, List.length_map,
    List.length_range]

theorem length_lookedUp_le
    (items : List CString) :
    (lookedUp items).length ≤ items.length := by
  fun_induction lookedUp items with
  | case1 =>
      exact le_refl _
  | case2 =>
      exact Nat.zero_le _
  | case3 =>
      exact le_refl _
  | case4 next later inductionHypothesis =>
      simp only [List.length_cons]
      omega
  | case5 item next later nonempty inductionHypothesis =>
      simp only [List.length_cons] at inductionHypothesis ⊢
      omega

/-- Up to 255 items are counted in 8 bits. -/
theorem length_foundNodes_le_of_few
    (few : (nodesStr.splitOn ',').length < 2 ^ 8) :
    (foundNodes knownHosts nodesStr).length ≤
      (nodesStr.splitOn ',').length % 2 ^ 8 := by
  rw [Nat.mod_eq_of_lt few]
  exact (List.length_filterMap_le _ _).trans (length_lookedUp_le _)

end Command

/-- The options of `pull` with a list of nodes. -/
def listOptions (nodesStr : CString) : PullOptions where
  timeout := 1000
  server := 0
  includeMaskStr := none
  excludeMaskStr := none
  nodesStr := some nodesStr
  paramver := 2
  prio := 2

/-- A libparam without masks. -/
def noMasks : MaskLibrary where
  paramMaskstrToMask _ := 0
  pmRemote := 0
  pmHwreg := 0

/-- `pull -n 1,2` pulls from both nodes. -/
theorem cmdPull_pulls_two :
    PullsExactly noMasks [] (some (listOptions "1,2".toList, []))
      (resolvedNodes (getHostByAddrOrName · [])
        ("1,2".toList.splitOn ',')) := by
  have items : "1,2".toList.splitOn ',' = [['1'], ['2']] :=
    rfl
  have chain :
      ("1,2".toList.splitOn ',').IsChain
        (EmptyBeforeZero (getHostByAddrOrName · [])) := by
    rw [items, List.isChain_cons_cons]
    exact ⟨fun empty => absurd empty (by decide), .singleton _⟩
  exact
    (@cmdPull_pullsResolved_iff noMasks [] (listOptions "1,2".toList) []
      "1,2".toList rfl (by decide)).mpr ⟨chain, by decide⟩

/-- `pull -n 1,,2` pulls from the nodes 1 and 0. -/
theorem cmdPull_misses_item :
    ¬ ∀ (lib : MaskLibrary) (knownHosts : List Host) (options : PullOptions)
        (args : List CString) (nodesStr : CString),
      options.nodesStr = some nodesStr →
        nul ∉ nodesStr →
          PullsExactly lib knownHosts (some (options, args))
            (resolvedNodes (getHostByAddrOrName · knownHosts)
              (nodesStr.splitOn ',')) := by
  intro pulls
  have claimed :=
    pulls noMasks [] (listOptions "1,,2".toList) [] _ rfl (by decide)
  have found := ((pullsExactly_iff rfl (by decide)).mp claimed).2
  exact absurd found (by decide)

/-- The stores of `pull -n 1,2` are inside and counted. -/
theorem cmdPull_counts_two :
    StoresCounted noMasks [] (some (listOptions "1,2".toList, []))
      "1,2".toList :=
  (@cmdPull_storesCounted_iff noMasks [] (listOptions "1,2".toList) []
    "1,2".toList rfl (by decide)).mpr
    (length_foundNodes_le_of_few (by decide))

theorem lookedUp_of_nonempty
    {items : List CString}
    (nonempty : ∀ item ∈ items, item ≠ []) :
    lookedUp items = items := by
  fun_induction lookedUp items with
  | case1 =>
      rfl
  | case2 =>
      exact absurd rfl (nonempty [] List.mem_cons_self)
  | case3 =>
      rfl
  | case4 next later =>
      exact absurd rfl (nonempty [] List.mem_cons_self)
  | case5 item next later _ inductionHypothesis =>
      rw [List.forall_mem_cons] at nonempty
      rw [inductionHypothesis nonempty.2]

/-- A list of 256 times node 1 is stored in an array without a cell. -/
theorem cmdPull_stores_outside :
    ¬ ∀ (lib : MaskLibrary) (knownHosts : List Host) (options : PullOptions)
        (args : List CString) (nodesStr : CString),
      options.nodesStr = some nodesStr →
        nul ∉ nodesStr →
          StoresCounted lib knownHosts (some (options, args)) nodesStr := by
  intro counts
  let nodesStr := [','].intercalate (List.replicate 256 ['1'])
  have items : nodesStr.splitOn ',' = List.replicate 256 ['1'] :=
    List.splitOn_intercalate ','
      (fun item member => by rw [List.eq_of_mem_replicate member]; decide)
      (fun empty => by
        have length := congrArg List.length empty
        rw [List.length_replicate] at length
        cases length)
  have noNul : nul ∉ nodesStr := by
    intro member
    obtain ⟨piece, isPiece, inside⟩ :=
      exists_mem_splitOn member (show nul ≠ ',' by decide)
    rw [items] at isPiece
    rw [List.eq_of_mem_replicate isPiece] at inside
    exact absurd inside (by decide)
  have found : foundNodes [] nodesStr = List.replicate 256 1 := by
    rw [foundNodes, items, lookedUp_of_nonempty fun item member => by
      rw [List.eq_of_mem_replicate member]
      decide]
    exact List.filterMap_replicate_of_some rfl
  have claimed :=
    (cmdPull_storesInside_iff noNul).mp
      (counts noMasks [] (listOptions nodesStr) [] nodesStr rfl noNul).inside
  rw [found, items, List.length_replicate, List.length_replicate] at claimed
  exact absurd claimed (by decide)

end Csh.PullNodes
