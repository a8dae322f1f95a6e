import Csh.ApmQueue
import Csh.ApmSearch
import Csh.Slash

namespace Csh.ApmLoad

open Libc Linked Interaction Walkdir SlashApm ApmQueue

/-!
# The loading of APMs

`apm load` opens the libraries of a search one after the other and puts those
that it accepts into the queue, which the next search compares with.  What
`dlopen` and the libraries answer is arbitrary.
-/

/-- What `dlsym` finds in a library: its version, and what `libmain` returns. -/
structure Library where
  apmInitVersion : Option Int
  libmain : Option Int
  deriving Repr, DecidableEq

/-- How `dlopen` ends, and `malloc` if the library is open. -/
inductive Opening where
  | closed
  | noMemory
  | opened (library : Library)
  deriving Repr, DecidableEq

/-- `apm_entry_t` without `next`, which the queue holds. -/
structure ApmEntry where
  handle : Library
  path : CString
  file : CString
  libmainF : Option Int
  apmInitVersion : Int
  deriving Repr, DecidableEq

/-- How csh ends in a load: by a null pointer, by `exit`, or in a loop. -/
inductive Ending where
  | crashed
  | exited
  | endless
  deriving Repr, DecidableEq

/-- The loop of `load_apm` that looks for the start of the file name. -/
def fileStart (path : CString) : Nat → Nat
  | 0 => 0
  | i + 1 => if path[i]? = some '/' then i + 1 else fileStart path i

/-- `load_apm`. -/
def loadApm
    (path : CString) :
    Opening → Except Ending (Option ApmEntry)
  | .closed => .ok none
  | .noMemory => .ok none
  | .opened library =>
      match library.apmInitVersion with
      -- The version is read through whatever `dlsym` returns.
      | none => .error .crashed
      | some version =>
          let stored := path.take (walkdirMaxPathSize - 1)
          .ok (some
            { handle := library
              path := stored
              file := stored.drop (fileStart stored stored.length)
              libmainF := library.libmain
              apmInitVersion := version })

/-- The versions that `initialize_apm` refuses: csh 9 can load APMs 8 or 9. -/
def refusesVersion (host version : Int) : Bool :=
  if host ≠ version then
    if host = 9 then
      if version = 8 then false else true
    else
      true
  else
    false

/-- `initialize_apm`. -/
def initializeApm (host : Int) (e : ApmEntry) : Except Ending Int :=
  match e.handle.apmInitVersion with
  | none => .ok (-1)
  | some version =>
      if refusesVersion host version then
        .ok (-1)
      else if e.libmainF.getD 1 ≠ 0 then
        .error .exited
      else
        .ok 0

/-- The queue, and the entries that are kept, numbered as they are added. -/
structure ApmState where
  heap : ApmHeap Nat
  entries : List ApmEntry

namespace ApmState

/-- Before the first load. -/
def initial : ApmState where
  heap := ⟨fun _ => none, none⟩
  entries := []

/-- The name of an entry's file. -/
def file (state : ApmState) (number : Nat) : CString :=
  (state.entries[number]?.map ApmEntry.file).getD []

/-- The numbers of the entries that the queue leads over. -/
def queue (state : ApmState) : List Nat :=
  follow state.heap.next state.entries.length state.heap.apmQueue

/-- The names in the queue. -/
def files (state : ApmState) : List CString :=
  state.queue.map state.file

/-- `apm_queue_add` of a new entry. -/
def add (state : ApmState) (e : ApmEntry) : Except Ending ApmState :=
  let entries := state.entries ++ [e]
  let file := { state with entries }.file
  match
    apmQueueAdd file entries.length state.heap (some state.entries.length)
  with
  | none => .error .endless
  | some heap => .ok { heap, entries }

end ApmState

/-- The loop of `apm_load_search`, with the answers for each library. -/
def loadLibraries
    (host : Int) :
    List (CString × Opening) →
    ApmState →
    Except Ending (SlashResult × ApmState)
  | [], state => .ok (.success, state)
  | (path, opening) :: rest, state => do
      match ← loadApm path opening with
      | none => .ok (.eusage, state)
      | some e =>
          if (← initializeApm host e) ≠ 0 then
            loadLibraries host rest state
          else
            loadLibraries host rest (← state.add e)

/-- One `apm load`: its options, its search, and an answer for each library. -/
structure Load where
  searchStr : Option CString
  path : CString
  fits : SegmentsFit path
  trace : List (Step SearchAnswer)
  libraries : List (CString × Opening)

/-- The states that csh is in after `apm load`s that it survives. -/
inductive Session (host : Int) : List Load → ApmState → Prop where
  | start : Session host [] .initial
  | load
      {past : List Load}
      {state next : ApmState}
      {load : Load}
      {search : ApmSearch (List CString)}
      {res : SlashResult}
      (earlier : Session host past state)
      (searched :
        Runs
          (buildApmList (searchCallbacks state.files load.searchStr) load.path
            (.initial []))
          load.trace search)
      (collected : search.custom = load.libraries.map Prod.fst)
      (loaded : loadLibraries host load.libraries state = .ok (res, next)) :
      Session host (past ++ [load]) next

/-- The library could be opened. -/
def Opening.isOpened : Opening → Bool
  | .opened _ => true
  | _ => false

/-- The libraries in front of the first that cannot be opened. -/
def reachedLibraries
    (libraries : List (CString × Opening)) :
    List (CString × Opening) :=
  libraries.takeWhile fun library => library.2.isOpened

/-- The entry of a library whose version is not refused. -/
def accepted?
    (host : Int)
    (library : CString × Opening) :
    Option ApmEntry :=
  match loadApm library.1 library.2 with
  | .ok (some e) =>
      if refusesVersion host e.apmInitVersion then none else some e
  | _ => none

/-- The entries that a load adds. -/
def acceptedEntries
    (host : Int)
    (libraries : List (CString × Opening)) :
    List ApmEntry :=
  (reachedLibraries libraries).filterMap (accepted? host)

/-- A load fails at the first library that cannot be opened. -/
def loadResult (libraries : List (CString × Opening)) : SlashResult :=
  if libraries.all fun library => library.2.isOpened then
    .success
  else
    .eusage

/-- A library with a version whose `libmain` succeeds unless it is refused. -/
def Harmless (host : Int) (library : CString × Opening) : Prop :=
  ∃ symbols version,
    library.2 = .opened symbols ∧
      symbols.apmInitVersion = some version ∧
      (refusesVersion host version = false → symbols.libmain = some 0)

section Entries

variable {host : Int}
variable {path : CString}
variable {opening : Opening}
variable {symbols : Library}
variable {version : Int}

theorem strrchr_concat
    (c d : Char)
    (text : CString) :
    strrchr c (text ++ [d]) =
      if d = c then some text.length else strrchr c text := by
  rw [strrchr, List.reverse_append, List.reverse_singleton,
    List.singleton_append, List.idxOf?_cons]
  by_cases same : d = c
  · simp [same]
  · rw [if_neg (by simpa using same), if_neg same, strrchr, Option.map_map]
    refine congrArg (Option.map · _) (funext fun index => ?_)
    simp only [Function.comp_apply, List.length_append, List.length_singleton]
    omega

/-- The loop of `load_apm` ends behind the last slash. -/
theorem fileStart_eq
    (path : CString)
    {i : Nat}
    (inside : i ≤ path.length) :
    fileStart path i =
      ((strrchr '/' (path.take i)).map (· + 1)).getD 0 := by
  induction i with
  | zero =>
      rfl
  | succ i inductionHypothesis =>
      have read : path[i]? = some (path.get ⟨i, inside⟩) :=
        List.getElem?_eq_getElem inside
      have grown :
          path.take (i + 1) = path.take i ++ [path.get ⟨i, inside⟩] := by
        rw [List.take_add_one, read, Option.toList_some]
      rw [fileStart, read, grown, strrchr_concat]
      by_cases slash : path.get ⟨i, inside⟩ = '/'
      · rw [if_pos (congrArg some slash), if_pos slash]
        simp [Nat.le_of_succ_le inside]
      · rw [if_neg (by simpa using slash), if_neg slash,
          inductionHypothesis (Nat.le_of_succ_le inside)]

theorem drop_fileStart
    (path : CString) :
    path.drop (fileStart path path.length) = baseName path := by
  rw [fileStart_eq path le_rfl, List.take_length, baseName]
  cases strrchr '/' path <;> rfl

/-- The entry of an open library is named by the last part of its path. -/
theorem loadApm_opened
    (known : symbols.apmInitVersion = some version) :
    loadApm path (.opened symbols) =
      .ok (some
        { handle := symbols
          path := initInfo path
          file := baseName (initInfo path)
          libmainF := symbols.libmain
          apmInitVersion := version }) := by
  rw [loadApm, known]
  simp only
  rw [drop_fileStart]
  rfl

end Entries

/-- The queue leads over all entries, in the order of their names. -/
structure Ordered (state : ApmState) : Prop where
  isList : IsList state.heap.next state.heap.apmQueue state.queue
  all : state.queue.Perm (List.range state.entries.length)
  sorted : state.queue.Pairwise (InOrder state.file)

section Queue

variable {state : ApmState}
variable {e : ApmEntry}

/-- The queue is what a list of all entries says. -/
theorem Ordered.of_isList
    {items : List Nat}
    (isList : IsList state.heap.next state.heap.apmQueue items)
    (all : items.Perm (List.range state.entries.length))
    (sorted : items.Pairwise (InOrder state.file)) :
    Ordered state := by
  have enough : items.length ≤ state.entries.length := by
    rw [all.length_eq, List.length_range]
  have same : state.queue = items := isList.follow_eq enough
  exact ⟨by rwa [same], by rwa [same], by rwa [same]⟩

theorem ordered_initial : Ordered .initial where
  isList := rfl
  all := .nil
  sorted := .nil

/-- A new entry leaves the names of the others as they are. -/
theorem file_append
    {number : Nat}
    (old : number < state.entries.length)
    (e : ApmEntry) :
    { state with entries := state.entries ++ [e] }.file number =
      state.file number := by
  rw [ApmState.file, ApmState.file, List.getElem?_append_left old]

theorem Ordered.mem_queue
    (ordered : Ordered state)
    {number : Nat}
    (member : number ∈ state.queue) :
    number < state.entries.length :=
  List.mem_range.mp (ordered.all.subset member)

/-- The queue has the names of all entries. -/
theorem Ordered.files_perm
    (ordered : Ordered state) :
    state.files.Perm (state.entries.map ApmEntry.file) := by
  have named :
      (List.range state.entries.length).map state.file =
        state.entries.map ApmEntry.file := by
    refine List.ext_getElem (by simp) fun number _ inside => ?_
    rw [List.length_map] at inside
    simp [ApmState.file, inside]
  rw [← named]
  exact ordered.all.map _

theorem Ordered.files_sorted
    (ordered : Ordered state) :
    state.files.Pairwise fun first second => strcmp first second ≤ 0 :=
  List.pairwise_map.mpr ordered.sorted

/-- A new entry is put where its name belongs. -/
theorem Ordered.add
    (ordered : Ordered state)
    (e : ApmEntry) :
    ∃ next,
      state.add e = .ok next ∧
        next.entries = state.entries ++ [e] ∧ Ordered next := by
  let grown : ApmState := { state with entries := state.entries ++ [e] }
  have absent : state.entries.length ∉ state.queue := fun member =>
    Nat.lt_irrefl _ (ordered.mem_queue member)
  have enough : state.queue.length < (state.entries ++ [e]).length := by
    rw [ordered.all.length_eq, List.length_range, List.length_append]
    exact Nat.lt_succ_self _
  have queued : Queued state.heap state.queue :=
    ⟨ordered.isList, ordered.all.nodup_iff.mpr List.nodup_range⟩
  have sorted : state.queue.Pairwise (InOrder grown.file) := by
    refine ordered.sorted.imp_of_mem fun {first second} left right inOrder => ?_
    rw [InOrder, file_append (ordered.mem_queue left),
      file_append (ordered.mem_queue right)]
    exact inOrder
  obtain ⟨heap, added, after⟩ :=
    @Queued.add Nat grown.file state.entries.length _ _ _ _ queued absent enough
  refine ⟨⟨heap, state.entries ++ [e]⟩, ?_, rfl, ?_⟩
  · unfold ApmState.add
    simp only
    rw [added]
  · refine Ordered.of_isList after.isList ?_ (sorted.orderedInsert _)
    have counted :
        (state.entries.length :: state.queue).Perm
          (List.range (state.entries.length + 1)) := by
      rw [List.range_succ]
      exact (ordered.all.cons _).trans (List.perm_append_singleton _ _).symm
    rw [List.length_append, List.length_singleton]
    exact (List.perm_orderedInsert _ _ _).trans counted

end Queue

section Loop

variable {host : Int}
variable {state next : ApmState}
variable {libraries : List (CString × Opening)}

/-- A library that cannot be opened ends the loop. -/
theorem loadLibraries_closed
    {path : CString}
    {opening : Opening}
    (closed : opening.isOpened = false)
    (rest : List (CString × Opening)) :
    loadLibraries host ((path, opening) :: rest) state =
      .ok (.eusage, state) := by
  cases opening with
  | opened symbols => cases closed
  | closed => rfl
  | noMemory => rfl

/-- What the entry of a harmless library does to the rest of the loop. -/
theorem loadLibraries_harmless
    {library : CString × Opening}
    (harmless : Harmless host library)
    (rest : List (CString × Opening)) :
    loadLibraries host (library :: rest) state =
      match accepted? host library with
      | none => loadLibraries host rest state
      | some e => state.add e >>= loadLibraries host rest := by
  obtain ⟨path, opening⟩ := library
  obtain ⟨symbols, version, opened, known, succeeds⟩ := harmless
  obtain rfl : opening = .opened symbols := opened
  rw [loadLibraries, accepted?, loadApm_opened known]
  cases refused : refusesVersion host version with
  | true =>
      simp [initializeApm, known, refused, bind, Except.bind]
  | false =>
      simp [initializeApm, known, refused, bind, Except.bind,
        succeeds refused]

/-- A library that is not harmless ends csh. -/
theorem loadLibraries_harmful
    {library : CString × Opening}
    (opened : library.2.isOpened = true)
    (harmful : ¬ Harmless host library)
    (rest : List (CString × Opening)) :
    loadLibraries host (library :: rest) state = .error .crashed ∨
      loadLibraries host (library :: rest) state = .error .exited := by
  obtain ⟨path, opening⟩ := library
  cases opening with
  | closed => cases opened
  | noMemory => cases opened
  | opened symbols =>
      cases known : symbols.apmInitVersion with
      | none =>
          refine .inl ?_
          rw [loadLibraries, loadApm, known]
          rfl
      | some version =>
          refine .inr ?_
          have loads : refusesVersion host version = false := by
            by_contra refused
            exact harmful
              ⟨symbols, version, rfl, known, fun loads =>
                absurd loads refused⟩
          have fails : symbols.libmain.getD 1 ≠ 0 := by
            intro succeeds
            refine harmful ⟨symbols, version, rfl, known, fun _ => ?_⟩
            simpa [Option.getD_eq_iff] using succeeds
          rw [loadLibraries, loadApm_opened known]
          simp [initializeApm, known, loads, fails, bind, Except.bind]

/-- What the loop does with harmless libraries, and that others end csh. -/
theorem loadLibraries_spec
    (ordered : Ordered state)
    (libraries : List (CString × Opening)) :
    ((∀ library ∈ reachedLibraries libraries, Harmless host library) →
        ∃ next,
          loadLibraries host libraries state =
              .ok (loadResult libraries, next) ∧
            next.entries = state.entries ++ acceptedEntries host libraries ∧
            Ordered next) ∧
      ((¬ ∀ library ∈ reachedLibraries libraries, Harmless host library) →
        loadLibraries host libraries state = .error .crashed ∨
          loadLibraries host libraries state = .error .exited) := by
  induction libraries generalizing state with
  | nil =>
      refine ⟨fun _ => ⟨state, rfl, ?_, ordered⟩, fun harmful => ?_⟩
      · exact (List.append_nil _).symm
      · exact absurd (List.forall_mem_nil _) harmful
  | cons library rest inductionHypothesis =>
      cases opened : library.2.isOpened with
      | false =>
          have reached : reachedLibraries (library :: rest) = [] := by
            simp [reachedLibraries, opened]
          have fails : loadResult (library :: rest) = .eusage := by
            simp [loadResult, opened]
          rw [acceptedEntries, reached, fails]
          refine ⟨fun _ => ⟨state, ?_, ?_, ordered⟩, fun harmful => ?_⟩
          · exact loadLibraries_closed opened rest
          · exact (List.append_nil _).symm
          · exact absurd (List.forall_mem_nil _) harmful
      | true =>
          have reached :
              reachedLibraries (library :: rest) =
                library :: reachedLibraries rest := by
            simp [reachedLibraries, opened]
          have same : loadResult (library :: rest) = loadResult rest := by
            rw [loadResult, loadResult, List.all_cons, opened, Bool.true_and]
          by_cases harmless : Harmless host library
          · rw [loadLibraries_harmless harmless, acceptedEntries, reached,
              List.forall_mem_cons, List.filterMap_cons, same]
            simp only [harmless, true_and]
            cases taken : accepted? host library with
            | none =>
                exact inductionHypothesis ordered
            | some e =>
                obtain ⟨next, added, grown, after⟩ := ordered.add e
                simp only [added, bind, Except.bind]
                have later := inductionHypothesis after
                rw [grown, List.append_assoc] at later
                exact later
          · refine ⟨fun all => ?_, fun _ => ?_⟩
            · rw [reached, List.forall_mem_cons] at all
              exact absurd all.1 harmless
            · exact loadLibraries_harmful opened harmless rest

end Loop

section Sessions

variable {host : Int}
variable {loads : List Load}
variable {state : ApmState}

/-- A load that csh survives adds what is accepted. -/
theorem loadLibraries_ok
    {libraries : List (CString × Opening)}
    {res : SlashResult}
    {next : ApmState}
    (ordered : Ordered state)
    (loaded : loadLibraries host libraries state = .ok (res, next)) :
    res = loadResult libraries ∧
      next.entries = state.entries ++ acceptedEntries host libraries ∧
      Ordered next := by
  obtain ⟨harmless, harmful⟩ :=
    @loadLibraries_spec host state ordered libraries
  by_cases all : ∀ library ∈ reachedLibraries libraries, Harmless host library
  · obtain ⟨final, ran, rest⟩ := harmless all
    rw [loaded] at ran
    cases ran
    exact ⟨rfl, rest⟩
  · rcases harmful all with ended | ended <;>
      · rw [loaded] at ended
        cases ended

theorem Session.ordered
    (session : Session host loads state) :
    Ordered state := by
  induction session with
  | start => exact ordered_initial
  | load _ _ _ loaded inductionHypothesis =>
      exact (loadLibraries_ok inductionHypothesis loaded).2.2

/-- The entries are those that the loads have accepted, in their order. -/
theorem Session.entries_eq
    (session : Session host loads state) :
    state.entries =
      loads.flatMap fun load => acceptedEntries host load.libraries := by
  induction session with
  | start => rfl
  | load earlier _ _ loaded inductionHypothesis =>
      rw [(loadLibraries_ok earlier.ordered loaded).2.1, inductionHypothesis,
        List.flatMap_append, List.flatMap_singleton]

/-- The name of an accepted entry is the last part of its path. -/
theorem file_of_accepted
    {library : CString × Opening}
    {e : ApmEntry}
    (taken : accepted? host library = some e) :
    e.file = baseName (initInfo library.1) ∧
      refusesVersion host e.apmInitVersion = false := by
  obtain ⟨path, opening⟩ := library
  cases opening with
  | closed => cases taken
  | noMemory => cases taken
  | opened symbols =>
      cases known : symbols.apmInitVersion with
      | none =>
          rw [accepted?, loadApm, known] at taken
          cases taken
      | some version =>
          rw [accepted?, loadApm_opened known] at taken
          cases refused : refusesVersion host version with
          | true => simp [refused] at taken
          | false =>
              simp only [refused, Bool.false_eq_true, if_false,
                Option.some.injEq] at taken
              subst taken
              exact ⟨rfl, refused⟩

/-- The names that a load adds are among those of its libraries. -/
theorem accepted_files_sublist
    (host : Int)
    (libraries : List (CString × Opening)) :
    ((acceptedEntries host libraries).map ApmEntry.file).Sublist
      (libraries.map fun library => baseName (initInfo library.1)) := by
  have named :
      ∀ reached : List (CString × Opening),
        ((reached.filterMap (accepted? host)).map ApmEntry.file).Sublist
          (reached.map fun library => baseName (initInfo library.1)) := by
    intro reached
    induction reached with
    | nil => exact .slnil
    | cons library rest inductionHypothesis =>
        rw [List.filterMap_cons]
        cases taken : accepted? host library with
        | none => exact .cons _ inductionHypothesis
        | some e =>
            simp only [List.map_cons, (file_of_accepted taken).1]
            exact inductionHypothesis.cons_cons _
  exact (named _).trans ((List.takeWhile_sublist _).map _)

/-- What is collected is stored as far as it fits. -/
theorem collected_stored
    (loaded : List CString)
    (searchStr : Option CString)
    (found : List Finding)
    {libs : List CString}
    (stored : ∀ lib ∈ libs, initInfo lib = lib) :
    ∀ lib ∈ found.foldl (fileCallback loaded searchStr) libs,
      initInfo lib = lib := by
  induction found generalizing libs with
  | nil => exact stored
  | cons finding rest inductionHypothesis =>
      refine inductionHypothesis fun lib member => ?_
      have cases : lib ∈ libs ∨ lib = finding.stored := by
        unfold fileCallback at member
        split_ifs at member <;> simp_all
      rcases cases with old | rfl
      · exact stored lib old
      · rw [Finding.stored, initInfo, initInfo, List.take_take, min_self]

/-- A load whose findings are told by their base names adds new names only. -/
theorem accepted_files_new
    {load : Load}
    {search : ApmSearch (List CString)}
    {loaded : List CString}
    (searched :
      Runs
        (buildApmList (searchCallbacks loaded load.searchStr) load.path
          (.initial []))
        load.trace search)
    (collected : search.custom = load.libraries.map Prod.fst)
    (named :
      ∀ finding ∈ findings load.trace, finding.Named load.searchStr)
    (host : Int) :
    ((acceptedEntries host load.libraries).map ApmEntry.file).Nodup ∧
      ∀ file ∈ (acceptedEntries host load.libraries).map ApmEntry.file,
        file ∉ loaded := by
  have found :
      search.custom =
        (findings load.trace).foldl (fileCallback loaded load.searchStr) [] :=
    kept_buildApmList (kept_searchCallbacks _ _) searched
  have libs := @collected_of_named loaded load.searchStr _ named
  have stored :=
    collected_stored loaded load.searchStr (findings load.trace)
      (List.forall_mem_nil _)
  rw [← found, collected] at libs stored
  have names :
      (load.libraries.map fun library => baseName (initInfo library.1)) =
        (load.libraries.map Prod.fst).map baseName := by
    rw [List.map_map]
    refine List.map_congr_left fun library member => ?_
    rw [stored library.1 (List.mem_map_of_mem member)]
    rfl
  have among := accepted_files_sublist host load.libraries
  rw [names] at among
  refine ⟨libs.distinct.sublist among, fun file member => ?_⟩
  obtain ⟨lib, taken, rfl⟩ := List.mem_map.mp (among.subset member)
  exact libs.notLoaded lib taken

/-- Findings that are told by their base names are never queued twice. -/
theorem Session.files_nodup
    (session : Session host loads state)
    (named :
      ∀ load ∈ loads, ∀ finding ∈ findings load.trace,
        finding.Named load.searchStr) :
    state.files.Nodup := by
  induction session with
  | start => exact List.nodup_nil
  | @load past state next load search res earlier searched collected loaded
      inductionHypothesis =>
      obtain ⟨_, grown, after⟩ := loadLibraries_ok earlier.ordered loaded
      have before := inductionHypothesis fun load member =>
        named load (List.mem_append_left _ member)
      obtain ⟨distinct, fresh⟩ :=
        accepted_files_new searched collected (named load (by simp)) host
      rw [after.files_perm.nodup_iff, grown, List.map_append]
      have old := earlier.ordered.files_perm
      refine
        List.Nodup.append (old.nodup_iff.mp before) distinct
          fun file first second => ?_
      exact fresh file second (old.symm.subset first)

end Sessions

/--
After every sequence of loads, whatever is found, opened and answered, the
queue leads once over each of the entries, which are those that were accepted,
sorted by name and none of them refused; and it has no name twice if all
findings are told by their base names.
-/
theorem session_queue
    {host : Int}
    {loads : List Load}
    {state : ApmState}
    (session : Session host loads state) :
    IsList state.heap.next state.heap.apmQueue state.queue ∧
      state.queue.Perm (List.range state.entries.length) ∧
      (state.entries =
        loads.flatMap fun load => acceptedEntries host load.libraries) ∧
      (state.files.Pairwise fun first second => strcmp first second ≤ 0) ∧
      state.files.Perm
        ((loads.flatMap fun load => acceptedEntries host load.libraries).map
          ApmEntry.file) ∧
      (∀ e ∈ state.entries, refusesVersion host e.apmInitVersion = false) ∧
      ((∀ load ∈ loads, ∀ finding ∈ findings load.trace,
          finding.Named load.searchStr) →
        state.files.Nodup) := by
  have ordered := session.ordered
  refine
    ⟨ordered.isList, ordered.all, session.entries_eq, ordered.files_sorted, ?_,
      fun e member => ?_, session.files_nodup⟩
  · rw [← session.entries_eq]
    exact ordered.files_perm
  · rw [session.entries_eq, List.mem_flatMap] at member
    obtain ⟨load, _, accepted⟩ := member
    obtain ⟨library, _, taken⟩ := List.mem_filterMap.mp accepted
    exact (file_of_accepted taken).2

/-- Two APMs that a walk finds, one of them of the version before the host's. -/
theorem session_queue_two :
    ∃ loads state,
      Session 9 loads state ∧
        state.queue.Perm (List.range 2) ∧
        (state.files.Pairwise fun first second => strcmp first second ≤ 0) ∧
        state.files.Perm ["libcsh_b.so".toList, "libcsh_a.so".toList] ∧
        state.files.Nodup := by
  have plain :
      PlainListing
        (.entries ["libcsh_b.so".toList, "libcsh_a.so".toList]) := by
    intro names same name member
    cases same
    revert name
    decide
  have run :
      ∃ trace search,
        Runs
            (buildApmList (searchCallbacks [] none) "/a".toList (.initial []))
            trace search ∧
          search.custom =
            ["/a/libcsh_b.so".toList, "/a/libcsh_a.so".toList] ∧
          findings trace =
            [⟨"/a/libcsh_b.so".toList, "libcsh_b.so".toList⟩,
              ⟨"/a/libcsh_a.so".toList, "libcsh_a.so".toList⟩] := by
    rw [buildApmList_last (by decide) (by decide)]
    refine
      ⟨[⟨.opendir _, ⟨.entries _, plain⟩⟩, ⟨.lstat _, .regular⟩,
          ⟨.fileCb _ _, ()⟩, ⟨.lstat _, .regular⟩, ⟨.fileCb _ _, ()⟩], _,
        .call _ (.call _ (.call _ (.call _ (.call _ (.done _))))), ?_, ?_⟩
    · decide
    · rfl
  obtain ⟨trace, search, ran, collected, found⟩ := run
  let load : Load :=
    { searchStr := none
      path := "/a".toList
      fits := segmentsFit_of_single (by decide) (by decide)
      trace := trace
      libraries :=
        [("/a/libcsh_b.so".toList, .opened ⟨some 9, some 0⟩),
          ("/a/libcsh_a.so".toList, .opened ⟨some 8, some 0⟩)] }
  have session : Session 9 [load] _ :=
    @Session.load 9 [] _ _ load _ _ .start ran collected rfl
  have queue := session_queue session
  obtain ⟨_, queued, _, sorted, names, _, distinct⟩ := queue
  refine ⟨_, _, session, queued, sorted, names, distinct ?_⟩
  have named :
      ∀ finding ∈ findings trace,
        finding.lastEntry = finding.baseName := by
    rw [found]
    decide
  intro other member finding isFound
  rw [List.mem_singleton] at member
  subst member
  exact fun _ => named finding isFound

/--
A load in any such state ends csh exactly if one of the libraries in front of
the first that cannot be opened has no version, or a `libmain` that is missing
or fails, by a null pointer or by `exit`; otherwise it adds what is accepted
and fails exactly at that first.
-/
theorem load_survives_iff
    {host : Int}
    {loads : List Load}
    {state : ApmState}
    (session : Session host loads state)
    (libraries : List (CString × Opening)) :
    ((∃ done, loadLibraries host libraries state = .ok done) ↔
        ∀ library ∈ reachedLibraries libraries, Harmless host library) ∧
      ((¬ ∀ library ∈ reachedLibraries libraries, Harmless host library) →
        loadLibraries host libraries state = .error .crashed ∨
          loadLibraries host libraries state = .error .exited) ∧
      ∀ res next, loadLibraries host libraries state = .ok (res, next) →
        res = loadResult libraries ∧
          next.files.Perm
            (state.files ++
              (acceptedEntries host libraries).map ApmEntry.file) := by
  obtain ⟨harmless, harmful⟩ :=
    @loadLibraries_spec host state session.ordered libraries
  refine ⟨⟨?_, fun all => ?_⟩, harmful, fun res next loaded => ?_⟩
  · rintro ⟨done, loaded⟩
    by_contra ends
    rcases harmful ends with ended | ended <;>
      · rw [loaded] at ended
        cases ended
  · obtain ⟨next, ran, _⟩ := harmless all
    exact ⟨_, ran⟩
  · obtain ⟨same, grown, after⟩ := loadLibraries_ok session.ordered loaded
    refine ⟨same, after.files_perm.trans ?_⟩
    rw [grown, List.map_append]
    exact session.ordered.files_perm.symm.append_right _

/-- A library without a version ends csh, though it would be refused. -/
theorem load_survives_unversioned :
    ¬ ∃ done,
      loadLibraries 9
          [("a.so".toList, .opened ⟨some 7, none⟩),
            ("b.so".toList, .opened ⟨none, some 0⟩)]
          .initial =
        .ok done := by
  rw [(load_survives_iff .start _).1]
  intro harmless
  obtain ⟨symbols, version, opened, known, _⟩ :=
    harmless ("b.so".toList, .opened ⟨none, some 0⟩) (by decide)
  cases opened
  cases known

end Csh.ApmLoad
