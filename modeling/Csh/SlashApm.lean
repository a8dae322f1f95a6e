import Csh.WalkdirBuffer
import Csh.WalkdirTree

namespace Csh.SlashApm

open Libc Interaction Cells Walkdir

/-!
# Walking a search path

`build_apm_list` splits a search path at its semicolons and walks one directory
after the other, with one array for all of them.  Only the last one is copied
together with its NUL; the others end where the array happens to hold one.
-/

/-- The `path_size` that the array is walked with. -/
def searchPathSize : Nat :=
  walkdirMaxPathSize - 10

/-- A listing whose names are C strings. -/
def PlainListing (listing : Listing) : Prop :=
  ∀ names, listing = .entries names → ∀ name ∈ names, nul ∉ name

/-- The answers to the calls of a walk, as the file system gives them. -/
abbrev SearchAnswer : WalkCall → Type
  | .opendir _ => { listing : Listing // PlainListing listing }
  | .lstat _ => FileKind
  | .dirCb _ _ => Bool
  | .fileCb _ _ => Unit

/-- The file system as `walkdir` sees it, without a signal pointer. -/
def searchSurroundings : Surroundings SearchAnswer where
  opendir := fun path => do
    let listing : { listing : Listing // PlainListing listing } ←
      Prog.ask (WalkCall.opendir path)
    pure listing.1
  lstat := fun path => Prog.ask (WalkCall.lstat path)
  interrupted := pure false

/--
`wpath` and the search, with the paths that `walkdir` has been called with and
the characters that stood behind the segments copied without a NUL.
-/
structure ApmSearch (State : Type) where
  wpath : PathCells
  custom : State
  walked : List CString
  stale : List Char

section Build

variable {State : Type}
variable (callbacks : Callbacks SearchAnswer State)

/-- `wpath` is filled with zeros. -/
def ApmSearch.initial (custom : State) : ApmSearch State :=
  ⟨fun _ => nul, custom, [], []⟩

/-- `strncpy` of a segment that a semicolon ends. -/
def ApmSearch.copySegment
    (segment : CString)
    (search : ApmSearch State) :
    ApmSearch State :=
  { search with
    wpath := poke search.wpath 0 segment
    stale := search.stale ++ [search.wpath segment.length] }

/-- `strcpy` of the last segment. -/
def ApmSearch.copyLast
    (segment : CString)
    (search : ApmSearch State) :
    ApmSearch State :=
  { search with wpath := poke search.wpath 0 (segment ++ [nul]) }

/-- The call of `walkdir`. -/
def walkCopied (search : ApmSearch State) :
    Prog SearchAnswer (ApmSearch State) := do
  let walked ←
    walkdirIn searchSurroundings callbacks searchPathSize 1 search.wpath
      search.custom
  pure
    { search with
      wpath := walked.1
      custom := walked.2
      walked := search.walked ++ [pathIn searchPathSize search.wpath] }

/-- The loop of `build_apm_list`. -/
def buildApmList
    (path : CString)
    (search : ApmSearch State) :
    Prog SearchAnswer (ApmSearch State) :=
  if _ended : path = [] then
    pure search
  else
    match path.idxOf? ';' with
    | none => walkCopied callbacks (search.copyLast path)
    | some split => do
        let search ←
          walkCopied callbacks (search.copySegment (path.take split))
        buildApmList (path.drop (split + 1)) search
termination_by path.length
decreasing_by
  have positive := List.length_pos_of_ne_nil _ended
  simp only [List.length_drop]
  omega

end Build

/-- A list of segments that are not empty and fit into the array. -/
structure SearchPath (path : CString) : Prop where
  plain : nul ∉ path
  segments :
    ∀ segment ∈ path.splitOn ';',
      segment ≠ [] ∧ segment.length < searchPathSize

/-- Segments that leave `walkdir` the room behind the path that it counts on. -/
def SegmentsFit (path : CString) : Prop :=
  ∀ segment ∈ path.splitOn ';', segment.length ≤ searchPathSize

section Equations

variable {State : Type}
variable {callbacks : Callbacks SearchAnswer State}
variable {segment rest : CString}
variable {search : ApmSearch State}

theorem idxOf?_append_cons
    (absent : ';' ∉ segment) :
    (segment ++ ';' :: rest).idxOf? ';' = some segment.length := by
  induction segment with
  | nil =>
      simp [List.idxOf?_cons]
  | cons c segment inductionHypothesis =>
      rw [List.mem_cons, not_or] at absent
      rw [List.cons_append, List.idxOf?_cons,
        if_neg (by
          rw [beq_iff_eq]
          exact fun equal => absent.1 equal.symm), inductionHypothesis absent.2]
      simp

/-- A path of one segment fits if it is short. -/
theorem segmentsFit_of_single
    (absent : ';' ∉ segment)
    (short : segment.length ≤ searchPathSize) :
    SegmentsFit segment := by
  rw [SegmentsFit, List.splitOn_eq_singleton absent]
  exact List.forall_mem_singleton.mpr short

theorem buildApmList_last
    (nonempty : segment ≠ [])
    (absent : ';' ∉ segment) :
    buildApmList callbacks segment search =
      walkCopied callbacks (search.copyLast segment) := by
  rw [buildApmList, dif_neg nonempty]
  have none : segment.idxOf? ';' = none := by
    simpa using absent
  rw [none]

theorem buildApmList_cons
    (absent : ';' ∉ segment) :
    buildApmList callbacks (segment ++ ';' :: rest) search =
      (walkCopied callbacks (search.copySegment segment) >>=
        buildApmList callbacks rest) := by
  rw [buildApmList, dif_neg (by simp)]
  rw [idxOf?_append_cons absent]
  simp

end Equations

section Runs

variable {State : Type}
variable {callbacks : Callbacks SearchAnswer State}
variable {segment : CString}
variable {segments : List CString}
variable {search next : ApmSearch State}
variable {trace : List (Step SearchAnswer)}

/-- The cells that the walks do not reach hold the zeros of the start. -/
def Bounded (search : ApmSearch State) : Prop :=
  ∀ index, searchPathSize ≤ index → search.wpath index = nul

theorem plain_searchSurroundings :
    Plain searchSurroundings where
  uninterrupted := fun run => (runs_pure_iff.mp run).2
  names := by
    intro path trace names run
    obtain ⟨listing, rfl, same⟩ := runs_ask_return_iff.mp run
    exact listing.2 names same.symm

/-- A call of `walkdir`, with what it finds and leaves in the array. -/
theorem walkCopied_spec
    (bounded : Bounded search)
    (run : Runs (walkCopied callbacks search) trace next) :
    next.walked = search.walked ++ [pathIn searchPathSize search.wpath] ∧
      next.stale = search.stale ∧
      HoldsPath searchPathSize next.wpath
        (pathIn searchPathSize search.wpath) := by
  obtain ⟨walking, walked, later, rfl, walk, done⟩ := runs_bind_iff.mp run
  obtain ⟨rfl, rfl⟩ := runs_pure_iff.mp done
  have refined :=
    refines_walkdir plain_searchSurroundings 1 _ _ _ _ _
      (holdsText_textIn bounded) walk
  exact ⟨rfl, rfl, refined.1⟩

theorem bounded_copySegment
    (bounded : Bounded search)
    (short : segment.length < searchPathSize) :
    Bounded (search.copySegment segment) := by
  intro index far
  simp only [ApmSearch.copySegment]
  rw [poke_behind (by omega)]
  exact bounded index far

/-- A copied segment is read back where a NUL stands behind it, only. -/
theorem pathIn_copySegment_iff
    (bounded : Bounded search)
    (plain : nul ∉ segment)
    (short : segment.length < searchPathSize) :
    pathIn searchPathSize (search.copySegment segment).wpath = segment ↔
      search.wpath segment.length = nul := by
  constructor
  · intro same
    by_contra unmarked
    exact textIn_poke_ne short unmarked bounded same
  · intro marked
    exact (holdsText_poke bounded plain short.le marked).textIn

theorem copyLast_holds
    (bounded : Bounded search)
    (plain : nul ∉ segment)
    (short : segment.length < searchPathSize) :
    HoldsPath searchPathSize (search.copyLast segment).wpath segment :=
  holdsText_poke_marked bounded plain short.le

/-- Segments as they stand in a search path. -/
structure Segments (segments : List CString) : Prop where
  nonempty : ∀ segment ∈ segments, segment ≠ []
  whole : ∀ segment ∈ segments, ';' ∉ segment
  plain : ∀ segment ∈ segments, nul ∉ segment
  short : ∀ segment ∈ segments, segment.length < searchPathSize

/-- The segments with a semicolon between each two. -/
def joined (segments : List CString) : CString :=
  [';'].intercalate segments

theorem joined_cons_cons
    (segment second : CString)
    (segments : List CString) :
    joined (segment :: second :: segments) =
      segment ++ ';' :: joined (second :: segments) := by
  simp [joined]

theorem Segments.tail
    {first : CString}
    (wellFormed : Segments (first :: segments)) :
    Segments segments where
  nonempty := fun segment member =>
    wellFormed.nonempty segment (List.mem_cons_of_mem _ member)
  whole := fun segment member =>
    wellFormed.whole segment (List.mem_cons_of_mem _ member)
  plain := fun segment member =>
    wellFormed.plain segment (List.mem_cons_of_mem _ member)
  short := fun segment member =>
    wellFormed.short segment (List.mem_cons_of_mem _ member)

/-- The last segment is copied with a NUL and walked. -/
theorem runs_joined_last
    {final : ApmSearch State}
    (wellFormed : Segments [segment])
    (run : Runs (buildApmList callbacks (joined [segment]) search) trace final) :
    Runs (walkCopied callbacks (search.copyLast segment)) trace final := by
  have alone : joined [segment] = segment := by
    simp [joined]
  rwa [alone,
    buildApmList_last (wellFormed.nonempty segment List.mem_cons_self)
      (wellFormed.whole segment List.mem_cons_self)] at run

/-- Any other segment is copied without one and walked before the rest. -/
theorem runs_joined_cons
    {second : CString}
    {final : ApmSearch State}
    (wellFormed : Segments (segment :: second :: segments))
    (run :
      Runs
        (buildApmList callbacks (joined (segment :: second :: segments)) search)
        trace final) :
    ∃ early next late,
      trace = early ++ late ∧
        Runs (walkCopied callbacks (search.copySegment segment)) early next ∧
        Runs (buildApmList callbacks (joined (second :: segments)) next) late
          final := by
  rw [joined_cons_cons,
    buildApmList_cons (wellFormed.whole segment List.mem_cons_self)] at run
  exact runs_bind_iff.mp run

/-- The walk of a copied segment, in front of the rest of the list. -/
theorem copied_segment_spec
    (wellFormed : Segments (segment :: segments))
    (bounded : Bounded search)
    (run : Runs (walkCopied callbacks (search.copySegment segment)) trace next) :
    ∃ path,
      next.walked = search.walked ++ [path] ∧
        next.stale = search.stale ++ [search.wpath segment.length] ∧
        HoldsPath searchPathSize next.wpath path ∧
        (path = segment ↔ search.wpath segment.length = nul) := by
  have short := wellFormed.short segment List.mem_cons_self
  have plain := wellFormed.plain segment List.mem_cons_self
  obtain ⟨walked, stale, holds⟩ :=
    walkCopied_spec (bounded_copySegment bounded short) run
  exact
    ⟨_, walked, stale, holds, pathIn_copySegment_iff bounded plain short⟩

theorem copied_last_spec
    (wellFormed : Segments [segment])
    (bounded : Bounded search)
    (run : Runs (walkCopied callbacks (search.copyLast segment)) trace next) :
    next.walked = search.walked ++ [segment] ∧ next.stale = search.stale := by
  have holds :=
    copyLast_holds bounded (wellFormed.plain segment List.mem_cons_self)
      (wellFormed.short segment List.mem_cons_self)
  obtain ⟨walked, stale, _⟩ := walkCopied_spec holds.beyond run
  rw [pathIn_eq holds] at walked
  exact ⟨walked, stale⟩

/--
In every run the paths walked are the segments if and only if each segment
copied without a NUL has found one behind it.
-/
theorem buildApmList_spec
    {final : ApmSearch State}
    (wellFormed : Segments (segment :: segments))
    (bounded : Bounded search)
    (run :
      Runs (buildApmList callbacks (joined (segment :: segments)) search)
        trace final) :
    ∃ paths stale,
      final.walked = search.walked ++ paths ∧
        final.stale = search.stale ++ stale ∧
        (paths = segment :: segments ↔ ∀ c ∈ stale, c = nul) := by
  induction segments generalizing segment search trace with
  | nil =>
      have last := runs_joined_last wellFormed run
      obtain ⟨walked, stale⟩ := copied_last_spec wellFormed bounded last
      exact ⟨[segment], [], walked, by simpa using stale, by simp⟩
  | cons second rest inductionHypothesis =>
      obtain ⟨early, next, late, rfl, copied, later⟩ :=
        runs_joined_cons wellFormed run
      obtain ⟨path, walked, stale, holds, clean⟩ :=
        copied_segment_spec wellFormed bounded copied
      obtain ⟨paths, stale', walked', stale_eq, clean'⟩ :=
        inductionHypothesis wellFormed.tail holds.beyond later
      refine
        ⟨path :: paths, search.wpath segment.length :: stale', ?_, ?_, ?_⟩
      · rw [walked', walked]
        simp
      · rw [stale_eq, stale]
        simp
      · rw [List.cons_eq_cons, clean, clean', List.forall_mem_cons]

theorem bounded_initial
    (custom : State) :
    Bounded (ApmSearch.initial custom) :=
  fun _ _ => rfl

/-- Segments of one length each find the NUL of the one before. -/
theorem stale_of_same_length
    {length : Nat}
    {final : ApmSearch State}
    (wellFormed : Segments (segment :: segments))
    (same :
      ∀ copied ∈ (segment :: segments).dropLast, copied.length = length)
    (bounded : Bounded search)
    (marked : search.wpath length = nul)
    (clean : ∀ c ∈ search.stale, c = nul)
    (run :
      Runs (buildApmList callbacks (joined (segment :: segments)) search)
        trace final) :
    ∀ c ∈ final.stale, c = nul := by
  induction segments generalizing segment search trace with
  | nil =>
      have last := runs_joined_last wellFormed run
      rw [(copied_last_spec wellFormed bounded last).2]
      exact clean
  | cons second rest inductionHypothesis =>
      obtain ⟨early, next, late, rfl, copied, later⟩ :=
        runs_joined_cons wellFormed run
      obtain ⟨path, _, stale, holds, found⟩ :=
        copied_segment_spec wellFormed bounded copied
      obtain ⟨here, there⟩ := List.forall_mem_cons.mp same
      obtain rfl : path = segment := found.mpr (by rw [here, marked])
      refine
        inductionHypothesis wellFormed.tail there holds.beyond ?_ ?_ later
      · rw [← here]
        exact holds.marked
      · rw [stale, here, marked]
        intro c member
        rcases List.mem_append.mp member with old | new
        · exact clean c old
        · exact List.mem_singleton.mp new

/-- A name that fills every array. -/
def longName : CString :=
  List.replicate searchPathSize 'a'

/-- The answers of a file system with one such name in every directory. -/
def LongNames : Step SearchAnswer → Prop
  | ⟨.opendir _, listing⟩ => listing.1 = .entries [longName]
  | ⟨.lstat _, kind⟩ => kind = .other
  | _ => True

/-- Every cell but the one behind the path holds some other character. -/
def Littered (length : Nat) (cells : PathCells) : Prop :=
  ∀ index < searchPathSize, index ≠ length → cells index ≠ nul

theorem length_entryPath_longName
    {path : CString}
    (fits : path.length ≤ searchPathSize) :
    (entryPath searchPathSize path longName).length = searchPathSize := by
  have whole :
      ∀ text : CString,
        text.length ≤ searchPathSize →
          (strncat text longName (searchPathSize - text.length)).length =
            searchPathSize := by
    intro text short
    simp only [strncat, longName, List.length_append, List.length_take,
      List.length_replicate]
    omega
  unfold entryPath
  refine whole _ ?_
  split
  · simp only [strncat, List.length_append, List.length_take,
      List.length_singleton]
    omega
  · exact fits

/-- Where the long name has been, every cell in front of the end is taken. -/
theorem littered_restored
    {path : CString}
    (holds : HoldsPath searchPathSize search.wpath path) :
    Littered path.length
      (poke (entryIn searchPathSize search.wpath longName) path.length
        [nul]) := by
  have entry :
      HoldsPath searchPathSize
        (entryIn searchPathSize search.wpath longName)
        (entryPath searchPathSize path longName) :=
    holdsPath_entryIn holds (by
      intro member
      exact absurd (List.eq_of_mem_replicate member) (by decide))
  have full := length_entryPath_longName holds.fits
  intro index inside other
  have taken :
      entryIn searchPathSize search.wpath longName index ≠ nul := by
    rw [entry.inside index _ (List.getElem?_eq_getElem (by omega))]
    intro isNul
    exact entry.plain (isNul ▸ List.getElem_mem _)
  rcases Nat.lt_or_gt_of_ne other with before | behind
  · rw [poke_before before]
    exact taken
  · rw [poke_behind (by rw [List.length_singleton]; omega)]
    exact taken

/-- The walk of a directory with the long name litters the array. -/
theorem littered_of_walk
    {path : CString}
    (holds : HoldsPath searchPathSize search.wpath path)
    (run : Runs (walkCopied callbacks search) trace next)
    (long : ∀ step ∈ trace, LongNames step) :
    Littered path.length next.wpath := by
  obtain ⟨walking, walked, later, rfl, walk, done⟩ := runs_bind_iff.mp run
  obtain ⟨rfl, rfl⟩ := runs_pure_iff.mp done
  obtain ⟨opening, listing, rest, rfl, opened, entries⟩ :=
    runs_bind_iff.mp walk
  obtain ⟨answer, silent, rfl, given⟩ := runs_ask_bind_iff.mp opened
  obtain ⟨rfl, rfl⟩ := runs_pure_iff.mp given
  have listed : answer.1 = .entries [longName] :=
    long ⟨.opendir _, answer⟩ (by simp)
  rw [listed] at entries
  obtain
    ⟨looking, kind, visiting, visited, polling, interrupted, ending, rfl,
      looked, visit, polled, ended⟩ :=
    runs_turn_iff.mp entries
  obtain rfl := runs_ask_iff.mp looked
  obtain ⟨rfl, rfl⟩ := runs_pure_iff.mp polled
  obtain ⟨⟨⟩, _⟩ | ⟨_, ended⟩ := ended
  have other : kind = .other :=
    long ⟨.lstat _, kind⟩
      (List.mem_append_left _
        (List.mem_append_right _
          (List.mem_append_left _ (List.mem_singleton_self _))))
  subst other
  have shown : longName.head? ≠ some '.' := by
    decide
  unfold visitIn at visit
  rw [if_neg shown] at visit
  obtain ⟨rfl, rfl⟩ := runs_pure_iff.mp visit
  obtain ⟨rfl, rfl⟩ := runs_pure_iff.mp ended
  rw [pathIn_eq holds]
  exact littered_restored holds

/--
Where every directory has the long name, a segment finds a NUL behind it only
if it is as long as the one before.
-/
theorem same_length_of_clean
    {length : Nat}
    {final : ApmSearch State}
    (wellFormed : Segments (segment :: segments))
    (bounded : Bounded search)
    (littered : Littered length search.wpath)
    (run :
      Runs (buildApmList callbacks (joined (segment :: segments)) search)
        trace final)
    (long : ∀ step ∈ trace, LongNames step)
    (clean : ∀ c ∈ final.stale, c = nul) :
    ∀ copied ∈ (segment :: segments).dropLast, copied.length = length := by
  induction segments generalizing segment search trace with
  | nil =>
      simp
  | cons second rest inductionHypothesis =>
      have short := wellFormed.short segment List.mem_cons_self
      obtain ⟨early, next, late, rfl, copied, later⟩ :=
        runs_joined_cons wellFormed run
      obtain ⟨path, walked, stale, holds, found⟩ :=
        copied_segment_spec wellFormed bounded copied
      obtain ⟨_, stale', _, stale_eq, _⟩ :=
        buildApmList_spec wellFormed.tail holds.beyond later
      have marked : search.wpath segment.length = nul := by
        refine clean _ ?_
        rw [stale_eq, stale]
        simp
      have here : segment.length = length := by
        by_contra other
        exact littered segment.length short other marked
      obtain rfl : path = segment := found.mpr marked
      have again : Littered length next.wpath := by
        rw [← here]
        refine littered_of_walk ?_ copied
          fun step member => long step (List.mem_append_left _ member)
        exact
          holdsText_poke bounded (wellFormed.plain path List.mem_cons_self)
            short.le marked
      refine List.forall_mem_cons.mpr ⟨here, ?_⟩
      exact
        inductionHypothesis wellFormed.tail holds.beyond again later
          fun step member => long step (List.mem_append_right _ member)

/-- From the zeros of the start, the first segment gives the length. -/
theorem same_length_of_clean_initial
    {custom : State}
    {final : ApmSearch State}
    (wellFormed : Segments (segment :: segments))
    (run :
      Runs
        (buildApmList callbacks (joined (segment :: segments))
          (.initial custom))
        trace final)
    (long : ∀ step ∈ trace, LongNames step)
    (clean : ∀ c ∈ final.stale, c = nul) :
    ∀ copied ∈ (segment :: segments).dropLast,
      copied.length = segment.length := by
  cases segments with
  | nil =>
      simp
  | cons second rest =>
      obtain ⟨early, next, late, rfl, copied, later⟩ :=
        runs_joined_cons wellFormed run
      obtain ⟨path, _, _, holds, found⟩ :=
        copied_segment_spec wellFormed (bounded_initial custom) copied
      obtain rfl : path = segment := found.mpr rfl
      have littered : Littered path.length next.wpath := by
        refine littered_of_walk ?_ copied
          fun step member => long step (List.mem_append_left _ member)
        exact
          holdsText_poke (bounded_initial custom)
            (wellFormed.plain path List.mem_cons_self)
            (wellFormed.short path List.mem_cons_self).le rfl
      refine List.forall_mem_cons.mpr ⟨rfl, ?_⟩
      exact
        same_length_of_clean wellFormed.tail holds.beyond littered later
          (fun step member => long step (List.mem_append_right _ member))
          clean

/-- Every call can be answered so. -/
theorem exists_longNames
    (request : WalkCall) :
    ∃ answer, LongNames ⟨request, answer⟩ := by
  cases request with
  | opendir path =>
      refine ⟨⟨.entries [longName], ?_⟩, rfl⟩
      rintro names ⟨⟩ name member isIn
      rw [List.mem_singleton.mp member] at isIn
      exact absurd (List.eq_of_mem_replicate isIn) (by decide)
  | lstat path =>
      exact ⟨.other, rfl⟩
  | dirCb path lastEntry =>
      exact ⟨false, trivial⟩
  | fileCb path lastEntry =>
      exact ⟨(), trivial⟩

theorem SearchPath.wellFormed
    {path : CString}
    (searchPath : SearchPath path) :
    Segments (path.splitOn ';') where
  nonempty := fun segment member => (searchPath.segments segment member).1
  whole := fun _ member inside => (mem_of_mem_splitOn member inside).2 rfl
  plain := fun _ member inside =>
    searchPath.plain (mem_of_mem_splitOn member inside).1
  short := fun segment member => (searchPath.segments segment member).2

/--
`walkdir` is called with exactly the segments if and only if each segment that
a semicolon ends finds a NUL behind it in the array; it does so whatever the
directories contain if and only if all these segments have the same length.
-/
theorem walked_eq_segments_iff
    (callbacks : Callbacks SearchAnswer State)
    (custom : State)
    {path : CString}
    (searchPath : SearchPath path) :
    (∀ trace search,
      Runs (buildApmList callbacks path (.initial custom)) trace search →
        (search.walked = path.splitOn ';' ↔ ∀ c ∈ search.stale, c = nul)) ∧
      ((∀ trace search,
        Runs (buildApmList callbacks path (.initial custom)) trace search →
          search.walked = path.splitOn ';') ↔
        ∀ first ∈ (path.splitOn ';').dropLast,
          ∀ second ∈ (path.splitOn ';').dropLast,
            first.length = second.length) := by
  have wellFormed := searchPath.wellFormed
  obtain ⟨segment, segments, pieces⟩ :=
    List.exists_cons_of_ne_nil (List.splitOn_ne_nil ';' path)
  have whole : path = joined (segment :: segments) := by
    rw [← pieces, joined, List.intercalate_splitOn]
  rw [pieces] at wellFormed ⊢
  rw [whole]
  have perRun :
      ∀ trace search,
        Runs
            (buildApmList callbacks (joined (segment :: segments))
              (.initial custom))
            trace search →
          (search.walked = segment :: segments ↔
            ∀ c ∈ search.stale, c = nul) := by
    intro trace search run
    obtain ⟨paths, stale, walked, stale_eq, clean⟩ :=
      buildApmList_spec wellFormed (bounded_initial custom) run
    rw [walked, stale_eq]
    exact clean
  refine ⟨perRun, ?_, ?_⟩
  · intro always
    obtain ⟨trace, search, run, long⟩ :=
      exists_runs_of_answers exists_longNames
        (buildApmList callbacks (joined (segment :: segments))
          (.initial custom))
    have clean := (perRun trace search run).mp (always trace search run)
    have same := same_length_of_clean_initial wellFormed run long clean
    intro first member second member'
    rw [same first member, same second member']
  · intro same trace search run
    have all :
        ∀ copied ∈ (segment :: segments).dropLast,
          copied.length = segment.length := by
      cases segments with
      | nil =>
          simp
      | cons second rest =>
          exact fun copied member =>
            same copied member segment List.mem_cons_self
    refine (perRun trace search run).mpr ?_
    exact
      stale_of_same_length wellFormed all (bounded_initial custom) rfl
        (by simp [ApmSearch.initial]) run

/-- Two segments of one length in front of the last are walked as they are. -/
theorem walked_eq_segments_iff_same_length :
    SearchPath "/lib;/opt;/usr/lib".toList ∧
      ∀ trace search,
        Runs
            (buildApmList
              ⟨fun _ _ state => pure (true, state),
                fun _ _ state => pure state⟩
              "/lib;/opt;/usr/lib".toList (.initial ()))
            trace search →
          search.walked = "/lib;/opt;/usr/lib".toList.splitOn ';' := by
  have pieces :
      "/lib;/opt;/usr/lib".toList.splitOn ';' =
        ["/lib".toList, "/opt".toList, "/usr/lib".toList] :=
    rfl
  have searchPath : SearchPath "/lib;/opt;/usr/lib".toList := by
    refine ⟨by decide, ?_⟩
    rw [pieces]
    decide
  refine ⟨searchPath, ?_⟩
  refine (walked_eq_segments_iff _ () searchPath).2.mpr ?_
  rw [pieces]
  decide

/-- The tail of a longer segment is left behind the next one. -/
theorem walked_stale_tail :
    SearchPath "/bb;/a;/c".toList ∧
      ∃ trace search,
        Runs
            (buildApmList
              ⟨fun _ _ state => pure (true, state),
                fun _ _ state => pure state⟩
              "/bb;/a;/c".toList (.initial ()))
            trace search ∧
          search.walked =
            ["/bb".toList, "/ab".toList, "/c".toList] ∧
          search.walked ≠ "/bb;/a;/c".toList.splitOn ';' := by
  have pieces :
      "/bb;/a;/c".toList.splitOn ';' =
        ["/bb".toList, "/a".toList, "/c".toList] :=
    rfl
  have shape :
      "/bb;/a;/c".toList =
        "/bb".toList ++ ';' :: ("/a".toList ++ ';' :: "/c".toList) :=
    rfl
  let visited : ApmSearch Unit → ApmSearch Unit := fun search =>
    { search with
      walked := search.walked ++ [pathIn searchPathSize search.wpath] }
  have unreadable :
      ∀ search,
        ∃ trace,
          Runs
            (walkCopied
              ⟨fun _ _ state => pure (true, state),
                fun _ _ state => pure state⟩
              search)
            trace (visited search) :=
    fun search =>
      ⟨[⟨.opendir _, ⟨.unreadable, by rintro _ ⟨⟩⟩⟩], .call _ (.done _)⟩
  let first := visited ((ApmSearch.initial ()).copySegment "/bb".toList)
  let second := visited (first.copySegment "/a".toList)
  let third := visited (second.copyLast "/c".toList)
  obtain ⟨trace, run⟩ :=
    unreadable ((ApmSearch.initial ()).copySegment "/bb".toList)
  obtain ⟨trace', run'⟩ := unreadable (first.copySegment "/a".toList)
  obtain ⟨trace'', run''⟩ := unreadable (second.copyLast "/c".toList)
  have walked :
      third.walked = ["/bb".toList, "/ab".toList, "/c".toList] := by
    decide
  refine ⟨⟨by decide, ?_⟩, trace ++ (trace' ++ trace''), third, ?_, walked, ?_⟩
  · rw [pieces]
    decide
  · rw [shape, buildApmList_cons (by decide)]
    refine runs_bind_iff.mpr ⟨trace, first, _, rfl, run, ?_⟩
    rw [buildApmList_cons (by decide)]
    refine runs_bind_iff.mpr ⟨trace', second, trace'', rfl, run', ?_⟩
    rw [buildApmList_last (by decide) (by decide)]
    exact run''
  · rw [walked, pieces]
    decide

end Runs

end Csh.SlashApm
