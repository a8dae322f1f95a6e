import Csh.Lib.FirstOccurrences
import Csh.SlashApm

namespace Csh.SlashApm

open Libc Interaction Walkdir FirstOccurrences

/-!
# The search for APMs

`build_apm_list` collects what its walks find through `file_callback`, which
compares the name it is told with the base names of the stored paths.  A walk
tells the last entry of the path, but for a search path that is itself a file
it tells the whole path.
-/

/-- The text behind the last slash. -/
def baseName (path : CString) : CString :=
  match strrchr '/' path with
  | none => path
  | some dir => path.drop (dir + 1)

/-- What `file_callback` is called with. -/
structure Finding where
  path : CString
  lastEntry : CString
  deriving Repr, DecidableEq

/-- The path that `init_info` stores; its time is left out. -/
def initInfo (path : CString) : CString :=
  path.take (walkdirMaxPathSize - 1)

/-- The path of a finding as it is stored. -/
def Finding.stored (finding : Finding) : CString :=
  initInfo finding.path

/-- The base name of a finding. -/
def Finding.baseName (finding : Finding) : CString :=
  SlashApm.baseName finding.stored

/-- A name with the search string, if there is one, and those of an APM. -/
def isApmName (searchStr : Option CString) (name : CString) : Bool :=
  (searchStr.all fun text => strstr name text) &&
    strstr name "libcsh_".toList && strstr name ".so".toList

/--
`file_callback`: the paths of the libraries that have been found, when the
files in `loaded` are in the queue.
-/
def fileCallback
    (loaded : List CString)
    (searchStr : Option CString)
    (libs : List CString)
    (finding : Finding) :
    List CString :=
  if walkdirMaxEntries ≤ libs.length then
    libs
  else if isApmName searchStr finding.lastEntry = false then
    libs
  else if finding.lastEntry ∈ loaded then
    libs
  else if finding.lastEntry ∈ libs.map baseName then
    libs
  else
    libs ++ [finding.stored]

/-- The callbacks of a search; a finding is a call in the trace. -/
def searchCallbacks
    (loaded : List CString)
    (searchStr : Option CString) :
    Callbacks SearchAnswer (List CString) where
  dirCb := fun _ _ libs => pure (true, libs)
  fileCb := fun path lastEntry libs => do
    let _ : Unit ← Prog.ask (WalkCall.fileCb path lastEntry)
    pure (fileCallback loaded searchStr libs ⟨path, lastEntry⟩)

/-- The findings of a run. -/
def findings (trace : List (Step SearchAnswer)) : List Finding :=
  trace.filterMap fun step =>
    match step.request with
    | .fileCb path lastEntry => some ⟨path, lastEntry⟩
    | _ => none

/-- A finding with the base name of an APM that is not loaded. -/
def Finding.isWanted
    (loaded : List CString)
    (searchStr : Option CString)
    (finding : Finding) :
    Bool :=
  isApmName searchStr finding.baseName && decide (finding.baseName ∉ loaded)

/-- The stored paths of the wanted findings, in the order they are met. -/
def wantedPaths
    (loaded : List CString)
    (searchStr : Option CString)
    (found : List Finding) :
    List CString :=
  (found.filter (Finding.isWanted loaded searchStr)).map Finding.stored

/-- What a search should collect of its findings. -/
structure Collected
    (loaded : List CString)
    (searchStr : Option CString)
    (found : List Finding)
    (libs : List CString) :
    Prop where
  distinct : (libs.map baseName).Nodup
  notLoaded : ∀ lib ∈ libs, baseName lib ∉ loaded
  few : libs.length ≤ walkdirMaxEntries
  firsts :
    ∀ path ∈
      (firstOccurrences baseName [] (wantedPaths loaded searchStr found)).take
        walkdirMaxEntries,
      path ∈ libs

/-- A finding that is told by its base name, if either name is one of an APM. -/
def Finding.Named (searchStr : Option CString) (finding : Finding) : Prop :=
  isApmName searchStr finding.lastEntry = true ∨
      isApmName searchStr finding.baseName = true →
    finding.lastEntry = finding.baseName

section Collecting

variable {loaded libs : List CString}
variable {searchStr : Option CString}
variable {finding : Finding}
variable {found : List Finding}

/-- A finding that is told by its base name is kept if it is new and wanted. -/
theorem fileCallback_of_named
    (named : finding.Named searchStr) :
    fileCallback loaded searchStr libs finding =
      if finding.isWanted loaded searchStr then
        keepNew baseName walkdirMaxEntries libs finding.stored
      else
        libs := by
  rw [fileCallback, keepNew, Finding.isWanted]
  by_cases full : walkdirMaxEntries ≤ libs.length
  · have kept :
        walkdirMaxEntries ≤ libs.length ∨
          baseName finding.stored ∈ libs.map baseName :=
      .inl full
    rw [if_pos full, if_pos kept, ite_self]
  rw [if_neg full]
  cases isApm : isApmName searchStr finding.lastEntry with
  | false =>
      have notApm : isApmName searchStr finding.baseName = false := by
        by_contra isBase
        rw [Bool.not_eq_false] at isBase
        rw [named (.inr isBase), isBase] at isApm
        cases isApm
      rw [if_pos rfl, notApm, Bool.false_and, if_neg Bool.false_ne_true]
  | true =>
      have same : finding.lastEntry = finding.baseName := named (.inl isApm)
      rw [same] at isApm ⊢
      have stored : baseName finding.stored = finding.baseName :=
        rfl
      rw [if_neg Bool.noConfusion, isApm, Bool.true_and, stored]
      by_cases old : finding.baseName ∈ loaded
      · rw [if_pos old, if_neg (by simpa using old)]
      · rw [if_neg old, if_pos (decide_eq_true old)]
        by_cases again : finding.baseName ∈ libs.map baseName
        · rw [if_pos again, if_pos (.inr again)]
        · rw [if_neg again, if_neg (not_or.mpr ⟨full, again⟩)]

/-- Findings that are told by their base names are collected in order. -/
theorem foldl_fileCallback
    (named : ∀ finding ∈ found, finding.Named searchStr)
    (libs : List CString) :
    found.foldl (fileCallback loaded searchStr) libs =
      (wantedPaths loaded searchStr found).foldl
        (keepNew baseName walkdirMaxEntries) libs := by
  induction found generalizing libs with
  | nil =>
      rfl
  | cons finding rest inductionHypothesis =>
      obtain ⟨here, later⟩ := List.forall_mem_cons.mp named
      rw [List.foldl_cons, fileCallback_of_named here,
        inductionHypothesis later]
      unfold wantedPaths
      rw [List.filter_cons]
      split
      · rw [List.map_cons, List.foldl_cons]
      · rfl

/-- The paths that are collected are the first occurrences, up to the limit. -/
theorem collected_of_named
    (named : ∀ finding ∈ found, finding.Named searchStr) :
    Collected loaded searchStr found
      (found.foldl (fileCallback loaded searchStr) []) := by
  rw [foldl_fileCallback named, foldl_keepNew _ (Nat.zero_le _)]
  have taken :=
    List.take_sublist (walkdirMaxEntries - ([] : List CString).length)
      (firstOccurrences baseName (([] : List CString).map baseName)
        (wantedPaths loaded searchStr found))
  refine ⟨?_, ?_, ?_, ?_⟩
  · exact (nodup_firstOccurrences _ _).sublist (taken.map baseName)
  · intro lib member
    have wanted := (firstOccurrences_sublist _ _).subset (taken.subset member)
    obtain ⟨finding, kept, rfl⟩ := List.mem_map.mp wanted
    have isWanted := (List.mem_filter.mp kept).2
    rw [Finding.isWanted, Bool.and_eq_true] at isWanted
    exact of_decide_eq_true isWanted.2
  · exact List.length_take_le _ _
  · exact fun path member => member

/-- What is found and collected twice, or passed over. -/
theorem named_of_collected
    (collected :
      ∀ found : List Finding, (∀ other ∈ found, other = finding) →
        Collected [] searchStr found
          (found.foldl (fileCallback [] searchStr) [])) :
    finding.Named searchStr := by
  by_contra misnamed
  rw [Finding.Named, Classical.not_imp] at misnamed
  obtain ⟨isApm, differs⟩ := misnamed
  by_cases told : isApmName searchStr finding.lastEntry = true
  · have twice :=
      (collected [finding, finding] (by simp)).distinct
    have first : fileCallback [] searchStr [] finding = [finding.stored] := by
      simp [fileCallback, told, walkdirMaxEntries]
    have second :
        fileCallback [] searchStr [finding.stored] finding =
          [finding.stored, finding.stored] := by
      have notBase : finding.lastEntry ≠ baseName finding.stored := differs
      simp [fileCallback, told, walkdirMaxEntries, notBase]
    rw [List.foldl_cons, first, List.foldl_cons, second] at twice
    simp at twice
  · have isBase := isApm.resolve_left told
    have once := (collected [finding] (by simp)).firsts finding.stored
    have wanted :
        wantedPaths [] searchStr [finding] = [finding.stored] := by
      simp [wantedPaths, Finding.isWanted, isBase]
    rw [wanted] at once
    simp [firstOccurrences, walkdirMaxEntries, fileCallback, told] at once

end Collecting

section Runs

variable {loaded : List CString}
variable {searchStr : Option CString}

theorem kept_walkCopied
    {State : Type}
    {callbacks : Callbacks SearchAnswer State}
    {relation : List (Step SearchAnswer) → State → State → Prop}
    (kept : Kept searchSurroundings callbacks relation)
    {search result : ApmSearch State}
    {trace : List (Step SearchAnswer)}
    (run : Runs (walkCopied callbacks search) trace result) :
    relation trace search.custom result.custom := by
  obtain ⟨walking, walked, later, rfl, walks, done⟩ := runs_bind_iff.mp run
  obtain ⟨rfl, rfl⟩ := runs_pure_iff.mp done
  rw [List.append_nil]
  exact kept.walkdirIn walks

/-- What the callbacks keep holds of the walks of a whole search path. -/
theorem kept_buildApmList
    {State : Type}
    {callbacks : Callbacks SearchAnswer State}
    {relation : List (Step SearchAnswer) → State → State → Prop}
    (kept : Kept searchSurroundings callbacks relation)
    {path : CString}
    {search result : ApmSearch State}
    {trace : List (Step SearchAnswer)}
    (run : Runs (buildApmList callbacks path search) trace result) :
    relation trace search.custom result.custom := by
  induction path, search using buildApmList.induct generalizing trace with
  | case1 search =>
      rw [buildApmList, dif_pos rfl] at run
      obtain ⟨rfl, rfl⟩ := runs_pure_iff.mp run
      exact kept.nothing _
  | case2 path search more last =>
      rw [buildApmList, dif_neg more, last] at run
      have walked := kept_walkCopied kept run
      exact walked
  | case3 path search more split found inductionHypothesis =>
      rw [buildApmList, dif_neg more, found] at run
      obtain ⟨first, middle, later, rfl, walks, rest⟩ := runs_bind_iff.mp run
      have walked := kept_walkCopied kept walks
      exact kept.append walked (inductionHypothesis middle rest)

theorem findings_append
    (first later : List (Step SearchAnswer)) :
    findings (first ++ later) = findings first ++ findings later :=
  List.filterMap_append

/-- A walk collects its findings one after the other. -/
theorem kept_searchCallbacks
    (loaded : List CString)
    (searchStr : Option CString) :
    Kept searchSurroundings (searchCallbacks loaded searchStr)
      fun trace libs final =>
        final = (findings trace).foldl (fileCallback loaded searchStr) libs where
  nothing := fun _ => rfl
  append := by
    rintro first later state middle final rfl rfl
    rw [findings_append, List.foldl_append]
  opendir := by
    intro path trace listing state run
    obtain ⟨answer, rfl, rfl⟩ := runs_ask_return_iff.mp run
    rfl
  lstat := by
    intro path trace kind state run
    rw [runs_ask_iff.mp run]
    rfl
  interrupted := by
    intro trace answer state run
    obtain ⟨rfl, _⟩ := runs_pure_iff.mp run
    rfl
  dirCb := by
    intro path name state trace result run
    obtain ⟨rfl, rfl⟩ := runs_pure_iff.mp run
    rfl
  fileCb := by
    intro path name state trace result run
    obtain ⟨answer, rfl, rfl⟩ := runs_ask_return_iff.mp run
    rfl

end Runs

/--
Every run of `build_apm_list` over segments that fit collects what it should
when its findings are told by their base names; and no other findings are
collected as they should in every order and repetition, whatever is loaded.
-/
theorem buildApmList_collected_iff
    (searchStr : Option CString) :
    (∀ loaded path trace result,
        SegmentsFit path →
        Runs
            (buildApmList (searchCallbacks loaded searchStr) path
              (.initial []))
            trace result →
          (∀ finding ∈ findings trace, finding.Named searchStr) →
            Collected loaded searchStr (findings trace) result.custom) ∧
      ∀ reported : Finding → Prop,
        (∀ loaded found,
            (∀ finding ∈ found, reported finding) →
              Collected loaded searchStr found
                (found.foldl (fileCallback loaded searchStr) [])) ↔
          ∀ finding, reported finding → finding.Named searchStr := by
  refine ⟨?_, fun reported => ⟨?_, ?_⟩⟩
  · intro loaded path trace result _ run named
    rw [kept_buildApmList (kept_searchCallbacks loaded searchStr) run]
    exact collected_of_named named
  · intro collected finding isReported
    refine named_of_collected fun found same => collected [] found ?_
    intro other member
    rw [same other member]
    exact isReported
  · intro named loaded found reports
    exact collected_of_named fun finding member =>
      named finding (reports finding member)

/-- A search path that names the file of a loaded APM finds it again. -/
theorem buildApmList_collects_loaded :
    ¬ ∀ (loaded : List CString) (searchStr : Option CString) (path : CString)
        (trace : List (Step SearchAnswer)) (result : ApmSearch (List CString)),
      SegmentsFit path →
      Runs
          (buildApmList (searchCallbacks loaded searchStr) path (.initial []))
          trace result →
        Collected loaded searchStr (findings trace) result.custom := by
  intro collected
  let search :=
    (ApmSearch.initial ([] : List CString)).copyLast "/a/libcsh_x.so".toList
  have run :
      ∃ trace result,
        Runs
            (buildApmList (searchCallbacks ["libcsh_x.so".toList] none)
              "/a/libcsh_x.so".toList (.initial []))
            trace result ∧
          result.custom = ["/a/libcsh_x.so".toList] := by
    rw [buildApmList_last (by decide) (by decide)]
    refine
      ⟨[⟨.opendir _, ⟨.notDirectory, by rintro _ ⟨⟩⟩⟩, ⟨.fileCb _ _, ()⟩], _,
        .call _ (.call _ (.done _)), ?_⟩
    decide
  obtain ⟨trace, result, run, found⟩ := run
  have fits : SegmentsFit "/a/libcsh_x.so".toList :=
    segmentsFit_of_single (by decide) (by decide)
  have fresh := (collected _ none _ trace result fits run).notLoaded
  rw [found] at fresh
  exact absurd fresh (by decide)

end Csh.SlashApm
