import Csh.Walkdir

namespace Csh.Walkdir

open Libc Interaction

/-!
# What a walk finds in a tree

The walk of an unchanging directory tree whose paths fit: which files reach
the callback, how often, and what the path reads as when the walk is over.
-/

/-- What `walkdir` asks the file system, and its calls of the callbacks. -/
inductive WalkCall where
  | opendir (path : CString)
  | lstat (path : CString)
  | dirCb (path lastEntry : CString)
  | fileCb (path lastEntry : CString)
  deriving Repr, DecidableEq

/-- The answers to the calls of a walk. -/
abbrev WalkAnswer : WalkCall → Type
  | .opendir _ => Listing
  | .lstat _ => FileKind
  | .dirCb _ _ => Bool
  | .fileCb _ _ => Unit

/-- The calls of a walk with their answers. -/
abbrev WalkTrace : Type :=
  List (Step WalkAnswer)

/-- The surroundings of a walk that is not interrupted. -/
def uninterrupted : Surroundings WalkAnswer where
  opendir := fun path => Prog.ask (WalkCall.opendir path)
  lstat := fun path => Prog.ask (WalkCall.lstat path)
  interrupted := pure false

/-- Callbacks that may do anything; `dir_cb` may be NULL. -/
def anyCallbacks (hasDirCb : Bool) : Callbacks WalkAnswer Unit where
  dirCb := fun path lastEntry _ =>
    if hasDirCb then do
      let accepted : Bool ← Prog.ask (WalkCall.dirCb path lastEntry)
      pure (accepted, ())
    else
      pure (false, ())
  fileCb := fun path lastEntry _ => Prog.ask (WalkCall.fileCb path lastEntry)

/-- The path and the entry of a call of `file_cb`. -/
def fileCall? (step : Step WalkAnswer) : Option (CString × CString) :=
  match step.request with
  | .fileCb path lastEntry => some (path, lastEntry)
  | _ => none

/-- The path that a callback is called with. -/
def callbackPath? (step : Step WalkAnswer) : Option CString :=
  match step.request with
  | .dirCb path _ => some path
  | .fileCb path _ => some path
  | _ => none

/-- A call of `dir_cb` that returned true. -/
def acceptedPath? : Step WalkAnswer → Option CString
  | ⟨.dirCb path _, true⟩ => some path
  | _ => none

/-- The directories that `dir_cb` accepted. -/
def Accepted (trace : WalkTrace) (path : CString) : Prop :=
  path ∈ trace.filterMap acceptedPath?

/-- The path with a slash at its end. -/
def slashed (dir : CString) : CString :=
  if dir.getLast? = some '/' then dir else dir ++ ['/']

/-- The full path of an entry. -/
def childPath (dir name : CString) : CString :=
  slashed dir ++ name

/-- A name that starts with a dot. -/
def Hidden (name : CString) : Prop :=
  name.head? = some '.'

/--
An unchanging tree, by what `lstat` and `opendir` report at each path: what is
a directory can be listed, and its entries have different names.
-/
structure FileTree where
  lstat : CString → FileKind
  opendir : CString → Listing
  listed :
    ∀ path, lstat path = .directory → ∃ names, opendir path = .entries names
  distinct : ∀ path names, opendir path = .entries names → names.Nodup
  proper :
    ∀ path names,
      opendir path = .entries names →
        ∀ name ∈ names, name ≠ [] ∧ '/' ∉ name

namespace FileTree

/-- The entries of a directory. -/
def names (tree : FileTree) (dir : CString) : List CString :=
  match tree.opendir dir with
  | .entries names => names
  | _ => []

/-- The file system answers with the tree. -/
def Reports (tree : FileTree) : Step WalkAnswer → Prop
  | ⟨.opendir path, listing⟩ => listing = tree.opendir path
  | ⟨.lstat path, kind⟩ => kind = tree.lstat path
  | _ => True

/--
The regular files below a directory, with their full paths, that are reached
through at most `depth` accepted directories and no hidden name.
-/
inductive Reached
    (tree : FileTree)
    (accepted : CString → Prop) :
    Nat → CString → CString → CString → Prop where
  | file
      {depth : Nat}
      {dir name : CString}
      (member : name ∈ tree.names dir)
      (shown : ¬ Hidden name)
      (regular : tree.lstat (childPath dir name) = .regular) :
      Reached tree accepted depth dir (childPath dir name) name
  | deeper
      {depth : Nat}
      {dir name path lastEntry : CString}
      (member : name ∈ tree.names dir)
      (shown : ¬ Hidden name)
      (directory : tree.lstat (childPath dir name) = .directory)
      (entered : accepted (childPath dir name))
      (reached :
        Reached tree accepted depth (childPath dir name) path lastEntry) :
      Reached tree accepted (depth + 1) dir path lastEntry

/-- The full paths below a directory without hidden names in between. -/
inductive Visible (tree : FileTree) : CString → CString → Prop where
  | entry
      {dir name : CString}
      (member : name ∈ tree.names dir)
      (shown : ¬ Hidden name) :
      Visible tree dir (childPath dir name)
  | deeper
      {dir name path : CString}
      (member : name ∈ tree.names dir)
      (shown : ¬ Hidden name)
      (directory : tree.lstat (childPath dir name) = .directory)
      (visible : Visible tree (childPath dir name) path) :
      Visible tree dir path

/-- The directory and the paths below it fit. -/
structure Fits (tree : FileTree) (pathSize : Nat) (dir : CString) : Prop where
  self : dir.length ≤ pathSize
  visible : ∀ path, tree.Visible dir path → path.length ≤ pathSize

variable {tree : FileTree}
variable {accepted accepted' : CString → Prop}
variable {depth pathSize : Nat}
variable {dir name path lastEntry : CString}

theorem Fits.child
    (fits : tree.Fits pathSize dir)
    (member : name ∈ tree.names dir)
    (shown : ¬ Hidden name)
    (directory : tree.lstat (childPath dir name) = .directory) :
    tree.Fits pathSize (childPath dir name) where
  self := fits.visible _ (.entry member shown)
  visible := fun path visible =>
    fits.visible path (.deeper member shown directory visible)

/-- A tree fits where the paths of all entries do. -/
theorem Fits.of_names
    (self : dir.length ≤ pathSize)
    (entries :
      ∀ dir, ∀ name ∈ tree.names dir, (childPath dir name).length ≤ pathSize) :
    tree.Fits pathSize dir where
  self := self
  visible := by
    intro path visible
    induction visible with
    | entry member shown => exact entries _ _ member
    | deeper member shown directory visible inductionHypothesis =>
        exact inductionHypothesis (entries _ _ member)

theorem names_of_opendir
    {names : List CString}
    (opened : tree.opendir dir = .entries names) :
    tree.names dir = names := by
  simp [FileTree.names, opened]

theorem names_proper
    (member : name ∈ tree.names dir) :
    name ≠ [] ∧ '/' ∉ name := by
  unfold FileTree.names at member
  split at member
  · rename_i names opened
    exact tree.proper dir names opened name member
  · simp at member

/-- A file reached at one of the entries of a directory. -/
def ReachedAt
    (tree : FileTree)
    (accepted : CString → Prop)
    (depth : Nat)
    (dir name path lastEntry : CString) :
    Prop :=
  ¬ Hidden name ∧
    (tree.lstat (childPath dir name) = .regular ∧
        path = childPath dir name ∧ lastEntry = name ∨
      ∃ less,
        depth = less + 1 ∧
          tree.lstat (childPath dir name) = .directory ∧
          accepted (childPath dir name) ∧
          tree.Reached accepted less (childPath dir name) path lastEntry)

theorem reached_iff_reachedAt :
    tree.Reached accepted depth dir path lastEntry ↔
      ∃ name ∈ tree.names dir,
        tree.ReachedAt accepted depth dir name path lastEntry := by
  constructor
  · rintro (⟨member, shown, regular⟩ |
      ⟨member, shown, directory, entered, reached⟩)
    · exact ⟨_, member, shown, .inl ⟨regular, rfl, rfl⟩⟩
    · exact
        ⟨_, member, shown, .inr ⟨_, rfl, directory, entered, reached⟩⟩
  · rintro ⟨name, member, shown, ⟨regular, rfl, rfl⟩ |
      ⟨less, rfl, directory, entered, reached⟩⟩
    · exact .file member shown regular
    · exact .deeper member shown directory entered reached

end FileTree

section Paths

variable {dir name other path : CString}

/-- The path of an entry or one below it. -/
def Under (dir name path : CString) : Prop :=
  ∃ rest,
    path = childPath dir name ++ rest ∧
      (rest = [] ∨ ∃ more, rest = '/' :: more)

theorem under_self
    (dir name : CString) :
    Under dir name (childPath dir name) :=
  ⟨[], by simp, .inl rfl⟩

/-- An entry ends in no slash, so that its own entries have one before them. -/
theorem slashed_childPath
    (nonempty : name ≠ [])
    (plain : '/' ∉ name) :
    slashed (childPath dir name) = childPath dir name ++ ['/'] := by
  unfold slashed
  rw [if_neg]
  intro slash
  rw [childPath, List.getLast?_append_of_ne_nil _ nonempty] at slash
  exact plain (List.mem_of_getLast? slash)

/-- What is below an entry of an entry is strictly below the entry. -/
theorem Under.child
    (nonempty : name ≠ [])
    (plain : '/' ∉ name)
    (under : Under (childPath dir name) other path) :
    Under dir name path ∧ path ≠ childPath dir name := by
  obtain ⟨rest, rfl, _⟩ := under
  have shape :
      childPath (childPath dir name) other ++ rest =
        childPath dir name ++ '/' :: (other ++ rest) := by
    rw [childPath, slashed_childPath nonempty plain]
    simp
  rw [shape]
  exact ⟨⟨_, rfl, .inr ⟨_, rfl⟩⟩, by simp⟩

theorem eq_of_append_slash
    {rest rest' : CString}
    (plain : '/' ∉ name)
    (plain' : '/' ∉ other)
    (ends : rest = [] ∨ ∃ more, rest = '/' :: more)
    (ends' : rest' = [] ∨ ∃ more, rest' = '/' :: more)
    (same : name ++ rest = other ++ rest') :
    name = other := by
  have front :
      ∀ {text tail : CString},
        '/' ∉ text →
          (tail = [] ∨ ∃ more, tail = '/' :: more) →
            (text ++ tail).takeWhile (· != '/') = text := by
    intro text tail none behind
    rcases behind with rfl | ⟨more, rfl⟩
    · rw [List.append_nil]
      exact takeWhile_of_not_mem none
    · exact takeWhile_append_mark none more
  rw [← front plain ends, same, front plain' ends']

/-- A path is below one entry only. -/
theorem Under.unique
    (plain : '/' ∉ name)
    (plain' : '/' ∉ other)
    (under : Under dir name path)
    (under' : Under dir other path) :
    name = other := by
  obtain ⟨rest, rfl, ends⟩ := under
  obtain ⟨rest', same, ends'⟩ := under'
  rw [childPath, childPath, List.append_assoc, List.append_assoc] at same
  exact
    eq_of_append_slash plain plain' ends ends'
      (List.append_cancel_left same)

end Paths

section Accepted

variable {tree : FileTree}
variable {accepted accepted' : CString → Prop}
variable {depth : Nat}
variable {dir name path lastEntry : CString}
variable {trace first later : WalkTrace}

theorem accepted_append :
    Accepted (first ++ later) path ↔
      Accepted first path ∨ Accepted later path := by
  simp [Accepted, List.filterMap_append]

/-- An accepted directory is one that a callback was called with. -/
theorem Accepted.called
    (accepted : Accepted trace path) :
    path ∈ trace.filterMap callbackPath? := by
  obtain ⟨step, member, asked⟩ := List.mem_filterMap.mp accepted
  refine List.mem_filterMap.mpr ⟨step, member, ?_⟩
  unfold acceptedPath? at asked
  split at asked
  · simpa [callbackPath?] using asked
  · simp at asked

/-- Which files are reached depends on the directories below only. -/
theorem FileTree.Reached.congr
    (reached : tree.Reached accepted depth dir path lastEntry)
    (agree :
      ∀ name ∈ tree.names dir, ∀ inside,
        Under dir name inside → (accepted inside ↔ accepted' inside)) :
    tree.Reached accepted' depth dir path lastEntry := by
  induction reached with
  | file member shown regular =>
      exact .file member shown regular
  | @deeper depth dir name path lastEntry member shown directory entered _
      inductionHypothesis =>
      have proper := FileTree.names_proper member
      refine
        .deeper member shown directory
          ((agree name member _ (under_self dir name)).mp entered)
          (inductionHypothesis fun inner _ inside under => ?_)
      exact agree name member inside (under.child proper.1 proper.2).1

theorem FileTree.reachedAt_congr
    (proper : name ≠ [] ∧ '/' ∉ name)
    (agree :
      ∀ inside,
        Under dir name inside → (accepted inside ↔ accepted' inside)) :
    tree.ReachedAt accepted depth dir name path lastEntry ↔
      tree.ReachedAt accepted' depth dir name path lastEntry := by
  have inner :
      ∀ inside other,
        Under (childPath dir name) other inside →
          (accepted inside ↔ accepted' inside) :=
    fun inside other under =>
      agree inside (under.child proper.1 proper.2).1
  have atSelf := agree _ (under_self dir name)
  unfold FileTree.ReachedAt
  refine and_congr_right fun _ => or_congr_right ?_
  constructor
  · rintro ⟨less, rfl, directory, entered, reached⟩
    exact
      ⟨less, rfl, directory, atSelf.mp entered,
        reached.congr fun other _ inside under => inner inside other under⟩
  · rintro ⟨less, rfl, directory, entered, reached⟩
    exact
      ⟨less, rfl, directory, atSelf.mpr entered,
        reached.congr fun other _ inside under =>
          (inner inside other under).symm⟩

end Accepted

/--
What a walk over some of the entries of a directory has done: the path is
restored, every callback was called with a path of its own, below one of the
entries, and the files are those that are reached.
-/
structure Walked
    (tree : FileTree)
    (depth : Nat)
    (dir : CString)
    (names : List CString)
    (trace : WalkTrace)
    (path : CString) :
    Prop where
  restored : path = dir
  distinct : (trace.filterMap callbackPath?).Nodup
  under :
    ∀ inside ∈ trace.filterMap callbackPath?,
      ∃ name ∈ names, Under dir name inside
  files :
    ∀ file lastEntry,
      (file, lastEntry) ∈ trace.filterMap fileCall? ↔
        ∃ name ∈ names,
          tree.ReachedAt (Accepted trace) depth dir name file lastEntry

section Walked

variable {tree : FileTree}
variable {depth pathSize : Nat}
variable {dir name path : CString}
variable {names : List CString}
variable {trace first later : WalkTrace}

theorem walked_nil :
    Walked tree depth dir [] [] dir := by
  refine ⟨rfl, ?_, ?_, ?_⟩ <;> simp

theorem fileCall?_eq_none
    {step : Step WalkAnswer}
    (silent : callbackPath? step = none) :
    fileCall? step = none := by
  rcases step with ⟨request, answer⟩
  cases request <;> simp_all [callbackPath?, fileCall?]

theorem acceptedPath?_eq_none
    {step : Step WalkAnswer}
    (silent : callbackPath? step = none) :
    acceptedPath? step = none := by
  rcases step with ⟨request, answer⟩
  cases request <;> simp_all [callbackPath?, acceptedPath?]

/-- A step that calls no callback adds nothing. -/
theorem Walked.cons
    {step : Step WalkAnswer}
    (walked : Walked tree depth dir names trace path)
    (silent : callbackPath? step = none) :
    Walked tree depth dir names (step :: trace) path := by
  have noFile := fileCall?_eq_none silent
  have same : Accepted (step :: trace) = Accepted trace := by
    funext inside
    simp [Accepted, acceptedPath?_eq_none silent]
  obtain ⟨restored, distinct, under, files⟩ := walked
  refine ⟨restored, ?_, ?_, ?_⟩
  · simpa [silent] using distinct
  · simpa [silent] using under
  · rw [same]
    simpa [noFile] using files

/-- The directories accepted elsewhere do not matter at an entry. -/
theorem Walked.agree
    {others : List CString}
    (walked : Walked tree depth dir others later path)
    (proper : '/' ∉ name)
    (othersProper : ∀ other ∈ others, '/' ∉ other)
    (apart : name ∉ others)
    {inside : CString}
    (under : Under dir name inside) :
    ¬ Accepted later inside := by
  intro accepted
  obtain ⟨other, member, under'⟩ := walked.under inside accepted.called
  have same := under.unique proper (othersProper other member) under'
  exact apart (same ▸ member)

/-- The entries of two parts of a directory, one part behind the other. -/
theorem Walked.append
    {others : List CString}
    {between : CString}
    (walked : Walked tree depth dir names first between)
    (walked' : Walked tree depth dir others later path)
    (proper : ∀ name ∈ names ++ others, name ≠ [] ∧ '/' ∉ name)
    (apart : (names ++ others).Nodup) :
    Walked tree depth dir (names ++ others) (first ++ later) path := by
  have disjoint := (List.nodup_append.mp apart).2.2
  have plain : ∀ name ∈ names, '/' ∉ name :=
    fun name member => (proper name (by simp [member])).2
  have plain' : ∀ name ∈ others, '/' ∉ name :=
    fun name member => (proper name (by simp [member])).2
  refine ⟨walked'.restored, ?_, ?_, ?_⟩
  · rw [List.filterMap_append]
    refine List.nodup_append.mpr
      ⟨walked.distinct, walked'.distinct, fun inside member other member' => ?_⟩
    rintro rfl
    obtain ⟨name, inNames, under⟩ := walked.under inside member
    obtain ⟨other, inOthers, under'⟩ := walked'.under inside member'
    have same :=
      under.unique (plain name inNames) (plain' other inOthers) under'
    exact disjoint name inNames other inOthers same
  · intro inside member
    rw [List.filterMap_append, List.mem_append] at member
    rcases member with early | late
    · obtain ⟨name, inNames, under⟩ := walked.under inside early
      exact ⟨name, by simp [inNames], under⟩
    · obtain ⟨name, inOthers, under⟩ := walked'.under inside late
      exact ⟨name, by simp [inOthers], under⟩
  · intro file lastEntry
    have early :
        ∀ name ∈ names,
          (tree.ReachedAt (Accepted (first ++ later)) depth dir name file
              lastEntry ↔
            tree.ReachedAt (Accepted first) depth dir name file
              lastEntry) := by
      intro name member
      refine FileTree.reachedAt_congr (proper name (by simp [member]))
        fun inside under => ?_
      have none :=
        walked'.agree (plain name member) plain'
          (fun inOthers => disjoint name member name inOthers rfl) under
      rw [accepted_append, or_iff_left none]
    have late :
        ∀ name ∈ others,
          (tree.ReachedAt (Accepted (first ++ later)) depth dir name file
              lastEntry ↔
            tree.ReachedAt (Accepted later) depth dir name file
              lastEntry) := by
      intro name member
      refine FileTree.reachedAt_congr (proper name (by simp [member]))
        fun inside under => ?_
      have none :=
        walked.agree (plain' name member) plain
          (fun inNames => disjoint name inNames name member rfl) under
      rw [accepted_append, or_iff_right none]
    rw [List.filterMap_append, List.mem_append, walked.files file lastEntry,
      walked'.files file lastEntry]
    constructor
    · rintro (⟨name, member, reached⟩ | ⟨name, member, reached⟩)
      · exact ⟨name, by simp [member], (early name member).mpr reached⟩
      · exact ⟨name, by simp [member], (late name member).mpr reached⟩
    · rintro ⟨name, member, reached⟩
      rcases List.mem_append.mp member with inNames | inOthers
      · exact .inl ⟨name, inNames, (early name inNames).mp reached⟩
      · exact .inr ⟨name, inOthers, (late name inOthers).mp reached⟩

/-- An entry that no callback is called for. -/
theorem walked_skipped
    (unreached :
      ∀ file lastEntry,
        ¬ tree.ReachedAt (Accepted []) depth dir name file lastEntry) :
    Walked tree depth dir [name] [] dir := by
  refine ⟨rfl, ?_, ?_, ?_⟩
  · simp
  · simp
  · intro file lastEntry
    simpa using unreached file lastEntry

/-- A regular file, which `file_cb` is called for. -/
theorem walked_file
    (shown : ¬ Hidden name)
    (regular : tree.lstat (childPath dir name) = .regular) :
    Walked tree depth dir [name] [⟨.fileCb (childPath dir name) name, ()⟩]
      dir := by
  refine ⟨rfl, ?_, ?_, ?_⟩
  · simp [callbackPath?]
  · simpa [callbackPath?] using under_self dir name
  · intro file lastEntry
    simp [fileCall?, FileTree.ReachedAt, shown, regular]

/-- A directory that `dir_cb` declines. -/
theorem walked_declined
    (directory : tree.lstat (childPath dir name) = .directory) :
    Walked tree depth dir [name] [⟨.dirCb (childPath dir name) name, false⟩]
      dir := by
  refine ⟨rfl, ?_, ?_, ?_⟩
  · simp [callbackPath?]
  · simpa [callbackPath?] using under_self dir name
  · intro file lastEntry
    simp [fileCall?, FileTree.ReachedAt, directory, Accepted, acceptedPath?]

/-- A directory that `dir_cb` accepts, with the walk of it. -/
theorem walked_entered
    (proper : name ≠ [] ∧ '/' ∉ name)
    (shown : ¬ Hidden name)
    (directory : tree.lstat (childPath dir name) = .directory)
    (walked :
      Walked tree depth (childPath dir name)
        (tree.names (childPath dir name)) trace path) :
    Walked tree (depth + 1) dir [name]
      (⟨.dirCb (childPath dir name) name, true⟩ :: trace) dir := by
  obtain ⟨_, distinct, under, files⟩ := walked
  have strictly :
      ∀ inside ∈ trace.filterMap callbackPath?,
        Under dir name inside ∧ inside ≠ childPath dir name := by
    intro inside member
    obtain ⟨other, _, inner⟩ := under inside member
    exact inner.child proper.1 proper.2
  refine ⟨rfl, ?_, ?_, ?_⟩
  · simp only [callbackPath?, List.filterMap_cons, List.nodup_cons]
    exact ⟨fun member => (strictly _ member).2 rfl, distinct⟩
  · simp only [callbackPath?, List.filterMap_cons, List.mem_cons,
      List.not_mem_nil, or_false, exists_eq_left]
    rintro inside (rfl | member)
    · exact under_self dir name
    · exact (strictly inside member).1
  · intro file lastEntry
    have entered :
        ∀ inside,
          Accepted (⟨.dirCb (childPath dir name) name, true⟩ :: trace)
              inside ↔
            inside = childPath dir name ∨ Accepted trace inside := by
      simp [Accepted, acceptedPath?]
    have agree :
        ∀ other inside,
          Under (childPath dir name) other inside →
            (Accepted trace inside ↔
              Accepted (⟨.dirCb (childPath dir name) name, true⟩ :: trace)
                inside) := by
      intro other inside inner
      rw [entered, or_iff_right (inner.child proper.1 proper.2).2]
    rw [List.filterMap_cons]
    simp only [fileCall?, files file lastEntry]
    rw [← FileTree.reached_iff_reachedAt]
    simp only [List.mem_singleton, exists_eq_left, FileTree.ReachedAt]
    constructor
    · intro reached
      exact
        ⟨shown, .inr ⟨depth, rfl, directory, (entered _).mpr (.inl rfl),
          reached.congr fun other _ inside inner =>
            agree other inside inner⟩⟩
    · rintro ⟨_, ⟨regular, _⟩ | ⟨less, same, _, _, reached⟩⟩
      · rw [directory] at regular
        cases regular
      · cases same
        exact
          reached.congr fun other _ inside inner =>
            (agree other inside inner).symm

end Walked

section Run

variable {tree : FileTree}
variable {depth pathSize : Nat}
variable {dir name : CString}
variable {trace : WalkTrace}
variable {hasDirCb : Bool}
variable {enter :
  Option (CString → Unit → Prog WalkAnswer (CString × Unit))}

/-- A path that fits is not cut off in the buffer. -/
theorem entryPath_eq_childPath
    (fits : (childPath dir name).length ≤ pathSize) :
    entryPath pathSize dir name = childPath dir name := by
  have fits : (slashed dir).length + name.length ≤ pathSize := by
    simpa [childPath] using fits
  have stem :
      (if dir.getLast? ≠ some '/' then
          strncat dir ['/'] (pathSize - dir.length)
        else
          dir) = slashed dir := by
    unfold slashed at *
    by_cases slash : dir.getLast? = some '/'
    · simp [slash]
    · rw [if_neg slash, List.length_append, List.length_singleton] at fits
      rw [if_pos slash, if_neg slash, strncat,
        List.take_of_length_le (by rw [List.length_singleton]; omega)]
  unfold entryPath
  simp only [stem]
  rw [strncat, List.take_of_length_le (by omega), childPath]

/-- The path of an entry starts with that of its directory. -/
theorem take_entryPath :
    (entryPath pathSize dir name).take dir.length = dir := by
  unfold entryPath strncat
  split <;> simp

/-- What `enter` does with a directory, for each depth that is left. -/
def EntersWalked
    (tree : FileTree)
    (pathSize : Nat)
    (enter : Option (CString → Unit → Prog WalkAnswer (CString × Unit))) :
    Nat → Prop
  | 0 => enter = none
  | depth + 1 =>
      ∃ walk,
        enter = some walk ∧
          ∀ dir trace result,
            tree.lstat dir = .directory →
              tree.Fits pathSize dir →
                Runs (walk dir ()) trace result →
                  (∀ step ∈ trace, tree.Reports step) →
                    Walked tree depth dir (tree.names dir) trace result.1

theorem walked_visit
    {visited : CString × Unit}
    (entering : EntersWalked tree pathSize enter depth)
    (fits : tree.Fits pathSize dir)
    (member : name ∈ tree.names dir)
    (run :
      Runs
        (visit (anyCallbacks hasDirCb) enter
          (tree.lstat (entryPath pathSize dir name))
          (entryPath pathSize dir name) name ())
        trace visited)
    (reports : ∀ step ∈ trace, tree.Reports step) :
    Walked tree depth dir [name] trace (visited.1.take dir.length) := by
  have proper := FileTree.names_proper member
  have cut : (childPath dir name).take dir.length = dir := by
    unfold childPath slashed
    split <;> simp
  by_cases shown : Hidden name
  · generalize tree.lstat (entryPath pathSize dir name) = found at run
    cases runs_visit_iff.mp run with
    | passed _ =>
        rw [take_entryPath]
        exact walked_skipped fun _ _ reached => reached.1 shown
    | file visible _ | declined visible _ _ | entered visible _ _ _ =>
        exact absurd shown visible
  · rw [entryPath_eq_childPath (fits.visible _ (.entry member shown))] at run
    generalize kind : tree.lstat (childPath dir name) = found at run
    cases runs_visit_iff.mp run with
    | passed passed =>
        rw [cut]
        refine walked_skipped fun _ _ reached => ?_
        rcases passed with hidden | rfl | ⟨rfl, missing⟩
        · exact shown hidden
        · simp [FileTree.ReachedAt, kind] at reached
        · cases depth with
          | zero =>
              simp [FileTree.ReachedAt, kind] at reached
          | succ depth =>
              obtain ⟨walk, rfl, _⟩ := entering
              cases missing
    | file _ called =>
        obtain rfl := runs_ask_iff.mp called
        rw [cut]
        exact walked_file shown kind
    | declined _ deep asked =>
        rw [cut]
        cases hasDirCb with
        | false =>
            obtain ⟨rfl, _⟩ := runs_pure_iff.mp asked
            refine walked_skipped fun _ _ reached => ?_
            simp [FileTree.ReachedAt, kind, Accepted] at reached
        | true =>
            obtain ⟨answer, silent, rfl, done⟩ := runs_ask_bind_iff.mp asked
            obtain ⟨rfl, same⟩ := runs_pure_iff.mp done
            obtain rfl := congrArg Prod.fst same
            exact walked_declined kind
    | entered _ isWalk asked walked =>
        cases depth with
        | zero =>
            obtain rfl : enter = none := entering
            cases isWalk
        | succ depth =>
            obtain ⟨walk, isEnter, walks⟩ := entering
            obtain rfl := Option.some.inj (isEnter.symm.trans isWalk)
            cases hasDirCb with
            | false =>
                obtain ⟨_, ⟨⟩⟩ := runs_pure_iff.mp asked
            | true =>
                obtain ⟨answer, silent, rfl, done⟩ :=
                  runs_ask_bind_iff.mp asked
                obtain ⟨rfl, same⟩ := runs_pure_iff.mp done
                obtain rfl := congrArg Prod.fst same
                have inner :=
                  walks _ _ _ kind (fits.child member shown kind) walked
                    fun step inside => reports step (by simp [inside])
                rw [inner.restored, cut]
                exact walked_entered proper shown kind inner

theorem walked_entries
    {names : List CString}
    {result : CString × Unit}
    (entering : EntersWalked tree pathSize enter depth)
    (fits : tree.Fits pathSize dir)
    (members : ∀ name ∈ names, name ∈ tree.names dir)
    (apart : names.Nodup)
    (run :
      Runs
        (walkEntries uninterrupted (anyCallbacks hasDirCb) pathSize enter
          names dir ())
        trace result)
    (reports : ∀ step ∈ trace, tree.Reports step) :
    Walked tree depth dir names trace result.1 := by
  induction names generalizing trace with
  | nil =>
      obtain ⟨rfl, rfl⟩ := runs_pure_iff.mp run
      exact walked_nil
  | cons name names inductionHypothesis =>
      obtain
        ⟨looked, kind, first, visited, silent, interrupted, later, rfl, asked,
          visiting, polled, rest⟩ :=
        runs_turn_iff.mp run
      obtain ⟨rfl, rfl⟩ := runs_pure_iff.mp polled
      obtain ⟨⟨⟩, _⟩ | ⟨_, rest⟩ := rest
      obtain rfl := runs_ask_iff.mp asked
      have reported :
          kind = tree.lstat (entryPath pathSize dir name) :=
        reports ⟨.lstat (entryPath pathSize dir name), kind⟩
          (List.mem_append_left _ (List.mem_singleton_self _))
      subst reported
      have here :=
        walked_visit entering fits (members name (by simp)) visiting
          fun step member => reports step (by simp [member])
      rw [here.restored] at rest
      have there :=
        inductionHypothesis (fun other member => members other (by simp [member]))
          (List.nodup_cons.mp apart).2 rest
          fun step member => reports step (by simp [member])
      rw [List.singleton_append, List.nil_append]
      refine Walked.cons ?_ rfl
      refine here.append there (fun other member => ?_) apart
      exact FileTree.names_proper (members other member)

theorem walked_from
    {result : CString × Unit}
    (entering : EntersWalked tree pathSize enter depth)
    (listed : ∃ names, tree.opendir dir = .entries names)
    (fits : tree.Fits pathSize dir)
    (run :
      Runs
        (walkFrom uninterrupted (anyCallbacks hasDirCb) pathSize enter dir ())
        trace result)
    (reports : ∀ step ∈ trace, tree.Reports step) :
    Walked tree depth dir (tree.names dir) trace result.1 := by
  obtain ⟨names, opened⟩ := listed
  obtain ⟨first, listing, later, rfl, asked, rest⟩ := runs_bind_iff.mp run
  obtain rfl := runs_ask_iff.mp asked
  have reported : listing = tree.opendir dir :=
    reports ⟨.opendir dir, listing⟩
      (List.mem_append_left _ (List.mem_singleton_self _))
  rw [opened] at reported
  subst reported
  rw [FileTree.names_of_opendir opened, List.singleton_append]
  refine Walked.cons ?_ rfl
  refine
    walked_entries entering fits (fun name member => ?_)
      (tree.distinct dir names opened) rest
      fun step member => reports step (by simp [member])
  rw [FileTree.names_of_opendir opened]
  exact member

/-- A walk of a directory, at any depth. -/
theorem walked_walkdir
    {result : CString × Unit}
    (listed : ∃ names, tree.opendir dir = .entries names)
    (fits : tree.Fits pathSize dir)
    (run :
      Runs
        (walkdir uninterrupted (anyCallbacks hasDirCb) pathSize depth dir ())
        trace result)
    (reports : ∀ step ∈ trace, tree.Reports step) :
    Walked tree depth dir (tree.names dir) trace result.1 := by
  induction depth generalizing dir trace result with
  | zero =>
      have entering :
          EntersWalked tree pathSize none 0 :=
        rfl
      exact walked_from entering listed fits run reports
  | succ depth inductionHypothesis =>
      refine walked_from ⟨_, rfl, ?_⟩ listed fits run reports
      intro child trace result directory fits run reports
      exact
        inductionHypothesis (tree.listed child directory) fits run reports

/-- The files are among the paths that callbacks are called with. -/
theorem fileCalls_sublist
    (trace : WalkTrace) :
    ((trace.filterMap fileCall?).map Prod.fst).Sublist
      (trace.filterMap callbackPath?) := by
  induction trace with
  | nil =>
      exact .slnil
  | cons step trace inductionHypothesis =>
      rcases step with ⟨request, answer⟩
      cases request with
      | opendir path | lstat path =>
          exact inductionHypothesis
      | dirCb path lastEntry =>
          exact inductionHypothesis.cons path
      | fileCb path lastEntry =>
          exact inductionHypothesis.cons_cons path

/--
`file_cb` is called once, with its full path, for every regular file reached
through at most `depth` accepted directories and no hidden name, and for
nothing else; the path reads as before.
-/
theorem walkdir_calls_file_cb_once
    {root : CString}
    {result : CString × Unit}
    (listed : ∃ names, tree.opendir root = .entries names)
    (fits : tree.Fits pathSize root)
    (run :
      Runs
        (walkdir uninterrupted (anyCallbacks hasDirCb) pathSize depth root ())
        trace result)
    (reports : ∀ step ∈ trace, tree.Reports step) :
    ((trace.filterMap fileCall?).map Prod.fst).Nodup ∧
      (∀ path lastEntry,
        (path, lastEntry) ∈ trace.filterMap fileCall? ↔
          tree.Reached (Accepted trace) depth root path lastEntry) ∧
      result.1 = root := by
  have walked := walked_walkdir listed fits run reports
  refine ⟨?_, fun path lastEntry => ?_, walked.restored⟩
  · exact walked.distinct.sublist (fileCalls_sublist trace)
  · rw [walked.files, FileTree.reached_iff_reachedAt]

/-- A directory with a hidden entry, a file and two directories. -/
def nestedTree : FileTree where
  lstat := fun path =>
    if path = "/d/a".toList ∨ path = "/d/b".toList then
      .directory
    else if path = "/d/f".toList ∨ path = "/d/a/g".toList then
      .regular
    else
      .other
  opendir := fun path =>
    if path = "/d".toList then
      .entries [".".toList, "a".toList, "f".toList, "b".toList]
    else if path = "/d/a".toList ∨ path = "/d/b".toList then
      .entries ["g".toList]
    else
      .notDirectory
  listed := by
    intro path directory
    split at directory
    · rename_i isDirectory
      rcases isDirectory with rfl | rfl <;> exact ⟨_, rfl⟩
    · split at directory <;> cases directory
  distinct := by
    intro path names opened
    split_ifs at opened <;> cases opened <;> decide
  proper := by
    intro path names opened
    split_ifs at opened <;> cases opened <;> decide

theorem nestedTree_fits : nestedTree.Fits 246 "/d".toList := by
  refine .of_names (by decide) fun dir name member => ?_
  have listed :
      dir = "/d".toList ∨ dir = "/d/a".toList ∨ dir = "/d/b".toList := by
    by_contra other
    rw [not_or] at other
    have empty : nestedTree.names dir = [] := by
      simp only [FileTree.names, nestedTree, if_neg other.1, if_neg other.2]
    rw [empty] at member
    cases member
  rcases listed with rfl | rfl | rfl <;> revert name <;> decide

/-- A file at the root and one in the directory that is not declined. -/
theorem walkdir_calls_file_cb_once_of_declined :
    ∃ (trace : WalkTrace) (result : CString × Unit),
      Runs
          (walkdir uninterrupted (anyCallbacks true) 246 1 "/d".toList ())
          trace result ∧
        trace.filterMap fileCall? =
          [("/d/a/g".toList, "g".toList), ("/d/f".toList, "f".toList)] ∧
        nestedTree.lstat "/d/b".toList = .directory ∧
        ¬ Accepted trace "/d/b".toList ∧
        ((trace.filterMap fileCall?).map Prod.fst).Nodup ∧
        result.1 = "/d".toList := by
  let trace : WalkTrace :=
    [⟨.opendir "/d".toList,
        .entries [".".toList, "a".toList, "f".toList, "b".toList]⟩,
      ⟨.lstat "/d/.".toList, .other⟩,
      ⟨.lstat "/d/a".toList, .directory⟩,
      ⟨.dirCb "/d/a".toList "a".toList, true⟩,
      ⟨.opendir "/d/a".toList, .entries ["g".toList]⟩,
      ⟨.lstat "/d/a/g".toList, .regular⟩,
      ⟨.fileCb "/d/a/g".toList "g".toList, ()⟩,
      ⟨.lstat "/d/f".toList, .regular⟩,
      ⟨.fileCb "/d/f".toList "f".toList, ()⟩,
      ⟨.lstat "/d/b".toList, .directory⟩,
      ⟨.dirCb "/d/b".toList "b".toList, false⟩]
  have run :
      Runs
        (walkdir uninterrupted (anyCallbacks true) 246 1 "/d".toList ())
        trace ("/d".toList, ()) :=
    .call _ (.call _ (.call _ (.call _ (.call _ (.call _ (.call _ (.call _
      (.call _ (.call _ (.call _ (.done _)))))))))))
  have reports : ∀ step ∈ trace, nestedTree.Reports step := by
    simp only [trace, List.forall_mem_cons]
    exact
      ⟨rfl, rfl, rfl, trivial, rfl, rfl, trivial, rfl, trivial, rfl, trivial,
        List.forall_mem_nil _⟩
  have all := walkdir_calls_file_cb_once ⟨_, rfl⟩ nestedTree_fits run reports
  have declined : ¬ Accepted trace "/d/b".toList := by
    have accepted : trace.filterMap acceptedPath? = ["/d/a".toList] :=
      rfl
    rw [Accepted, accepted]
    decide
  exact ⟨_, _, run, rfl, rfl, declined, all.1, all.2.2⟩

end Run

end Csh.Walkdir
