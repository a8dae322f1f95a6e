import Csh.WalkdirStores

namespace Csh.Walkdir

open Libc Interaction

/-!
# The arrays of the callers

Where `walkdir` stores at each of its call sites.  A `path_size` below the size
of the array is a limit in every tree; otherwise the paths of the tree decide,
also when the path is longer than `path_size` to begin with.
-/

/--
A directory tree by what `opendir` and `lstat` report at each path.  Nothing
is assumed about names and kinds; the empty path names no directory.
-/
structure DirectoryTree where
  opendir : CString → Listing
  lstat : CString → FileKind
  opendir_empty : opendir [] = .unreadable

/-- The entries that `readdir` returns. -/
def DirectoryTree.names (tree : DirectoryTree) (dir : CString) : List CString :=
  match tree.opendir dir with
  | .entries names => names
  | _ => []

/--
The paths of the entries of a directory and of those below it that a walk
descends into.  Hidden entries have a path too.
-/
inductive DirectoryTree.Met
    (tree : DirectoryTree)
    (hasDirCb : Bool) :
    Nat → CString → CString → Prop where
  | entry
      {depth : Nat}
      {dir name : CString}
      (member : name ∈ tree.names dir) :
      Met tree hasDirCb depth dir (childPath dir name)
  | deeper
      {depth : Nat}
      {dir name path : CString}
      (member : name ∈ tree.names dir)
      (shown : ¬ Hidden name)
      (directory : tree.lstat (childPath dir name) = .directory)
      (accepted : hasDirCb = true)
      (met : Met tree hasDirCb depth (childPath dir name) path) :
      Met tree hasDirCb (depth + 1) dir path

/-- The calls of `walkdir` in the program. -/
inductive CallSite where
  | buildApmList
  | program
  | sps
  | docCmd
  | manualCmdCompleter
  deriving Repr, DecidableEq

namespace CallSite

/-- The size of `wpath` and of `doc_folder`. -/
def arraySize (_site : CallSite) : Nat :=
  256

/-- The argument `path_size`. -/
def pathSize : CallSite → Nat
  | .buildApmList => walkdirMaxPathSize - 10
  | .program => walkdirMaxPathSize - 10
  | .sps => walkdirMaxPathSize
  | .docCmd => arraySize .docCmd
  | .manualCmdCompleter => arraySize .manualCmdCompleter

/-- The argument `depth`. -/
def depth : CallSite → Nat
  | .buildApmList => 1
  | .program => 10
  | .sps => 10
  | .docCmd => 1
  | .manualCmdCompleter => 1

/-- The argument `dir_cb` is not NULL; each `dir_callback` returns true. -/
def hasDirCb : CallSite → Bool
  | .buildApmList => true
  | .program => true
  | .sps => true
  | .docCmd => false
  | .manualCmdCompleter => false

/-- The argument `signal` is not NULL. -/
def hasSignal : CallSite → Bool
  | .buildApmList => false
  | .program => true
  | .sps => true
  | .docCmd => true
  | .manualCmdCompleter => true

end CallSite

/-- What a walk of a tree leaves open: the file callback and the signal. -/
inductive SiteCall where
  | fileCb (path lastEntry : CString)
  | interrupted
  deriving Repr, DecidableEq

/-- The answers to these calls. -/
abbrev SiteAnswer : SiteCall → Type
  | .fileCb _ _ => Unit
  | .interrupted => Bool

/-- The tree, and the signal if there is one. -/
def DirectoryTree.surroundings
    (tree : DirectoryTree)
    (hasSignal : Bool) :
    Surroundings SiteAnswer where
  opendir path := pure (tree.opendir path)
  lstat path := pure (tree.lstat path)
  interrupted :=
    if hasSignal then Prog.ask SiteCall.interrupted else pure false

/-- A `dir_cb` that returns true or is NULL, and a `file_cb`. -/
def siteCallbacks (hasDirCb : Bool) : Callbacks SiteAnswer Unit where
  dirCb _ _ _ := pure (hasDirCb, ())
  fileCb path lastEntry _ := Prog.ask (SiteCall.fileCb path lastEntry)

/-- The walk of a tree at a call site, from the path in the caller's array. -/
def CallSite.walk
    (site : CallSite)
    (tree : DirectoryTree)
    (path : CString) :
    Prog SiteAnswer (PathBuffer × Unit) :=
  walkdirStoring (tree.surroundings site.hasSignal)
    (siteCallbacks site.hasDirCb) site.pathSize site.depth ⟨path, []⟩ ()

section Safety

variable {Call : Type}
variable {Answer : Call → Type}
variable {State : Type}
variable {surroundings : Surroundings Answer}
variable {callbacks : Callbacks Answer State}
variable {size pathSize : Nat}
variable {trace : List (Step Answer)}
variable
  {enter : Option (PathBuffer → State → Prog Answer (PathBuffer × State))}

/--
Directories, with the depth that is left, whose entries get paths inside the
array; the directories entered from them are such directories again.
-/
structure Bounds
    (surroundings : Surroundings Answer)
    (callbacks : Callbacks Answer State)
    (size pathSize : Nat)
    (good : Nat → CString → Prop) :
    Prop where
  entry :
    ∀ {depth dir trace names name},
      good depth dir →
        Runs (surroundings.opendir dir) trace (.entries names) →
          name ∈ names →
            (enteredPath pathSize dir name).length < size
  enter :
    ∀ {depth dir trace names name looking asking state accepted},
      good (depth + 1) dir →
        Runs (surroundings.opendir dir) trace (.entries names) →
          name ∈ names →
            ¬ Hidden name →
              Runs (surroundings.lstat (enteredPath pathSize dir name)) looking
                  .directory →
                Runs
                    (callbacks.dirCb (enteredPath pathSize dir name) name
                      state)
                    asking (true, accepted) →
                  good depth (enteredPath pathSize dir name)

/-- A walk that stores inside the array. -/
def StoresInside
    (size : Nat)
    (good : CString → Prop)
    (walk : PathBuffer → State → Prog Answer (PathBuffer × State)) :
    Prop :=
  ∀ buffer state trace result,
    good buffer.path →
      buffer.Inside size →
        Runs (walk buffer state) trace result →
          result.1.Inside size

variable {good : CString → Prop}

theorem inside_visit
    {kind : FileKind}
    {buffer : PathBuffer}
    {name : CString}
    {state : State}
    {result : PathBuffer × State}
    (entering : ∀ walk ∈ enter, StoresInside size good walk)
    (enters :
      ∀ {asking accepted},
        enter ≠ none →
          ¬ Hidden name →
            kind = .directory →
              Runs (callbacks.dirCb buffer.path name state) asking
                  (true, accepted) →
                good buffer.path)
    (inside : buffer.Inside size)
    (run :
      Runs (visitStoring callbacks enter kind buffer name state) trace
        result) :
    result.1.Inside size := by
  cases runs_visitStoring_iff.mp run with
  | passed _ | file _ _ | declined _ _ _ =>
      exact inside
  | entered shown isWalk asked walked =>
      subst isWalk
      have isGood := enters (Option.some_ne_none _) shown rfl asked
      exact entering _ rfl _ _ _ _ isGood inside walked

theorem inside_walkEntries
    {names : List CString}
    {dir : CString}
    {buffer : PathBuffer}
    {state : State}
    {result : PathBuffer × State}
    (adding : ∀ walk ∈ enter, OnlyAdds walk)
    (entering : ∀ walk ∈ enter, StoresInside size good walk)
    (fits :
      ∀ name ∈ names, (enteredPath pathSize dir name).length < size)
    (enters :
      ∀ name ∈ names,
        ∀ {looking asking state accepted},
          enter ≠ none →
            ¬ Hidden name →
              Runs (surroundings.lstat (enteredPath pathSize dir name)) looking
                  .directory →
                Runs
                    (callbacks.dirCb (enteredPath pathSize dir name) name
                      state)
                    asking (true, accepted) →
                  good (enteredPath pathSize dir name))
    (here : buffer.path = dir)
    (inside : buffer.Inside size)
    (run :
      Runs
        (walkEntriesStoring surroundings callbacks pathSize enter names buffer
          state)
        trace result) :
    result.1.Inside size := by
  induction names generalizing buffer state trace with
  | nil =>
      obtain ⟨rfl, rfl⟩ := runs_pure_iff.mp run
      exact inside
  | cons name names inductionHypothesis =>
      obtain
        ⟨looking, kind, visiting, visited, polling, interrupted, later, rfl,
          looked, visit, polled, rest⟩ :=
        runs_turn_iff.mp run
      have short := fits name List.mem_cons_self
      have entryPathIs :
          (buffer.enterEntry pathSize name).path =
            enteredPath pathSize dir name := by
        rw [path_enterEntry, here]
      have entryInside : (buffer.enterEntry pathSize name).Inside size := by
        rw [inside_enterEntry_iff, here]
        exact ⟨inside, short⟩
      rw [entryPathIs] at looked
      have there : visited.1.Inside size := by
        refine inside_visit entering ?_ entryInside visit
        intro asking accepted deep shown directory asked
        subst directory
        rw [entryPathIs] at asked ⊢
        exact enters name List.mem_cons_self deep shown looked asked
      have added := (onlyAdds_visit adding visit).1
      rw [entryPathIs] at added
      rcases rest with ⟨rfl, rfl, rfl⟩ | ⟨rfl, rest⟩
      · exact there
      · rw [here] at rest
        refine
          inductionHypothesis
            (fun other member => fits other (List.mem_cons_of_mem _ member))
            (fun other member =>
              enters other (List.mem_cons_of_mem _ member))
            (path_cut (prefix_enteredPath.trans added)) (inside_cut there ?_)
            rest
        exact Nat.lt_of_le_of_lt prefix_enteredPath.length_le short

theorem inside_walkFrom
    {dirs : CString → Prop}
    (adding : ∀ walk ∈ enter, OnlyAdds walk)
    (entering : ∀ walk ∈ enter, StoresInside size good walk)
    (fits :
      ∀ {dir trace names name},
        dirs dir →
          Runs (surroundings.opendir dir) trace (.entries names) →
            name ∈ names →
              (enteredPath pathSize dir name).length < size)
    (enters :
      ∀ {dir trace names name looking asking state accepted},
        dirs dir →
          Runs (surroundings.opendir dir) trace (.entries names) →
            name ∈ names →
              enter ≠ none →
                ¬ Hidden name →
                  Runs (surroundings.lstat (enteredPath pathSize dir name))
                      looking .directory →
                    Runs
                        (callbacks.dirCb (enteredPath pathSize dir name) name
                          state)
                        asking (true, accepted) →
                      good (enteredPath pathSize dir name)) :
    StoresInside size dirs
      (walkFromStoring surroundings callbacks pathSize enter) := by
  intro buffer state trace result isDir inside run
  cases runs_walkFromStoring_iff.mp run with
  | entries opened walked =>
      exact
        inside_walkEntries adding entering
          (fun name member => fits isDir opened member)
          (fun name member => enters isDir opened member) rfl inside walked
  | notDirectory _ _ | unreadable _ =>
      exact inside

/-- A walk from such a directory stores inside the array, at any depth. -/
theorem Bounds.storesInside
    {good : Nat → CString → Prop}
    (bounds : Bounds surroundings callbacks size pathSize good)
    (depth : Nat) :
    StoresInside size (good depth)
      (walkdirStoring surroundings callbacks pathSize depth) := by
  induction depth with
  | zero =>
      refine @inside_walkFrom _ _ _ _ _ _ _ _ (good 0) _ ?_ ?_ bounds.entry ?_
      · rintro walk ⟨⟩
      · rintro walk ⟨⟩
      · intro _ _ _ _ _ _ _ _ _ _ _ deep
        exact absurd rfl deep
  | succ depth inductionHypothesis =>
      refine
        @inside_walkFrom _ _ _ _ _ _ _ _ (good depth) _ ?_ ?_ bounds.entry ?_
      · rintro walk ⟨⟩
        exact onlyAdds_walkdir depth
      · rintro walk ⟨⟩
        exact inductionHypothesis
      · intro _ _ _ _ _ _ _ _ isDir opened member _
        exact bounds.enter isDir opened member

/--
With a `path_size` below the size of the array every walk from a path that is
not longer stores inside the array, whatever is found.
-/
theorem bounds_of_limit
    (limit : pathSize < size)
    (small : pathSize < 2 ^ 64) :
    Bounds surroundings callbacks size pathSize
      (fun _ dir => dir.length ≤ pathSize) where
  entry := by
    intro depth dir trace names name fits opened member
    rw [enteredPath_eq_entryPath fits small]
    exact Nat.lt_of_le_of_lt (length_entryPath_le fits) limit
  enter := by
    intro depth dir trace names name looking asking state accepted fits
      opened member shown looked asked
    rw [enteredPath_eq_entryPath fits small]
    exact length_entryPath_le fits

end Safety

section Tree

variable {tree : DirectoryTree}
variable {hasDirCb hasSignal : Bool}
variable {size pathSize depth : Nat}
variable {dir name path : CString}
variable {trace : List (Step SiteAnswer)}

/-- A path met at one of the entries of a directory. -/
def DirectoryTree.MetAt
    (tree : DirectoryTree)
    (hasDirCb : Bool)
    (depth : Nat)
    (dir name path : CString) :
    Prop :=
  path = childPath dir name ∨
    ¬ Hidden name ∧
      tree.lstat (childPath dir name) = .directory ∧
      hasDirCb = true ∧
      ∃ less,
        depth = less + 1 ∧ tree.Met hasDirCb less (childPath dir name) path

theorem met_iff_metAt :
    tree.Met hasDirCb depth dir path ↔
      ∃ name ∈ tree.names dir, tree.MetAt hasDirCb depth dir name path := by
  constructor
  · rintro (⟨member⟩ | ⟨member, shown, directory, accepted, met⟩)
    · exact ⟨_, member, .inl rfl⟩
    · exact
        ⟨_, member, .inr ⟨shown, directory, accepted, _, rfl, met⟩⟩
  · rintro ⟨name, member, rfl |
      ⟨shown, directory, accepted, less, rfl, met⟩⟩
    · exact .entry member
    · exact .deeper member shown directory accepted met

theorem DirectoryTree.names_of_opendir
    {names : List CString}
    (opened : tree.opendir dir = .entries names) :
    tree.names dir = names := by
  simp [DirectoryTree.names, opened]

/-- A directory from which every path that is met lies inside the array. -/
structure ShortFrom
    (tree : DirectoryTree)
    (hasDirCb : Bool)
    (size pathSize depth : Nat)
    (dir : CString) :
    Prop where
  fits : dir.length < size
  unlimited : Unlimited size pathSize dir.length
  met : ∀ path, tree.Met hasDirCb depth dir path → path.length < size

theorem ShortFrom.enteredPath_eq
    (short : ShortFrom tree hasDirCb size pathSize depth dir)
    (small : pathSize < 2 ^ 64)
    (sizeSmall : size ≤ 2 ^ 64)
    (member : name ∈ tree.names dir) :
    (childPath dir name).length < size ∧
      enteredPath pathSize dir name = childPath dir name := by
  have inside := short.met _ (.entry member)
  refine
    (enteredPath_unlimited short.unlimited small sizeSmall
      short.fits).resolve_right ?_
  rintro ⟨long, _⟩
  omega

theorem le_length_childPath
    (dir name : CString) :
    dir.length ≤ (childPath dir name).length := by
  unfold childPath slashed
  split <;> simp

/-- The walk keeps to paths that are met. -/
theorem bounds_of_shortFrom
    (small : pathSize < 2 ^ 64)
    (sizeSmall : size ≤ 2 ^ 64) :
    Bounds (tree.surroundings hasSignal) (siteCallbacks hasDirCb) size
      pathSize (ShortFrom tree hasDirCb size pathSize) where
  entry := by
    intro depth dir trace names name short opened member
    have listed := tree.names_of_opendir (runs_pure_iff.mp opened).2.symm
    rw [← listed] at member
    have entered := short.enteredPath_eq small sizeSmall member
    rw [entered.2]
    exact entered.1
  enter := by
    intro depth dir trace names name looking asking state accepted short
      opened member shown looked asked
    have listed := tree.names_of_opendir (runs_pure_iff.mp opened).2.symm
    rw [← listed] at member
    have entered := short.enteredPath_eq small sizeSmall member
    rw [entered.2] at looked ⊢
    have directory := (runs_pure_iff.mp looked).2.symm
    have isAccepted := congrArg Prod.fst (runs_pure_iff.mp asked).2
    exact {
      fits := entered.1
      unlimited := short.unlimited.mono (le_length_childPath dir name)
      met := fun path met =>
        short.met path (.deeper member shown directory isAccepted.symm met)
    }

/-- The signal has not come. -/
def Quiet : Step SiteAnswer → Prop
  | ⟨.interrupted, answer⟩ => answer = false
  | ⟨.fileCb _ _, _⟩ => True

/--
Stores inside the array show that the walk is back at its path and has met
short paths only.
-/
def Reveals
    (size pathSize : Nat)
    (walk : PathBuffer → Unit → Prog SiteAnswer (PathBuffer × Unit))
    (met : CString → CString → Prop) :
    Prop :=
  ∀ buffer state trace result,
    buffer.path.length < size →
      Unlimited size pathSize buffer.path.length →
        Runs (walk buffer state) trace result →
          (∀ step ∈ trace, Quiet step) →
            result.1.Inside size →
              ∀ path, met buffer.path path → path.length < size

variable {met : CString → CString → Prop}
variable
  {enter : Option (PathBuffer → Unit → Prog SiteAnswer (PathBuffer × Unit))}

theorem revealed_by_visit
    {kind : FileKind}
    {buffer : PathBuffer}
    {state : Unit}
    {result : PathBuffer × Unit}
    (entering : ∀ walk ∈ enter, Reveals size pathSize walk met)
    (fits : buffer.path.length < size)
    (unlimited : Unlimited size pathSize buffer.path.length)
    (run :
      Runs
        (visitStoring (siteCallbacks hasDirCb) enter kind buffer name state)
        trace result)
    (quiet : ∀ step ∈ trace, Quiet step)
    (inside : result.1.Inside size)
    (deep : enter ≠ none)
    (shown : ¬ Hidden name)
    (directory : kind = .directory)
    (accepts : hasDirCb = true) :
    ∀ path, met buffer.path path → path.length < size := by
  obtain ⟨walk, rfl⟩ := Option.ne_none_iff_exists'.mp deep
  subst directory
  subst accepts
  cases runs_visitStoring_iff.mp run with
  | passed passed =>
      rcases passed with hidden | ⟨⟨⟩⟩ | ⟨_, ⟨⟩⟩
      exact absurd hidden shown
  | declined _ _ asked =>
      obtain ⟨_, ⟨⟩⟩ := runs_pure_iff.mp asked
  | entered _ isWalk asked walked =>
      obtain ⟨rfl, _⟩ := runs_pure_iff.mp asked
      exact entering _ isWalk _ _ _ _ fits unlimited walked quiet inside

theorem not_interrupted
    {interrupted : Bool}
    (run :
      Runs (tree.surroundings hasSignal).interrupted trace interrupted)
    (quiet : ∀ step ∈ trace, Quiet step) :
    interrupted = false := by
  cases hasSignal with
  | false =>
      exact (runs_pure_iff.mp run).2
  | true =>
      obtain rfl := runs_ask_iff.mp run
      exact quiet _ List.mem_cons_self

theorem revealed_by_walkEntries
    {names : List CString}
    {buffer : PathBuffer}
    {state : Unit}
    {result : PathBuffer × Unit}
    (small : pathSize < 2 ^ 64)
    (sizeSmall : size ≤ 2 ^ 64)
    (adding : ∀ walk ∈ enter, OnlyAdds walk)
    (entering : ∀ walk ∈ enter, Reveals size pathSize walk met)
    (here : buffer.path = dir)
    (fits : dir.length < size)
    (unlimited : Unlimited size pathSize dir.length)
    (run :
      Runs
        (walkEntriesStoring (tree.surroundings hasSignal)
          (siteCallbacks hasDirCb) pathSize enter names buffer state)
        trace result)
    (quiet : ∀ step ∈ trace, Quiet step)
    (inside : result.1.Inside size) :
    ∀ name ∈ names,
      (childPath dir name).length < size ∧
        (enter ≠ none →
          ¬ Hidden name →
            tree.lstat (childPath dir name) = .directory →
              hasDirCb = true →
                ∀ path,
                  met (childPath dir name) path → path.length < size) := by
  induction names generalizing buffer state trace with
  | nil =>
      simp
  | cons name names inductionHypothesis =>
      obtain
        ⟨looking, kind, visiting, visited, polling, interrupted, later, rfl,
          looked, visit, polled, rest⟩ :=
        runs_turn_iff.mp run
      simp only [List.forall_mem_append] at quiet
      obtain rfl := not_interrupted polled quiet.2.2.1
      obtain ⟨⟨⟩, _⟩ | ⟨_, rest⟩ := rest
      rw [here] at rest
      have entryPathIs :
          (buffer.enterEntry pathSize name).path =
            enteredPath pathSize dir name := by
        rw [path_enterEntry, here]
      have added := onlyAdds_visit adding visit
      have extended : dir <+: visited.1.path := by
        rw [entryPathIs] at added
        exact prefix_enteredPath.trans added.1
      have restored := path_cut extended
      -- The stores up to here are among those of the whole loop.
      have visitedInside : visited.1.Inside size :=
        inside.of_prefix
          ((List.prefix_append _ _).trans
            (onlyAdds_walkEntries adding restored rest).2)
      have entryInside := visitedInside.of_prefix added.2
      rw [inside_enterEntry_iff, here] at entryInside
      have short :
          (childPath dir name).length < size ∧
            enteredPath pathSize dir name = childPath dir name := by
        refine
          (enteredPath_unlimited unlimited small sizeSmall
            fits).resolve_right ?_
        rintro ⟨_, long⟩
        omega
      rw [entryPathIs, short.2] at looked
      obtain ⟨rfl, rfl⟩ := runs_pure_iff.mp looked
      refine List.forall_mem_cons.mpr ⟨⟨short.1, ?_⟩, ?_⟩
      · intro deep shown directory accepts
        have revealed :=
          revealed_by_visit entering
            (by
              rw [entryPathIs, short.2]
              exact short.1)
            (by
              rw [entryPathIs, short.2]
              exact unlimited.mono (le_length_childPath dir name))
            visit quiet.2.1 visitedInside deep shown directory accepts
        rwa [entryPathIs, short.2] at revealed
      · exact inductionHypothesis restored rest quiet.2.2.2

theorem reveals_walkFrom
    {below : CString → CString → Prop}
    (small : pathSize < 2 ^ 64)
    (sizeSmall : size ≤ 2 ^ 64)
    (adding : ∀ walk ∈ enter, OnlyAdds walk)
    (entering : ∀ walk ∈ enter, Reveals size pathSize walk below)
    (split :
      ∀ {dir path},
        met dir path →
          ∃ name ∈ tree.names dir,
            path = childPath dir name ∨
              enter ≠ none ∧
                ¬ Hidden name ∧
                tree.lstat (childPath dir name) = .directory ∧
                hasDirCb = true ∧
                below (childPath dir name) path) :
    Reveals size pathSize
      (walkFromStoring (tree.surroundings hasSignal)
        (siteCallbacks hasDirCb) pathSize enter)
      met := by
  intro buffer state trace result fits unlimited run quiet inside path isMet
  obtain ⟨opening, listing, later, rfl, opened, rest⟩ := runs_bind_iff.mp run
  obtain ⟨rfl, rfl⟩ := runs_pure_iff.mp opened
  obtain ⟨name, member, shape⟩ := split isMet
  cases listed : tree.opendir buffer.path with
  | entries names =>
      rw [listed] at rest
      rw [tree.names_of_opendir listed] at member
      have short :=
        revealed_by_walkEntries small sizeSmall adding entering rfl fits
          unlimited rest (by simpa using quiet) inside name member
      rcases shape with rfl | ⟨deep, shown, directory, accepts, isBelow⟩
      · exact short.1
      · exact short.2 deep shown directory accepts path isBelow
  | notDirectory =>
      simp [DirectoryTree.names, listed] at member
  | unreadable =>
      simp [DirectoryTree.names, listed] at member

/-- What a walk without an interruption stores shows all that it has met. -/
theorem reveals_walkdir
    (small : pathSize < 2 ^ 64)
    (sizeSmall : size ≤ 2 ^ 64)
    (depth : Nat) :
    Reveals size pathSize
      (walkdirStoring (tree.surroundings hasSignal) (siteCallbacks hasDirCb)
        pathSize depth)
      (tree.Met hasDirCb depth) := by
  induction depth with
  | zero =>
      refine
        @reveals_walkFrom _ _ _ _ _ _ _ (fun _ _ => False) small sizeSmall
          ?_ ?_ ?_
      · rintro walk ⟨⟩
      · rintro walk ⟨⟩
      · intro dir path isMet
        obtain ⟨name, member, rfl | ⟨_, _, _, less, impossible, _⟩⟩ :=
          met_iff_metAt.mp isMet
        · exact ⟨name, member, .inl rfl⟩
        · omega
  | succ depth inductionHypothesis =>
      refine
        @reveals_walkFrom _ _ _ _ _ _ _ (tree.Met hasDirCb depth) small
          sizeSmall ?_ ?_ ?_
      · rintro walk ⟨⟩
        exact onlyAdds_walkdir depth
      · rintro walk ⟨⟩
        exact inductionHypothesis
      · intro dir path isMet
        obtain ⟨name, member, rfl |
            ⟨shown, directory, accepts, less, deeper, isBelow⟩⟩ :=
          met_iff_metAt.mp isMet
        · exact ⟨name, member, .inl rfl⟩
        · obtain rfl : depth = less := by
            omega
          exact
            ⟨name, member,
              .inr ⟨Option.some_ne_none _, shown, directory, accepts,
                isBelow⟩⟩

end Tree

/-- Every store of a walk lies inside the array of its caller. -/
def CallSite.StoresInside
    (site : CallSite)
    (tree : DirectoryTree)
    (path : CString) :
    Prop :=
  ∀ trace result,
    Runs (site.walk tree path) trace result →
      ∀ index ∈ result.1.stores, index < site.arraySize

namespace CallSite

variable {site : CallSite}
variable {tree : DirectoryTree}
variable {path : CString}

theorem pathSize_le
    (site : CallSite) :
    site.pathSize ≤ 256 := by
  cases site <;> decide

theorem storesInside_of_limit
    (fits : path.length ≤ site.pathSize)
    (limit : site.pathSize < site.arraySize) :
    site.StoresInside tree path := by
  intro trace result run
  have small : site.pathSize < 2 ^ 64 := by
    have := site.pathSize_le
    omega
  exact
    (bounds_of_limit limit small).storesInside site.depth ⟨path, []⟩ () trace
      result fits (by simp [PathBuffer.Inside]) run

/-- The stores show the paths that are met, and the paths bound the stores. -/
theorem storesInside_iff_met
    (held : path.length < site.arraySize)
    (unlimited : Unlimited site.arraySize site.pathSize path.length) :
    site.StoresInside tree path ↔
      ∀ entry,
        tree.Met site.hasDirCb site.depth path entry →
          entry.length < site.arraySize := by
  have small : site.pathSize < 2 ^ 64 := by
    have := site.pathSize_le
    omega
  have sizeSmall : site.arraySize ≤ 2 ^ 64 := by
    simp [arraySize]
  constructor
  · intro inside
    have answers : ∀ request, ∃ answer, Quiet ⟨request, answer⟩ := by
      rintro (⟨path, lastEntry⟩ | _)
      · exact ⟨(), trivial⟩
      · exact ⟨false, rfl⟩
    obtain ⟨trace, result, run, quiet⟩ :=
      exists_runs_of_answers answers (site.walk tree path)
    exact
      reveals_walkdir small sizeSmall site.depth ⟨path, []⟩ () trace result
        held unlimited run quiet (inside trace result run)
  · intro short trace result run
    exact
      (bounds_of_shortFrom small sizeSmall).storesInside site.depth
        ⟨path, []⟩ () trace result ⟨held, unlimited, short⟩
        (by simp [PathBuffer.Inside]) run

/--
A walk stores inside the array of its caller if and only if the path fits a
`path_size` below the size of the array, or all paths that are met are short.
-/
theorem storesInside_iff
    (site : CallSite)
    (tree : DirectoryTree)
    (path : CString)
    (held : path.length < site.arraySize) :
    site.StoresInside tree path ↔
      path.length ≤ site.pathSize ∧ site.pathSize < site.arraySize ∨
        ∀ entry,
          tree.Met site.hasDirCb site.depth path entry →
            entry.length < site.arraySize := by
  by_cases limited :
      path.length ≤ site.pathSize ∧ site.pathSize < site.arraySize
  · have inside : site.StoresInside tree path :=
      storesInside_of_limit limited.1 limited.2
    exact ⟨fun _ => .inl limited, fun _ => inside⟩
  · have unlimited : Unlimited site.arraySize site.pathSize path.length := by
      unfold Unlimited
      omega
    rw [storesInside_iff_met held unlimited, or_iff_right limited]

/-- A tree whose only file has a name of the length. -/
def oneFile (length : Nat) : DirectoryTree where
  opendir path :=
    if path = ['.'] then
      .entries [List.replicate length 'a']
    else
      .unreadable
  lstat _ := .regular
  opendir_empty := rfl

theorem sps_storesInside_short_name :
    ['.'].length < CallSite.sps.arraySize ∧
      (CallSite.sps.StoresInside (oneFile 3) ['.'] ↔
        ['.'].length ≤ CallSite.sps.pathSize ∧
            CallSite.sps.pathSize < CallSite.sps.arraySize ∨
          ∀ entry,
            (oneFile 3).Met CallSite.sps.hasDirCb CallSite.sps.depth ['.']
                entry →
              entry.length < CallSite.sps.arraySize) :=
  ⟨by decide, storesInside_iff .sps (oneFile 3) ['.'] (by decide)⟩

/-- A name of 254 characters makes `sps` store a NUL behind `wpath`. -/
theorem sps_stores_outside :
    ¬ CallSite.sps.StoresInside (oneFile 254) ['.'] := by
  have held : ['.'].length < CallSite.sps.arraySize := by
    decide
  rw [storesInside_iff_met held (.inl (by decide))]
  intro short
  have listed :
      ∀ length, List.replicate length 'a' ∈ (oneFile length).names ['.'] := by
    intro length
    simp [DirectoryTree.names, oneFile]
  have whole :
      ∀ name, (childPath ['.'] name).length = name.length + 2 := by
    intro name
    simp [childPath, slashed]
  have inside := short _ (.entry (listed 254))
  rw [whole, List.length_replicate] at inside
  exact absurd inside (by decide)

/-- `program` stores inside `wpath` in every tree. -/
theorem program_storesInside
    (tree : DirectoryTree) :
    CallSite.program.StoresInside tree ['.'] :=
  storesInside_of_limit (by decide) (by decide)

end CallSite

end Csh.Walkdir
