import Csh.WalkdirBuffer
import Csh.WalkdirTree
import Mathlib.Algebra.Order.Ring.Int

namespace Csh.Walkdir

open Libc Interaction

/-!
# What a walk stores

`walkdir` with the indices of its stores into the caller's array.  The rooms
that it hands to `strncat` are differences of `size_t`, and each `strncat`
stores a NUL behind the characters it copies.
-/

/-- The difference of two `size_t`. -/
def sizeSub (first second : Nat) : Nat :=
  (first + (2 ^ 64 - second % 2 ^ 64)) % 2 ^ 64

/-- The string in the caller's array and the indices stored to so far. -/
structure PathBuffer where
  path : CString
  stores : List Nat
  deriving Repr, DecidableEq

/-- `strncat`: the characters it copies and the NUL behind them. -/
def PathBuffer.strncat
    (source : CString)
    (n : Nat)
    (buffer : PathBuffer) :
    PathBuffer where
  path := Libc.strncat buffer.path source n
  stores :=
    buffer.stores ++
      List.range' buffer.path.length ((source.take n).length + 1)

/-- `path[length] = 0`. -/
def PathBuffer.cut (length : Nat) (buffer : PathBuffer) : PathBuffer where
  path := buffer.path.take length
  stores := buffer.stores ++ [length]

/-- The path of an entry is put together. -/
def PathBuffer.enterEntry
    (pathSize : Nat)
    (name : CString)
    (buffer : PathBuffer) :
    PathBuffer :=
  let slashed :=
    if buffer.path.getLast? ≠ some '/' then
      buffer.strncat ['/'] (sizeSub pathSize buffer.path.length)
    else
      buffer
  slashed.strncat name (sizeSub pathSize slashed.path.length)

section WalkStoring

variable {Call : Type}
variable {Answer : Call → Type}
variable {State : Type}

/-- `visit`; no callback can change the path. -/
def visitStoring
    (callbacks : Callbacks Answer State)
    (enter : Option (PathBuffer → State → Prog Answer (PathBuffer × State)))
    (kind : FileKind)
    (buffer : PathBuffer)
    (name : CString)
    (state : State) :
    Prog Answer (PathBuffer × State) :=
  if name.head? = some '.' then
    pure (buffer, state)
  else
    match kind, enter with
    | .directory, some enter => do
        let accepted ← callbacks.dirCb buffer.path name state
        if accepted.1 then
          enter buffer accepted.2
        else
          pure (buffer, accepted.2)
    | .regular, _ => do
        let state ← callbacks.fileCb buffer.path name state
        pure (buffer, state)
    | _, _ => pure (buffer, state)

/-- The loop over the entries, with the stores it makes. -/
def walkEntriesStoring
    (surroundings : Surroundings Answer)
    (callbacks : Callbacks Answer State)
    (pathSize : Nat)
    (enter : Option (PathBuffer → State → Prog Answer (PathBuffer × State))) :
    List CString → PathBuffer → State → Prog Answer (PathBuffer × State)
  | [], buffer, state => pure (buffer, state)
  | name :: rest, buffer, state => do
      let entry := buffer.enterEntry pathSize name
      let kind ← surroundings.lstat entry.path
      let visited ← visitStoring callbacks enter kind entry name state
      let interrupted ← surroundings.interrupted
      if interrupted then
        pure visited
      else
        walkEntriesStoring surroundings callbacks pathSize enter rest
          (visited.1.cut buffer.path.length) visited.2

/-- Open the path and go over its entries. -/
def walkFromStoring
    (surroundings : Surroundings Answer)
    (callbacks : Callbacks Answer State)
    (pathSize : Nat)
    (enter : Option (PathBuffer → State → Prog Answer (PathBuffer × State)))
    (buffer : PathBuffer)
    (state : State) :
    Prog Answer (PathBuffer × State) := do
  let listing ← surroundings.opendir buffer.path
  match listing with
  | .entries names =>
      walkEntriesStoring surroundings callbacks pathSize enter names buffer
        state
  | .notDirectory => do
      let state ← callbacks.fileCb buffer.path buffer.path state
      pure (buffer, state)
  | .unreadable => pure (buffer, state)

/-- `walkdir` with the stores it makes. -/
def walkdirStoring
    (surroundings : Surroundings Answer)
    (callbacks : Callbacks Answer State)
    (pathSize : Nat) :
    Nat → PathBuffer → State → Prog Answer (PathBuffer × State)
  | 0 => walkFromStoring surroundings callbacks pathSize none
  | depth + 1 =>
      walkFromStoring surroundings callbacks pathSize
        (some (walkdirStoring surroundings callbacks pathSize depth))

end WalkStoring

section Entry

variable {size pathSize : Nat}
variable {buffer : PathBuffer}
variable {dir name source : CString}

/-- All stores so far are inside an array of this size. -/
def PathBuffer.Inside (size : Nat) (buffer : PathBuffer) : Prop :=
  ∀ index ∈ buffer.stores, index < size

/-- The path that an entry of a directory gets. -/
def enteredPath (pathSize : Nat) (dir name : CString) : CString :=
  (PathBuffer.enterEntry pathSize name ⟨dir, []⟩).path

theorem path_enterEntry :
    (buffer.enterEntry pathSize name).path =
      enteredPath pathSize buffer.path name := by
  unfold enteredPath PathBuffer.enterEntry
  by_cases slash : buffer.path.getLast? = some '/'
  · simp [PathBuffer.strncat, slash]
  · simp [PathBuffer.strncat, slash]

/-- The NUL is the last store of a `strncat`. -/
theorem inside_strncat_iff
    {n : Nat} :
    (buffer.strncat source n).Inside size ↔
      buffer.Inside size ∧ (buffer.strncat source n).path.length < size := by
  simp only [PathBuffer.Inside, PathBuffer.strncat, Libc.strncat,
    List.forall_mem_append, List.mem_range'_1, List.length_append]
  refine and_congr_right fun _ => ⟨fun all => ?_, fun last => ?_⟩
  · exact all _ ⟨by omega, by omega⟩
  · rintro index ⟨_, before⟩
    omega

theorem prefix_strncat
    {n : Nat} :
    buffer.path <+: (buffer.strncat source n).path :=
  ⟨_, rfl⟩

theorem inside_enterEntry_iff :
    (buffer.enterEntry pathSize name).Inside size ↔
      buffer.Inside size ∧
        (enteredPath pathSize buffer.path name).length < size := by
  rw [← path_enterEntry]
  unfold PathBuffer.enterEntry
  split
  · simp only
    rw [inside_strncat_iff, inside_strncat_iff]
    refine ⟨fun inside => ⟨inside.1.1, inside.2⟩, fun inside => ?_⟩
    refine ⟨⟨inside.1, ?_⟩, inside.2⟩
    exact Nat.lt_of_le_of_lt prefix_strncat.length_le inside.2
  · exact inside_strncat_iff

theorem prefix_enteredPath :
    dir <+: enteredPath pathSize dir name := by
  unfold enteredPath PathBuffer.enterEntry
  split
  · have slashed :
        dir <+:
          (PathBuffer.strncat ['/'] (sizeSub pathSize dir.length)
            ⟨dir, []⟩).path :=
      ⟨_, rfl⟩
    exact slashed.trans prefix_strncat
  · exact ⟨_, rfl⟩

theorem prefix_stores_enterEntry :
    buffer.stores <+: (buffer.enterEntry pathSize name).stores := by
  unfold PathBuffer.enterEntry
  split
  · exact List.IsPrefix.trans ⟨_, rfl⟩ (List.prefix_append _ _)
  · exact List.prefix_append _ _

theorem PathBuffer.Inside.of_prefix
    {longer : PathBuffer}
    (inside : longer.Inside size)
    (added : buffer.stores <+: longer.stores) :
    buffer.Inside size :=
  fun index member => inside index (added.subset member)

theorem inside_cut
    {length : Nat}
    (inside : buffer.Inside size)
    (before : length < size) :
    (buffer.cut length).Inside size := by
  simpa [PathBuffer.Inside, PathBuffer.cut, or_imp, forall_and] using
    ⟨inside, before⟩

/-- Cutting a path at the length of a beginning leaves that beginning. -/
theorem path_cut
    (extended : dir <+: buffer.path) :
    (buffer.cut dir.length).path = dir :=
  (List.prefix_iff_eq_take.mp extended).symm

theorem sizeSub_of_le
    {first second : Nat}
    (le : second ≤ first)
    (small : first < 2 ^ 64) :
    sizeSub first second = first - second := by
  unfold sizeSub
  omega

/-- A path that fits is cut off where it would not fit any more. -/
theorem enteredPath_eq_entryPath
    (fits : dir.length ≤ pathSize)
    (small : pathSize < 2 ^ 64) :
    enteredPath pathSize dir name = entryPath pathSize dir name := by
  have room := sizeSub_of_le fits small
  unfold enteredPath entryPath PathBuffer.enterEntry PathBuffer.strncat
  by_cases slash : dir.getLast? = some '/'
  · simp [slash, room]
  · have slashedFits :
        (Libc.strncat dir ['/'] (pathSize - dir.length)).length ≤
          pathSize := by
      rw [Libc.strncat, List.length_append, List.length_take]
      omega
    simp [slash, room, sizeSub_of_le slashedFits small]

theorem length_entryPath_le
    (fits : dir.length ≤ pathSize) :
    (entryPath pathSize dir name).length ≤ pathSize := by
  have appended :
      ∀ path source : CString,
        path.length ≤ pathSize →
          (Libc.strncat path source (pathSize - path.length)).length ≤
            pathSize := by
    intro path source fits
    rw [Libc.strncat, List.length_append, List.length_take]
    omega
  unfold entryPath
  split
  · exact appended _ _ (appended _ _ fits)
  · exact appended _ _ fits

/--
The room given to `strncat` reaches to the end of the array: `path_size` does,
or the path is longer than `path_size` and the difference wraps around.
-/
def Unlimited (size pathSize length : Nat) : Prop :=
  size ≤ pathSize ∨ pathSize < length

theorem Unlimited.le_room
    {length : Nat}
    (unlimited : Unlimited size pathSize length)
    (small : pathSize < 2 ^ 64)
    (sizeSmall : size ≤ 2 ^ 64)
    (longer : Nat)
    (le : length ≤ longer)
    (inArray : longer < size) :
    size ≤ longer + sizeSub pathSize longer := by
  unfold sizeSub
  rcases unlimited with large | long
  · omega
  · omega

theorem Unlimited.mono
    {length longer : Nat}
    (unlimited : Unlimited size pathSize length)
    (le : length ≤ longer) :
    Unlimited size pathSize longer :=
  unlimited.imp_right fun long => Nat.lt_of_lt_of_le long le

/-- Where the room reaches to the end, a name is cut off only behind it. -/
theorem strncat_unlimited
    {path : CString}
    {room : Nat}
    (reaches : size ≤ path.length + room) :
    (path ++ source).length < size ∧
        Libc.strncat path source room = path ++ source ∨
      size ≤ (path ++ source).length ∧
        size ≤ (Libc.strncat path source room).length := by
  rw [Libc.strncat]
  rcases Nat.lt_or_ge (path ++ source).length size with short | long
  · refine .inl ⟨short, ?_⟩
    rw [List.length_append] at short
    rw [List.take_of_length_le (by omega)]
  · refine .inr ⟨long, ?_⟩
    rw [List.length_append] at long ⊢
    rw [List.length_take]
    omega

theorem enteredPath_of_slash
    (slash : dir.getLast? = some '/') :
    enteredPath pathSize dir name =
      Libc.strncat dir name (sizeSub pathSize dir.length) := by
  simp [enteredPath, PathBuffer.enterEntry, PathBuffer.strncat, slash]

theorem enteredPath_of_no_slash
    (slash : ¬ dir.getLast? = some '/') :
    enteredPath pathSize dir name =
      Libc.strncat (Libc.strncat dir ['/'] (sizeSub pathSize dir.length)) name
        (sizeSub pathSize
          (Libc.strncat dir ['/'] (sizeSub pathSize dir.length)).length) := by
  simp [enteredPath, PathBuffer.enterEntry, PathBuffer.strncat, slash]

/--
Without a limit inside the array the path of an entry is its full path, or
both leave the array.
-/
theorem enteredPath_unlimited
    (unlimited : Unlimited size pathSize dir.length)
    (small : pathSize < 2 ^ 64)
    (sizeSmall : size ≤ 2 ^ 64)
    (inArray : dir.length < size) :
    (childPath dir name).length < size ∧
        enteredPath pathSize dir name = childPath dir name ∨
      size ≤ (childPath dir name).length ∧
        size ≤ (enteredPath pathSize dir name).length := by
  have room := unlimited.le_room small sizeSmall
  have reaches := room _ (le_refl _) inArray
  unfold childPath slashed
  by_cases slash : dir.getLast? = some '/'
  · rw [if_pos slash, enteredPath_of_slash slash]
    exact strncat_unlimited reaches
  · rw [if_neg slash, enteredPath_of_no_slash slash]
    have whole :
        Libc.strncat dir ['/'] (sizeSub pathSize dir.length) =
          dir ++ ['/'] := by
      rw [Libc.strncat, List.take_of_length_le]
      rw [List.length_singleton]
      omega
    rw [whole]
    rcases Nat.lt_or_ge (dir ++ ['/']).length size with fits | full
    · exact strncat_unlimited (room _ (by simp) fits)
    · refine .inr ⟨?_, ?_⟩
      · exact full.trans (List.prefix_append _ _).length_le
      · exact full.trans (List.prefix_append _ _).length_le

end Entry

section Adding

variable {Call : Type}
variable {Answer : Call → Type}
variable {State : Type}
variable {surroundings : Surroundings Answer}
variable {callbacks : Callbacks Answer State}
variable {pathSize : Nat}
variable {trace : List (Step Answer)}

variable
  {enter : Option (PathBuffer → State → Prog Answer (PathBuffer × State))}

theorem runs_visitStoring_iff
    {kind : FileKind}
    {buffer : PathBuffer}
    {name : CString}
    {state : State}
    {result : PathBuffer × State} :
    Runs (visitStoring callbacks enter kind buffer name state) trace result ↔
      Visits PathBuffer.path callbacks enter buffer name state kind trace
        result := by
  rw [← runs_visitFrom_iff]
  unfold visitStoring visitFrom
  cases kind with
  | directory =>
      cases enter with
      | none =>
          rfl
      | some walk =>
          rfl
  | regular | other =>
      rfl

theorem runs_walkFromStoring_iff
    {buffer : PathBuffer}
    {state : State}
    {result : PathBuffer × State} :
    Runs (walkFromStoring surroundings callbacks pathSize enter buffer state)
        trace result ↔
      Opened PathBuffer.path surroundings callbacks
        (walkEntriesStoring surroundings callbacks pathSize enter) buffer
        state trace result := by
  rw [← runs_openFrom_iff]
  rfl

/-- A walk that only adds to the path and to the stores. -/
def OnlyAdds
    (walk : PathBuffer → State → Prog Answer (PathBuffer × State)) :
    Prop :=
  ∀ buffer state trace result,
    Runs (walk buffer state) trace result →
      buffer.path <+: result.1.path ∧ buffer.stores <+: result.1.stores

theorem onlyAdds_visit
    {kind : FileKind}
    {buffer : PathBuffer}
    {name : CString}
    {state : State}
    {result : PathBuffer × State}
    (adding : ∀ walk ∈ enter, OnlyAdds walk)
    (run :
      Runs (visitStoring callbacks enter kind buffer name state) trace
        result) :
    buffer.path <+: result.1.path ∧ buffer.stores <+: result.1.stores := by
  cases runs_visitStoring_iff.mp run with
  | passed _ | file _ _ | declined _ _ _ =>
      exact ⟨List.prefix_rfl, List.prefix_rfl⟩
  | entered _ entering _ walked =>
      exact adding _ entering _ _ _ _ walked

theorem onlyAdds_walkEntries
    {names : List CString}
    {dir : CString}
    {buffer : PathBuffer}
    {state : State}
    {result : PathBuffer × State}
    (adding : ∀ walk ∈ enter, OnlyAdds walk)
    (here : buffer.path = dir)
    (run :
      Runs
        (walkEntriesStoring surroundings callbacks pathSize enter names buffer
          state)
        trace result) :
    dir <+: result.1.path ∧ buffer.stores <+: result.1.stores := by
  induction names generalizing buffer state trace with
  | nil =>
      obtain ⟨rfl, rfl⟩ := runs_pure_iff.mp run
      exact ⟨here ▸ List.prefix_rfl, List.prefix_rfl⟩
  | cons name names inductionHypothesis =>
      obtain
        ⟨looking, kind, visiting, visited, polling, interrupted, later, rfl,
          looked, visit, polled, rest⟩ :=
        runs_turn_iff.mp run
      have there := onlyAdds_visit adding visit
      have extended : dir <+: visited.1.path := by
        rw [path_enterEntry, here] at there
        exact prefix_enteredPath.trans there.1
      have stored := prefix_stores_enterEntry.trans there.2
      rcases rest with ⟨rfl, rfl, rfl⟩ | ⟨rfl, rest⟩
      · exact ⟨extended, stored⟩
      · rw [here] at rest
        have behind := inductionHypothesis (path_cut extended) rest
        exact
          ⟨behind.1,
            stored.trans ((List.prefix_append _ _).trans behind.2)⟩

theorem onlyAdds_walkFrom
    (adding : ∀ walk ∈ enter, OnlyAdds walk) :
    OnlyAdds (walkFromStoring surroundings callbacks pathSize enter) := by
  intro buffer state trace result run
  cases runs_walkFromStoring_iff.mp run with
  | entries _ walked =>
      exact onlyAdds_walkEntries adding rfl walked
  | notDirectory _ _ | unreadable _ =>
      exact ⟨List.prefix_rfl, List.prefix_rfl⟩

theorem onlyAdds_walkdir
    (depth : Nat) :
    OnlyAdds (walkdirStoring surroundings callbacks pathSize depth) := by
  induction depth with
  | zero =>
      refine onlyAdds_walkFrom ?_
      rintro walk ⟨⟩
  | succ depth inductionHypothesis =>
      refine onlyAdds_walkFrom ?_
      rintro walk ⟨⟩
      exact inductionHypothesis

end Adding

section Refinement

variable {Call : Type}
variable {Answer : Call → Type}
variable {State : Type}
variable {surroundings : Surroundings Answer}
variable {callbacks : Callbacks Answer State}
variable {pathSize : Nat}
variable {trace : List (Step Answer)}

/-- Without its stores a run is one of the walk on strings. -/
def Forgets
    (pathSize : Nat)
    (storing : PathBuffer → State → Prog Answer (PathBuffer × State))
    (walk : CString → State → Prog Answer (CString × State)) :
    Prop :=
  ∀ buffer state trace result,
    buffer.path.length ≤ pathSize →
      Runs (storing buffer state) trace result →
        result.1.path.length ≤ pathSize ∧
          Runs (walk buffer.path state) trace (result.1.path, result.2)

variable
  {storing : Option (PathBuffer → State → Prog Answer (PathBuffer × State))}
variable {enter : Option (CString → State → Prog Answer (CString × State))}

theorem forgets_visit
    {kind : FileKind}
    {buffer : PathBuffer}
    {name : CString}
    {state : State}
    {result : PathBuffer × State}
    (entering : Option.Rel (Forgets pathSize) storing enter)
    (fits : buffer.path.length ≤ pathSize)
    (run :
      Runs (visitStoring callbacks storing kind buffer name state) trace
        result) :
    result.1.path.length ≤ pathSize ∧
      Runs (visit callbacks enter kind buffer.path name state) trace
        (result.1.path, result.2) := by
  rw [runs_visit_iff]
  have missing := eq_none_iff_of_rel entering
  cases runs_visitStoring_iff.mp run with
  | passed passed =>
      rw [missing] at passed
      exact ⟨fits, .passed passed⟩
  | file shown called =>
      exact ⟨fits, .file shown called⟩
  | declined shown deep asked =>
      exact ⟨fits, .declined shown (mt missing.mpr deep) asked⟩
  | entered shown isWalk asked walked =>
      subst isWalk
      cases entering with
      | some forgets =>
          have inside := forgets _ _ _ _ fits walked
          exact ⟨inside.1, .entered shown rfl asked inside.2⟩

theorem forgets_walkEntries
    {names : List CString}
    {buffer : PathBuffer}
    {state : State}
    {result : PathBuffer × State}
    (small : pathSize < 2 ^ 64)
    (entering : Option.Rel (Forgets pathSize) storing enter)
    (fits : buffer.path.length ≤ pathSize)
    (run :
      Runs
        (walkEntriesStoring surroundings callbacks pathSize storing names
          buffer state)
        trace result) :
    result.1.path.length ≤ pathSize ∧
      Runs
        (walkEntries surroundings callbacks pathSize enter names buffer.path
          state)
        trace (result.1.path, result.2) := by
  induction names generalizing buffer state trace with
  | nil =>
      obtain ⟨rfl, rfl⟩ := runs_pure_iff.mp run
      exact ⟨fits, runs_pure_iff.mpr ⟨rfl, rfl⟩⟩
  | cons name names inductionHypothesis =>
      obtain
        ⟨looking, kind, visiting, visited, polling, interrupted, later, rfl,
          looked, visit, polled, rest⟩ :=
        runs_turn_iff.mp run
      have entryPathIs :
          (buffer.enterEntry pathSize name).path =
            entryPath pathSize buffer.path name := by
        rw [path_enterEntry, enteredPath_eq_entryPath fits small]
      have entryFits :
          (buffer.enterEntry pathSize name).path.length ≤ pathSize := by
        rw [entryPathIs]
        exact length_entryPath_le fits
      have here := forgets_visit entering entryFits visit
      rw [entryPathIs] at looked here
      rcases rest with ⟨rfl, rfl, rfl⟩ | ⟨rfl, rest⟩
      · refine ⟨here.1, runs_turn_iff.mpr ?_⟩
        exact
          ⟨looking, kind, visiting, _, polling, true, [], rfl, looked, here.2,
            polled, .inl ⟨rfl, rfl, rfl⟩⟩
      · have cutFits :
            (visited.1.cut buffer.path.length).path.length ≤ pathSize :=
          (List.length_take_le _ _).trans fits
        have there := inductionHypothesis cutFits rest
        refine ⟨there.1, runs_turn_iff.mpr ?_⟩
        exact
          ⟨looking, kind, visiting, _, polling, false, later, rfl, looked,
            here.2, polled, .inr ⟨rfl, there.2⟩⟩

theorem forgets_walkFrom
    (small : pathSize < 2 ^ 64)
    (entering : Option.Rel (Forgets pathSize) storing enter) :
    Forgets pathSize
      (walkFromStoring surroundings callbacks pathSize storing)
      (walkFrom surroundings callbacks pathSize enter) := by
  intro buffer state trace result fits run
  rw [runs_walkFrom_iff]
  cases runs_walkFromStoring_iff.mp run with
  | entries opened walked =>
      have entries := forgets_walkEntries small entering fits walked
      exact ⟨entries.1, .entries opened entries.2⟩
  | notDirectory opened called =>
      exact ⟨fits, .notDirectory opened called⟩
  | unreadable opened =>
      exact ⟨fits, .unreadable opened⟩

/-- From a path that fits, the walk is the one on strings. -/
theorem forgets_walkdir
    (small : pathSize < 2 ^ 64)
    (depth : Nat) :
    Forgets pathSize
      (walkdirStoring surroundings callbacks pathSize depth)
      (walkdir surroundings callbacks pathSize depth) := by
  induction depth with
  | zero =>
      exact forgets_walkFrom small .none
  | succ depth inductionHypothesis =>
      exact forgets_walkFrom small (.some inductionHypothesis)

end Refinement

end Csh.Walkdir
