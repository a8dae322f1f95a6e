import Csh.Lib.Cells
import Csh.Walkdir

namespace Csh.Walkdir

open Libc Interaction Cells

/-!
# The buffer of a walk

`walkdir` on the cells of the array that holds the path.  Behind the path it
leaves what it has written there; up to the end of the path the array reads as
the path of the walk on strings.
-/

/-- The cells of an array of characters. -/
abbrev PathCells : Type :=
  Nat → Char

/-- The string in an array whose cells from `pathSize` on are NUL. -/
def pathIn (pathSize : Nat) (cells : PathCells) : CString :=
  textIn nul pathSize cells

/-- `strncat` behind the string in the array. -/
def strncatIn
    (pathSize : Nat)
    (cells : PathCells)
    (source : CString)
    (n : Nat) :
    PathCells :=
  poke cells (pathIn pathSize cells).length (source.take n ++ [nul])

/-- The array with the path of an entry. -/
def entryIn
    (pathSize : Nat)
    (cells : PathCells)
    (name : CString) :
    PathCells :=
  let path := pathIn pathSize cells
  let slashed :=
    if path.getLast? ≠ some '/' then
      strncatIn pathSize cells ['/'] (pathSize - path.length)
    else
      cells
  strncatIn pathSize slashed name
    (pathSize - (pathIn pathSize slashed).length)

section WalkIn

variable {Call : Type}
variable {Answer : Call → Type}
variable {State : Type}

/-- `visit` on the array. -/
def visitIn
    (callbacks : Callbacks Answer State)
    (pathSize : Nat)
    (enter : Option (PathCells → State → Prog Answer (PathCells × State)))
    (kind : FileKind)
    (cells : PathCells)
    (name : CString)
    (state : State) :
    Prog Answer (PathCells × State) :=
  if name.head? = some '.' then
    pure (cells, state)
  else
    match kind, enter with
    | .directory, some enter => do
        let accepted ← callbacks.dirCb (pathIn pathSize cells) name state
        if accepted.1 then
          enter cells accepted.2
        else
          pure (cells, accepted.2)
    | .regular, _ => do
        let state ← callbacks.fileCb (pathIn pathSize cells) name state
        pure (cells, state)
    | _, _ => pure (cells, state)

/-- The loop over the entries; `path[path_len] = 0` restores the string. -/
def walkEntriesIn
    (surroundings : Surroundings Answer)
    (callbacks : Callbacks Answer State)
    (pathSize : Nat)
    (enter : Option (PathCells → State → Prog Answer (PathCells × State))) :
    List CString → PathCells → State → Prog Answer (PathCells × State)
  | [], cells, state => pure (cells, state)
  | name :: rest, cells, state => do
      let entry := entryIn pathSize cells name
      let kind ← surroundings.lstat (pathIn pathSize entry)
      let visited ← visitIn callbacks pathSize enter kind entry name state
      let interrupted ← surroundings.interrupted
      if interrupted then
        pure visited
      else
        walkEntriesIn surroundings callbacks pathSize enter rest
          (poke visited.1 (pathIn pathSize cells).length [nul]) visited.2

/-- Open the path and go over its entries. -/
def walkFromIn
    (surroundings : Surroundings Answer)
    (callbacks : Callbacks Answer State)
    (pathSize : Nat)
    (enter : Option (PathCells → State → Prog Answer (PathCells × State)))
    (cells : PathCells)
    (state : State) :
    Prog Answer (PathCells × State) := do
  let listing ← surroundings.opendir (pathIn pathSize cells)
  match listing with
  | .entries names =>
      walkEntriesIn surroundings callbacks pathSize enter names cells state
  | .notDirectory => do
      let state ←
        callbacks.fileCb (pathIn pathSize cells) (pathIn pathSize cells) state
      pure (cells, state)
  | .unreadable => pure (cells, state)

/-- `walkdir` on the array. -/
def walkdirIn
    (surroundings : Surroundings Answer)
    (callbacks : Callbacks Answer State)
    (pathSize : Nat) :
    Nat → PathCells → State → Prog Answer (PathCells × State)
  | 0 => walkFromIn surroundings callbacks pathSize none
  | depth + 1 =>
      walkFromIn surroundings callbacks pathSize
        (some (walkdirIn surroundings callbacks pathSize depth))

end WalkIn

/-- The array holds the path, in `pathSize` cells. -/
abbrev HoldsPath (pathSize : Nat) (cells : PathCells) (path : CString) : Prop :=
  HoldsText nul pathSize cells path

section Entry

variable {pathSize : Nat}
variable {cells : PathCells}
variable {path name : CString}

theorem pathIn_eq
    (held : HoldsPath pathSize cells path) :
    pathIn pathSize cells = path :=
  held.textIn

/-- `strncat` in the array is `strncat` on strings. -/
theorem holdsPath_strncatIn
    (held : HoldsPath pathSize cells path)
    (plain : nul ∉ name) :
    HoldsPath pathSize
      (strncatIn pathSize cells name (pathSize - path.length))
      (strncat path name (pathSize - path.length)) := by
  have fits := held.fits
  unfold strncatIn strncat
  rw [pathIn_eq held]
  refine held.append (fun member => plain (List.mem_of_mem_take member)) ?_
  rw [List.length_take]
  omega

/-- The array holds the path of an entry, with the directory in front of it. -/
theorem holdsPath_entryIn
    (held : HoldsPath pathSize cells path)
    (plain : nul ∉ name) :
    HoldsPath pathSize (entryIn pathSize cells name)
      (entryPath pathSize path name) := by
  unfold entryIn entryPath
  rw [pathIn_eq held]
  by_cases slash : path.getLast? ≠ some '/'
  · simp only [if_pos slash]
    have slashed :
        HoldsPath pathSize
          (strncatIn pathSize cells ['/'] (pathSize - path.length))
          (strncat path ['/'] (pathSize - path.length)) :=
      holdsPath_strncatIn held (by decide)
    rw [pathIn_eq slashed]
    exact holdsPath_strncatIn slashed plain
  · simp only [if_neg slash]
    rw [pathIn_eq held]
    exact holdsPath_strncatIn held plain

theorem exists_entryPath_eq
    (pathSize : Nat)
    (path name : CString) :
    ∃ more, entryPath pathSize path name = path ++ more := by
  unfold entryPath strncat
  split
  · exact ⟨_, List.append_assoc _ _ _⟩
  · exact ⟨_, rfl⟩

end Entry

section Refinement

variable {Call : Type}
variable {Answer : Call → Type}
variable {State : Type}
variable {surroundings : Surroundings Answer}
variable {callbacks : Callbacks Answer State}
variable {pathSize : Nat}
variable {trace : List (Step Answer)}

/-- The walk is not interrupted, and names are C strings. -/
structure Plain (surroundings : Surroundings Answer) : Prop where
  uninterrupted :
    ∀ {trace answer}, Runs surroundings.interrupted trace answer →
      answer = false
  names :
    ∀ {path trace names},
      Runs (surroundings.opendir path) trace (.entries names) →
        ∀ name ∈ names, nul ∉ name

/--
A run on the array is one on the string in it, and leaves that string in the
array.
-/
def Refines
    (pathSize : Nat)
    (walkIn : PathCells → State → Prog Answer (PathCells × State))
    (walk : CString → State → Prog Answer (CString × State)) :
    Prop :=
  ∀ cells path state trace result,
    HoldsPath pathSize cells path →
      Runs (walkIn cells state) trace result →
        HoldsPath pathSize result.1 path ∧
          Runs (walk path state) trace (path, result.2)

variable
  {enterIn : Option (PathCells → State → Prog Answer (PathCells × State))}
variable {enter : Option (CString → State → Prog Answer (CString × State))}

theorem runs_visitIn_iff
    {kind : FileKind}
    {cells : PathCells}
    {name : CString}
    {state : State}
    {result : PathCells × State} :
    Runs (visitIn callbacks pathSize enterIn kind cells name state) trace
        result ↔
      Visits (pathIn pathSize) callbacks enterIn cells name state kind trace
        result := by
  rw [← runs_visitFrom_iff]
  unfold visitIn visitFrom
  cases kind with
  | directory =>
      cases enterIn with
      | none =>
          rfl
      | some walk =>
          rfl
  | regular | other =>
      rfl

theorem runs_walkFromIn_iff
    {cells : PathCells}
    {state : State}
    {result : PathCells × State} :
    Runs (walkFromIn surroundings callbacks pathSize enterIn cells state)
        trace result ↔
      Opened (pathIn pathSize) surroundings callbacks
        (walkEntriesIn surroundings callbacks pathSize enterIn) cells state
        trace result := by
  rw [← runs_openFrom_iff]
  rfl

/-- Related walks of subdirectories are missing together. -/
theorem eq_none_iff_of_rel
    {First Second : Type}
    {relation : First → Second → Prop}
    {first : Option First}
    {second : Option Second}
    (related : Option.Rel relation first second) :
    first = none ↔ second = none := by
  cases related with
  | some _ =>
      simp
  | none =>
      simp

theorem refines_visit
    {kind : FileKind}
    {cells : PathCells}
    {path name : CString}
    {state : State}
    {result : PathCells × State}
    (entering : Option.Rel (Refines pathSize) enterIn enter)
    (held : HoldsPath pathSize cells path)
    (run :
      Runs (visitIn callbacks pathSize enterIn kind cells name state) trace
        result) :
    HoldsPath pathSize result.1 path ∧
      Runs (visit callbacks enter kind path name state) trace
        (path, result.2) := by
  rw [runs_visit_iff]
  have same := pathIn_eq held
  have missing := eq_none_iff_of_rel entering
  cases runs_visitIn_iff.mp run with
  | passed passed =>
      rw [missing] at passed
      exact ⟨held, .passed passed⟩
  | file shown called =>
      rw [same] at called
      exact ⟨held, .file shown called⟩
  | declined shown deep asked =>
      rw [same] at asked
      exact ⟨held, .declined shown (mt missing.mpr deep) asked⟩
  | entered shown isWalk asked walked =>
      subst isWalk
      rw [same] at asked
      cases entering with
      | some refines =>
          have inside := refines _ _ _ _ _ held walked
          exact ⟨inside.1, .entered shown rfl asked inside.2⟩

theorem refines_walkEntries
    {names : List CString}
    {cells : PathCells}
    {path : CString}
    {state : State}
    {result : PathCells × State}
    (plain : Plain surroundings)
    (entering : Option.Rel (Refines pathSize) enterIn enter)
    (namesPlain : ∀ name ∈ names, nul ∉ name)
    (held : HoldsPath pathSize cells path)
    (run :
      Runs
        (walkEntriesIn surroundings callbacks pathSize enterIn names cells
          state)
        trace result) :
    HoldsPath pathSize result.1 path ∧
      Runs
        (walkEntries surroundings callbacks pathSize enter names path state)
        trace (path, result.2) := by
  induction names generalizing cells state trace with
  | nil =>
      obtain ⟨rfl, rfl⟩ := runs_pure_iff.mp run
      exact ⟨held, runs_pure_iff.mpr ⟨rfl, rfl⟩⟩
  | cons name names inductionHypothesis =>
      have entry := holdsPath_entryIn held (namesPlain name (by simp))
      obtain
        ⟨looking, kind, visiting, visited, polling, interrupted, later, rfl,
          looked, visit, polled, rest⟩ :=
        runs_turn_iff.mp run
      obtain rfl := plain.uninterrupted polled
      obtain ⟨⟨⟩, _⟩ | ⟨_, rest⟩ := rest
      rw [pathIn_eq entry] at looked
      rw [pathIn_eq held] at rest
      have here := refines_visit entering entry visit
      obtain ⟨more, extended⟩ := exists_entryPath_eq pathSize path name
      have whole : HoldsPath pathSize visited.1 (path ++ more) := by
        rw [← extended]
        exact here.1
      have there :=
        inductionHypothesis
          (fun other member => namesPlain other (by simp [member])) whole.cut
          rest
      refine ⟨there.1, runs_turn_iff.mpr ?_⟩
      refine
        ⟨looking, kind, visiting, _, polling, false, later, rfl, looked,
          here.2, polled, .inr ⟨rfl, ?_⟩⟩
      rw [extended, List.take_left]
      exact there.2

theorem refines_walkFrom
    (plain : Plain surroundings)
    (entering : Option.Rel (Refines pathSize) enterIn enter) :
    Refines pathSize
      (walkFromIn surroundings callbacks pathSize enterIn)
      (walkFrom surroundings callbacks pathSize enter) := by
  intro cells path state trace result held run
  rw [runs_walkFrom_iff]
  have same := pathIn_eq held
  cases runs_walkFromIn_iff.mp run with
  | entries opened walked =>
      rw [same] at opened
      have entries :=
        refines_walkEntries plain entering (plain.names opened) held walked
      exact ⟨entries.1, .entries opened entries.2⟩
  | notDirectory opened called =>
      rw [same] at opened called
      exact ⟨held, .notDirectory opened called⟩
  | unreadable opened =>
      rw [same] at opened
      exact ⟨held, .unreadable opened⟩

/--
The walk on the array makes the calls of the walk on its string, and leaves
that string in the array.
-/
theorem refines_walkdir
    (plain : Plain surroundings)
    (depth : Nat) :
    Refines pathSize
      (walkdirIn surroundings callbacks pathSize depth)
      (walkdir surroundings callbacks pathSize depth) := by
  induction depth with
  | zero =>
      exact refines_walkFrom plain .none
  | succ depth inductionHypothesis =>
      exact refines_walkFrom plain (.some inductionHypothesis)

end Refinement

section Rule

variable {Call : Type}
variable {Answer : Call → Type}
variable {State : Type}
variable {surroundings : Surroundings Answer}
variable {callbacks : Callbacks Answer State}
variable {relation : List (Step Answer) → State → State → Prop}
variable {pathSize : Nat}
variable {trace : List (Step Answer)}

theorem Kept.walkEntriesIn
    {enter : Option (PathCells → State → Prog Answer (PathCells × State))}
    (kept : Kept surroundings callbacks relation)
    (enterKept :
      ∀ walk ∈ enter, ∀ cells state trace result,
        Runs (walk cells state) trace result → relation trace state result.2)
    {names : List CString}
    {cells : PathCells}
    {state : State}
    {result : PathCells × State}
    (run :
      Runs
        (Walkdir.walkEntriesIn surroundings callbacks pathSize enter names
          cells state)
        trace result) :
    relation trace state result.2 := by
  induction names generalizing cells state trace with
  | nil =>
      obtain ⟨rfl, rfl⟩ := runs_pure_iff.mp run
      exact kept.nothing state
  | cons name names inductionHypothesis =>
      obtain
        ⟨_, kind, _, visited, _, interrupted, _, rfl, looked, visiting, asked,
          rest⟩ :=
        runs_turn_iff.mp run
      refine kept.append (kept.lstat state looked) ?_
      refine
        kept.append (kept.visits enterKept (runs_visitIn_iff.mp visiting)) ?_
      refine kept.append (kept.interrupted visited.2 asked) ?_
      rcases rest with ⟨rfl, rfl, rfl⟩ | ⟨rfl, rest⟩
      · exact kept.nothing _
      · exact inductionHypothesis rest

/-- What the callbacks keep holds of a whole walk on the array. -/
theorem Kept.walkdirIn
    (kept : Kept surroundings callbacks relation)
    {depth : Nat}
    {cells : PathCells}
    {state : State}
    {result : PathCells × State}
    (run :
      Runs (Walkdir.walkdirIn surroundings callbacks pathSize depth cells state)
        trace result) :
    relation trace state result.2 := by
  induction depth generalizing cells state trace result with
  | zero =>
      refine
        kept.opened (fun _ _ walked => kept.walkEntriesIn ?_ walked)
          (runs_walkFromIn_iff.mp run)
      rintro walk ⟨⟩
  | succ depth inductionHypothesis =>
      refine
        kept.opened (fun _ _ walked => kept.walkEntriesIn ?_ walked)
          (runs_walkFromIn_iff.mp run)
      rintro walk ⟨⟩ cells state trace result run
      exact inductionHypothesis run

end Rule

end Csh.Walkdir
