import Csh.Lib.CString
import Csh.Lib.Interaction

namespace Csh.Walkdir

open Libc Interaction

/-!
# Walking a directory tree

`walkdir` visits a directory with one path buffer: each entry is appended to
it, looked at, handed to a callback or descended into, and cut off again.  The
file system answers freely, so that nothing is assumed about the tree, and the
callbacks are programs on the state behind their `custom` pointer.
-/

/-- `WALKDIR_MAX_ENTRIES`. -/
def walkdirMaxEntries : Nat :=
  32

/-- `WALKDIR_MAX_PATH_SIZE`. -/
def walkdirMaxPathSize : Nat :=
  256

/-- What `lstat` leaves in the mode of `stat_info`. -/
inductive FileKind where
  | directory
  | regular
  | other
  deriving Repr, DecidableEq

/-- A directory with the names `readdir` will return, or why it is none. -/
inductive Listing where
  | entries (names : List CString)
  | notDirectory
  | unreadable
  deriving Repr, DecidableEq

/--
What `walkdir` uses of its surroundings.  `interrupted` is the comparison of
the signal with `SIGINT`, without a signal pointer a constant `false`.
-/
structure Surroundings {Call : Type} (Answer : Call → Type) where
  opendir : CString → Prog Answer Listing
  lstat : CString → Prog Answer FileKind
  interrupted : Prog Answer Bool

/-- The two callbacks; a missing `dir_cb` is one that declines. -/
structure Callbacks {Call : Type} (Answer : Call → Type) (State : Type) where
  dirCb : CString → CString → State → Prog Answer (Bool × State)
  fileCb : CString → CString → State → Prog Answer State

section Walk

variable {Call : Type}
variable {Answer : Call → Type}
variable {State : Type}

/-- The path of an entry: a slash where there is none, and its name. -/
def entryPath
    (pathSize : Nat)
    (path name : CString) :
    CString :=
  let slashed :=
    if path.getLast? ≠ some '/' then
      strncat path ['/'] (pathSize - path.length)
    else
      path
  strncat slashed name (pathSize - slashed.length)

/--
What is done with one entry, from the path it has in the buffer; `enter` walks
a directory and is missing when the depth is zero.
-/
def visit
    (callbacks : Callbacks Answer State)
    (enter : Option (CString → State → Prog Answer (CString × State)))
    (kind : FileKind)
    (path name : CString)
    (state : State) :
    Prog Answer (CString × State) :=
  if name.head? = some '.' then
    pure (path, state)
  else
    match kind, enter with
    | .directory, some enter => do
        let accepted ← callbacks.dirCb path name state
        if accepted.1 then
          enter path accepted.2
        else
          pure (path, accepted.2)
    | .regular, _ => do
        let state ← callbacks.fileCb path name state
        pure (path, state)
    | _, _ => pure (path, state)

/-- The loop over the entries of a directory. -/
def walkEntries
    (surroundings : Surroundings Answer)
    (callbacks : Callbacks Answer State)
    (pathSize : Nat)
    (enter : Option (CString → State → Prog Answer (CString × State))) :
    List CString → CString → State → Prog Answer (CString × State)
  | [], path, state => pure (path, state)
  | name :: rest, path, state => do
      let kind ← surroundings.lstat (entryPath pathSize path name)
      let visited ←
        visit callbacks enter kind (entryPath pathSize path name) name state
      let interrupted ← surroundings.interrupted
      if interrupted then
        pure visited
      else
        walkEntries surroundings callbacks pathSize enter rest
          (visited.1.take path.length) visited.2

/-- Open the path and go over its entries. -/
def walkFrom
    (surroundings : Surroundings Answer)
    (callbacks : Callbacks Answer State)
    (pathSize : Nat)
    (enter : Option (CString → State → Prog Answer (CString × State)))
    (path : CString)
    (state : State) :
    Prog Answer (CString × State) := do
  let listing ← surroundings.opendir path
  match listing with
  | .entries names =>
      walkEntries surroundings callbacks pathSize enter names path state
  | .notDirectory => do
      let state ← callbacks.fileCb path path state
      pure (path, state)
  | .unreadable => pure (path, state)

/-- `walkdir`: the path buffer and the custom state when it returns. -/
def walkdir
    (surroundings : Surroundings Answer)
    (callbacks : Callbacks Answer State)
    (pathSize : Nat) :
    Nat → CString → State → Prog Answer (CString × State)
  | 0 => walkFrom surroundings callbacks pathSize none
  | depth + 1 =>
      walkFrom surroundings callbacks pathSize
        (some (walkdir surroundings callbacks pathSize depth))

end Walk

section Inversion

variable {Call : Type}
variable {Answer : Call → Type}
variable {State : Type}
variable {Buffer : Type}
variable {surroundings : Surroundings Answer}
variable {callbacks : Callbacks Answer State}
variable {trace : List (Step Answer)}

/-- `visit` on any buffer that the path is read from. -/
def visitFrom
    (read : Buffer → CString)
    (callbacks : Callbacks Answer State)
    (enter : Option (Buffer → State → Prog Answer (Buffer × State)))
    (kind : FileKind)
    (buffer : Buffer)
    (name : CString)
    (state : State) :
    Prog Answer (Buffer × State) :=
  if name.head? = some '.' then
    pure (buffer, state)
  else
    match kind, enter with
    | .directory, some enter => do
        let accepted ← callbacks.dirCb (read buffer) name state
        if accepted.1 then
          enter buffer accepted.2
        else
          pure (buffer, accepted.2)
    | .regular, _ => do
        let state ← callbacks.fileCb (read buffer) name state
        pure (buffer, state)
    | _, _ => pure (buffer, state)

/--
The runs of a visit: the entry is passed by, `file_cb` is called with it, or
`dir_cb` declines or accepts it.
-/
inductive Visits
    (read : Buffer → CString)
    (callbacks : Callbacks Answer State)
    (enter : Option (Buffer → State → Prog Answer (Buffer × State)))
    (buffer : Buffer)
    (name : CString)
    (state : State) :
    FileKind → List (Step Answer) → Buffer × State → Prop where
  | passed
      {kind : FileKind}
      (passed :
        name.head? = some '.' ∨
          kind = .other ∨ kind = .directory ∧ enter = none) :
      Visits read callbacks enter buffer name state kind [] (buffer, state)
  | file
      {trace : List (Step Answer)}
      {next : State}
      (shown : ¬ name.head? = some '.')
      (called : Runs (callbacks.fileCb (read buffer) name state) trace next) :
      Visits read callbacks enter buffer name state .regular trace
        (buffer, next)
  | declined
      {trace : List (Step Answer)}
      {next : State}
      (shown : ¬ name.head? = some '.')
      (deep : enter ≠ none)
      (asked :
        Runs (callbacks.dirCb (read buffer) name state) trace (false, next)) :
      Visits read callbacks enter buffer name state .directory trace
        (buffer, next)
  | entered
      {asking later : List (Step Answer)}
      {next : State}
      {walk : Buffer → State → Prog Answer (Buffer × State)}
      {result : Buffer × State}
      (shown : ¬ name.head? = some '.')
      (entering : enter = some walk)
      (asked :
        Runs (callbacks.dirCb (read buffer) name state) asking (true, next))
      (walked : Runs (walk buffer next) later result) :
      Visits read callbacks enter buffer name state .directory
        (asking ++ later) result

theorem runs_visitFrom_iff
    {read : Buffer → CString}
    {enter : Option (Buffer → State → Prog Answer (Buffer × State))}
    {kind : FileKind}
    {buffer : Buffer}
    {name : CString}
    {state : State}
    {result : Buffer × State} :
    Runs (visitFrom read callbacks enter kind buffer name state) trace
        result ↔
      Visits read callbacks enter buffer name state kind trace result := by
  constructor
  · intro run
    unfold visitFrom at run
    split at run
    · rename_i hidden
      obtain ⟨rfl, rfl⟩ := runs_pure_iff.mp run
      exact .passed (.inl hidden)
    · rename_i shown
      cases kind with
      | regular =>
          obtain ⟨first, next, later, rfl, called, rest⟩ :=
            runs_bind_iff.mp run
          obtain ⟨rfl, rfl⟩ := runs_pure_iff.mp rest
          rw [List.append_nil]
          exact .file shown called
      | other =>
          obtain ⟨rfl, rfl⟩ := runs_pure_iff.mp run
          exact .passed (.inr (.inl rfl))
      | directory =>
          cases enter with
          | none =>
              obtain ⟨rfl, rfl⟩ := runs_pure_iff.mp run
              exact .passed (.inr (.inr ⟨rfl, rfl⟩))
          | some walk =>
              obtain ⟨asking, ⟨accepted, next⟩, later, rfl, asked, rest⟩ :=
                runs_bind_iff.mp run
              cases accepted with
              | true =>
                  exact .entered shown rfl asked rest
              | false =>
                  obtain ⟨rfl, rfl⟩ := runs_pure_iff.mp rest
                  rw [List.append_nil]
                  exact .declined shown (Option.some_ne_none walk) asked
  · intro visits
    unfold visitFrom
    cases visits with
    | passed passed =>
        split
        · exact runs_pure_iff.mpr ⟨rfl, rfl⟩
        · rename_i shown
          rcases passed with hidden | rfl | ⟨rfl, rfl⟩
          · exact absurd hidden shown
          · exact runs_pure_iff.mpr ⟨rfl, rfl⟩
          · exact runs_pure_iff.mpr ⟨rfl, rfl⟩
    | file shown called =>
        rw [if_neg shown]
        exact
          runs_bind_iff.mpr
            ⟨_, _, [], (List.append_nil _).symm, called,
              runs_pure_iff.mpr ⟨rfl, rfl⟩⟩
    | declined shown deep asked =>
        obtain ⟨walk, rfl⟩ := Option.ne_none_iff_exists'.mp deep
        rw [if_neg shown]
        exact
          runs_bind_iff.mpr
            ⟨_, _, [], (List.append_nil _).symm, asked,
              runs_pure_iff.mpr ⟨rfl, rfl⟩⟩
    | entered shown entering asked walked =>
        subst entering
        rw [if_neg shown]
        exact runs_bind_iff.mpr ⟨_, _, _, rfl, asked, walked⟩

theorem visit_eq
    (enter : Option (CString → State → Prog Answer (CString × State)))
    (kind : FileKind)
    (path name : CString)
    (state : State) :
    visit callbacks enter kind path name state =
      visitFrom id callbacks enter kind path name state := by
  unfold visit visitFrom
  cases kind with
  | directory =>
      cases enter with
      | none =>
          rfl
      | some walk =>
          rfl
  | regular | other =>
      rfl

theorem runs_visit_iff
    {enter : Option (CString → State → Prog Answer (CString × State))}
    {kind : FileKind}
    {path name : CString}
    {state : State}
    {result : CString × State} :
    Runs (visit callbacks enter kind path name state) trace result ↔
      Visits id callbacks enter path name state kind trace result := by
  rw [visit_eq, runs_visitFrom_iff]

/-- `walkFrom` on any buffer, with any loop over the entries. -/
def openFrom
    (read : Buffer → CString)
    (surroundings : Surroundings Answer)
    (callbacks : Callbacks Answer State)
    (loop : List CString → Buffer → State → Prog Answer (Buffer × State))
    (buffer : Buffer)
    (state : State) :
    Prog Answer (Buffer × State) := do
  let listing ← surroundings.opendir (read buffer)
  match listing with
  | .entries names =>
      loop names buffer state
  | .notDirectory => do
      let state ← callbacks.fileCb (read buffer) (read buffer) state
      pure (buffer, state)
  | .unreadable => pure (buffer, state)

/-- The runs of a walk from its start, by what `opendir` says. -/
inductive Opened
    (read : Buffer → CString)
    (surroundings : Surroundings Answer)
    (callbacks : Callbacks Answer State)
    (loop : List CString → Buffer → State → Prog Answer (Buffer × State))
    (buffer : Buffer)
    (state : State) :
    List (Step Answer) → Buffer × State → Prop where
  | entries
      {opening later : List (Step Answer)}
      {names : List CString}
      {result : Buffer × State}
      (opened :
        Runs (surroundings.opendir (read buffer)) opening (.entries names))
      (walked : Runs (loop names buffer state) later result) :
      Opened read surroundings callbacks loop buffer state (opening ++ later)
        result
  | notDirectory
      {opening later : List (Step Answer)}
      {next : State}
      (opened :
        Runs (surroundings.opendir (read buffer)) opening .notDirectory)
      (called :
        Runs (callbacks.fileCb (read buffer) (read buffer) state) later
          next) :
      Opened read surroundings callbacks loop buffer state (opening ++ later)
        (buffer, next)
  | unreadable
      {opening : List (Step Answer)}
      (opened :
        Runs (surroundings.opendir (read buffer)) opening .unreadable) :
      Opened read surroundings callbacks loop buffer state opening
        (buffer, state)

theorem runs_openFrom_iff
    {read : Buffer → CString}
    {loop : List CString → Buffer → State → Prog Answer (Buffer × State)}
    {buffer : Buffer}
    {state : State}
    {result : Buffer × State} :
    Runs (openFrom read surroundings callbacks loop buffer state) trace
        result ↔
      Opened read surroundings callbacks loop buffer state trace result := by
  constructor
  · intro run
    obtain ⟨opening, listing, later, rfl, opened, rest⟩ :=
      runs_bind_iff.mp run
    cases listing with
    | entries names =>
        exact .entries opened rest
    | notDirectory =>
        obtain ⟨first, next, _, rfl, called, done⟩ := runs_bind_iff.mp rest
        obtain ⟨rfl, rfl⟩ := runs_pure_iff.mp done
        rw [List.append_nil]
        exact .notDirectory opened called
    | unreadable =>
        obtain ⟨rfl, rfl⟩ := runs_pure_iff.mp rest
        rw [List.append_nil]
        exact .unreadable opened
  · intro starts
    cases starts with
    | entries opened walked =>
        exact runs_bind_iff.mpr ⟨_, _, _, rfl, opened, walked⟩
    | notDirectory opened called =>
        refine runs_bind_iff.mpr ⟨_, _, _, rfl, opened, ?_⟩
        exact
          runs_bind_iff.mpr
            ⟨_, _, [], (List.append_nil _).symm, called,
              runs_pure_iff.mpr ⟨rfl, rfl⟩⟩
    | unreadable opened =>
        exact
          runs_bind_iff.mpr
            ⟨_, _, [], (List.append_nil _).symm, opened,
              runs_pure_iff.mpr ⟨rfl, rfl⟩⟩

theorem runs_walkFrom_iff
    {pathSize : Nat}
    {enter : Option (CString → State → Prog Answer (CString × State))}
    {path : CString}
    {state : State}
    {result : CString × State} :
    Runs (walkFrom surroundings callbacks pathSize enter path state) trace
        result ↔
      Opened id surroundings callbacks
        (walkEntries surroundings callbacks pathSize enter) path state trace
        result := by
  rw [← runs_openFrom_iff]
  rfl

/--
A turn of the loop looks at an entry, visits it and asks for a signal, which
alone makes it the last turn.
-/
theorem runs_turn_iff
    {Visited : Type}
    {look : Prog Answer FileKind}
    {visits : FileKind → Prog Answer Visited}
    {poll : Prog Answer Bool}
    {others : Visited → Prog Answer Visited}
    {result : Visited} :
    Runs
        (do
          let kind ← look
          let visited ← visits kind
          let interrupted ← poll
          if interrupted then pure visited else others visited)
        trace result ↔
      ∃ looking kind visiting visited polling interrupted later,
        trace = looking ++ (visiting ++ (polling ++ later)) ∧
          Runs look looking kind ∧
          Runs (visits kind) visiting visited ∧
          Runs poll polling interrupted ∧
          (interrupted = true ∧ later = [] ∧ result = visited ∨
            interrupted = false ∧ Runs (others visited) later result) := by
  constructor
  · intro run
    obtain ⟨looking, kind, _, rfl, looked, run⟩ := runs_bind_iff.mp run
    obtain ⟨visiting, visited, _, rfl, visit, run⟩ := runs_bind_iff.mp run
    obtain ⟨polling, interrupted, later, rfl, polled, rest⟩ :=
      runs_bind_iff.mp run
    refine
      ⟨looking, kind, visiting, visited, polling, interrupted, later, rfl,
        looked, visit, polled, ?_⟩
    cases interrupted with
    | true =>
        exact .inl ⟨rfl, runs_pure_iff.mp rest⟩
    | false =>
        exact .inr ⟨rfl, rest⟩
  · rintro
      ⟨looking, kind, visiting, visited, polling, interrupted, later, rfl,
        looked, visit, polled, rest⟩
    refine runs_bind_iff.mpr ⟨looking, kind, _, rfl, looked, ?_⟩
    refine runs_bind_iff.mpr ⟨visiting, visited, _, rfl, visit, ?_⟩
    refine
      runs_bind_iff.mpr ⟨polling, interrupted, later, rfl, polled, ?_⟩
    rcases rest with ⟨rfl, done⟩ | ⟨rfl, rest⟩
    · exact runs_pure_iff.mpr done
    · exact rest

end Inversion

section Rule

variable {Call : Type}
variable {Answer : Call → Type}
variable {State : Type}
variable {surroundings : Surroundings Answer}
variable {callbacks : Callbacks Answer State}
variable {pathSize : Nat}
variable {trace : List (Step Answer)}

/--
A relation between the calls made and the change of the custom state that the
walk keeps: it holds where only the surroundings are asked, it composes, and
the callbacks keep it.
-/
structure Kept
    (surroundings : Surroundings Answer)
    (callbacks : Callbacks Answer State)
    (relation : List (Step Answer) → State → State → Prop) :
    Prop where
  nothing : ∀ state, relation [] state state
  append :
    ∀ {first later state middle final},
      relation first state middle →
        relation later middle final →
          relation (first ++ later) state final
  opendir :
    ∀ {path trace listing} state,
      Runs (surroundings.opendir path) trace listing →
        relation trace state state
  lstat :
    ∀ {path trace kind} state,
      Runs (surroundings.lstat path) trace kind →
        relation trace state state
  interrupted :
    ∀ {trace answer} state,
      Runs surroundings.interrupted trace answer →
        relation trace state state
  dirCb :
    ∀ {path name state trace result},
      Runs (callbacks.dirCb path name state) trace result →
        relation trace state result.2
  fileCb :
    ∀ {path name state trace result},
      Runs (callbacks.fileCb path name state) trace result →
        relation trace state result

variable {relation : List (Step Answer) → State → State → Prop}

/-- A walk of a subdirectory that keeps the relation. -/
def EnterKept
    (relation : List (Step Answer) → State → State → Prop)
    (enter : Option (CString → State → Prog Answer (CString × State))) :
    Prop :=
  ∀ walk ∈ enter, ∀ path state trace result,
    Runs (walk path state) trace result → relation trace state result.2

/-- The rule for a visit on any buffer. -/
theorem Kept.visits
    {Buffer : Type}
    {read : Buffer → CString}
    {enter : Option (Buffer → State → Prog Answer (Buffer × State))}
    (kept : Kept surroundings callbacks relation)
    (enterKept :
      ∀ walk ∈ enter, ∀ buffer state trace result,
        Runs (walk buffer state) trace result → relation trace state result.2)
    {kind : FileKind}
    {buffer : Buffer}
    {name : CString}
    {state : State}
    {result : Buffer × State}
    (visits :
      Visits read callbacks enter buffer name state kind trace result) :
    relation trace state result.2 := by
  cases visits with
  | passed _ =>
      exact kept.nothing state
  | file _ called =>
      exact kept.fileCb called
  | declined _ _ asked =>
      exact kept.dirCb asked
  | entered _ entering asked walked =>
      exact kept.append (kept.dirCb asked) (enterKept _ entering _ _ _ _ walked)

/-- The rule for a walk from its start, with any loop over the entries. -/
theorem Kept.opened
    {Buffer : Type}
    {read : Buffer → CString}
    {loop : List CString → Buffer → State → Prog Answer (Buffer × State)}
    (kept : Kept surroundings callbacks relation)
    {buffer : Buffer}
    {state : State}
    {result : Buffer × State}
    (loopKept :
      ∀ names later,
        Runs (loop names buffer state) later result →
          relation later state result.2)
    (opened :
      Opened read surroundings callbacks loop buffer state trace result) :
    relation trace state result.2 := by
  cases opened with
  | entries opened walked =>
      exact kept.append (kept.opendir state opened) (loopKept _ _ walked)
  | notDirectory opened called =>
      exact kept.append (kept.opendir state opened) (kept.fileCb called)
  | unreadable opened =>
      exact kept.opendir state opened

theorem Kept.visit
    {enter : Option (CString → State → Prog Answer (CString × State))}
    (kept : Kept surroundings callbacks relation)
    (enterKept : EnterKept relation enter)
    {kind : FileKind}
    {path name : CString}
    {state : State}
    {result : CString × State}
    (run : Runs (visit callbacks enter kind path name state) trace result) :
    relation trace state result.2 :=
  kept.visits enterKept (runs_visit_iff.mp run)

theorem Kept.walkEntries
    {enter : Option (CString → State → Prog Answer (CString × State))}
    (kept : Kept surroundings callbacks relation)
    (enterKept : EnterKept relation enter)
    {names : List CString}
    {path : CString}
    {state : State}
    {result : CString × State}
    (run :
      Runs
        (walkEntries surroundings callbacks pathSize enter names path state)
        trace result) :
    relation trace state result.2 := by
  induction names generalizing path state trace with
  | nil =>
      obtain ⟨rfl, rfl⟩ := runs_pure_iff.mp run
      exact kept.nothing state
  | cons name names inductionHypothesis =>
      obtain
        ⟨_, kind, _, visited, _, interrupted, _, rfl, looked, visiting, asked,
          rest⟩ :=
        runs_turn_iff.mp run
      refine kept.append (kept.lstat state looked) ?_
      refine kept.append (kept.visit enterKept visiting) ?_
      refine kept.append (kept.interrupted visited.2 asked) ?_
      rcases rest with ⟨rfl, rfl, rfl⟩ | ⟨rfl, rest⟩
      · exact kept.nothing _
      · exact inductionHypothesis rest

theorem Kept.walkFrom
    {enter : Option (CString → State → Prog Answer (CString × State))}
    (kept : Kept surroundings callbacks relation)
    (enterKept : EnterKept relation enter)
    {path : CString}
    {state : State}
    {result : CString × State}
    (run :
      Runs (walkFrom surroundings callbacks pathSize enter path state)
        trace result) :
    relation trace state result.2 :=
  kept.opened (fun _ _ walked => kept.walkEntries enterKept walked)
    (runs_walkFrom_iff.mp run)

/-- What the callbacks keep holds of a whole walk, at any depth. -/
theorem Kept.walkdir
    (kept : Kept surroundings callbacks relation)
    {depth : Nat}
    {path : CString}
    {state : State}
    {result : CString × State}
    (run :
      Runs (walkdir surroundings callbacks pathSize depth path state)
        trace result) :
    relation trace state result.2 := by
  induction depth generalizing path state trace result with
  | zero =>
      refine kept.walkFrom ?_ run
      rintro walk ⟨⟩
  | succ depth inductionHypothesis =>
      refine kept.walkFrom ?_ run
      rintro walk ⟨⟩ path state trace result run
      exact inductionHypothesis run

end Rule

section Calls

variable {Call : Type}
variable {Answer : Call → Type}
variable {State : Type}
variable {surroundings : Surroundings Answer}
variable {callbacks : Callbacks Answer State}

/-- A walk makes no calls beyond those of its surroundings and callbacks. -/
theorem calls_walkdir
    {allowed : Call → Prop}
    (opendir : ∀ path, Calls allowed (surroundings.opendir path))
    (lstat : ∀ path, Calls allowed (surroundings.lstat path))
    (interrupted : Calls allowed surroundings.interrupted)
    (dirCb :
      ∀ path name state, Calls allowed (callbacks.dirCb path name state))
    (fileCb :
      ∀ path name state, Calls allowed (callbacks.fileCb path name state))
    (pathSize depth : Nat)
    (path : CString)
    (state : State) :
    Calls allowed
      (walkdir surroundings callbacks pathSize depth path state) := by
  have kept :
      Kept surroundings callbacks
        (fun trace _ _ => ∀ step ∈ trace, allowed step.request) := {
    nothing := by
      simp
    append := fun first later =>
      List.forall_mem_append.mpr ⟨first, later⟩
    opendir := fun _ run => opendir _ _ _ run
    lstat := fun _ run => lstat _ _ _ run
    interrupted := fun _ run => interrupted _ _ run
    dirCb := fun run => dirCb _ _ _ _ _ run
    fileCb := fun run => fileCb _ _ _ _ _ run
  }
  intro trace result run
  exact kept.walkdir run

end Calls

end Csh.Walkdir
