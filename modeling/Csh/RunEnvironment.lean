import Csh.Environment

namespace Csh.RunEnvironment

open Libc KeyedList Environment

/-!
# The environment of scripts

The `run` command brackets a script with two hooks.  The first saves
`__FILE__` and `__FILE_DIR__` and sets them for the script, the second puts the
saved values back.  Scripts run scripts, so that the brackets nest.
-/

/-- `ENV_FILE`. -/
def envFile : CString :=
  "__FILE__".toList

/-- `ENV_FILE_DIR`. -/
def envFileDir : CString :=
  "__FILE_DIR__".toList

/-- `PATH_MAX`. -/
def pathMax : Nat :=
  4096

/-- What `realpath` stores: an absolute path that fits the buffer. -/
structure ResolvedPath where
  path : CString
  absolute : path.head? = some '/'
  length_lt : path.length < pathMax

/-- `run_context_t`. -/
structure RunContext where
  oldFile : Option CString
  oldFileDir : Option CString
  deriving Repr, DecidableEq

/-- The path up to its last slash; there is one in a resolved path. -/
def fileDir (path : CString) : CString :=
  match strrchr '/' path with
  | some lastSlash =>
      if lastSlash < pathMax - 1 then path.take lastSlash else path
  | none => path

/-- `pathbuf`: empty when `realpath` fails. -/
def pathbuf (resolved : Option ResolvedPath) : CString :=
  (resolved.map ResolvedPath.path).getD []

/-- The directory of the script; nothing is cut from an empty path. -/
def pathbufDir (resolved : Option ResolvedPath) : CString :=
  if 0 < (pathbuf resolved).length then
    fileDir (pathbuf resolved)
  else
    pathbuf resolved

/-- `slash_on_run_pre_hook`; allocation succeeds. -/
def slashOnRunPreHook
    (resolved : Option ResolvedPath)
    (env : CshEnv) :
    RunContext × CshEnv :=
  let postCtx := ⟨cshGetvar envFile env, cshGetvar envFileDir env⟩
  let env := (cshPutvar envFile (pathbuf resolved) env).2
  (postCtx, (cshPutvar envFileDir (pathbufDir resolved) env).2)

/-- Put a saved value back, or delete the variable if it had none. -/
def restoreVar
    (name : CString)
    (old : Option CString)
    (env : CshEnv) :
    CshEnv :=
  match old with
  | none => (cshDelvar name env).2
  | some value => (cshPutvar name value env).2

/-- `slash_on_run_post_hook`. -/
def slashOnRunPostHook
    (restoreContext : RunContext)
    (env : CshEnv) :
    CshEnv :=
  let env := restoreVar envFile restoreContext.oldFile env
  restoreVar envFileDir restoreContext.oldFileDir env

/--
What a script does to the environment, as a tree: a change or a nested run in
front of the rest.  A run carries what `realpath` made of its file name.
-/
inductive Script where
  | done
  | change (op : EnvOp) (rest : Script)
  | run (resolved : Option ResolvedPath) (body rest : Script)

/-- A body between the two hooks. -/
def bracketed
    (resolved : Option ResolvedPath)
    (body : CshEnv → CshEnv)
    (env : CshEnv) :
    CshEnv :=
  let started := slashOnRunPreHook resolved env
  slashOnRunPostHook started.1 (body started.2)

/-- Execute a script. -/
def Script.exec : Script → CshEnv → CshEnv
  | .done, env => env
  | .change op rest, env => rest.exec (op.run env)
  | .run resolved body rest, env =>
      rest.exec (bracketed resolved body.exec env)

/-- The `run` command: a script between its hooks. -/
def slashRun
    (resolved : Option ResolvedPath)
    (body : Script)
    (env : CshEnv) :
    CshEnv :=
  bracketed resolved body.exec env

section Hooks

variable {name other : CString}
variable {old : Option CString}
variable {env : CshEnv}
variable {resolved : Option ResolvedPath}

theorem envFile_ne_envFileDir :
    envFile ≠ envFileDir := by
  decide

theorem cshGetvar_restoreVar_same
    (distinct : Distinct CshEnvEntry.name env) :
    cshGetvar name (restoreVar name old env) = old := by
  cases old with
  | none =>
      exact cshGetvar_delvar_same distinct
  | some value =>
      exact cshGetvar_putvar_same

theorem cshGetvar_restoreVar_other
    (different : other ≠ name) :
    cshGetvar other (restoreVar name old env) = cshGetvar other env := by
  cases old with
  | none =>
      exact cshGetvar_delvar_other different
  | some value =>
      exact cshGetvar_putvar_other different

theorem restoreVar_distinct
    (distinct : Distinct CshEnvEntry.name env) :
    Distinct CshEnvEntry.name (restoreVar name old env) := by
  cases old with
  | none =>
      exact cshDelvar_distinct distinct
  | some value =>
      exact cshPutvar_distinct distinct

theorem slashOnRunPreHook_distinct
    (distinct : Distinct CshEnvEntry.name env) :
    Distinct CshEnvEntry.name (slashOnRunPreHook resolved env).2 :=
  cshPutvar_distinct (cshPutvar_distinct distinct)

theorem cshGetvar_preHook_file :
    cshGetvar envFile (slashOnRunPreHook resolved env).2 =
      some (pathbuf resolved) := by
  rw [slashOnRunPreHook, cshGetvar_putvar_other envFile_ne_envFileDir]
  exact cshGetvar_putvar_same

theorem cshGetvar_preHook_fileDir :
    cshGetvar envFileDir (slashOnRunPreHook resolved env).2 =
      some (pathbufDir resolved) :=
  cshGetvar_putvar_same

/-- The second hook restores the two variables and leaves the others. -/
theorem cshGetvar_postHook
    (distinct : Distinct CshEnvEntry.name env)
    (restoreContext : RunContext) :
    cshGetvar envFile (slashOnRunPostHook restoreContext env) =
        restoreContext.oldFile ∧
      cshGetvar envFileDir (slashOnRunPostHook restoreContext env) =
        restoreContext.oldFileDir ∧
      ∀ name, name ≠ envFile → name ≠ envFileDir →
        cshGetvar name (slashOnRunPostHook restoreContext env) =
          cshGetvar name env := by
  refine ⟨?_, ?_, fun name notFile notFileDir => ?_⟩
  · rw [slashOnRunPostHook,
      cshGetvar_restoreVar_other envFile_ne_envFileDir]
    exact cshGetvar_restoreVar_same distinct
  · exact cshGetvar_restoreVar_same (restoreVar_distinct distinct)
  · rw [slashOnRunPostHook, cshGetvar_restoreVar_other notFileDir]
    exact cshGetvar_restoreVar_other notFile

end Hooks

section Scripts

variable {env : CshEnv}
variable {resolved : Option ResolvedPath}

theorem bracketed_distinct
    {body : CshEnv → CshEnv}
    (keeps :
      ∀ env, Distinct CshEnvEntry.name env →
        Distinct CshEnvEntry.name (body env))
    (distinct : Distinct CshEnvEntry.name env) :
    Distinct CshEnvEntry.name (bracketed resolved body env) :=
  restoreVar_distinct
    (restoreVar_distinct (keeps _ (slashOnRunPreHook_distinct distinct)))

/-- The induction is on the tree of scripts. -/
theorem Script.exec_distinct
    (script : Script)
    (distinct : Distinct CshEnvEntry.name env) :
    Distinct CshEnvEntry.name (script.exec env) := by
  induction script generalizing env with
  | done =>
      exact distinct
  | change op rest restKeeps =>
      exact restKeeps (op.run_distinct distinct)
  | run resolved body rest bodyKeeps restKeeps =>
      exact restKeeps
        (bracketed_distinct (fun _ isDistinct => bodyKeeps isDistinct)
          distinct)

/-- A run restores the two variables and keeps what the body left of others. -/
theorem cshGetvar_slashRun
    (body : Script)
    (distinct : Distinct CshEnvEntry.name env) :
    cshGetvar envFile (slashRun resolved body env) = cshGetvar envFile env ∧
      cshGetvar envFileDir (slashRun resolved body env) =
        cshGetvar envFileDir env ∧
      ∀ name, name ≠ envFile → name ≠ envFileDir →
        cshGetvar name (slashRun resolved body env) =
          cshGetvar name (body.exec (slashOnRunPreHook resolved env).2) :=
  cshGetvar_postHook
    (body.exec_distinct (slashOnRunPreHook_distinct distinct)) _

/-- No change of the script itself is one of the variable; nested runs may. -/
def Script.Spares (name : CString) : Script → Prop
  | .done => True
  | .change op rest => ¬ op.Changes name ∧ rest.Spares name
  | .run _ _ rest => rest.Spares name

/-- A script that spares the two variables still sees its own at its end. -/
theorem Script.cshGetvar_exec
    {name : CString}
    (script : Script)
    (ofRun : name = envFile ∨ name = envFileDir)
    (spares : script.Spares name)
    (distinct : Distinct CshEnvEntry.name env) :
    cshGetvar name (script.exec env) = cshGetvar name env := by
  induction script generalizing env with
  | done =>
      rfl
  | change op rest restKeeps =>
      obtain ⟨unchanged, restSpares⟩ := spares
      rw [Script.exec,
        restKeeps restSpares (op.run_distinct distinct),
        cshGetvar_op_of_not_changes distinct unchanged]
  | run resolved body rest bodyKeeps restKeeps =>
      have afterRun : Distinct CshEnvEntry.name (slashRun resolved body env) :=
        bracketed_distinct (fun _ isDistinct => body.exec_distinct isDistinct)
          distinct
      obtain ⟨file, fileDir, _⟩ := @cshGetvar_slashRun env resolved body distinct
      refine Eq.trans (restKeeps spares afterRun) ?_
      rcases ofRun with rfl | rfl
      · exact file
      · exact fileDir

end Scripts

/--
Around every run, from every reachable environment: the two variables are as
before, the others as the body left them, and a script that does not change
the two itself sees its own file and directory behind all its nested runs.
-/
theorem slashRun_restores_file
    (ops : List EnvOp)
    (resolved : Option ResolvedPath)
    (body : Script) :
    cshGetvar envFile (slashRun resolved body (runEnvOps ops [])) =
        cshGetvar envFile (runEnvOps ops []) ∧
      cshGetvar envFileDir (slashRun resolved body (runEnvOps ops [])) =
        cshGetvar envFileDir (runEnvOps ops []) ∧
      (∀ name, name ≠ envFile → name ≠ envFileDir →
        cshGetvar name (slashRun resolved body (runEnvOps ops [])) =
          cshGetvar name
            (body.exec (slashOnRunPreHook resolved (runEnvOps ops [])).2)) ∧
      (body.Spares envFile →
        cshGetvar envFile
            (body.exec (slashOnRunPreHook resolved (runEnvOps ops [])).2) =
          some (pathbuf resolved)) ∧
      (body.Spares envFileDir →
        cshGetvar envFileDir
            (body.exec (slashOnRunPreHook resolved (runEnvOps ops [])).2) =
          some (pathbufDir resolved)) := by
  have distinct := runEnvOps_distinct ops
  have started :=
    @slashOnRunPreHook_distinct (runEnvOps ops []) resolved distinct
  obtain ⟨file, fileDir, others⟩ := @cshGetvar_slashRun _ resolved body distinct
  refine ⟨file, fileDir, others, fun spares => ?_, fun spares => ?_⟩
  · rw [body.cshGetvar_exec (Or.inl rfl) spares started]
    exact cshGetvar_preHook_file
  · rw [body.cshGetvar_exec (Or.inr rfl) spares started]
    exact cshGetvar_preHook_fileDir

end Csh.RunEnvironment
