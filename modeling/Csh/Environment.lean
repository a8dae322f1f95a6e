import Csh.Lib.CString
import Csh.Lib.History
import Csh.Lib.KeyedList
import Mathlib.Logic.Function.Basic

namespace Csh.Environment

open Libc KeyedList History

/-!
# The environment variables of the shell

`csh_env` is a linked list of names and values.  A put changes the value of an
existing entry where it stands or inserts a new one at the head.  Over any run
the list behaves as a finite map from names to values.  Allocation succeeds.
-/

/-- One entry of the list, `struct csh_env_entry`. -/
structure CshEnvEntry where
  name : CString
  value : CString
  deriving Repr, DecidableEq

/-- The entry with its value replaced. -/
def CshEnvEntry.setValue
    (value : CString)
    (existing : CshEnvEntry) :
    CshEnvEntry :=
  { existing with value := value }

@[simp] theorem CshEnvEntry.name_setValue
    (value : CString)
    (existing : CshEnvEntry) :
    (existing.setValue value).name = existing.name :=
  rfl

/-- The list `csh_env`, from its head. -/
abbrev CshEnv :=
  List CshEnvEntry

/-- `csh_get_env_entry`. -/
def cshGetEnvEntry
    (name : CString)
    (env : CshEnv) :
    Option CshEnvEntry :=
  lookup CshEnvEntry.name name env

/-- `csh_foreach_var`, with the context passed through the callback. -/
def cshForeachVar
    {Context : Type}
    (cb : CString → Context → Context)
    (ctx : Context) :
    CshEnv → Context
  | [] => ctx
  | cur :: rest => cshForeachVar cb (cb cur.name ctx) rest

/-- `csh_getvar`. -/
def cshGetvar
    (name : CString)
    (env : CshEnv) :
    Option CString :=
  (cshGetEnvEntry name env).map CshEnvEntry.value

/-- `csh_putvar`, with the result it returns. -/
def cshPutvar
    (name value : CString)
    (env : CshEnv) :
    Int × CshEnv :=
  match cshGetEnvEntry name env with
  | some _ =>
      (0, update CshEnvEntry.name name (CshEnvEntry.setValue value) env)
  | none => (0, ⟨name, value⟩ :: env)

/-- `csh_delvar`, with the result it returns. -/
def cshDelvar
    (name : CString)
    (env : CshEnv) :
    Int × CshEnv :=
  match cshGetEnvEntry name env with
  | some _ => (0, unlink CshEnvEntry.name name env)
  | none => (1, env)

/-- `csh_clearenv`. -/
def cshClearenv : CshEnv → CshEnv
  | [] => []
  | _ :: rest => cshClearenv rest

section Operations

variable {name other value : CString}
variable {env : CshEnv}

@[simp] theorem cshGetvar_nil :
    cshGetvar name [] = none :=
  rfl

@[simp] theorem cshClearenv_eq_nil :
    cshClearenv env = [] := by
  induction env with
  | nil =>
      rfl
  | cons _ _ inductionHypothesis =>
      exact inductionHypothesis

/-- A variable is defined exactly when some entry has its name. -/
theorem cshGetvar_eq_none_iff :
    cshGetvar name env = none ↔ name ∉ env.map CshEnvEntry.name := by
  rw [cshGetvar, Option.map_eq_none_iff]
  exact lookup_eq_none_iff

theorem cshGetvar_putvar_same :
    cshGetvar name (cshPutvar name value env).2 = some value := by
  unfold cshPutvar
  split
  · rename_i existing found
    rw [cshGetEnvEntry] at found
    rw [cshGetvar, cshGetEnvEntry,
      lookup_update_same (CshEnvEntry.name_setValue value), found]
    rfl
  · have found :
        lookup CshEnvEntry.name name (⟨name, value⟩ :: env) =
          some ⟨name, value⟩ :=
      lookup_cons_of_eq rfl
    simp only [cshGetvar, cshGetEnvEntry, found, Option.map_some]

theorem cshGetvar_putvar_other
    (different : other ≠ name) :
    cshGetvar other (cshPutvar name value env).2 = cshGetvar other env := by
  unfold cshPutvar
  split
  · rw [cshGetvar, cshGetEnvEntry,
      lookup_update_other (CshEnvEntry.name_setValue value) different]
    rfl
  · simp only [cshGetvar, cshGetEnvEntry]
    rw [lookup_cons_of_ne different.symm]

/-- A put adds a name that is new and keeps the list of names otherwise. -/
theorem cshPutvar_distinct
    (distinct : Distinct CshEnvEntry.name env) :
    Distinct CshEnvEntry.name (cshPutvar name value env).2 := by
  unfold cshPutvar
  split
  · rw [Distinct, map_update (CshEnvEntry.name_setValue value)]
    exact distinct
  · rename_i missing
    exact List.nodup_cons.mpr ⟨lookup_eq_none_iff.mp missing, distinct⟩

theorem cshGetvar_delvar_same
    (distinct : Distinct CshEnvEntry.name env) :
    cshGetvar name (cshDelvar name env).2 = none := by
  unfold cshDelvar
  split
  · rw [cshGetvar, cshGetEnvEntry, lookup_unlink_same distinct]
    rfl
  · rename_i missing
    rw [cshGetvar, missing]
    rfl

theorem cshGetvar_delvar_other
    (different : other ≠ name) :
    cshGetvar other (cshDelvar name env).2 = cshGetvar other env := by
  unfold cshDelvar
  split
  · rw [cshGetvar, cshGetEnvEntry, lookup_unlink_other different]
    rfl
  · rfl

theorem cshDelvar_distinct
    (distinct : Distinct CshEnvEntry.name env) :
    Distinct CshEnvEntry.name (cshDelvar name env).2 := by
  unfold cshDelvar
  split
  · exact unlink_distinct distinct
  · exact distinct

/-- A delete reports whether the variable was defined. -/
theorem cshDelvar_eq_zero_iff :
    (cshDelvar name env).1 = 0 ↔ (cshGetvar name env).isSome := by
  unfold cshDelvar cshGetvar
  split
  · rename_i found
    simp [found]
  · rename_i missing
    simp [missing]

/-- The callback is called with the names of the entries, in their order. -/
theorem cshForeachVar_eq_foldl
    {Context : Type}
    (cb : CString → Context → Context)
    (ctx : Context)
    (env : CshEnv) :
    cshForeachVar cb ctx env =
      (env.map CshEnvEntry.name).foldl (fun ctx name => cb name ctx) ctx := by
  induction env generalizing ctx with
  | nil =>
      rfl
  | cons cur rest inductionHypothesis =>
      exact inductionHypothesis (cb cur.name ctx)

end Operations

/-!
## The abstract map
-/

/-- The value of each name, or that it is undefined. -/
abbrev Variables :=
  CString → Option CString

/-- One change of the environment. -/
inductive EnvOp where
  | put (name value : CString)
  | del (name : CString)
  | clear
  deriving Repr, DecidableEq

namespace EnvOp

/-- What the change does to the list. -/
def run : EnvOp → CshEnv → CshEnv
  | .put name value, env => (cshPutvar name value env).2
  | .del name, env => (cshDelvar name env).2
  | .clear, env => cshClearenv env

/-- What the change does to the map. -/
def apply : EnvOp → Variables → Variables
  | .put name value, values => Function.update values name (some value)
  | .del name, values => Function.update values name none
  | .clear, _ => fun _ => none

/-- The change puts, deletes or clears the variable. -/
def Changes (name : CString) : EnvOp → Prop
  | .put changed _ => changed = name
  | .del changed => changed = name
  | .clear => True

end EnvOp

/-- The environment after a sequence of changes. -/
def runEnvOps (ops : List EnvOp) (env : CshEnv) : CshEnv :=
  ops.foldl (fun env op => op.run env) env

/-- The map after a sequence of changes. -/
def applyEnvOps (ops : List EnvOp) (values : Variables) : Variables :=
  ops.foldl (fun values op => op.apply values) values

/-- The list has distinct names and the values of the map. -/
structure Represents (env : CshEnv) (values : Variables) : Prop where
  distinct : Distinct CshEnvEntry.name env
  getvar : ∀ name, cshGetvar name env = values name

section Refinement

variable {env : CshEnv}
variable {values : Variables}

theorem represents_nil :
    Represents [] fun _ => none where
  distinct := List.nodup_nil
  getvar _ := rfl

/-- Each change of the list is that change of the map. -/
theorem Represents.step
    (represents : Represents env values)
    (op : EnvOp) :
    Represents (op.run env) (op.apply values) := by
  cases op with
  | put name value =>
      refine ⟨cshPutvar_distinct represents.distinct, fun other => ?_⟩
      by_cases sameName : other = name
      · subst sameName
        rw [EnvOp.run, EnvOp.apply, Function.update_self]
        exact cshGetvar_putvar_same
      · rw [EnvOp.run, EnvOp.apply, Function.update_of_ne sameName,
          ← represents.getvar]
        exact cshGetvar_putvar_other sameName
  | del name =>
      refine ⟨cshDelvar_distinct represents.distinct, fun other => ?_⟩
      by_cases sameName : other = name
      · subst sameName
        rw [EnvOp.run, EnvOp.apply, Function.update_self]
        exact cshGetvar_delvar_same represents.distinct
      · rw [EnvOp.run, EnvOp.apply, Function.update_of_ne sameName,
          ← represents.getvar]
        exact cshGetvar_delvar_other sameName
  | clear =>
      rw [EnvOp.run, cshClearenv_eq_nil]
      exact represents_nil

/-- A sequence of changes of the list is that sequence of the map. -/
theorem Represents.run
    (represents : Represents env values)
    (ops : List EnvOp) :
    Represents (runEnvOps ops env) (applyEnvOps ops values) := by
  induction ops generalizing env values with
  | nil =>
      exact represents
  | cons op rest inductionHypothesis =>
      exact inductionHypothesis (represents.step op)

theorem represents_cshGetvar
    (distinct : Distinct CshEnvEntry.name env) :
    Represents env fun name => cshGetvar name env where
  distinct := distinct
  getvar _ := rfl

theorem EnvOp.run_distinct
    (op : EnvOp)
    (distinct : Distinct CshEnvEntry.name env) :
    Distinct CshEnvEntry.name (op.run env) :=
  ((represents_cshGetvar distinct).step op).distinct

/-- The list that any sequence of changes leaves has distinct names. -/
theorem runEnvOps_distinct
    (ops : List EnvOp) :
    Distinct CshEnvEntry.name (runEnvOps ops []) :=
  (represents_nil.run ops).distinct

end Refinement

/-!
## The last put of a variable
-/

/-- The last change of the variable puts this value. -/
abbrev LastPut (ops : List EnvOp) (name value : CString) : Prop :=
  LastOf (EnvOp.Changes name) (.put name value) ops

section LastPut

variable {ops : List EnvOp}
variable {op : EnvOp}
variable {name value : CString}
variable {values : Variables}

theorem EnvOp.apply_of_not_changes
    (unchanged : ¬ op.Changes name) :
    op.apply values name = values name := by
  cases op with
  | put changed value =>
      exact Function.update_of_ne (Ne.symm unchanged) _ _
  | del changed =>
      exact Function.update_of_ne (Ne.symm unchanged) _ _
  | clear =>
      exact (unchanged trivial).elim

theorem cshGetvar_op_of_not_changes
    {env : CshEnv}
    (distinct : Distinct CshEnvEntry.name env)
    (unchanged : ¬ op.Changes name) :
    cshGetvar name (op.run env) = cshGetvar name env := by
  rw [((represents_cshGetvar distinct).step op).getvar,
    EnvOp.apply_of_not_changes unchanged]

/-- Of the changes of a variable only its puts leave it defined. -/
theorem EnvOp.apply_eq_some_iff_of_changes
    (changes : op.Changes name) :
    op.apply values name = some value ↔ .put name value = op := by
  cases op with
  | put changed other =>
      obtain rfl : changed = name := changes
      rw [EnvOp.apply, Function.update_self, Option.some_inj,
        EnvOp.put.injEq]
      simp [eq_comm]
  | del changed =>
      obtain rfl : changed = name := changes
      rw [EnvOp.apply, Function.update_self]
      simp
  | clear =>
      simp [EnvOp.apply]

theorem applyEnvOps_append
    (first second : List EnvOp) :
    applyEnvOps (first ++ second) values =
      applyEnvOps second (applyEnvOps first values) :=
  List.foldl_append

/-- The induction is on the run from its end: the last change decides. -/
theorem applyEnvOps_eq_some_iff :
    applyEnvOps ops (fun _ => none) name = some value ↔
      LastPut ops name value := by
  induction ops using List.reverseRecOn with
  | nil =>
      exact iff_of_false (by simp [applyEnvOps]) not_lastOf_nil
  | append_singleton earlier op inductionHypothesis =>
      rw [applyEnvOps_append, LastPut, lastOf_append_singleton_iff]
      change op.apply _ name = some value ↔ _
      by_cases changes : op.Changes name
      · rw [EnvOp.apply_eq_some_iff_of_changes changes]
        simp [changes]
      · have notPut : .put name value ≠ op := by
          rintro rfl
          exact changes rfl
        rw [EnvOp.apply_of_not_changes changes, inductionHypothesis]
        simp [LastPut, changes, notPut]

end LastPut

/-- The names that a callback of `csh_foreach_var` is called with. -/
def calledBack (env : CshEnv) : List CString :=
  cshForeachVar (fun name called => called ++ [name]) [] env

/-- The calls of any callback are those for the names in `calledBack`. -/
theorem calledBack_eq_map
    (env : CshEnv) :
    calledBack env = env.map CshEnvEntry.name := by
  have collects :
      ∀ (names called : List CString),
        names.foldl (fun called name => called ++ [name]) called =
          called ++ names := by
    intro names
    induction names with
    | nil =>
        simp
    | cons name rest inductionHypothesis =>
        intro called
        rw [List.foldl_cons, inductionHypothesis, List.append_assoc]
        rfl
  rw [calledBack, cshForeachVar_eq_foldl, collects, List.nil_append]

/-- After any run the list is the finite map of the last puts. -/
theorem runEnvOps_finite_map
    (ops : List EnvOp) :
    Distinct CshEnvEntry.name (runEnvOps ops []) ∧
      (∀ name value,
        cshGetvar name (runEnvOps ops []) = some value ↔
          LastPut ops name value) ∧
      (∀ name,
        ((cshDelvar name (runEnvOps ops [])).1 = 0 ↔
          (cshGetvar name (runEnvOps ops [])).isSome) ∧
        cshGetvar name (cshDelvar name (runEnvOps ops [])).2 = none ∧
        ∀ other, other ≠ name →
          cshGetvar other (cshDelvar name (runEnvOps ops [])).2 =
            cshGetvar other (runEnvOps ops [])) ∧
      (∀ (Context : Type) (cb : CString → Context → Context)
          (ctx : Context),
        cshForeachVar cb ctx (runEnvOps ops []) =
          (calledBack (runEnvOps ops [])).foldl
            (fun ctx name => cb name ctx) ctx) ∧
      (calledBack (runEnvOps ops [])).Nodup ∧
      ∀ name,
        name ∈ calledBack (runEnvOps ops []) ↔
          (cshGetvar name (runEnvOps ops [])).isSome := by
  have represents := represents_nil.run ops
  refine ⟨represents.distinct, fun name value => ?_, fun name => ?_,
    fun Context cb ctx => ?_, ?_, fun name => ?_⟩
  · rw [represents.getvar]
    exact applyEnvOps_eq_some_iff
  · exact
      ⟨cshDelvar_eq_zero_iff, cshGetvar_delvar_same represents.distinct,
        fun _ different => cshGetvar_delvar_other different⟩
  · rw [calledBack_eq_map]
    exact cshForeachVar_eq_foldl cb ctx _
  · rw [calledBack_eq_map]
    exact represents.distinct
  · rw [calledBack_eq_map, Option.isSome_iff_ne_none, Ne,
      cshGetvar_eq_none_iff, not_not]

end Csh.Environment
