import Mathlib.Data.List.Basic

namespace Csh.Steps

/-!
# Runs of a step function

Several parties act on one state.  An action names what is done next and by
whom; `step` says what becomes of the state, or that the action is not possible
there.  A list of actions is one interleaving, and a statement about every list
is a statement about every interleaving.
-/

variable {Action State : Type*}

/-- The state behind a list of actions, if all of them are possible. -/
def run
    (step : Action → State → Option State) :
    List Action → State → Option State
  | [], state => some state
  | action :: rest, state => (step action state).bind (run step rest)

/-- Some list of actions leads from one state to the other. -/
def Reaches
    (step : Action → State → Option State)
    (start state : State) :
    Prop :=
  ∃ actions, run step actions start = some state

/-- Every possible action keeps the property. -/
def Keeps
    (step : Action → State → Option State)
    (invariant : State → Prop) :
    Prop :=
  ∀ action state next,
    invariant state → step action state = some next → invariant next

/-- The step function that refuses what is not allowed. -/
def within
    (allowed : Action → State → Bool)
    (step : Action → State → Option State)
    (action : Action)
    (state : State) :
    Option State :=
  if allowed action state then step action state else none

/--
Defects are never settled, and where there are none the first appears exactly
at a step that is not `kept`.
-/
def Grows (defects later : Nat) (kept : Bool) : Prop :=
  defects ≤ later ∧ (defects = 0 → (later = 0 ↔ kept = true))

/-- Every state has an account of its defects, which the steps make grow. -/
def Accounts
    (step : Action → State → Option State)
    (kept : Action → State → Bool)
    (account : Nat → State → Prop) :
    Prop :=
  ∀ action state next defects,
    account defects state → step action state = some next →
      ∃ later, account later next ∧ Grows defects later (kept action state)

section Rules

variable {step : Action → State → Option State}
variable {invariant : State → Prop}
variable {start state next : State}
variable {action : Action}
variable {actions later : List Action}

@[simp] theorem run_nil :
    run step [] state = some state :=
  rfl

/-- A run is its first step and a run from there. -/
theorem run_cons_eq_some_iff :
    run step (action :: actions) start = some state ↔
      ∃ middle,
        step action start = some middle ∧
          run step actions middle = some state :=
  Option.bind_eq_some_iff

theorem run_append :
    run step (actions ++ later) start =
      (run step actions start).bind (run step later) := by
  induction actions generalizing start with
  | nil =>
      rfl
  | cons action rest inductionHypothesis =>
      rw [List.cons_append, run, run, Option.bind_assoc]
      exact congrArg _ (funext fun middle => inductionHypothesis)

/-- What every action keeps is kept by every run. -/
theorem Keeps.run
    (keeps : Keeps step invariant)
    (holds : invariant start)
    (reached : run step actions start = some state) :
    invariant state := by
  induction actions generalizing start with
  | nil =>
      exact Option.some.inj reached ▸ holds
  | cons action rest inductionHypothesis =>
      obtain ⟨middle, stepped, restReached⟩ := run_cons_eq_some_iff.mp reached
      exact
        inductionHypothesis (keeps action start middle holds stepped)
          restReached

theorem Keeps.reaches
    (keeps : Keeps step invariant)
    (holds : invariant start)
    (reaches : Reaches step start state) :
    invariant state := by
  obtain ⟨actions, reached⟩ := reaches
  exact keeps.run holds reached

theorem Reaches.refl :
    Reaches step start start :=
  ⟨[], rfl⟩

theorem Reaches.trans
    (first : Reaches step start state)
    (second : Reaches step state next) :
    Reaches step start next := by
  obtain ⟨actions, reached⟩ := first
  obtain ⟨later, laterReached⟩ := second
  exact ⟨actions ++ later, by rw [run_append, reached]; exact laterReached⟩

/-- A possible action leads on from what is reached. -/
theorem Reaches.concat
    (reaches : Reaches step start state)
    (stepped : step action state = some next) :
    Reaches step start next := by
  obtain ⟨actions, reached⟩ := reaches
  refine ⟨actions ++ [action], ?_⟩
  rw [run_append, reached, Option.bind_some, run, stepped]
  rfl

/-- What every action keeps of the actions so far is kept by a run. -/
theorem run_history
    {follows : List Action → State → Prop}
    {earlier : List Action}
    (each :
      ∀ earlier action state next,
        follows earlier state → step action state = some next →
          follows (earlier ++ [action]) next)
    (holds : follows earlier start)
    (reached : run step actions start = some state) :
    follows (earlier ++ actions) state := by
  induction actions generalizing start earlier with
  | nil =>
      obtain rfl := Option.some.inj reached
      rwa [List.append_nil]
  | cons action rest inductionHypothesis =>
      obtain ⟨middle, stepped, restReached⟩ := run_cons_eq_some_iff.mp reached
      rw [List.append_cons]
      exact
        inductionHypothesis (each earlier action start middle holds stepped)
          restReached

/-- What every action adds to a list is added by a run in its order. -/
theorem run_collects
    {α : Type*}
    {collected : State → List α}
    {gives : Action → List α}
    (each :
      ∀ action state next,
        step action state = some next →
          collected next = collected state ++ gives action)
    (reached : run step actions start = some state) :
    collected state = collected start ++ actions.flatMap gives := by
  induction actions generalizing start with
  | nil =>
      obtain rfl := Option.some.inj reached
      exact (List.append_nil _).symm
  | cons action rest inductionHypothesis =>
      obtain ⟨middle, stepped, restReached⟩ := run_cons_eq_some_iff.mp reached
      rw [inductionHypothesis restReached, each action start middle stepped,
        List.flatMap_cons, List.append_assoc]

theorem within_eq_some_iff
    {allowed : Action → State → Bool} :
    within allowed step action state = some next ↔
      allowed action state = true ∧ step action state = some next := by
  simp [within]

/-- What is refused does not change what the other runs lead to. -/
theorem run_of_within
    {allowed : Action → State → Bool}
    (reached : run (within allowed step) actions start = some state) :
    run step actions start = some state := by
  induction actions generalizing start with
  | nil =>
      exact reached
  | cons action rest inductionHypothesis =>
      obtain ⟨middle, stepped, restReached⟩ := run_cons_eq_some_iff.mp reached
      exact
        run_cons_eq_some_iff.mpr
          ⟨middle, (within_eq_some_iff.mp stepped).2,
            inductionHypothesis restReached⟩

theorem Grows.same
    {defects : Nat} :
    Grows defects defects true :=
  ⟨Nat.le_refl _, fun none => by simp [none]⟩

/-- What is refused already may be refused before. -/
theorem within_within
    {allowed kept : Action → State → Bool}
    (weaker :
      ∀ action state, kept action state = true → allowed action state = true) :
    within kept (within allowed step) = within kept step := by
  funext action state
  unfold within
  split
  · rename_i holds
    rw [if_pos (weaker action state holds)]
  · rfl

/-- A run has no defects exactly when all of its steps are kept. -/
theorem Accounts.run
    {kept : Action → State → Bool}
    {account : Nat → State → Prop}
    {defects : Nat}
    (accounts : Accounts step kept account)
    (holds : account defects start)
    (reached : run step actions start = some state) :
    ∃ later,
      account later state ∧ defects ≤ later ∧
        (defects = 0 →
          (later = 0 ↔ run (within kept step) actions start = some state)) := by
  induction actions generalizing start defects with
  | nil =>
      obtain rfl := Option.some.inj reached
      exact ⟨defects, holds, Nat.le_refl _, fun none => by simp [none]⟩
  | cons action rest inductionHypothesis =>
      obtain ⟨middle, stepped, restReached⟩ := run_cons_eq_some_iff.mp reached
      obtain ⟨between, holdsBetween, grown, appears⟩ :=
        accounts action start middle defects holds stepped
      obtain ⟨later, holdsLater, grownLater, appearsLater⟩ :=
        inductionHypothesis holdsBetween restReached
      refine
        ⟨later, holdsLater, Nat.le_trans grown grownLater, fun none => ?_⟩
      have whole :
          Steps.run (within kept step) (action :: rest) start = some state ↔
            kept action start = true ∧
              Steps.run (within kept step) rest middle = some state := by
        simp [run_cons_eq_some_iff, within_eq_some_iff, stepped]
      rw [whole, ← appears none]
      constructor
      · intro noneLater
        have noneBetween : between = 0 :=
          Nat.eq_zero_of_le_zero (noneLater ▸ grownLater)
        exact ⟨noneBetween, (appearsLater noneBetween).mp noneLater⟩
      · rintro ⟨noneBetween, restKept⟩
        exact (appearsLater noneBetween).mpr restKept

end Rules

end Csh.Steps
