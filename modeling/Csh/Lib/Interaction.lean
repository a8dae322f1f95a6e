import Mathlib.Data.List.Basic

namespace Csh.Interaction

/-!
# Programs that ask their surroundings

A program either finishes or makes one call and continues with the answer.
Nothing is assumed about the answers: a run is the finite list of calls with
the answers they received, and a statement about every run is a statement
about every behaviour of whatever answers the calls.
-/

universe u v

variable {Call : Type u} {Answer : Call → Type v}

/-- A program over the calls `Call`, whose answers have the types `Answer`. -/
inductive Prog (Answer : Call → Type v) (α : Type v) : Type (max u v) where
  | done (value : α) : Prog Answer α
  | call (request : Call) (next : Answer request → Prog Answer α) :
      Prog Answer α

/-- One call of a run, together with the answer it received. -/
structure Step (Answer : Call → Type v) where
  request : Call
  answer : Answer request

namespace Prog

/-- Continue with `next` on the value the first program finishes with. -/
def bind
    {α β : Type v}
    (program : Prog Answer α)
    (next : α → Prog Answer β) :
    Prog Answer β :=
  match program with
  | .done value => next value
  | .call request rest =>
      .call request fun answer => (rest answer).bind next

instance : Monad (Prog Answer) where
  pure := .done
  bind := .bind

/-- Make one call and finish with its answer. -/
def ask
    (request : Call) :
    Prog Answer (Answer request) :=
  .call request .done

/-- The calls and the value of a program when `oracle` gives the answers. -/
def exec
    {α : Type v}
    (oracle : Nat → (request : Call) → Answer request) :
    Nat → Prog Answer α → List (Step Answer) × α
  | _, .done value => ([], value)
  | time, .call request next =>
      let answer := oracle time request
      let later := exec oracle (time + 1) (next answer)
      (⟨request, answer⟩ :: later.1, later.2)

end Prog

/-- The runs of a program: its calls, the answers they got, and its value. -/
inductive Runs
    {α : Type v} :
    Prog Answer α → List (Step Answer) → α → Prop where
  | done (value : α) :
      Runs (.done value) [] value
  | call
      {request : Call}
      {next : Answer request → Prog Answer α}
      {trace : List (Step Answer)}
      {value : α}
      (answer : Answer request)
      (later : Runs (next answer) trace value) :
      Runs (.call request next) (⟨request, answer⟩ :: trace) value

section Rules

variable {α β : Type v}
variable {program : Prog Answer α}
variable {trace : List (Step Answer)}

/-- A finished program makes no call. -/
@[simp] theorem runs_done_iff
    {value result : α} :
    Runs (.done value : Prog Answer α) trace result ↔
      trace = [] ∧ result = value := by
  constructor
  · rintro ⟨⟩
    exact ⟨rfl, rfl⟩
  · rintro ⟨rfl, rfl⟩
    exact .done _

/-- `pure` makes no call. -/
@[simp] theorem runs_pure_iff
    {value result : α} :
    Runs (pure value : Prog Answer α) trace result ↔
      trace = [] ∧ result = value :=
  runs_done_iff

/-- A run of a calling program is its first step and a run of the rest. -/
theorem runs_call_iff
    {request : Call}
    {next : Answer request → Prog Answer α}
    {result : α} :
    Runs (.call request next) trace result ↔
      ∃ answer later,
        trace = ⟨request, answer⟩ :: later ∧
          Runs (next answer) later result := by
  constructor
  · rintro (_ | ⟨answer, later⟩)
    exact ⟨answer, _, rfl, later⟩
  · rintro ⟨answer, later, rfl, run⟩
    exact .call answer run

/-- A single call is a single step. -/
@[simp] theorem runs_ask_iff
    {request : Call}
    {trace : List (Step Answer)}
    {result : Answer request} :
    Runs (Prog.ask request) trace result ↔
      trace = [⟨request, result⟩] := by
  rw [Prog.ask, runs_call_iff]
  constructor
  · rintro ⟨answer, later, rfl, run⟩
    obtain ⟨rfl, rfl⟩ := runs_done_iff.mp run
    rfl
  · rintro rfl
    exact ⟨result, [], rfl, .done _⟩

/-- Running two programs in sequence concatenates their traces. -/
theorem Runs.bind
    {next : α → Prog Answer β}
    {later : List (Step Answer)}
    {middle : α}
    {result : β}
    (first : Runs program trace middle)
    (second : Runs (next middle) later result) :
    Runs (program.bind next) (trace ++ later) result := by
  induction first with
  | done value =>
      exact second
  | call answer _ inductionHypothesis =>
      exact .call answer (inductionHypothesis second)

/-- A run of a sequence splits at the boundary of its parts. -/
theorem runs_bind_iff
    {next : α → Prog Answer β}
    {result : β} :
    Runs (program >>= next) trace result ↔
      ∃ first middle later,
        trace = first ++ later ∧
          Runs program first middle ∧
          Runs (next middle) later result := by
  constructor
  · intro run
    change Runs (program.bind next) trace result at run
    induction program generalizing trace with
    | done value =>
        exact ⟨[], value, trace, rfl, .done value, run⟩
    | call request rest inductionHypothesis =>
        obtain ⟨answer, tail, rfl, tailRun⟩ := runs_call_iff.mp run
        obtain ⟨first, middle, later, rfl, firstRun, laterRun⟩ :=
          inductionHypothesis answer tailRun
        exact
          ⟨⟨request, answer⟩ :: first, middle, later, rfl,
            .call answer firstRun, laterRun⟩
  · rintro ⟨first, middle, later, rfl, firstRun, laterRun⟩
    exact firstRun.bind laterRun

/-- A call followed by a continuation puts one step in front. -/
theorem runs_ask_bind_iff
    {request : Call}
    {next : Answer request → Prog Answer β}
    {result : β} :
    Runs (Prog.ask request >>= next) trace result ↔
      ∃ answer later,
        trace = ⟨request, answer⟩ :: later ∧
          Runs (next answer) later result :=
  runs_call_iff

/-- A call whose answer is turned into the result is the only step. -/
theorem runs_ask_return_iff
    {request : Call}
    {value : Answer request → β}
    {result : β} :
    Runs (Prog.ask request >>= fun answer => pure (value answer)) trace
        result ↔
      ∃ answer, trace = [⟨request, answer⟩] ∧ result = value answer := by
  rw [runs_ask_bind_iff]
  constructor
  · rintro ⟨answer, later, rfl, rest⟩
    obtain ⟨rfl, rfl⟩ := runs_pure_iff.mp rest
    exact ⟨answer, rfl, rfl⟩
  · rintro ⟨answer, rfl, rfl⟩
    exact ⟨answer, [], rfl, runs_pure_iff.mpr ⟨rfl, rfl⟩⟩

/-- Executing a program against an oracle is one of its runs. -/
theorem runs_exec
    (oracle : Nat → (request : Call) → Answer request)
    (time : Nat)
    (program : Prog Answer α) :
    Runs program
      (program.exec oracle time).1
      (program.exec oracle time).2 := by
  induction program generalizing time with
  | done value =>
      exact .done value
  | call request next inductionHypothesis =>
      exact .call _ (inductionHypothesis _ (time + 1))

/-- Every program has a run once every call can be answered. -/
theorem exists_runs
    [answerable : ∀ request, Nonempty (Answer request)]
    (program : Prog Answer α) :
    ∃ trace result, Runs program trace result :=
  ⟨_, _, runs_exec
    (fun _ request => Classical.choice (answerable request)) 0 program⟩

/-- A program has a run with answers of a kind if every call has such one. -/
theorem exists_runs_of_answers
    {kind : Step Answer → Prop}
    (answers : ∀ request, ∃ answer, kind ⟨request, answer⟩)
    (program : Prog Answer α) :
    ∃ trace result, Runs program trace result ∧ ∀ step ∈ trace, kind step := by
  induction program with
  | done value =>
      exact ⟨[], value, .done value, by simp⟩
  | call request next inductionHypothesis =>
      obtain ⟨answer, ofKind⟩ := answers request
      obtain ⟨trace, result, run, all⟩ := inductionHypothesis answer
      exact
        ⟨⟨request, answer⟩ :: trace, result, .call answer run,
          List.forall_mem_cons.mpr ⟨ofKind, all⟩⟩

end Rules

section Calls

variable {α β : Type v}
variable {allowed permitted : Call → Prop}
variable {program : Prog Answer α}

/-- Every call the program makes, whatever the answers, is an allowed one. -/
def Calls
    (allowed : Call → Prop)
    (program : Prog Answer α) :
    Prop :=
  ∀ trace result,
    Runs program trace result → ∀ step ∈ trace, allowed step.request

@[simp] theorem calls_pure
    (value : α) :
    Calls allowed (pure value : Prog Answer α) := by
  intro trace result run
  obtain ⟨rfl, _⟩ := runs_pure_iff.mp run
  simp

/-- A single call is made, and no other. -/
theorem calls_ask
    {request : Call}
    (permits : allowed request) :
    Calls allowed (Prog.ask request : Prog Answer (Answer request)) := by
  intro trace result run step member
  obtain rfl := runs_ask_iff.mp run
  obtain rfl := List.mem_singleton.mp member
  exact permits

/-- Sequencing keeps to the allowed calls. -/
theorem Calls.bind
    {next : α → Prog Answer β}
    (first : Calls allowed program)
    (rest : ∀ value, Calls allowed (next value)) :
    Calls allowed (program >>= next) := by
  intro trace result run step member
  obtain ⟨early, middle, late, rfl, firstRun, restRun⟩ :=
    runs_bind_iff.mp run
  rcases List.mem_append.mp member with isEarly | isLate
  · exact first early middle firstRun step isEarly
  · exact rest middle late result restRun step isLate

/-- Allowing more calls keeps a program allowed. -/
theorem Calls.mono
    (calls : Calls allowed program)
    (wider : ∀ request, allowed request → permitted request) :
    Calls permitted program := by
  intro trace result run step member
  exact wider step.request (calls trace result run step member)

end Calls

end Csh.Interaction
