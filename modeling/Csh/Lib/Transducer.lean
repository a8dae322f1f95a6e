import Mathlib.Data.List.TakeWhile

namespace Csh

/-!
# Transducers

A transducer reads a text symbol by symbol: to each symbol it answers with
some output and moves to its next state.  Nested loops over one text with a
shared reading position are such a machine, and the output of a text is put
together from those of its parts.
-/

/-- A machine that writes at each symbol it reads. -/
structure Transducer (State Symbol Output : Type) where
  next : State → Symbol → State
  emit : State → Symbol → List Output

namespace Transducer

variable {State Symbol Output : Type}
variable (machine : Transducer State Symbol Output)

/-- The state behind a text. -/
def final (state : State) (text : List Symbol) : State :=
  text.foldl machine.next state

/-- What is written while a text is read. -/
def output : State → List Symbol → List Output
  | _, [] => []
  | state, symbol :: rest =>
      machine.emit state symbol ++ output (machine.next state symbol) rest

@[simp] theorem output_nil
    (state : State) :
    machine.output state [] = [] :=
  rfl

@[simp] theorem output_cons
    (state : State)
    (symbol : Symbol)
    (rest : List Symbol) :
    machine.output state (symbol :: rest) =
      machine.emit state symbol ++
        machine.output (machine.next state symbol) rest :=
  rfl

@[simp] theorem final_cons
    (state : State)
    (symbol : Symbol)
    (rest : List Symbol) :
    machine.final state (symbol :: rest) =
      machine.final (machine.next state symbol) rest :=
  rfl

/-- The second part of a text is read from the state behind the first. -/
theorem output_append
    (state : State)
    (first second : List Symbol) :
    machine.output state (first ++ second) =
      machine.output state first ++
        machine.output (machine.final state first) second := by
  induction first generalizing state with
  | nil =>
      rfl
  | cons symbol rest inductionHypothesis =>
      simp [inductionHypothesis]

/-- The machine skips a symbol: it stays where it is and writes nothing. -/
def Skips (state : State) (symbol : Symbol) : Prop :=
  machine.next state symbol = state ∧ machine.emit state symbol = []

/-- A loop over skipped symbols is the machine in one state. -/
theorem output_dropWhile
    {state : State}
    {skipped : Symbol → Bool}
    (skips : ∀ symbol, skipped symbol = true → machine.Skips state symbol)
    (text : List Symbol) :
    machine.output state (text.dropWhile skipped) =
      machine.output state text := by
  induction text with
  | nil =>
      rfl
  | cons symbol rest inductionHypothesis =>
      cases isSkipped : skipped symbol with
      | true =>
          obtain ⟨stays, silent⟩ := skips symbol isSkipped
          simp [isSkipped, inductionHypothesis, stays, silent]
      | false =>
          simp [isSkipped]

/-- A text of skipped symbols leaves the machine as it was. -/
theorem final_of_skipped
    {state : State}
    {text : List Symbol}
    (skips : ∀ symbol ∈ text, machine.Skips state symbol) :
    machine.final state text = state ∧ machine.output state text = [] := by
  induction text with
  | nil =>
      exact ⟨rfl, rfl⟩
  | cons symbol rest inductionHypothesis =>
      obtain ⟨⟨stays, silent⟩, later⟩ := List.forall_mem_cons.mp skips
      simpa [stays, silent] using inductionHypothesis later

/-- What is true of all that the machine writes is true of its output. -/
theorem forall_mem_output
    {property : Output → Prop}
    {text : List Symbol}
    (emitted :
      ∀ state, ∀ symbol ∈ text, ∀ output ∈ machine.emit state symbol,
        property output)
    (state : State) :
    ∀ output ∈ machine.output state text, property output := by
  induction text generalizing state with
  | nil =>
      simp
  | cons symbol rest inductionHypothesis =>
      intro output member
      rcases List.mem_append.mp member with here | later
      · exact emitted state symbol (by simp) output here
      · exact
          inductionHypothesis
            (fun other symbol member => emitted other symbol (by simp [member]))
            _ output later

/-- A machine that writes at most a symbol at a time falls behind. -/
theorem length_output_le
    (short : ∀ state symbol, (machine.emit state symbol).length ≤ 1)
    (state : State)
    (text : List Symbol) :
    (machine.output state text).length ≤ text.length := by
  induction text generalizing state with
  | nil =>
      exact Nat.le_refl 0
  | cons symbol rest inductionHypothesis =>
      have here := short state symbol
      have later := inductionHypothesis (machine.next state symbol)
      rw [output_cons, List.length_append, List.length_cons]
      omega

end Transducer

end Csh
