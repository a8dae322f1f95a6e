import Mathlib.Data.List.Basic

namespace Csh.InForce

/-!
# Configurations that events put in force

Some events of a trace put a configuration in force, which stays there until
another event does.  Some events use the configuration that is in force.
-/

variable {Event Config : Type*}

/-- The configuration in force behind a trace. -/
def inForce
    (sets? : Event → Option Config)
    (start : Config) :
    List Event → Config
  | [] => start
  | event :: rest => inForce sets? ((sets? event).getD start) rest

/-- No event of the trace puts a configuration in force. -/
def Silent
    (sets? : Event → Option Config)
    (trace : List Event) :
    Prop :=
  ∀ event ∈ trace, sets? event = none

/-- Every event that uses a configuration finds this one in force. -/
def UsedUnder
    (sets? : Event → Option Config)
    (uses : Event → Prop)
    (config start : Config) :
    List Event → Prop
  | [] => True
  | event :: rest =>
      (uses event → start = config) ∧
        UsedUnder sets? uses config ((sets? event).getD start) rest

/--
The first event sets a configuration for the length of the trace.  If the trace
closes, its last event sets another one back.
-/
def Framed
    (sets? : Event → Option Config)
    (config back : Config)
    (closes : Prop)
    (trace : List Event) :
    Prop :=
  ∃ opening quiet closing,
    trace = opening :: (quiet ++ closing) ∧
      sets? opening = some config ∧
        Silent sets? quiet ∧
          (closes → ∃ event, closing = [event] ∧ sets? event = some back) ∧
            (¬ closes → closing = [])

section Rules

variable {sets? : Event → Option Config}
variable {uses : Event → Prop}
variable {config start : Config}
variable {first later trace : List Event}

@[simp] theorem inForce_nil :
    inForce sets? start [] = start :=
  rfl

@[simp] theorem inForce_cons
    {event : Event} :
    inForce sets? start (event :: trace) =
      inForce sets? ((sets? event).getD start) trace :=
  rfl

theorem inForce_append :
    inForce sets? start (first ++ later) =
      inForce sets? (inForce sets? start first) later := by
  induction first generalizing start with
  | nil =>
      rfl
  | cons event rest inductionHypothesis =>
      exact inductionHypothesis

/-- Without an event that sets it the configuration stays in force. -/
theorem Silent.inForce_eq
    (silent : Silent sets? trace) :
    inForce sets? start trace = start := by
  induction trace with
  | nil =>
      rfl
  | cons event rest inductionHypothesis =>
      obtain ⟨eventSilent, restSilent⟩ := List.forall_mem_cons.mp silent
      rw [inForce_cons, eventSilent]
      exact inductionHypothesis restSilent

/-- What is set by the last event that sets anything is in force. -/
theorem inForce_append_of_sets
    {event : Event}
    (sets : sets? event = some config) :
    inForce sets? start (first ++ [event]) = config := by
  rw [inForce_append, inForce_cons, sets]
  rfl

theorem Silent.append
    (firstSilent : Silent sets? first)
    (laterSilent : Silent sets? later) :
    Silent sets? (first ++ later) :=
  List.forall_mem_append.mpr ⟨firstSilent, laterSilent⟩

theorem usedUnder_append_iff :
    UsedUnder sets? uses config start (first ++ later) ↔
      UsedUnder sets? uses config start first ∧
        UsedUnder sets? uses config (inForce sets? start first) later := by
  induction first generalizing start with
  | nil =>
      simp [UsedUnder]
  | cons event rest inductionHypothesis =>
      rw [List.cons_append, UsedUnder, UsedUnder, inForce_cons,
        inductionHypothesis, and_assoc]

/-- A trace that sets nothing uses the configuration it starts with. -/
theorem Silent.usedUnder_iff
    (silent : Silent sets? trace) :
    UsedUnder sets? uses config start trace ↔
      start = config ∨ ∀ event ∈ trace, ¬ uses event := by
  induction trace with
  | nil =>
      simp [UsedUnder]
  | cons event rest inductionHypothesis =>
      obtain ⟨eventSilent, restSilent⟩ := List.forall_mem_cons.mp silent
      rw [UsedUnder, eventSilent, Option.getD_none,
        inductionHypothesis restSilent, List.forall_mem_cons, or_and_left]
      refine and_congr_left' ⟨fun used => ?_, fun used uses => ?_⟩
      · exact or_iff_not_imp_right.mpr fun usesIt => used (not_not.mp usesIt)
      · exact used.resolve_right (not_not_intro uses)

/-- A trace that uses nothing is under any configuration. -/
theorem usedUnder_of_unused
    (unused : ∀ event ∈ trace, ¬ uses event) :
    UsedUnder sets? uses config start trace := by
  induction trace generalizing start with
  | nil =>
      exact trivial
  | cons event rest inductionHypothesis =>
      obtain ⟨eventUnused, restUnused⟩ := List.forall_mem_cons.mp unused
      exact
        ⟨fun uses => absurd uses eventUnused, inductionHypothesis restUnused⟩

section Framed

variable {back : Config}
variable {closes : Prop}

/-- A frame that closes, from its shape. -/
theorem framed_of_closed
    {opening closing : Event}
    (sets : sets? opening = some config)
    (silent : Silent sets? trace)
    (setsBack : sets? closing = some back)
    (closed : closes) :
    Framed sets? config back closes (opening :: (trace ++ [closing])) :=
  ⟨opening, trace, [closing], rfl, sets, silent,
    fun _ => ⟨closing, rfl, setsBack⟩, fun notClosed => absurd closed notClosed⟩

/-- A frame that stays open, from its shape. -/
theorem framed_of_open
    {opening : Event}
    (sets : sets? opening = some config)
    (silent : Silent sets? trace)
    (notClosed : ¬ closes) :
    Framed sets? config back closes (opening :: trace) :=
  ⟨opening, trace, [], by rw [List.append_nil], sets, silent,
    fun closed => absurd closed notClosed, fun _ => rfl⟩

/-- What is in force behind a frame shows whether it closes. -/
theorem Framed.inForce_eq_back_iff
    (framed : Framed sets? config back closes trace) :
    inForce sets? start trace = back ↔ closes ∨ config = back := by
  obtain ⟨opening, quiet, closing, rfl, sets, silent, closed, stays⟩ := framed
  rw [inForce_cons, sets, Option.getD_some]
  by_cases closes' : closes
  · obtain ⟨event, rfl, setsBack⟩ := closed closes'
    rw [inForce_append_of_sets setsBack]
    exact iff_of_true rfl (Or.inl closes')
  · rw [stays closes', List.append_nil, silent.inForce_eq]
    exact (or_iff_right closes').symm

/-- Whatever is used within a frame is its own configuration. -/
theorem Framed.usedUnder
    (apart : ∀ event, uses event → sets? event = none)
    (framed : Framed sets? config back closes trace) :
    UsedUnder sets? uses config start trace := by
  obtain ⟨opening, quiet, closing, rfl, sets, silent, closed, stays⟩ := framed
  have unused :
      ∀ {event : Event} {other : Config},
        sets? event = some other → ¬ uses event :=
    fun setsIt usesIt => by simp [apart _ usesIt] at setsIt
  refine ⟨fun usesIt => absurd usesIt (unused sets), ?_⟩
  rw [sets, Option.getD_some, usedUnder_append_iff]
  refine ⟨silent.usedUnder_iff.mpr (Or.inl rfl), usedUnder_of_unused ?_⟩
  by_cases closes' : closes
  · obtain ⟨event, rfl, setsBack⟩ := closed closes'
    exact List.forall_mem_singleton.mpr (unused setsBack)
  · simp [stays closes']

end Framed

end Rules

end Csh.InForce
