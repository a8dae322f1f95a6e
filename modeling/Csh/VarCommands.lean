import Csh.ExpandVars
import Csh.Slash

namespace Csh.VarCommands

open Libc KeyedList Environment ExpandVars

/-!
# The language of variables

A line is expanded before slash reads it, and `var expand -e` executes its
expanded argument as another line.  The lines of a session work on the linked
list of variables and on grown buffers; they mean changes of a map and
substitutions in texts.
-/

/-- `LINE_SIZE`, the size of the line buffer. -/
def lineSize : Nat :=
  512

/-- What a command is called with: `argv`, and what `optparse_parse` returns. -/
structure VarArgs where
  argv : List CString
  argi : Option Nat
  deriving Repr, DecidableEq

/-- A line as slash reads it; other commands leave the variables alone. -/
inductive VarLine where
  | set (args : VarArgs)
  | unset (args : VarArgs)
  | clear (args : VarArgs)
  | get (args : VarArgs)
  | show (args : VarArgs)
  | expand (execute quiet : Bool) (args : VarArgs)
  | other (result : SlashResult)
  deriving Repr, DecidableEq

/-- How a line ends; too long an expansion is written behind the buffer. -/
inductive LineEnd where
  | finished (result : SlashResult)
  | overflow
  | endless
  deriving Repr, DecidableEq

/-- What a line leaves: the variables, what was printed, and how it ended. -/
structure LineDone (State Printed : Type) where
  state : State
  printed : List Printed
  ending : LineEnd

namespace VarArgs

/-- `slash->argc - argi`. -/
def left (args : VarArgs) (argi : Nat) : Int :=
  args.argv.length - argi

/-- An argument, by its index in `argv`. -/
def arg (args : VarArgs) (index : Nat) : CString :=
  args.argv.getD index []

end VarArgs

/-- Some text and the end of the line. -/
def printedLine (text : CString) : CString :=
  text ++ ['\n']

/-- What a command leaves that has printed some lines. -/
def ran
    {State Printed : Type}
    (state : State)
    (printed : Printed)
    (result : SlashResult) :
    LineDone State Printed :=
  ⟨state, [printed], .finished result⟩

section Commands

variable (env : CshEnv)
variable (args : VarArgs)

/-- The checks in front of a command, and what it does when they pass. -/
def checked
    (refuses : Int → Bool)
    (message : CString)
    (done : LineDone CshEnv (List CString)) :
    LineDone CshEnv (List CString) :=
  match args.argi with
  | none => ran env [] .einval
  | some argi =>
      if refuses (args.left argi) then
        ran env [printedLine message] .einval
      else
        done

/-- `slash_var_set`. -/
def slashVarSet : LineDone CshEnv (List CString) :=
  checked env args (· != 3) "Must give NAME and VALUE parameters".toList <|
    let env := (cshPutvar (args.arg 1) (args.arg 2) env).2
    ran env
      [printedLine
        ("Variable ".toList ++ args.arg 1 ++ " defined, value=".toList ++
          (cshGetvar (args.arg 1) env).getD [])]
      .success

/-- `slash_var_unset`. -/
def slashVarUnset : LineDone CshEnv (List CString) :=
  checked env args (· != 2)
    "Must give NAME, and only NAME parameter".toList <|
    ran (cshDelvar (args.arg 1) env).2 [] .success

/-- `slash_var_clear`. -/
def slashVarClear : LineDone CshEnv (List CString) :=
  checked env args (· > 1) "var clear takes no parameters".toList <|
    ran (cshClearenv env) [] .success

/-- `slash_var_get`. -/
def slashVarGet : LineDone CshEnv (List CString) :=
  checked env args (· != 2)
    "Must give NAME, and only NAME parameter".toList <|
    match cshGetvar (args.arg 1) env with
    | some value => ran env [printedLine value] .success
    | none => ran env [] .success

/-- `print_var`, behind the lines that are printed so far. -/
def printVar
    (name : CString)
    (printed : List CString) :
    List CString :=
  printed ++
    [printedLine (name ++ '=' :: (cshGetvar name env).getD [])]

/-- `slash_var_show`. -/
def slashVarShow : LineDone CshEnv (List CString) :=
  checked env args (· > 1) "var show takes no parameters".toList <|
    ran env (cshForeachVar (printVar env) [] env) .success

/-- The C string in the buffer that `csh_expand_vars` returns. -/
def expansion
    (fresh : Nat → Char)
    (text : CString) :
    CString :=
  (cshExpandVars fresh env text).dest.takeWhile (· != nul)

/-- `slash_var_expand`, which hands its expansion to `slash_execute`. -/
def slashVarExpand
    (fresh : Nat → Char)
    (slashExecute : CString → CshEnv → LineDone CshEnv (List CString))
    (execute quiet : Bool) :
    LineDone CshEnv (List CString) :=
  checked env args (· != 2) "Must give an INPUT parameter".toList <|
    let text := expansion env fresh (args.arg (args.argv.length - 1))
    if execute = false then
      ran env [printedLine text] .success
    else if lineSize ≤ text.length then
      ⟨env, [], .overflow⟩
    else
      let later := slashExecute text env
      { later with
        printed := (if quiet then [] else [printedLine text]) :: later.printed }

end Commands

/-- `slash_execute`: csh has it expand a line in front of reading it. -/
def slashExecute
    (fresh : Nat → Char)
    (parse : CString → VarLine) :
    Nat → CString → CshEnv → LineDone CshEnv (List CString)
  | 0, _, env => ⟨env, [], .endless⟩
  | fuel + 1, line, env =>
      match parse (expansion env fresh line) with
      | .set args => slashVarSet env args
      | .unset args => slashVarUnset env args
      | .clear args => slashVarClear env args
      | .get args => slashVarGet env args
      | .show args => slashVarShow env args
      | .expand execute quiet args =>
          slashVarExpand env args fresh (slashExecute fresh parse fuel) execute
            quiet
      | .other result => ⟨env, [], .finished result⟩

/-- The lines of a session, one after the other. -/
def session
    {State Printed : Type}
    (execute : CString → State → LineDone State Printed) :
    List CString → State → LineDone State Printed
  | [], state => ⟨state, [], .finished .success⟩
  | line :: rest, state =>
      let done := execute line state
      match done.ending with
      | .finished _ =>
          let later := session execute rest done.state
          { later with printed := done.printed ++ later.printed }
      | _ => done

/-!
## What the lines mean
-/

/-- What a line asks for. -/
inductive Request where
  | refused (message : List CString)
  | change (op : EnvOp)
  | value (name : CString)
  | listing
  | text (execute quiet : Bool) (input : CString)
  | nothing (result : SlashResult)

/-- The request of a command, if it has as many arguments as it takes. -/
def VarArgs.request
    (args : VarArgs)
    (takes : Int → Bool)
    (message : CString)
    (request : Request) :
    Request :=
  match args.argi with
  | none => .refused []
  | some argi =>
      if takes (args.left argi) then
        request
      else
        .refused [printedLine message]

def VarLine.request : VarLine → Request
  | .set args =>
      args.request (· == 3) "Must give NAME and VALUE parameters".toList
        (.change (.put (args.arg 1) (args.arg 2)))
  | .unset args =>
      args.request (· == 2) "Must give NAME, and only NAME parameter".toList
        (.change (.del (args.arg 1)))
  | .clear args =>
      args.request (· ≤ 1) "var clear takes no parameters".toList
        (.change .clear)
  | .get args =>
      args.request (· == 2) "Must give NAME, and only NAME parameter".toList
        (.value (args.arg 1))
  | .show args =>
      args.request (· ≤ 1) "var show takes no parameters".toList .listing
  | .expand execute quiet args =>
      args.request (· == 2) "Must give an INPUT parameter".toList
        (.text execute quiet (args.arg (args.argv.length - 1)))
  | .other result => .nothing result

/-- What a command should print: some lines, or every variable once. -/
inductive Shown where
  | texts (lines : List CString)
  | all (values : Variables)

def Shown.Shows : Shown → List CString → Prop
  | .texts lines, printed => printed = lines
  | .all values, printed =>
      ∃ names : List CString,
        names.Nodup ∧
          (∀ name, name ∈ names ↔ (values name).isSome = true) ∧
          printed =
            names.map fun name =>
              printedLine (name ++ '=' :: (values name).getD [])

/-- A put is confirmed. -/
def confirmation : EnvOp → List CString
  | .put name value =>
      [printedLine
        ("Variable ".toList ++ name ++ " defined, value=".toList ++ value)]
  | _ => []

/-- The text with the values in place of references, as far as a NUL. -/
def substituted (values : Variables) (text : CString) : CString :=
  (expandReferences values text).takeWhile (· != nul)

/-- The answer to a request; a text may be executed as a line. -/
def respond
    (executeLine : CString → Variables → LineDone Variables Shown)
    (values : Variables) :
    Request → LineDone Variables Shown
  | .refused message => ran values (.texts message) .einval
  | .change op => ran (op.apply values) (.texts (confirmation op)) .success
  | .value name =>
      ran values (.texts ((values name).toList.map printedLine)) .success
  | .listing => ran values (.all values) .success
  | .nothing result => ⟨values, [], .finished result⟩
  | .text execute quiet input =>
      let text := substituted values input
      if execute = false then
        ran values (.texts [printedLine text]) .success
      else if lineSize ≤ text.length then
        ⟨values, [], .overflow⟩
      else
        let later := executeLine text values
        { later with
          printed :=
            .texts (if quiet then [] else [printedLine text]) ::
              later.printed }

/-- What a line does to the map of variables. -/
def meaning
    (parse : CString → VarLine) :
    Nat → CString → Variables → LineDone Variables Shown
  | 0, _, values => ⟨values, [], .endless⟩
  | fuel + 1, line, values =>
      respond (meaning parse fuel) values
        (parse (substituted values line)).request

/-- The list stands for the map, and everything is printed as it should be. -/
structure Refines
    (concrete : LineDone CshEnv (List CString))
    (meant : LineDone Variables Shown) :
    Prop where
  state : Represents concrete.state meant.state
  printed : List.Forall₂ Shown.Shows meant.printed concrete.printed
  ending : concrete.ending = meant.ending

section Refinement

variable {env : CshEnv}
variable {values : Variables}

theorem refines_ran
    {block : List CString}
    {shown : Shown}
    (represents : Represents env values)
    (same : shown.Shows block)
    (result : SlashResult) :
    Refines (ran env block result) (ran values shown result) :=
  ⟨represents, .cons same .nil, rfl⟩

/-- The same lines are printed. -/
theorem refines_texts
    (represents : Represents env values)
    (block : List CString)
    (result : SlashResult) :
    Refines (ran env block result) (ran values (.texts block) result) :=
  ⟨represents, .cons rfl .nil, rfl⟩

theorem expansion_eq
    (represents : Represents env values)
    (fresh : Nat → Char)
    (text : CString) :
    expansion env fresh text = substituted values text := by
  have sameValues : (fun name => cshGetvar name env) = values :=
    funext represents.getvar
  obtain ⟨behind, buffer⟩ := cshExpandVars_eq_expandReferences fresh env text
  rw [expansion, buffer, sameValues, substituted]
  generalize expandReferences values text = expanded
  induction expanded with
  | nil => rfl
  | cons c rest inductionHypothesis =>
      rw [List.cons_append, List.takeWhile_cons, List.takeWhile_cons,
        inductionHypothesis]

/-- `var show` prints every variable once. -/
theorem shows_all
    (represents : Represents env values) :
    (Shown.all values).Shows (cshForeachVar (printVar env) [] env) := by
  have printed :
      ∀ (names : List CString) (before : List CString),
        names.foldl (fun lines name => printVar env name lines) before =
          before ++
            names.map fun name =>
              printedLine (name ++ '=' :: (cshGetvar name env).getD []) := by
    intro names
    induction names with
    | nil => simp
    | cons name rest inductionHypothesis =>
        intro before
        rw [List.foldl_cons, inductionHypothesis, printVar, List.append_assoc]
        rfl
  refine
    ⟨env.map CshEnvEntry.name, represents.distinct, fun name => ?_, ?_⟩
  · rw [← represents.getvar, Option.isSome_iff_ne_none, Ne,
      cshGetvar_eq_none_iff, not_not]
  · rw [cshForeachVar_eq_foldl, printed, List.nil_append]
    simp only [represents.getvar]

end Refinement

section Lines

variable {env : CshEnv}
variable {values : Variables}
variable {args : VarArgs}
variable {executeLine : CString → Variables → LineDone Variables Shown}

/-- A command whose checks are those of its request refines it. -/
theorem refines_checked
    {refuses takes : Int → Bool}
    {message : CString}
    {request : Request}
    {done : LineDone CshEnv (List CString)}
    (represents : Represents env values)
    (opposite : ∀ count, refuses count = !takes count)
    (accepted : Refines done (respond executeLine values request)) :
    Refines (checked env args refuses message done)
      (respond executeLine values (args.request takes message request)) := by
  unfold checked VarArgs.request
  cases args.argi with
  | none =>
      exact refines_texts represents _ .einval
  | some argi =>
      simp only [opposite]
      cases takes (args.left argi) with
      | false => exact refines_texts represents _ .einval
      | true => exact accepted

theorem refines_slashVarSet
    (represents : Represents env values) :
    Refines (slashVarSet env args)
      (respond executeLine values (VarLine.set args).request) := by
  refine refines_checked represents (fun _ => rfl) ?_
  simp only [cshGetvar_putvar_same]
  exact refines_texts (represents.step (.put _ _)) _ .success

theorem refines_slashVarUnset
    (represents : Represents env values) :
    Refines (slashVarUnset env args)
      (respond executeLine values (VarLine.unset args).request) :=
  refines_checked represents (fun _ => rfl)
    (refines_texts (represents.step (.del _)) [] .success)

theorem refuses_more
    (count : Int) :
    decide (count > 1) = !decide (count ≤ 1) := by
  rw [← decide_not]
  exact decide_eq_decide.mpr not_le.symm

theorem refines_slashVarClear
    (represents : Represents env values) :
    Refines (slashVarClear env args)
      (respond executeLine values (VarLine.clear args).request) := by
  refine refines_checked represents refuses_more ?_
  exact refines_texts (represents.step .clear) [] .success

theorem refines_slashVarGet
    (represents : Represents env values) :
    Refines (slashVarGet env args)
      (respond executeLine values (VarLine.get args).request) := by
  refine refines_checked represents (fun _ => rfl) ?_
  rw [represents.getvar, respond]
  cases values (args.arg 1) with
  | none => exact refines_texts represents _ .success
  | some value => exact refines_texts represents _ .success

theorem refines_slashVarShow
    (represents : Represents env values) :
    Refines (slashVarShow env args)
      (respond executeLine values (VarLine.show args).request) := by
  refine refines_checked represents refuses_more ?_
  exact refines_ran represents (shows_all represents) .success

/-- An expansion is executed as what its text means. -/
theorem refines_slashVarExpand
    {fresh : Nat → Char}
    {execute quiet : Bool}
    {slashExecute : CString → CshEnv → LineDone CshEnv (List CString)}
    (represents : Represents env values)
    (executed :
      ∀ text, Refines (slashExecute text env) (executeLine text values)) :
    Refines (slashVarExpand env args fresh slashExecute execute quiet)
      (respond executeLine values
        (VarLine.expand execute quiet args).request) := by
  refine refines_checked represents (fun _ => rfl) ?_
  simp only [expansion_eq represents, respond]
  cases execute with
  | false => exact refines_texts represents _ .success
  | true =>
      simp only [Bool.true_eq_false, if_false]
      split
      · exact ⟨represents, .nil, rfl⟩
      · obtain ⟨state, printed, ending⟩ :=
          executed
            (substituted values (args.arg (args.argv.length - 1)))
        exact ⟨state, .cons rfl printed, ending⟩

/-- A line does to the list what it means for the map. -/
theorem refines_slashExecute
    (fresh : Nat → Char)
    (parse : CString → VarLine)
    (fuel : Nat)
    (line : CString)
    (represents : Represents env values) :
    Refines (slashExecute fresh parse fuel line env)
      (meaning parse fuel line values) := by
  induction fuel generalizing line env values with
  | zero => exact ⟨represents, .nil, rfl⟩
  | succ fuel inductionHypothesis =>
      rw [slashExecute, meaning, expansion_eq represents]
      cases parse (substituted values line) with
      | set args => exact refines_slashVarSet represents
      | unset args => exact refines_slashVarUnset represents
      | clear args => exact refines_slashVarClear represents
      | get args => exact refines_slashVarGet represents
      | «show» args => exact refines_slashVarShow represents
      | expand execute quiet args =>
          exact
            refines_slashVarExpand represents fun text =>
              inductionHypothesis text represents
      | other result => exact ⟨represents, .nil, rfl⟩

end Lines

/--
Every session of lines, whatever slash reads in them and however deep expansions
are executed, leaves the variables, prints the lines and ends as it would on a
map of values with references substituted in texts.
-/
theorem session_refines
    (fresh : Nat → Char)
    (parse : CString → VarLine)
    (fuel : Nat)
    (lines : List CString) :
    Refines (session (slashExecute fresh parse fuel) lines [])
      (session (meaning parse fuel) lines fun _ => none) := by
  have general :
      ∀ env values, Represents env values →
        Refines (session (slashExecute fresh parse fuel) lines env)
          (session (meaning parse fuel) lines values) := by
    induction lines with
    | nil => exact fun env values represents => ⟨represents, .nil, rfl⟩
    | cons line rest inductionHypothesis =>
        intro env values represents
        have first := refines_slashExecute fresh parse fuel line represents
        unfold session
        simp only [first.ending]
        cases ending : (meaning parse fuel line values).ending with
        | finished result =>
            obtain ⟨state, printed, same⟩ := inductionHypothesis _ _ first.state
            exact ⟨state, List.rel_append first.printed printed, same⟩
        | overflow => exact first
        | endless => exact first
  exact general [] _ represents_nil

end Csh.VarCommands
