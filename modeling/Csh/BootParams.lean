import Csh.SpacebootRuns
import Mathlib.Data.List.Basic

namespace Csh.Spaceboot

open Libc Interaction

/-!
# The list of parameters across a reset

`reset_to_flash` needs four remote parameters.  Those it does not find it
creates and adds to the list of libparam, and removes behind the reboot.
-/

/-- The calls that look into the list of parameters or change it. -/
def SpacebootCall.IsParamList : SpacebootCall → Prop
  | .paramListFindId _ _ => True
  | .paramListAdd _ => True
  | .paramListRemoveSpecific _ => True
  | _ => False

section Lists

variable {Param : Type}
variable [DecidableEq Param]

/--
A trace with the list of parameters before and after it.  `isParam` says which
parameters `param_list_find_id` finds, and `created` gives those that are
created here; an added one may be put anywhere.
-/
inductive ParamListRun
    (isParam : Nat → Nat → Param → Prop)
    (created : Nat → Param) :
    Trace → List Param → List Param → Prop where
  | done (list : List Param) :
      ParamListRun isParam created [] list list
  | find
      {node id : Nat}
      {found : Bool}
      {trace : Trace}
      {list after : List Param}
      (answered : found = true ↔ ∃ param ∈ list, isParam node id param)
      (later : ParamListRun isParam created trace list after) :
      ParamListRun isParam created
        (⟨.paramListFindId node id, found⟩ :: trace) list after
  | add
      {id : Nat}
      {trace : Trace}
      {front back after : List Param}
      (later :
        ParamListRun isParam created trace (front ++ created id :: back)
          after) :
      ParamListRun isParam created
        (⟨.paramListAdd id, (0 : Int)⟩ :: trace) (front ++ back) after
  | refuse
      {id : Nat}
      {answer : Int}
      {trace : Trace}
      {list after : List Param}
      (refused : answer ≠ 0)
      (later : ParamListRun isParam created trace list after) :
      ParamListRun isParam created
        (⟨.paramListAdd id, answer⟩ :: trace) list after
  | remove
      {id : Nat}
      {trace : Trace}
      {list after : List Param}
      (later :
        ParamListRun isParam created trace (list.erase (created id)) after) :
      ParamListRun isParam created
        (⟨.paramListRemoveSpecific id, ()⟩ :: trace) list after
  | other
      {step : Step SpacebootAnswer}
      {trace : Trace}
      {list after : List Param}
      (elsewhere : ¬ step.request.IsParamList)
      (later : ParamListRun isParam created trace list after) :
      ParamListRun isParam created (step :: trace) list after

variable {isParam : Nat → Nat → Param → Prop}
variable {created : Nat → Param}
variable {before after : List Param}
variable {trace first second : Trace}

/-- A trace in two parts has a list in between. -/
theorem exists_between
    (effect : ParamListRun isParam created (first ++ second) before after) :
    ∃ middle,
      ParamListRun isParam created first before middle ∧
        ParamListRun isParam created second middle after := by
  induction first generalizing before with
  | nil =>
      exact ⟨before, .done before, effect⟩
  | cons step rest inductionHypothesis =>
      cases effect with
      | find answered later =>
          obtain ⟨middle, early, late⟩ := inductionHypothesis later
          exact ⟨middle, .find answered early, late⟩
      | add later =>
          obtain ⟨middle, early, late⟩ := inductionHypothesis later
          exact ⟨middle, .add early, late⟩
      | refuse refused later =>
          obtain ⟨middle, early, late⟩ := inductionHypothesis later
          exact ⟨middle, .refuse refused early, late⟩
      | remove later =>
          obtain ⟨middle, early, late⟩ := inductionHypothesis later
          exact ⟨middle, .remove early, late⟩
      | other elsewhere later =>
          obtain ⟨middle, early, late⟩ := inductionHypothesis later
          exact ⟨middle, .other elsewhere early, late⟩

/-- Calls about something else leave the list as it is. -/
theorem eq_of_elsewhere
    (elsewhere : ∀ step ∈ trace, ¬ step.request.IsParamList)
    (effect : ParamListRun isParam created trace before after) :
    after = before := by
  induction effect with
  | done list =>
      rfl
  | other _ _ inductionHypothesis =>
      exact inductionHypothesis fun step member =>
        elsewhere step (.tail _ member)
  | _ =>
      exact absurd trivial (elsewhere _ (.head _))

variable {node slot id : Nat}
variable {existed : Bool}

/-- The parameter was found, refused, or added to a list without it. -/
theorem setupBootImg_effect
    (created_isParam : isParam node id (created id))
    (run : Runs (setupBootImg node slot id) trace existed)
    (effect : ParamListRun isParam created trace before after) :
    (existed = true ∧ after = before ∧
        ∀ id, ⟨.paramListAdd id, (0 : Int)⟩ ∉ trace) ∨
      (existed = false ∧ after.erase (created id) = before ∧
        after.length = before.length + 1 ∧
        ⟨.paramListAdd id, (0 : Int)⟩ ∈ trace) := by
  obtain ⟨found, _, rfl, behindFind⟩ := runs_ask_bind_iff.mp run
  cases found with
  | true =>
      obtain ⟨rfl, rfl⟩ := runs_pure_iff.mp behindFind
      cases effect with
      | find _ later =>
          cases later with
          | done =>
              exact .inl ⟨rfl, rfl, by simp⟩
      | other elsewhere _ =>
          exact absurd trivial elsewhere
  | false =>
      obtain ⟨_, _, rfl, behindCreate⟩ := runs_ask_bind_iff.mp behindFind
      obtain ⟨added, rfl, rfl⟩ := runs_ask_return_iff.mp behindCreate
      cases effect with
      | other elsewhere _ =>
          exact absurd trivial elsewhere
      | find answered later =>
          have unknown : created id ∉ before := fun member =>
            Bool.false_ne_true (answered.mpr ⟨_, member, created_isParam⟩)
          cases later with
          | other _ behind =>
              cases behind with
              | other elsewhere _ =>
                  exact absurd trivial elsewhere
              | refuse refused last =>
                  cases last with
                  | done =>
                      exact
                        .inl
                          ⟨by simpa using refused, rfl,
                            by simpa using refused.symm⟩
              | add last =>
                  cases last with
                  | done =>
                      refine .inr ⟨rfl, ?_, ?_, by simp⟩
                      · rw [List.mem_append, not_or] at unknown
                        rw [List.erase_append_right _ unknown.1,
                          List.erase_cons_head]
                      · simp only [List.length_append, List.length_cons]
                        omega

/-- The parameters that were added. -/
def addedParams (ids : List Nat) (existed : List Bool) : List Nat :=
  ((ids.zip existed).filter fun entry => !entry.2).map Prod.fst

/-- No call of `param_list_add` reports that it added something. -/
def Trace.AddsNothing (trace : Trace) : Prop :=
  ∀ id, ⟨.paramListAdd id, (0 : Int)⟩ ∉ trace

/-- Taking the added parameters out gives the list before the set-up. -/
theorem setupBootImgs_effect
    {ids : List Nat}
    {marks : List Bool}
    (created_isParam : ∀ id, isParam node id (created id))
    (run : Runs (setupBootImgs node slot ids) trace marks)
    (effect : ParamListRun isParam created trace before after) :
    after.diff ((addedParams ids marks).map created) = before ∧
      after.length = before.length + (addedParams ids marks).length ∧
        (addedParams ids marks = [] ↔ trace.AddsNothing) := by
  induction ids generalizing slot trace marks before with
  | nil =>
      obtain ⟨rfl, rfl⟩ := runs_pure_iff.mp run
      cases effect with
      | done =>
          exact ⟨rfl, rfl, by simp [addedParams, Trace.AddsNothing]⟩
  | cons id rest inductionHypothesis =>
      obtain ⟨early, mark, late, rfl, sets, behind⟩ := runs_bind_iff.mp run
      obtain ⟨tail, later, done, rfl, setsRest, finish⟩ :=
        runs_bind_iff.mp behind
      obtain ⟨rfl, rfl⟩ := runs_pure_iff.mp finish
      rw [List.append_nil] at effect ⊢
      obtain ⟨middle, first, second⟩ := exists_between effect
      obtain ⟨restored, longer, none_iff⟩ :=
        inductionHypothesis setsRest second
      rcases setupBootImg_effect (created_isParam id) sets first with
        ⟨rfl, rfl, none⟩ | ⟨rfl, erased, length, added⟩
      · have same :
            addedParams (id :: rest) (true :: later) =
              addedParams rest later := rfl
        rw [same, none_iff]
        refine ⟨restored, longer, fun noneLate other member => ?_,
          fun noneAtAll other member =>
            noneAtAll other (List.mem_append_right _ member)⟩
        exact (List.mem_append.mp member).elim (none other) (noneLate other)
      · have one :
            addedParams (id :: rest) (false :: later) =
              id :: addedParams rest later := rfl
        rw [one, List.map_cons, List.diff_cons_right, restored,
          List.length_cons]
        refine ⟨erased, by omega, by simp, fun noneAtAll => ?_⟩
        exact absurd (List.mem_append_left _ added) (noneAtAll id)

/-- The clean-up takes out what is not marked as existing. -/
theorem removeBootImgs_effect
    {ids : List Nat}
    {marks : List Bool}
    (run : Runs (removeBootImgs (ids.zip marks)) trace ())
    (effect : ParamListRun isParam created trace before after) :
    after = before.diff ((addedParams ids marks).map created) := by
  unfold addedParams
  generalize ids.zip marks = entries at run ⊢
  induction entries generalizing trace before with
  | nil =>
      obtain ⟨rfl, _⟩ := runs_pure_iff.mp run
      cases effect with
      | done =>
          rfl
  | cons entry rest inductionHypothesis =>
      obtain ⟨id, mark⟩ := entry
      cases mark with
      | true =>
          exact inductionHypothesis effect run
      | false =>
          obtain ⟨_, _, rfl, behind⟩ := runs_ask_bind_iff.mp run
          cases effect with
          | other elsewhere _ =>
              exact absurd trivial elsewhere
          | remove later =>
              rw [inductionHypothesis later behind]
              simp

end Lists

/-- What is only contacting the node is not about the list. -/
theorem elsewhere_of_contacting
    {trace : Trace}
    (contacts : trace.Only .contacting) :
    ∀ step ∈ trace, ¬ step.request.IsParamList := by
  intro step member isParamList
  have kind := contacts step member
  cases call : step.request with
  | paramListFindId | paramListAdd | paramListRemoveSpecific =>
      rw [call] at kind
      cases kind
  | _ =>
      rw [call] at isParamList
      exact isParamList

/--
`reset_to_flash` leaves the list of parameters as it was, exactly when the slot
number is valid or no parameter had to be added.
-/
theorem resetToFlash_keeps_params_iff
    {Param : Type}
    [DecidableEq Param]
    {isParam : Nat → Nat → Param → Prop}
    {created : Nat → Param}
    {before after : List Param}
    {node times : Nat}
    {flash : Int}
    {trace : Trace}
    (created_isParam : ∀ id, isParam node id (created id))
    (run : Runs (resetToFlash node flash times) trace ())
    (effect : ParamListRun isParam created trace before after) :
    after = before ↔ (0 ≤ flash ∧ flash < 4) ∨ trace.AddsNothing := by
  obtain ⟨setup, marks, sets, ends⟩ := exists_setup_of_resetToFlash run
  rcases ends with
    ⟨invalid, rfl⟩ | ⟨valid, _, removing, pinging, _, rfl, removes, pings⟩
  · obtain ⟨restored, longer, none_iff⟩ :=
      setupBootImgs_effect created_isParam sets effect
    rw [← none_iff, or_iff_right invalid, ← List.length_eq_zero_iff]
    constructor
    · rintro rfl
      omega
    · intro none
      rw [List.length_eq_zero_iff] at none
      rwa [none, List.map_nil, List.diff_nil] at restored
  · obtain ⟨middle, settingUp, later⟩ := exists_between effect
    obtain ⟨restored, _, _⟩ :=
      setupBootImgs_effect created_isParam sets settingUp
    refine iff_of_true ?_ (.inl valid)
    cases later with
    | other _ behindPush =>
        cases behindPush with
        | other _ behindReboot =>
            obtain ⟨cleaned, cleaning, contacting⟩ :=
              exists_between behindReboot
            have contacts : Trace.Only .contacting pinging :=
              onlyKind_ping _ _ _ pings
            rw [eq_of_elsewhere (elsewhere_of_contacting contacts)
              contacting, removeBootImgs_effect removes cleaning]
            exact restored

/-- A node has three of the four parameters, and the first is added. -/
theorem exists_setup_adding
    {rest : Trace}
    {after : List (Nat × Nat)}
    (later :
      ParamListRun (fun node id param => param = (node, id)) (Prod.mk 1) rest
        [(1, 21), (1, 20), (1, 22), (1, 23)] after) :
    ∃ setup,
      Runs (setupBootImgs 1 0 bootParamIds) setup [false, true, true, true] ∧
        ParamListRun (fun node id param => param = (node, id)) (Prod.mk 1)
          (setup ++ rest) [(1, 20), (1, 22), (1, 23)] after := by
  have finds :
      ∀ id, id = 20 ∨ id = 22 ∨ id = 23 →
        (true = true ↔
          ∃ param ∈ [(1, 21), (1, 20), (1, 22), (1, 23)], param = (1, id)) := by
    rintro id (rfl | rfl | rfl) <;> simp
  refine
    ⟨[⟨.paramListFindId 1 21, false⟩,
        ⟨.paramListCreateRemote 21 1 (snprintf 10 "boot_img0".toList), ()⟩,
        ⟨.paramListAdd 21, (0 : Int)⟩, ⟨.paramListFindId 1 20, true⟩,
        ⟨.paramListFindId 1 22, true⟩, ⟨.paramListFindId 1 23, true⟩],
      ?_, ?_⟩
  · exact
      .call _ (.call _ (.call _ (.call _ (.call _ (.call _ (.done _))))))
  · refine .find (by simp) (.other id (@ParamListRun.add _ _ _ _ _ _ [] _ _ ?_))
    exact
      .find (finds 20 (by decide))
        (.find (finds 22 (by decide)) (.find (finds 23 (by decide)) later))

/-- Slot 0 is switched to, and the added parameter is removed. -/
theorem resetToFlash_keeps_three :
    ([(1, 21), (1, 20), (1, 22), (1, 23)] : List (Nat × Nat)).erase (1, 21) =
      [(1, 20), (1, 22), (1, 23)] := by
  have cleaning :
      ParamListRun (fun node id param => param = (node, id)) (Prod.mk 1)
        [⟨.paramPushQueue 1 (bootQueue 0 1), (0 : Int)⟩, ⟨.cspReboot 1, ()⟩,
          ⟨.paramListRemoveSpecific 21, ()⟩, ⟨.cspCmpIdent 1, (0 : Int)⟩]
        [(1, 21), (1, 20), (1, 22), (1, 23)]
        (List.erase [(1, 21), (1, 20), (1, 22), (1, 23)] (1, 21)) :=
    .other id (.other id (.remove (.other id (.done _))))
  obtain ⟨setup, sets, effect⟩ := exists_setup_adding cleaning
  refine
    (resetToFlash_keeps_params_iff (fun _ => rfl)
      (sets.bind ?_ : Runs (resetToFlash 1 0 1) _ ()) effect).mpr
      (.inl (by decide))
  rw [if_neg (by decide)]
  exact .call _ (.call _ (.call _ (.call _ (.done _))))

/-- Slot 4 is refused, and the added parameter stays. -/
theorem resetToFlash_leaves_param :
    ¬ ∀ (node times : Nat) (flash : Int) (trace : Trace)
      (before after : List (Nat × Nat)),
      Runs (resetToFlash node flash times) trace () →
        ParamListRun (fun node id param => param = (node, id)) (Prod.mk node)
          trace before after →
          after = before := by
  intro keeps
  obtain ⟨setup, sets, effect⟩ := exists_setup_adding (.done _)
  have run : Runs (resetToFlash 1 4 1) (setup ++ []) () := by
    refine sets.bind ?_
    rw [if_pos (by decide)]
    exact .done _
  have same := keeps 1 1 4 _ _ _ run effect
  cases same

end Csh.Spaceboot
