import Csh.HkParamSniffer
import Csh.Lib.History
import Csh.Lib.KeyedList
import Mathlib.Data.List.Pairwise

namespace Csh.HkParamSniffer

open History KeyedList

/-!
# The tables of housekeeping over runs

Both tables are bounded maps: a node has one entry, whose value is changed in
place, and a new node is put at the end while there is room.  A run ends where
an epoch is printed that `gmtime` cannot represent.
-/

/-- The entry with another epoch. -/
def LocalEpoch.withEpoch (epoch : Int) (entry : LocalEpoch) : LocalEpoch :=
  { entry with epoch := epoch }

/-- The entry with another parameter. -/
def TimesyncNode.withParamid (paramid : Nat) (entry : TimesyncNode) :
    TimesyncNode :=
  { entry with paramid := paramid }

/-- A call from outside; a node is one of 16 bits. -/
inductive HkCall where
  | setEpoch (now epoch : Int) (node : UInt16) (autoSync : Bool)
  | setUtcparam (node : UInt16) (paramid : Nat)
  | getEpoch (node : UInt16)
  deriving DecidableEq

/-- What a call makes of the tables, unless csh crashes in it. -/
def HkCall.run (call : HkCall) (tables : HkTables) : Option HkTables :=
  match call with
  | .setEpoch now epoch node autoSync =>
      (hkSetEpoch now epoch node.toNat autoSync tables.hks).map fun hks =>
        { tables with hks := hks }
  | .setUtcparam node paramid =>
      some
        { tables with
          timesyncNodes :=
            hkSetUtcparam node.toNat paramid tables.timesyncNodes }
  | .getEpoch _ => some tables

/-- An epoch that is given is one that `gmtime` represents. -/
def HkCall.Printable : HkCall → Prop
  | .setEpoch _ epoch _ _ => Representable epoch
  | .setUtcparam _ _ => True
  | .getEpoch _ => True

instance : (call : HkCall) → Decidable call.Printable
  | .setEpoch _ epoch _ _ => inferInstanceAs (Decidable (Representable epoch))
  | .setUtcparam _ _ => inferInstanceAs (Decidable True)
  | .getEpoch _ => inferInstanceAs (Decidable True)

/-- The reading of the clock, which only `hk_set_epoch` takes. -/
def HkCall.reading? : HkCall → Option Int
  | .setEpoch now _ _ _ => some now
  | .setUtcparam _ _ => none
  | .getEpoch _ => none

/-- The readings of the clock, in their order. -/
def readings (calls : List HkCall) : List Int :=
  calls.filterMap HkCall.reading?

/-- The tables behind calls, from some tables, unless csh crashes. -/
def runFrom (tables : HkTables) (calls : List HkCall) : Option HkTables :=
  calls.foldlM (fun tables call => call.run tables) tables

/-- The tables behind calls, from empty ones. -/
def runCalls (calls : List HkCall) : Option HkTables :=
  runFrom ⟨[], []⟩ calls

/-- A call with the tables that it finds. -/
structure HkStep where
  tables : HkTables
  call : HkCall

/-- The steps of calls, from some tables. -/
def hkSteps : HkTables → List HkCall → List HkStep
  | _, [] => []
  | tables, call :: rest =>
      ⟨tables, call⟩ ::
        match call.run tables with
        | none => []
        | some next => hkSteps next rest

/--
The epoch is illegal, an automatic one lies more than a day before the one that
is stored, or the node is new and the table is full.
-/
inductive Rejected
    (now epoch : Int)
    (node : Nat)
    (autoSync : Bool)
    (hks : List LocalEpoch) :
    Prop where
  | future (later : now < epoch)
  | ancient (early : epoch < year2020)
  | backwards
      {current : Int}
      (stored : hkGetEpoch hks node = some current)
      (auto : autoSync = true)
      (far : 86400 < current - epoch)
  | full
      (isNew : hkGetEpoch hks node = none)
      (noRoom : maxHks ≤ hks.length)

/-- The call sets the epoch of the node, and is not rejected. -/
def HkStep.Accepts (node : Nat) (epoch : Int) (step : HkStep) : Prop :=
  ∃ (now : Int) (raw : UInt16) (autoSync : Bool),
    step.call = .setEpoch now epoch raw autoSync ∧ raw.toNat = node ∧
      ¬ Rejected now epoch node autoSync step.tables.hks

/-- The last accepted call for the node had this epoch. -/
def LastAccepted (node : Nat) (epoch : Int) (steps : List HkStep) : Prop :=
  ∃ step : HkStep,
    step.Accepts node epoch ∧
      LastOf (fun later => ∃ other, later.Accepts node other) step steps

/-- What holds of the tables behind calls. -/
structure KeepsTables (calls : List HkCall) (tables : HkTables) : Prop where
  hks_fits : tables.hks.length ≤ maxHks
  hks_distinct : Distinct LocalEpoch.node tables.hks
  timesync_fits : tables.timesyncNodes.length ≤ maxHks
  timesync_distinct : Distinct TimesyncNode.node tables.timesyncNodes
  in_range :
    ∀ entry ∈ tables.hks,
      year2020 ≤ entry.epoch ∧
        ∃ latest ∈ (readings calls).getLast?, entry.epoch ≤ latest
  hks_updates :
    ∀ (now epoch : Int) (node : UInt16) (autoSync : Bool) (current : Int),
      hkGetEpoch tables.hks node.toNat = some current →
        Representable epoch → epoch ≤ now → year2020 ≤ epoch →
          (autoSync = true → current - epoch ≤ 86400) →
            ∃ next,
              (HkCall.setEpoch now epoch node autoSync).run tables =
                  some next ∧
                hkGetEpoch next.hks node.toNat = some epoch
  timesync_updates :
    ∀ (node : UInt16) (paramid : Nat),
      node.toNat ∈ tables.timesyncNodes.map TimesyncNode.node →
        ∃ next,
          (HkCall.setUtcparam node paramid).run tables = some next ∧
            ⟨node.toNat, paramid % 65536⟩ ∈ next.timesyncNodes
  last_accepted :
    ∀ (node : UInt16) (epoch : Int),
      hkGetEpoch tables.hks node.toNat = some epoch ↔
        LastAccepted node.toNat epoch (hkSteps ⟨[], []⟩ calls)

/-- All calls return, and leave tables as they should be. -/
def ReturnsKeeping (calls : List HkCall) : Prop :=
  ∃ tables, runCalls calls = some tables ∧ KeepsTables calls tables

section Tables

variable {now epoch : Int}
variable {node other : Nat}
variable {autoSync : Bool}
variable {hks : List LocalEpoch}

theorem hkGetEpoch_eq_lookup :
    hkGetEpoch hks node =
      (lookup LocalEpoch.node node hks).map LocalEpoch.epoch :=
  rfl

/-- A call is rejected when a check of `hk_set_epoch` fails. -/
theorem rejected_iff :
    Rejected now epoch node autoSync hks ↔
      ¬ AcceptsEpoch now epoch node autoSync hks := by
  rw [AcceptsEpoch]
  constructor
  · rintro (later | early | ⟨stored, auto, far⟩ | ⟨isNew, noRoom⟩)
      ⟨past, recent, room⟩
    · omega
    · omega
    · rw [stored] at room
      have near := room auto
      omega
    · rw [isNew] at room
      exact Nat.not_le.mpr room noRoom
  · intro refused
    by_cases later : now < epoch
    · exact .future later
    by_cases early : epoch < year2020
    · exact .ancient early
    cases stored : hkGetEpoch hks node with
    | none =>
        rw [stored] at refused
        refine .full stored (Nat.le_of_not_lt fun room => ?_)
        exact refused ⟨by omega, by omega, room⟩
    | some current =>
        rw [stored] at refused
        have far : ¬ (autoSync = true → current - epoch ≤ 86400) :=
          fun near => refused ⟨by omega, by omega, near⟩
        rw [Classical.not_imp] at far
        exact .backwards stored far.1 (by omega)

theorem updateEpoch_eq_update :
    updateEpoch epoch node hks =
      update LocalEpoch.node node (LocalEpoch.withEpoch epoch) hks := by
  induction hks with
  | nil =>
      rfl
  | cons entry rest inductionHypothesis =>
      rw [updateEpoch, update, inductionHypothesis]
      rfl

/-- An accepted epoch is put into the bounded table. -/
theorem hkSetEpoch_eq_boundedPut
    {next : List LocalEpoch}
    (accepted : AcceptsEpoch now epoch node autoSync hks)
    (returned : hkSetEpoch now epoch node autoSync hks = some next) :
    next =
      boundedPut LocalEpoch.node maxHks node (LocalEpoch.withEpoch epoch)
        ⟨node, epoch⟩ hks := by
  rw [hkSetEpoch_eq_of_accepted accepted returned, boundedPut,
    updateEpoch_eq_update, hkGetEpoch_eq_lookup, Option.isSome_map]
  split
  · rfl
  · rename_i isNew
    obtain ⟨_, _, room⟩ := accepted
    rw [hkGetEpoch_eq_lookup,
      Option.map_eq_none_iff.mpr (Option.not_isSome_iff_eq_none.mp isNew)]
      at room
    exact (if_neg (Nat.not_le.mpr room)).symm

/-- With epochs that can be printed, nothing crashes. -/
theorem exists_hkSetEpoch
    (printable : Representable epoch)
    (stored : ∀ entry ∈ hks, Representable entry.epoch) :
    ∃ next, hkSetEpoch now epoch node autoSync hks = some next := by
  have one : ∀ time ∈ [epoch], Representable time := by
    simpa using printable
  rw [hkSetEpoch]
  split
  · exact ⟨_, if_pos one⟩
  cases found : hkGetEpoch hks node with
  | some current =>
      dsimp only
      rw [hkGetEpoch_eq_lookup, Option.map_eq_some_iff] at found
      obtain ⟨entry, isEntry, rfl⟩ := found
      split
      · refine ⟨_, if_pos ?_⟩
        simpa using ⟨printable, stored entry (mem_of_lookup isEntry)⟩
      split
      · exact ⟨_, if_pos one⟩
      · exact ⟨_, rfl⟩
  | none =>
      dsimp only
      split
      · exact ⟨_, rfl⟩
      · exact ⟨_, if_pos one⟩

/-- While the clock can be printed, an epoch that cannot is a crash. -/
theorem hkSetEpoch_of_not_representable
    (clock : now < gmtimeEnd)
    (broken : ¬ Representable epoch) :
    hkSetEpoch now epoch node autoSync hks = none := by
  have illegal : epoch > now ∨ epoch < year2020 := by
    have early : gmtimeStart ≤ year2020 := by
      decide
    unfold Representable at broken
    omega
  rw [hkSetEpoch, if_pos illegal]
  exact if_neg fun fits => broken (fits epoch (List.mem_singleton_self _))

theorem updateParamid_eq_update
    {paramid : Nat}
    {timesyncNodes : List TimesyncNode}
    (small : node < 65536) :
    updateParamid node paramid timesyncNodes =
      update TimesyncNode.node node
        (TimesyncNode.withParamid (paramid % 65536)) timesyncNodes := by
  induction timesyncNodes with
  | nil =>
      rfl
  | cons entry rest inductionHypothesis =>
      rw [updateParamid, update, inductionHypothesis]
      split
      · rename_i same
        rw [Nat.mod_eq_of_lt small, ← same]
        rfl
      · rfl

/-- A parameter is put into the bounded table. -/
theorem hkSetUtcparam_eq
    {paramid : Nat}
    {timesyncNodes : List TimesyncNode}
    (small : node < 65536) :
    hkSetUtcparam node paramid timesyncNodes =
      boundedPut TimesyncNode.node maxHks node
        (TimesyncNode.withParamid (paramid % 65536))
        ⟨node, paramid % 65536⟩ timesyncNodes := by
  have known :
      (timesyncNodes.any fun entry => entry.node == node) =
        (lookup TimesyncNode.node node timesyncNodes).isSome :=
    List.isSome_find?.symm
  rw [hkSetUtcparam, boundedPut, updateParamid_eq_update small, known,
    Nat.mod_eq_of_lt small]

end Tables

section Runs

variable {calls : List HkCall}
variable {call : HkCall}
variable {tables : HkTables}
variable {step : HkStep}
variable {node : Nat}
variable {epoch : Int}

theorem runFrom_concat :
    runFrom tables (calls ++ [call]) = (runFrom tables calls).bind call.run := by
  rw [runFrom, List.foldlM_append]
  simp only [List.foldlM_cons, List.foldlM_nil, bind_pure]
  rfl

/-- The last call of a run that comes through. -/
theorem runCalls_concat_eq_some_iff :
    runCalls (calls ++ [call]) = some tables ↔
      ∃ earlier, runCalls calls = some earlier ∧
        call.run earlier = some tables := by
  rw [runCalls, runFrom_concat, Option.bind_eq_some_iff]
  rfl

theorem hkSteps_concat
    {next : HkTables}
    (returned : runFrom tables calls = some next) :
    hkSteps tables (calls ++ [call]) =
      hkSteps tables calls ++ [⟨next, call⟩] := by
  induction calls generalizing tables with
  | nil =>
      obtain rfl := Option.some.inj returned
      rw [List.nil_append, hkSteps, hkSteps]
      cases call.run tables with
      | none =>
          rfl
      | some _ =>
          rfl
  | cons first rest inductionHypothesis =>
      rw [runFrom, List.foldlM_cons] at returned
      obtain ⟨behind, isBehind, later⟩ := Option.bind_eq_some_iff.mp returned
      rw [List.cons_append, hkSteps, hkSteps, isBehind]
      exact congrArg (_ :: ·) (inductionHypothesis later)

theorem readings_concat :
    readings (calls ++ [call]) = readings calls ++ call.reading?.toList := by
  rw [readings, List.filterMap_append]
  cases call with
  | _ =>
      rfl

/-- The sizes and the distinct nodes of both tables. -/
structure Sound (tables : HkTables) : Prop where
  hks_fits : tables.hks.length ≤ maxHks
  hks_distinct : Distinct LocalEpoch.node tables.hks
  timesync_fits : tables.timesyncNodes.length ≤ maxHks
  timesync_distinct : Distinct TimesyncNode.node tables.timesyncNodes

/-- All that a call does that returns. -/
theorem HkCall.run_cases
    {next : HkTables}
    (returned : call.run tables = some next) :
    (∃ (now epoch : Int) (raw : UInt16) (autoSync : Bool),
        call = .setEpoch now epoch raw autoSync ∧
          AcceptsEpoch now epoch raw.toNat autoSync tables.hks ∧
          next =
            { tables with
              hks :=
                boundedPut LocalEpoch.node maxHks raw.toNat
                  (LocalEpoch.withEpoch epoch) ⟨raw.toNat, epoch⟩
                  tables.hks }) ∨
      (∃ (raw : UInt16) (paramid : Nat),
        call = .setUtcparam raw paramid ∧
          next =
            { tables with
              timesyncNodes :=
                boundedPut TimesyncNode.node maxHks raw.toNat
                  (TimesyncNode.withParamid (paramid % 65536))
                  ⟨raw.toNat, paramid % 65536⟩ tables.timesyncNodes }) ∨
      next = tables ∧
        ∀ node epoch, ¬ HkStep.Accepts node epoch ⟨tables, call⟩ := by
  cases call with
  | setEpoch now epoch raw autoSync =>
      obtain ⟨hks, isHks, rfl⟩ := Option.map_eq_some_iff.mp returned
      by_cases accepted :
          AcceptsEpoch now epoch raw.toNat autoSync tables.hks
      · obtain rfl := hkSetEpoch_eq_boundedPut accepted isHks
        exact .inl ⟨now, epoch, raw, autoSync, rfl, accepted, rfl⟩
      · obtain rfl := hkSetEpoch_of_rejected accepted isHks
        refine .inr (.inr ⟨rfl, ?_⟩)
        rintro node other ⟨_, _, _, ⟨⟩, rfl, notRejected⟩
        exact notRejected (rejected_iff.mpr accepted)
  | setUtcparam raw paramid =>
      obtain rfl := Option.some.inj returned
      rw [hkSetUtcparam_eq raw.toNat_lt]
      exact .inr (.inl ⟨raw, paramid, rfl, rfl⟩)
  | getEpoch raw =>
      obtain rfl := Option.some.inj returned
      refine .inr (.inr ⟨rfl, ?_⟩)
      rintro node epoch ⟨_, _, _, ⟨⟩, _⟩

/-- No call exceeds the capacity or doubles a node. -/
theorem Sound.run
    {next : HkTables}
    (sound : Sound tables)
    (returned : call.run tables = some next) :
    Sound next := by
  obtain ⟨hksFit, hksDistinct, timesyncFit, timesyncDistinct⟩ := sound
  rcases HkCall.run_cases returned with
    ⟨now, epoch, raw, autoSync, rfl, _, rfl⟩ | ⟨raw, paramid, rfl, rfl⟩ |
    ⟨rfl, _⟩
  · exact
      ⟨length_boundedPut_le (fun _ => rfl) hksFit,
        distinct_boundedPut (fun _ => rfl) rfl hksDistinct,
        timesyncFit, timesyncDistinct⟩
  · exact
      ⟨hksFit, hksDistinct,
        length_boundedPut_le (fun _ => rfl) timesyncFit,
        distinct_boundedPut (fun _ => rfl) rfl timesyncDistinct⟩
  · exact ⟨hksFit, hksDistinct, timesyncFit, timesyncDistinct⟩

theorem sound_runCalls
    (returned : runCalls calls = some tables) :
    Sound tables := by
  induction calls using List.reverseRecOn generalizing tables with
  | nil =>
      obtain rfl := Option.some.inj returned
      exact ⟨Nat.zero_le _, List.nodup_nil, Nat.zero_le _, List.nodup_nil⟩
  | append_singleton earlier call inductionHypothesis =>
      obtain ⟨before, isBefore, isNext⟩ :=
        runCalls_concat_eq_some_iff.mp returned
      exact (inductionHypothesis isBefore).run isNext

/-- An epoch of the table is old, or the one that is just being set. -/
theorem epoch_of_mem_run
    {next : HkTables}
    {entry : LocalEpoch}
    (returned : call.run tables = some next)
    (member : entry ∈ next.hks) :
    (∃ old ∈ tables.hks, entry.epoch = old.epoch) ∨
      ∃ (now : Int) (raw : UInt16) (autoSync : Bool),
        call = .setEpoch now entry.epoch raw autoSync ∧
          entry.epoch ≤ now ∧ year2020 ≤ entry.epoch := by
  rcases HkCall.run_cases returned with
    ⟨now, epoch, raw, autoSync, rfl, accepted, rfl⟩ |
    ⟨raw, paramid, rfl, rfl⟩ | ⟨rfl, _⟩
  · rcases mem_of_mem_boundedPut member with kept | ⟨old, _, rfl⟩ | rfl
    · exact .inl ⟨entry, kept, rfl⟩
    · exact .inr ⟨now, raw, autoSync, rfl, accepted.1, accepted.2.1⟩
    · exact .inr ⟨now, raw, autoSync, rfl, accepted.1, accepted.2.1⟩
  · exact .inl ⟨entry, member, rfl⟩
  · exact .inl ⟨entry, member, rfl⟩

/-- The stored epochs can be printed if those given can. -/
theorem representable_of_mem
    {entry : LocalEpoch}
    (printable : ∀ call ∈ calls, call.Printable)
    (returned : runCalls calls = some tables)
    (member : entry ∈ tables.hks) :
    Representable entry.epoch := by
  induction calls using List.reverseRecOn generalizing tables entry with
  | nil =>
      obtain rfl := Option.some.inj returned
      exact absurd member List.not_mem_nil
  | append_singleton earlier call inductionHypothesis =>
      obtain ⟨before, isBefore, isNext⟩ :=
        runCalls_concat_eq_some_iff.mp returned
      rcases epoch_of_mem_run isNext member with
        ⟨old, isOld, same⟩ | ⟨now, raw, autoSync, rfl, _⟩
      · rw [same]
        exact
          inductionHypothesis
            (fun call isCall => printable call (List.mem_append_left _ isCall))
            isBefore isOld
      · exact printable _ (List.mem_append_right _ (List.mem_singleton_self _))

/-- A call with an epoch that can be printed returns. -/
theorem HkCall.exists_run
    (printable : call.Printable)
    (stored : ∀ entry ∈ tables.hks, Representable entry.epoch) :
    ∃ next, call.run tables = some next := by
  cases call with
  | setEpoch now epoch raw autoSync =>
      obtain ⟨hks, returned⟩ := exists_hkSetEpoch printable stored
      exact ⟨_, by rw [HkCall.run, returned]; rfl⟩
  | setUtcparam raw paramid =>
      exact ⟨_, rfl⟩
  | getEpoch raw =>
      exact ⟨_, rfl⟩

/-- Calls with epochs that can be printed all return. -/
theorem exists_runCalls
    (printable : ∀ call ∈ calls, call.Printable) :
    ∃ tables, runCalls calls = some tables := by
  induction calls using List.reverseRecOn with
  | nil =>
      exact ⟨_, rfl⟩
  | append_singleton earlier call inductionHypothesis =>
      have before : ∀ call ∈ earlier, call.Printable := fun call isCall =>
        printable call (List.mem_append_left _ isCall)
      obtain ⟨tables, returned⟩ := inductionHypothesis before
      have last : call.Printable :=
        printable call (List.mem_append_right _ (List.mem_singleton_self _))
      obtain ⟨next, isNext⟩ :=
        HkCall.exists_run last fun _ => representable_of_mem before returned
      exact
        ⟨next, runCalls_concat_eq_some_iff.mpr ⟨tables, returned, isNext⟩⟩

/-- While the clock can be printed, calls that return have such epochs. -/
theorem printable_of_runFrom
    (clock : ∀ now ∈ readings calls, now < gmtimeEnd)
    {next : HkTables}
    (returned : runFrom tables calls = some next) :
    ∀ call ∈ calls, call.Printable := by
  induction calls generalizing tables with
  | nil =>
      simp
  | cons first rest inductionHypothesis =>
      rw [runFrom, List.foldlM_cons] at returned
      obtain ⟨behind, isBehind, later⟩ := Option.bind_eq_some_iff.mp returned
      refine List.forall_mem_cons.mpr
        ⟨?_, inductionHypothesis (fun now member => ?_) later⟩
      · cases first with
        | setEpoch now epoch raw autoSync =>
            by_contra broken
            rw [HkCall.run, hkSetEpoch_of_not_representable
              (clock now (by simp [readings, HkCall.reading?])) broken]
              at isBehind
            cases isBehind
        | setUtcparam raw paramid =>
            trivial
        | getEpoch raw =>
            trivial
      · refine clock now ?_
        rw [readings, List.filterMap_cons]
        split
        · exact member
        · exact List.mem_cons_of_mem _ member

/-- The epochs lie between 2020 and the latest reading of the clock. -/
theorem in_range
    (ordered : (readings calls).Pairwise (· ≤ ·))
    (returned : runCalls calls = some tables)
    {entry : LocalEpoch}
    (member : entry ∈ tables.hks) :
    year2020 ≤ entry.epoch ∧
      ∃ latest ∈ (readings calls).getLast?, entry.epoch ≤ latest := by
  induction calls using List.reverseRecOn generalizing tables entry with
  | nil =>
      obtain rfl := Option.some.inj returned
      exact absurd member List.not_mem_nil
  | append_singleton earlier call inductionHypothesis =>
      rw [readings_concat] at ordered ⊢
      have before := (List.pairwise_append.mp ordered).1
      obtain ⟨found, isFound, isNext⟩ :=
        runCalls_concat_eq_some_iff.mp returned
      rcases epoch_of_mem_run isNext member with
        ⟨old, isOld, same⟩ | ⟨now, raw, autoSync, rfl, past, recent⟩
      · obtain ⟨recent, latest, isLatest, past⟩ :=
          inductionHypothesis before isFound isOld
        rw [← same] at recent past
        refine ⟨recent, ?_⟩
        cases reading : call.reading? with
        | none =>
            rw [Option.toList_none, List.append_nil]
            exact ⟨latest, isLatest, past⟩
        | some now =>
            rw [reading] at ordered
            have later :=
              (List.pairwise_append.mp ordered).2.2 latest
                (List.mem_of_getLast? isLatest) now (by simp)
            exact ⟨now, by simp, le_trans past later⟩
      · exact ⟨recent, now, by simp [HkCall.reading?], past⟩

theorem HkStep.Accepts.unique
    {other : Int}
    (accepts : step.Accepts node epoch)
    (another : step.Accepts node other) :
    epoch = other := by
  obtain ⟨now, raw, autoSync, isCall, _⟩ := accepts
  obtain ⟨later, otherRaw, otherSync, isOther, _⟩ := another
  rw [isCall] at isOther
  cases isOther
  rfl

/-- An accepted call sets the epoch of its node. -/
theorem hkGetEpoch_run_of_accepts
    {next : HkTables}
    (accepts : HkStep.Accepts node epoch ⟨tables, call⟩)
    (returned : call.run tables = some next) :
    hkGetEpoch next.hks node = some epoch := by
  obtain ⟨now, raw, autoSync, rfl, rfl, notRejected⟩ := accepts
  rw [rejected_iff, not_not] at notRejected
  obtain ⟨hks, isHks, rfl⟩ := Option.map_eq_some_iff.mp returned
  exact hkGetEpoch_of_accepted notRejected isHks

/-- Any other call leaves the epoch of the node as it is. -/
theorem hkGetEpoch_run_of_not_accepts
    {next : HkTables}
    (noneAccepted : ∀ epoch, ¬ HkStep.Accepts node epoch ⟨tables, call⟩)
    (returned : call.run tables = some next) :
    hkGetEpoch next.hks node = hkGetEpoch tables.hks node := by
  rcases HkCall.run_cases returned with
    ⟨now, epoch, raw, autoSync, rfl, accepted, rfl⟩ |
    ⟨raw, paramid, rfl, rfl⟩ | ⟨rfl, _⟩
  · have different : node ≠ raw.toNat := by
      rintro rfl
      refine noneAccepted epoch ⟨now, raw, autoSync, rfl, rfl, ?_⟩
      rwa [rejected_iff, not_not]
    exact
      congrArg (Option.map LocalEpoch.epoch)
        (lookup_boundedPut_other (fun _ => rfl) rfl different)
  · rfl
  · rfl

/-- The epoch of a node is that of the last accepted call for it. -/
theorem hkGetEpoch_eq_some_iff
    (returned : runCalls calls = some tables) :
    hkGetEpoch tables.hks node = some epoch ↔
      LastAccepted node epoch (hkSteps ⟨[], []⟩ calls) := by
  induction calls using List.reverseRecOn generalizing tables with
  | nil =>
      obtain rfl := Option.some.inj returned
      refine iff_of_false (by simp [hkGetEpoch]) ?_
      rintro ⟨step, _, isLast⟩
      exact not_lastOf_nil isLast
  | append_singleton earlier call inductionHypothesis =>
      obtain ⟨found, isFound, isNext⟩ :=
        runCalls_concat_eq_some_iff.mp returned
      rw [hkSteps_concat isFound, LastAccepted]
      simp only [lastOf_append_singleton_iff]
      by_cases accepts : ∃ other, HkStep.Accepts node other ⟨found, call⟩
      · obtain ⟨other, accepted⟩ := accepts
        rw [hkGetEpoch_run_of_accepts accepted isNext, Option.some.injEq]
        constructor
        · rintro rfl
          exact ⟨_, accepted, .inl rfl⟩
        · rintro ⟨step, another, rfl | ⟨none, _⟩⟩
          · exact accepted.unique another
          · exact absurd ⟨other, accepted⟩ none
      · rw [hkGetEpoch_run_of_not_accepts
          (fun other accepted => accepts ⟨other, accepted⟩) isNext,
          inductionHypothesis isFound, LastAccepted]
        constructor
        · rintro ⟨step, accepted, isLast⟩
          exact ⟨step, accepted, .inr ⟨accepts, isLast⟩⟩
        · rintro ⟨step, accepted, rfl | ⟨_, isLast⟩⟩
          · exact absurd ⟨epoch, accepted⟩ accepts
          · exact ⟨step, accepted, isLast⟩

/-- An epoch that can be printed is taken for a node that is held. -/
theorem hks_updates
    {now current : Int}
    {raw : UInt16}
    {autoSync : Bool}
    (stored : ∀ entry ∈ tables.hks, Representable entry.epoch)
    (held : hkGetEpoch tables.hks raw.toNat = some current)
    (printable : Representable epoch)
    (past : epoch ≤ now)
    (recent : year2020 ≤ epoch)
    (near : autoSync = true → current - epoch ≤ 86400) :
    ∃ next,
      (HkCall.setEpoch now epoch raw autoSync).run tables = some next ∧
        hkGetEpoch next.hks raw.toNat = some epoch := by
  have accepts :
      HkStep.Accepts raw.toNat epoch
        ⟨tables, .setEpoch now epoch raw autoSync⟩ := by
    refine ⟨now, raw, autoSync, rfl, rfl, ?_⟩
    rw [rejected_iff, not_not, AcceptsEpoch, held]
    exact ⟨past, recent, near⟩
  obtain ⟨next, returned⟩ :=
    @HkCall.exists_run (.setEpoch now epoch raw autoSync) tables printable
      stored
  exact ⟨next, returned, hkGetEpoch_run_of_accepts accepts returned⟩

/-- A parameter is taken for a node that is held. -/
theorem timesync_updates
    {raw : UInt16}
    {paramid : Nat}
    (held : raw.toNat ∈ tables.timesyncNodes.map TimesyncNode.node) :
    ⟨raw.toNat, paramid % 65536⟩ ∈
      hkSetUtcparam raw.toNat paramid tables.timesyncNodes := by
  obtain ⟨entry, found⟩ :
      ∃ entry,
        lookup TimesyncNode.node raw.toNat tables.timesyncNodes =
          some entry := by
    rw [← Option.isSome_iff_exists, ← Option.ne_none_iff_isSome]
    exact fun missing => lookup_eq_none_iff.mp missing held
  have changed :=
    @lookup_boundedPut_same _ _ _ TimesyncNode.node maxHks raw.toNat
      (TimesyncNode.withParamid (paramid % 65536))
      ⟨raw.toNat, paramid % 65536⟩ entry tables.timesyncNodes (fun _ => rfl)
      found
  have isNode := key_of_lookup found
  have member := mem_of_lookup changed
  rw [TimesyncNode.withParamid, isNode] at member
  rwa [hkSetUtcparam_eq raw.toNat_lt]

end Runs

/--
With a clock that does not go back, calls with epochs that `gmtime` represents
return: both tables are bounded maps, the epochs are in range, held nodes can
be updated, and `hk_get_epoch` gives the epoch of the last call that was
accepted.  While the clock itself shows such times, no other calls all return.
-/
theorem runCalls_keepsTables
    {calls : List HkCall}
    (ordered : (readings calls).Pairwise (· ≤ ·)) :
    ((∀ call ∈ calls, call.Printable) → ReturnsKeeping calls) ∧
      ((∀ now ∈ readings calls, now < gmtimeEnd) →
        ReturnsKeeping calls → ∀ call ∈ calls, call.Printable) := by
  constructor
  · intro printable
    obtain ⟨tables, returned⟩ := exists_runCalls printable
    obtain ⟨hksFit, hksDistinct, timesyncFit, timesyncDistinct⟩ :=
      sound_runCalls returned
    have stored : ∀ entry ∈ tables.hks, Representable entry.epoch :=
      fun _ => representable_of_mem printable returned
    exact
      ⟨tables, returned, hksFit, hksDistinct, timesyncFit, timesyncDistinct,
        fun _ => in_range ordered returned,
        fun _ _ _ _ _ => hks_updates stored,
        fun _ _ held => ⟨_, rfl, timesync_updates held⟩,
        fun _ _ => hkGetEpoch_eq_some_iff returned⟩
  · rintro clock ⟨tables, returned, _⟩
    exact printable_of_runFrom clock returned

/-- A manual epoch, and automatic ones a day and two days before it. -/
theorem runCalls_keepsTables_of_three :
    ReturnsKeeping
      [.setEpoch 1700000000 1600086400 4 false,
        .setEpoch 1700000001 1600000000 4 true,
        .setEpoch 1700000002 1599900000 4 true] :=
  (runCalls_keepsTables (by decide)).1 (by decide)

/-- An epoch that `gmtime` cannot represent is printed as illegal: a crash. -/
theorem runCalls_crashes :
    ¬ ∀ calls : List HkCall,
      (readings calls).Pairwise (· ≤ ·) → ReturnsKeeping calls := by
  intro keeps
  obtain ⟨_, returned, _⟩ :=
    keeps [.setEpoch 1700000000 67768036191676800 4 true] (by decide)
  cases returned

end Csh.HkParamSniffer
