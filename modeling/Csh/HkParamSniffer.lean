import Mathlib.Algebra.Order.Ring.Int

namespace Csh.HkParamSniffer

/-!
# Epochs of housekeeping telemetry

`hk_param_sniffer` turns timestamps that count from an epoch of the sender into
times since 1970.  The epochs are kept in a table, which the command
`hk timeoffset` and samples of a parameter with the time set; the parameters
with the time are kept in another table, which `hk utcparam` sets.  An epoch
that is printed is read through what `gmtime` returns for it.
-/

/-- `MAX_HKS`, the size of both tables. -/
def maxHks : Nat :=
  16

/-- January 1st 2020. -/
def year2020 : Int :=
  1577836800

/-- An entry of `hks`. -/
structure LocalEpoch where
  node : Nat
  epoch : Int
  deriving Repr, DecidableEq

/-- An entry of `timesync_nodes`. -/
structure TimesyncNode where
  node : Nat
  paramid : Nat
  deriving Repr, DecidableEq

/-- Both tables, in the order of their entries. -/
structure HkTables where
  hks : List LocalEpoch
  timesyncNodes : List TimesyncNode
  deriving Repr, DecidableEq

/-- `hk_get_epoch`. -/
def hkGetEpoch (hks : List LocalEpoch) (node : Nat) : Option Int :=
  (hks.find? fun entry => entry.node == node).map LocalEpoch.epoch

/-- Change the first entry of a node. -/
def updateEpoch
    (epoch : Int)
    (node : Nat) :
    List LocalEpoch → List LocalEpoch
  | [] => []
  | entry :: rest =>
      if entry.node = node then
        { entry with epoch := epoch } :: rest
      else
        entry :: updateEpoch epoch node rest

/-- The first second of the year -2147481748, for `tm_year` the least `int`. -/
def gmtimeStart : Int :=
  -67768040609740800

/-- The first second of the year 2147485548, which `tm_year` cannot hold. -/
def gmtimeEnd : Int :=
  67768036191676800

/-- The times that `gmtime` represents. -/
def Representable (time : Int) : Prop :=
  gmtimeStart ≤ time ∧ time < gmtimeEnd

instance (time : Int) : Decidable (Representable time) :=
  inferInstanceAs (Decidable (gmtimeStart ≤ time ∧ time < gmtimeEnd))

/--
The table behind `strftime` with `gmtime` of these times.  For any other time
`gmtime` is NULL, and csh crashes.
-/
def printing (times : List Int) (hks : List LocalEpoch) :
    Option (List LocalEpoch) :=
  if ∀ time ∈ times, Representable time then
    some hks
  else
    none

/-- `hk_set_epoch`, with the time that the clock shows; `none` is a crash. -/
def hkSetEpoch
    (now epoch : Int)
    (node : Nat)
    (autoSync : Bool)
    (hks : List LocalEpoch) :
    Option (List LocalEpoch) :=
  if epoch > now ∨ epoch < year2020 then
    printing [epoch] hks
  else
    match hkGetEpoch hks node with
    | some current =>
        if autoSync ∧ current - epoch > 86400 then
          printing [epoch, current] hks
        else if (current - epoch).natAbs > 1 ∨ ¬ autoSync then
          printing [epoch] (updateEpoch epoch node hks)
        else
          some (updateEpoch epoch node hks)
    | none =>
        if hks.length ≥ maxHks then
          some hks
        else
          printing [epoch] (hks ++ [⟨node, epoch⟩])

/-- Change the first parameter of a node. -/
def updateParamid
    (node paramid : Nat) :
    List TimesyncNode → List TimesyncNode
  | [] => []
  | entry :: rest =>
      if entry.node = node then
        ⟨node % 65536, paramid % 65536⟩ :: rest
      else
        entry :: updateParamid node paramid rest

/-- `hk_set_utcparam`; node and parameter are stored in 16 bits each. -/
def hkSetUtcparam
    (node paramid : Nat)
    (timesyncNodes : List TimesyncNode) :
    List TimesyncNode :=
  if timesyncNodes.any fun entry => entry.node == node then
    updateParamid node paramid timesyncNodes
  else if timesyncNodes.length ≥ maxHks then
    timesyncNodes
  else
    timesyncNodes ++ [⟨node % 65536, paramid % 65536⟩]

/-- `hk_timeoffset` with the value of its argument, 0 where there is none. -/
def hkTimeoffset
    (now : Int)
    (node : Nat)
    (timeOffset : Int)
    (hks : List LocalEpoch) :
    Option (List LocalEpoch) :=
  if timeOffset > 0 then
    hkSetEpoch now timeOffset (node % 65536) false hks
  else
    some hks

/--
What the decoder reads of one sample: node, parameter and timestamp, and the
integer of the value behind them; whether the parameter is known then, and what
the clock shows.
-/
structure HkSample where
  node : Nat
  id : Nat
  known : Bool
  tvSec : Nat
  value : Int
  now : Int
  deriving Repr, DecidableEq

/-- A sample that is logged: its own timestamp and that of the log. -/
structure LogRecord where
  raw : Nat
  logged : Nat
  deriving Repr, DecidableEq

/-- What becomes of a sample; the packet is given up without a timestamp. -/
inductive Outcome where
  | logged (record : LogRecord)
  | discarded
  | aborted
  deriving Repr, DecidableEq

/-- The node of a sample, by default the source of the packet. -/
def sampleNode (src : Nat) (sample : HkSample) : Nat :=
  if sample.node = 0 then src else sample.node

/-- `timesync_nodes` has the parameter of the sample. -/
def isTimesync (src : Nat) (tables : HkTables) (sample : HkSample) : Bool :=
  tables.timesyncNodes.any fun entry =>
    entry.node == sampleNode src sample && entry.paramid == sample.id

/-- The epoch by the value of a sample with the time. -/
def sampleEpoch (sample : HkSample) : Int :=
  sample.value - sample.tvSec

/-- The timestamp plus the epoch, in the 32 bits of `tv_sec`. -/
def addEpoch (tvSec : Nat) (epoch : Int) : Nat :=
  ((tvSec + epoch) % 2 ^ 32).toNat

/-- One turn of the loop of `hk_param_sniffer`, unless csh crashes in it. -/
def hkSample
    (src : Nat)
    (tables : HkTables)
    (sample : HkSample) :
    Option (HkTables × Outcome) :=
  if sample.known then
    if sample.tvSec = 0 then
      some (tables, .aborted)
    else if sample.tvSec < year2020 then
      -- The loop over `timesync_nodes`, which leaves -1 if it finds nothing.
      let looped : Option (List LocalEpoch × Int) :=
        if isTimesync src tables sample then
          (hkSetEpoch sample.now (sampleEpoch sample) src true
            tables.hks).map fun hks => (hks, sampleEpoch sample)
        else
          some (tables.hks, -1)
      looped.map fun synced =>
        let next := { tables with hks := synced.1 }
        if synced.2 = -1 then
          match hkGetEpoch synced.1 src with
          | some epoch =>
              (next, .logged ⟨sample.tvSec, addEpoch sample.tvSec epoch⟩)
          | none => (next, .discarded)
        else
          (next, .logged ⟨sample.tvSec, addEpoch sample.tvSec synced.2⟩)
    else
      some (tables, .logged ⟨sample.tvSec, sample.tvSec⟩)
  else
    some (tables, .discarded)

/-- A sample as the sniffer finds it, with its packet's source. -/
structure Visit where
  src : Nat
  tables : HkTables
  sample : HkSample
  deriving Repr, DecidableEq

/--
The loop over the samples of a packet: the visits that come through, and the
tables unless csh crashes.
-/
def hkParamSniffer
    (src : Nat) :
    List HkSample → HkTables → List Visit × Option HkTables
  | [], tables => ([], some tables)
  | sample :: rest, tables =>
      match hkSample src tables sample with
      | none => ([], none)
      | some (next, .aborted) => ([⟨src, tables, sample⟩], some next)
      | some (next, _) =>
          let later := hkParamSniffer src rest next
          (⟨src, tables, sample⟩ :: later.1, later.2)

/-- A packet of the network, or a command. -/
inductive HkOperation where
  | packet (src : Nat) (samples : List HkSample)
  | utcparam (node paramid : Nat)
  | timeoffset (now : Int) (node : Nat) (timeOffset : Int)
  deriving Repr, DecidableEq

/-- The visits of one operation, and the tables unless csh crashes in it. -/
def HkOperation.run (tables : HkTables) :
    HkOperation → List Visit × Option HkTables
  | .packet src samples => hkParamSniffer src samples tables
  | .utcparam node paramid =>
      ([], some
        { tables with
          timesyncNodes := hkSetUtcparam node paramid tables.timesyncNodes })
  | .timeoffset now node timeOffset =>
      ([], (hkTimeoffset now node timeOffset tables.hks).map fun hks =>
        { tables with hks := hks })

/-- The visits of operations in some order, until csh crashes. -/
def hkRun : List HkOperation → HkTables → List Visit
  | [], _ => []
  | operation :: rest, tables =>
      let done := operation.run tables
      done.1 ++
        match done.2 with
        | none => []
        | some next => hkRun rest next

/-- The checks of `hk_set_epoch`. -/
def AcceptsEpoch
    (now epoch : Int)
    (node : Nat)
    (autoSync : Bool)
    (hks : List LocalEpoch) :
    Prop :=
  epoch ≤ now ∧ year2020 ≤ epoch ∧
    match hkGetEpoch hks node with
    | some current => autoSync = true → current - epoch ≤ 86400
    | none => hks.length < maxHks

/-- The time fits into the 32 bits of `tv_sec`. -/
def Fits (time : Int) : Prop :=
  0 ≤ time ∧ time < 2 ^ 32

/-- The tables and the outcome behind a visit, unless csh crashes in it. -/
def Visit.outcome (visit : Visit) : Option (HkTables × Outcome) :=
  hkSample visit.src visit.tables visit.sample

/--
What is logged of a timestamp before 2020 is the timestamp plus the epoch that
`hk_get_epoch` returns for the source then.
-/
def Visit.Correct (visit : Visit) : Prop :=
  ∀ tables record,
    visit.outcome = some (tables, .logged record) →
      record.raw ≠ 0 →
        record.raw < year2020 →
          ∃ epoch,
            hkGetEpoch tables.hks visit.src = some epoch ∧
              (record.logged : Int) = record.raw + epoch

/-- `hk_set_epoch` is called for the sample. -/
def Visit.Synced (visit : Visit) : Prop :=
  isTimesync visit.src visit.tables visit.sample = true ∧
    sampleEpoch visit.sample ≠ -1

/--
The epoch of a sample with the time is accepted, or is the one that the table
has, as far as 32 bits tell; and the time fits.  Without such an epoch, the
time fits by the epoch that the table has.
-/
def Visit.Usable (visit : Visit) : Prop :=
  visit.sample.known = true →
    visit.sample.tvSec ≠ 0 →
      visit.sample.tvSec < year2020 →
        (visit.Synced →
          AcceptsEpoch visit.sample.now (sampleEpoch visit.sample) visit.src
                true visit.tables.hks ∧
              Fits (visit.sample.tvSec + sampleEpoch visit.sample) ∨
            ¬ AcceptsEpoch visit.sample.now (sampleEpoch visit.sample)
                visit.src true visit.tables.hks ∧
              ∃ epoch,
                hkGetEpoch visit.tables.hks visit.src = some epoch ∧
                  (sampleEpoch visit.sample - epoch) % 2 ^ 32 = 0 ∧
                  Fits (visit.sample.tvSec + epoch)) ∧
          (¬ visit.Synced →
            ∀ epoch,
              hkGetEpoch visit.tables.hks visit.src = some epoch →
                Fits (visit.sample.tvSec + epoch))

section SetEpoch

variable {now epoch : Int}
variable {node : Nat}
variable {autoSync : Bool}
variable {hks : List LocalEpoch}

/-- The first entry of a node gives its epoch. -/
theorem hkGetEpoch_updateEpoch
    (found : (hkGetEpoch hks node).isSome = true) :
    hkGetEpoch (updateEpoch epoch node hks) node = some epoch := by
  induction hks with
  | nil =>
      simp [hkGetEpoch] at found
  | cons entry rest inductionHypothesis =>
      by_cases same : entry.node = node
      · simp [updateEpoch, hkGetEpoch, same]
      · have later : (hkGetEpoch rest node).isSome = true := by
          simpa [hkGetEpoch, same] using found
        simpa [updateEpoch, hkGetEpoch, same] using inductionHypothesis later

theorem printing_eq_some_iff
    {times : List Int}
    {next : List LocalEpoch} :
    printing times hks = some next ↔
      (∀ time ∈ times, Representable time) ∧ next = hks := by
  rw [printing]
  split
  · rename_i fits
    rw [Option.some.injEq]
    exact ⟨fun same => ⟨fits, same.symm⟩, fun both => both.2.symm⟩
  · rename_i broken
    simp [broken]

variable {next : List LocalEpoch}

/-- What an accepted call leaves of the table. -/
theorem hkSetEpoch_eq_of_accepted
    (accepted : AcceptsEpoch now epoch node autoSync hks)
    (returned : hkSetEpoch now epoch node autoSync hks = some next) :
    next =
      if (hkGetEpoch hks node).isSome then
        updateEpoch epoch node hks
      else
        hks ++ [⟨node, epoch⟩] := by
  obtain ⟨past, recent, room⟩ := accepted
  have legal : ¬ (epoch > now ∨ epoch < year2020) := by
    omega
  rw [hkSetEpoch, if_neg legal] at returned
  cases stored : hkGetEpoch hks node with
  | some current =>
      simp only [stored] at room returned
      have near : ¬ (autoSync = true ∧ current - epoch > 86400) := by
        rintro ⟨auto, far⟩
        have := room auto
        omega
      rw [if_neg near] at returned
      split at returned
      · exact (printing_eq_some_iff.mp returned).2
      · exact (Option.some.inj returned).symm
  | none =>
      simp only [stored] at room returned
      rw [if_neg (by omega), printing_eq_some_iff] at returned
      exact returned.2

/-- An accepted epoch is the one of the node from then on. -/
theorem hkGetEpoch_of_accepted
    (accepted : AcceptsEpoch now epoch node autoSync hks)
    (returned : hkSetEpoch now epoch node autoSync hks = some next) :
    hkGetEpoch next node = some epoch := by
  rw [hkSetEpoch_eq_of_accepted accepted returned]
  cases stored : hkGetEpoch hks node with
  | some current =>
      exact hkGetEpoch_updateEpoch (by rw [stored]; rfl)
  | none =>
      have absent : hks.find? (fun entry => entry.node == node) = none := by
        simpa [hkGetEpoch] using stored
      simp [hkGetEpoch, List.find?_append, absent]

/-- A rejected epoch changes nothing. -/
theorem hkSetEpoch_of_rejected
    (rejected : ¬ AcceptsEpoch now epoch node autoSync hks)
    (returned : hkSetEpoch now epoch node autoSync hks = some next) :
    next = hks := by
  unfold hkSetEpoch at returned
  split at returned
  · exact (printing_eq_some_iff.mp returned).2
  · rename_i legal
    unfold AcceptsEpoch at rejected
    cases stored : hkGetEpoch hks node with
    | some current =>
        simp only [stored] at rejected returned
        have far : autoSync = true ∧ current - epoch > 86400 := by
          by_contra near
          refine rejected ⟨by omega, by omega, fun auto => ?_⟩
          by_contra far
          exact near ⟨auto, by omega⟩
        rw [if_pos far, printing_eq_some_iff] at returned
        exact returned.2
    | none =>
        simp only [stored] at rejected returned
        have full : hks.length ≥ maxHks := by
          by_contra room
          exact rejected ⟨by omega, by omega, by omega⟩
        rw [if_pos full] at returned
        exact (Option.some.inj returned).symm

/-- The value -1 is before 2020, and can be printed. -/
theorem hkSetEpoch_neg_one :
    hkSetEpoch now (-1) node autoSync hks = some hks := by
  rw [hkSetEpoch, if_pos (.inr (by decide)), printing_eq_some_iff]
  exact ⟨by decide, rfl⟩

end SetEpoch

theorem addEpoch_eq_iff
    {tvSec : Nat}
    {epoch other : Int} :
    (addEpoch tvSec epoch : Int) = tvSec + other ↔
      (epoch - other) % 2 ^ 32 = 0 ∧ Fits (tvSec + other) := by
  unfold addEpoch Fits
  omega

section Outcome

variable {visit : Visit}

theorem outcome_of_unknown
    (unknown : visit.sample.known = false) :
    visit.outcome = some (visit.tables, .discarded) := by
  simp [Visit.outcome, hkSample, unknown]

theorem outcome_of_no_timestamp
    (known : visit.sample.known = true)
    (missing : visit.sample.tvSec = 0) :
    visit.outcome = some (visit.tables, .aborted) := by
  simp [Visit.outcome, hkSample, known, missing]

theorem outcome_of_utc
    (known : visit.sample.known = true)
    (stamped : visit.sample.tvSec ≠ 0)
    (utc : ¬ (visit.sample.tvSec : Int) < year2020) :
    visit.outcome =
      some
        (visit.tables,
          .logged ⟨visit.sample.tvSec, visit.sample.tvSec⟩) := by
  simp [Visit.outcome, hkSample, known, stamped, utc]

/-- A sample with the time is logged with its own epoch. -/
theorem outcome_of_synced
    (known : visit.sample.known = true)
    (stamped : visit.sample.tvSec ≠ 0)
    (early : (visit.sample.tvSec : Int) < year2020)
    (synced : visit.Synced) :
    visit.outcome =
      (hkSetEpoch visit.sample.now (sampleEpoch visit.sample) visit.src true
        visit.tables.hks).map fun hks =>
          ({ visit.tables with hks := hks },
            .logged
              ⟨visit.sample.tvSec,
                addEpoch visit.sample.tvSec (sampleEpoch visit.sample)⟩) := by
  obtain ⟨timesync, epoch⟩ := synced
  simp only [Visit.outcome, hkSample, known, stamped, early, timesync,
    ↓reduceIte, Option.map_map]
  exact congrFun (congrArg Option.map (funext fun _ => if_neg epoch)) _

/-- Any other sample is logged with the epoch of the table, if there is one. -/
theorem outcome_of_not_synced
    (known : visit.sample.known = true)
    (stamped : visit.sample.tvSec ≠ 0)
    (early : (visit.sample.tvSec : Int) < year2020)
    (ordinary : ¬ visit.Synced) :
    visit.outcome =
      some
        (visit.tables,
          match hkGetEpoch visit.tables.hks visit.src with
          | some epoch =>
              .logged
                ⟨visit.sample.tvSec, addEpoch visit.sample.tvSec epoch⟩
          | none => .discarded) := by
  unfold Visit.outcome hkSample
  rw [if_pos known, if_neg stamped, if_pos early]
  by_cases timesync : isTimesync visit.src visit.tables visit.sample = true
  · have epoch : sampleEpoch visit.sample = -1 := by
      by_contra other
      exact ordinary ⟨timesync, other⟩
    simp only [timesync, if_true, epoch, hkSetEpoch_neg_one, Option.map_some]
    cases hkGetEpoch visit.tables.hks visit.src <;> rfl
  · simp only [timesync, Bool.false_eq_true, if_false, if_true,
      Option.map_some]
    cases hkGetEpoch visit.tables.hks visit.src <;> rfl

/-- A sample with the time is right if its epoch is that of the table then. -/
theorem correct_iff_of_synced
    (known : visit.sample.known = true)
    (stamped : visit.sample.tvSec ≠ 0)
    (early : (visit.sample.tvSec : Int) < year2020)
    (synced : visit.Synced)
    {next : List LocalEpoch}
    (returned :
      hkSetEpoch visit.sample.now (sampleEpoch visit.sample) visit.src true
          visit.tables.hks =
        some next) :
    visit.Correct ↔
      ∃ epoch,
        hkGetEpoch next visit.src = some epoch ∧
          (sampleEpoch visit.sample - epoch) % 2 ^ 32 = 0 ∧
            Fits (visit.sample.tvSec + epoch) := by
  unfold Visit.Correct
  rw [outcome_of_synced known stamped early synced, returned]
  simp [stamped, early, addEpoch_eq_iff]

/-- Any other sample is right if the time fits. -/
theorem correct_iff_of_not_synced
    (known : visit.sample.known = true)
    (stamped : visit.sample.tvSec ≠ 0)
    (early : (visit.sample.tvSec : Int) < year2020)
    (ordinary : ¬ visit.Synced) :
    visit.Correct ↔
      ∀ epoch,
        hkGetEpoch visit.tables.hks visit.src = some epoch →
          Fits (visit.sample.tvSec + epoch) := by
  unfold Visit.Correct
  rw [outcome_of_not_synced known stamped early ordinary]
  cases found : hkGetEpoch visit.tables.hks visit.src with
  | none =>
      simp
  | some epoch =>
      simp [stamped, early, addEpoch_eq_iff, found]

end Outcome

/-- A visit that comes through logs the right time if its epoch can be used. -/
theorem correct_iff_usable
    {visit : Visit}
    (cameThrough : visit.outcome.isSome = true) :
    visit.Correct ↔ visit.Usable := by
  unfold Visit.Usable
  cases known : visit.sample.known with
  | false =>
      simp [Visit.Correct, outcome_of_unknown known]
  | true =>
      by_cases stamped : visit.sample.tvSec = 0
      · simp [Visit.Correct, outcome_of_no_timestamp known stamped, stamped]
      by_cases early : (visit.sample.tvSec : Int) < year2020
      · simp only [stamped, early, ne_eq, not_false_eq_true, forall_const]
        by_cases synced : visit.Synced
        · rw [outcome_of_synced known stamped early synced,
            Option.isSome_map] at cameThrough
          obtain ⟨next, returned⟩ := Option.isSome_iff_exists.mp cameThrough
          rw [correct_iff_of_synced known stamped early synced returned]
          simp only [synced, forall_const, not_true_eq_false,
            false_implies, and_true]
          by_cases accepted :
              AcceptsEpoch visit.sample.now (sampleEpoch visit.sample)
                visit.src true visit.tables.hks
          · simp [hkGetEpoch_of_accepted accepted returned, accepted]
          · rw [hkSetEpoch_of_rejected accepted returned]
            simp [accepted]
        · rw [correct_iff_of_not_synced known stamped early synced]
          simp [synced]
      · simp [Visit.Correct, outcome_of_utc known stamped early, early]

/-- The visits of a packet come through. -/
theorem cameThrough_of_mem_hkParamSniffer
    {src : Nat}
    {samples : List HkSample}
    {tables : HkTables}
    {visit : Visit}
    (member : visit ∈ (hkParamSniffer src samples tables).1) :
    visit.outcome.isSome = true := by
  induction samples generalizing tables with
  | nil =>
      exact absurd member List.not_mem_nil
  | cons sample rest inductionHypothesis =>
      rw [hkParamSniffer] at member
      split at member
      · exact absurd member List.not_mem_nil
      · rename_i returned
        obtain rfl := List.mem_singleton.mp member
        rw [Visit.outcome, returned]
        rfl
      · rename_i returned
        rcases List.mem_cons.mp member with rfl | later
        · rw [Visit.outcome, returned]
          rfl
        · exact inductionHypothesis later

/-- The visits of a run come through. -/
theorem cameThrough_of_mem_hkRun
    {operations : List HkOperation}
    {tables : HkTables}
    {visit : Visit}
    (member : visit ∈ hkRun operations tables) :
    visit.outcome.isSome = true := by
  induction operations generalizing tables with
  | nil =>
      exact absurd member List.not_mem_nil
  | cons operation rest inductionHypothesis =>
      rcases List.mem_append.mp member with here | later
      · cases operation with
        | packet src samples =>
            exact cameThrough_of_mem_hkParamSniffer here
        | utcparam node paramid =>
            exact absurd here List.not_mem_nil
        | timeoffset now node timeOffset =>
            exact absurd here List.not_mem_nil
      · split at later
        · exact absurd later List.not_mem_nil
        · exact inductionHypothesis later

/--
Every sample of a run is logged with the epoch of the table if and only if the
epoch of every sample with the time is accepted or the one of the table, and
the times fit.
-/
theorem run_correct_iff_usable
    (operations : List HkOperation) :
    (∀ visit ∈ hkRun operations ⟨[], []⟩, visit.Correct) ↔
      ∀ visit ∈ hkRun operations ⟨[], []⟩, visit.Usable :=
  forall₂_congr fun _ member =>
    correct_iff_usable (cameThrough_of_mem_hkRun member)

/--
The epoch by a sample with the time is in the future, so it is rejected and the
table stays empty, but the sample is logged with it.
-/
theorem not_correct_future_epoch :
    ¬ ∀ (operations : List HkOperation),
      ∀ visit ∈ hkRun operations ⟨[], []⟩, visit.Correct := by
  intro correct
  have logged :=
    correct
      [.utcparam 1 7,
        .packet 1 [⟨1, 7, true, 100, 1700000200, 1700000000⟩]]
      ⟨1, ⟨[], [⟨1, 7⟩]⟩, ⟨1, 7, true, 100, 1700000200, 1700000000⟩⟩
      (by decide) ⟨[], [⟨1, 7⟩]⟩ ⟨100, 1700000200⟩ (by decide) (by decide)
      (by decide)
  obtain ⟨epoch, found, _⟩ := logged
  cases found

end Csh.HkParamSniffer
