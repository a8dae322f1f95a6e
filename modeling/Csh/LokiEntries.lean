import Csh.Loki
import Mathlib.Data.List.TakeDrop

namespace Csh.Loki

open Libc

/-!
# An entry for every line

Every line that a newline terminates should become an entry, unless nothing is
left of it or it is an empty command line.  The walk of `loki_add` loses the
lines behind one that comes out empty, and in longer logs it adds what stands
behind the last newline.
-/

/-- Logging is on, and there is memory. -/
structure Environment.On (env : Environment) : Prop where
  running : env.lokiRunning = true
  memory : env.malloc = true

/-- The lines of a log that are to become entries. -/
def wantedTexts (log : CString) : List CString :=
  (lineTexts (skipLeading log)).filter isLogged

/-- The values of the document are the given ones; it takes one to make one. -/
def Outcome.Places (outcome : Outcome) (entries : List CString) : Prop :=
  match outcome with
  | .silent => entries = []
  | .overflow => False
  | .skipped => entries = []
  | .queued values _ => values = entries

/-- Nothing hinders the lines of a log. -/
structure NothingLost (clock : Nat → Int64) (log : CString) : Prop where
  /-- Behind the first line that comes out empty, no line is to be logged. -/
  empty :
    ∀ text ∈ (keptTexts (skipLeading log)).dropWhile fun text => !text.isEmpty,
      isLogged text = false
  /-- There is nothing to be logged behind the last of several newlines. -/
  tail :
    2 ≤ (keptTexts (skipLeading log)).length →
      [] ∉ keptTexts (skipLeading log) →
        isLogged (tailText (skipLeading log)) = false
  /-- The entries fit into `temp`. -/
  fit :
    ∀ value ∈ stamped entry clock 0 (wantedTexts log), value.length < tempSize
  /-- Together, they fit into `formatted_log`. -/
  room :
    (stamped entry clock 0 (wantedTexts log)).flatten.length < formattedLogSize

section Stamped

variable {α : Type}
variable {print : Int64 → CString → α}
variable {clock : Nat → Int64}

@[simp] theorem length_stamped
    (made : Nat)
    (texts : List CString) :
    (stamped print clock made texts).length = texts.length := by
  induction texts generalizing made with
  | nil =>
      rfl
  | cons text rest inductionHypothesis =>
      simp [stamped, inductionHypothesis]

/-- Entries are cut unless they fit. -/
theorem stamped_cutEntry_eq_iff
    (made : Nat)
    (texts : List CString) :
    stamped cutEntry clock made texts = stamped entry clock made texts ↔
      ∀ value ∈ stamped entry clock made texts, value.length < tempSize := by
  induction texts generalizing made with
  | nil =>
      simp [stamped]
  | cons text rest inductionHypothesis =>
      have cut :
          cutEntry (clock made) text = entry (clock made) text ↔
            (entry (clock made) text).length < tempSize := by
        rw [cutEntry, snprintf, List.take_eq_self_iff, tempSize]
        omega
      simp only [stamped, List.cons.injEq, List.forall_mem_cons, cut,
        inductionHypothesis]

end Stamped

theorem cutEntry_ne_nil
    (msec : Int64)
    (text : CString) :
    cutEntry msec text ≠ [] := by
  intro empty
  cases empty

/-- Only without entries, `formatted_log` is empty. -/
theorem flatten_stamped_eq_nil_iff
    {clock : Nat → Int64}
    {made : Nat}
    {texts : List CString} :
    (stamped cutEntry clock made texts).flatten = [] ↔ texts = [] := by
  cases texts with
  | nil =>
      simp [stamped]
  | cons text rest =>
      simp [stamped, cutEntry_ne_nil]

/-- What `loki_add` does with the entries it makes. -/
theorem lokiAdd_eq
    (env : Environment)
    (log : CString)
    (iscmd : Bool) :
    lokiAdd env log iscmd =
      if env.lokiRunning = true ∧ loggedTexts log ≠ [] then
        let values := stamped cutEntry env.clock 0 (loggedTexts log)
        if values.flatten.length ≥ formattedLogSize then
          .overflow
        else if env.malloc then
          .queued values (jsonMessage env iscmd values.flatten)
        else
          .skipped
      else
        .silent := by
  unfold lokiAdd
  by_cases running : env.lokiRunning = true
  · rw [if_pos running]
    by_cases none : (stripStr log).2 < 1
    · have unlogged : loggedTexts log = [] := by
        have zero : (stripStr log).2 = 0 := by
          omega
        simp [loggedTexts, walkedTexts, zero]
      simp [none, unlogged]
    · simp only [if_neg none, lokiLoop_stripStr, flatten_stamped_eq_nil_iff]
      by_cases unlogged : loggedTexts log = []
      · simp [unlogged, stamped, formattedLogSize]
      · simp [unlogged, running]
  · simp [running]

/-- When `loki_add` places entries as they should be. -/
theorem places_iff
    {env : Environment}
    (on : env.On)
    (log : CString)
    (iscmd : Bool)
    (entries : List CString) :
    (lokiAdd env log iscmd).Places entries ↔
      stamped cutEntry env.clock 0 (loggedTexts log) = entries ∧
        (stamped cutEntry env.clock 0 (loggedTexts log)).flatten.length <
          formattedLogSize := by
  rw [lokiAdd_eq]
  by_cases unlogged : loggedTexts log = []
  · have room : 0 < formattedLogSize := by
      decide
    simp only [unlogged, ne_eq, not_true_eq_false, and_false, if_false,
      Outcome.Places, stamped, List.flatten_nil, List.length_nil, room,
      and_true]
    exact eq_comm
  · simp only [on.running, on.memory, unlogged, ne_eq, not_false_eq_true,
      and_self, if_true]
    split
    · simp only [Outcome.Places, false_iff]
      omega
    · simp only [Outcome.Places]
      rw [and_iff_left]
      omega

/-- A line of special characters leaves nothing to be logged. -/
theorem laterText_of_all_special
    {line : CString}
    (special : line.all isSpecial = true) :
    laterText line = [] := by
  rw [laterText_eq_output]
  exact (skipped_of_all_special special).2

/-- Whether lines are skipped or come out empty, they are not logged. -/
theorem wantedTexts_eq
    (log : CString) :
    wantedTexts log = (keptTexts (skipLeading log)).filter isLogged := by
  unfold wantedTexts lineTexts keptTexts
  cases terminatedLines (skipLeading log) with
  | nil =>
      rfl
  | cons first later =>
      have same :
          (later.map laterText).filter isLogged =
            ((later.filter fun line => !line.all isSpecial).map
              laterText).filter isLogged := by
        rw [List.filter_map, List.filter_map, List.filter_filter]
        congr 1
        refine List.filter_congr fun line _ => ?_
        cases special : line.all isSpecial with
        | false =>
            simp
        | true =>
            simp [laterText_of_all_special special, isLogged]
      simp only [List.filter_cons, same]

/-- The pieces that the loop comes to, line by line. -/
theorem walkedTexts_eq
    {log : CString}
    (ends : SequencesEnd (skipLeading log)) :
    walkedTexts log =
      ((keptTexts (skipLeading log) ++ [tailText (skipLeading log)]).take
          (if 2 ≤ (keptTexts (skipLeading log)).length then
            (keptTexts (skipLeading log)).length + 1
          else
            (keptTexts (skipLeading log)).length)).takeWhile
        fun text => !text.isEmpty := by
  have pieces := splitOn_written_stripLoop (skipLeading log) ends
  have counter :
      (stripLoop (skipLeading log)).strCounter =
        (keptTexts (skipLeading log)).length := by
    have count := length_splitOn nul (stripLoop (skipLeading log)).written
    rw [pieces, ← strCounter_stripLoop] at count
    simpa using count.symm
  rw [walkedTexts, pieces]
  simp only [stripStr, counter, ge_iff_le]

section Walk

variable {texts : List CString}
variable {tail : CString}

/-- Up to the first empty text, and behind it. -/
theorem filter_split :
    texts.filter isLogged =
      (texts.takeWhile fun text => !text.isEmpty).filter isLogged ++
        (texts.dropWhile fun text => !text.isEmpty).filter isLogged := by
  rw [← List.filter_append, List.takeWhile_append_dropWhile]

/-- An empty text ends the walk, with or without the tail. -/
theorem takeWhile_of_empty
    (empty : [] ∈ texts)
    {count : Nat}
    (enough : texts.length ≤ count) :
    (((texts ++ [tail]).take count).takeWhile fun text => !text.isEmpty) =
      texts.takeWhile fun text => !text.isEmpty := by
  rw [List.take_append, List.take_of_length_le enough, List.takeWhile_append,
    if_neg]
  intro whole
  have all :=
    List.takeWhile_eq_self_iff.mp
      ((texts.takeWhile_prefix fun text => !text.isEmpty).eq_of_length whole)
  exact Bool.false_ne_true (all [] empty)

/-- Without an empty text, the walk comes to all of them. -/
theorem takeWhile_of_no_empty
    (full : [] ∉ texts) :
    (texts.takeWhile fun text => !text.isEmpty) = texts ∧
      (texts.dropWhile fun text => !text.isEmpty) = [] := by
  have all : ∀ text ∈ texts, (!text.isEmpty) = true := by
    intro text member
    cases text with
    | nil => exact absurd member full
    | cons c rest => rfl
  exact ⟨List.takeWhile_eq_self_iff.mpr all, List.dropWhile_eq_nil_iff.mpr all⟩

/-- The walk over several texts and the tail. -/
theorem filter_takeWhile_append_tail
    (full : [] ∉ texts) :
    (((texts ++ [tail]).takeWhile fun text => !text.isEmpty).filter isLogged) =
      texts.filter isLogged ++ [tail].filter isLogged := by
  have reached := (takeWhile_of_no_empty full).1
  rw [List.takeWhile_append, reached, if_pos rfl, List.filter_append]
  cases tail with
  | nil => rfl
  | cons c rest => simp

end Walk

section Logged

variable {log : CString}

/-- Behind an empty text, nothing is logged. -/
theorem loggedTexts_of_empty
    (ends : SequencesEnd (skipLeading log))
    (empty : [] ∈ keptTexts (skipLeading log)) :
    wantedTexts log =
      loggedTexts log ++
        ((keptTexts (skipLeading log)).dropWhile
          fun text => !text.isEmpty).filter isLogged := by
  rw [wantedTexts_eq, filter_split, loggedTexts, walkedTexts_eq ends,
    takeWhile_of_empty empty]
  split <;> omega

/-- Otherwise all is logged, with the tail if there are several lines. -/
theorem loggedTexts_of_no_empty
    (ends : SequencesEnd (skipLeading log))
    (full : [] ∉ keptTexts (skipLeading log)) :
    loggedTexts log =
      wantedTexts log ++
        if 2 ≤ (keptTexts (skipLeading log)).length then
          [tailText (skipLeading log)].filter isLogged
        else
          [] := by
  rw [wantedTexts_eq, loggedTexts, walkedTexts_eq ends]
  by_cases several : 2 ≤ (keptTexts (skipLeading log)).length
  · rw [if_pos several, if_pos several,
      ← filter_takeWhile_append_tail full, List.take_of_length_le (by simp)]
  · rw [if_neg several, if_neg several, List.take_append_of_le_length le_rfl,
      List.take_length, (takeWhile_of_no_empty full).1, List.append_nil]

/-- Nothing is lost only if the lines behind an empty one are not wanted. -/
theorem empty_of_length_eq
    (ends : SequencesEnd (skipLeading log))
    (same : (loggedTexts log).length = (wantedTexts log).length) :
    ∀ text ∈ (keptTexts (skipLeading log)).dropWhile fun text => !text.isEmpty,
      isLogged text = false := by
  by_cases empty : [] ∈ keptTexts (skipLeading log)
  · rw [loggedTexts_of_empty ends empty, List.length_append] at same
    have none := List.length_eq_zero_iff.mp (Nat.left_eq_add.mp same)
    simpa using List.filter_eq_nil_iff.mp none
  · simp [(takeWhile_of_no_empty empty).2]

/-- Nothing is added only if the tail is not to be logged. -/
theorem tail_of_length_eq
    (ends : SequencesEnd (skipLeading log))
    (same : (loggedTexts log).length = (wantedTexts log).length)
    (several : 2 ≤ (keptTexts (skipLeading log)).length)
    (full : [] ∉ keptTexts (skipLeading log)) :
    isLogged (tailText (skipLeading log)) = false := by
  rw [loggedTexts_of_no_empty ends full, if_pos several,
    List.length_append] at same
  have none := List.length_eq_zero_iff.mp (Nat.add_eq_left.mp same)
  simpa using List.filter_eq_nil_iff.mp none

/-- Then the logged lines are the wanted ones. -/
theorem loggedTexts_eq_wantedTexts
    (ends : SequencesEnd (skipLeading log))
    (empty :
      ∀ text ∈
          (keptTexts (skipLeading log)).dropWhile fun text => !text.isEmpty,
        isLogged text = false)
    (tail :
      2 ≤ (keptTexts (skipLeading log)).length →
        [] ∉ keptTexts (skipLeading log) →
          isLogged (tailText (skipLeading log)) = false) :
    loggedTexts log = wantedTexts log := by
  by_cases member : [] ∈ keptTexts (skipLeading log)
  · have none := List.filter_eq_nil_iff.mpr fun text behind => by
      simpa using empty text behind
    rw [loggedTexts_of_empty ends member, none, List.append_nil]
  · rw [loggedTexts_of_no_empty ends member]
    split
    · rename_i several
      simp [tail several member]
    · exact List.append_nil _

end Logged

/--
`loki_add` places an entry for every wanted line, in order and nothing else, if
and only if nothing hinders them.
-/
theorem places_wantedTexts_iff
    {env : Environment}
    (on : env.On)
    {log : CString}
    (ends : SequencesEnd (skipLeading log))
    (iscmd : Bool) :
    (lokiAdd env log iscmd).Places
        (stamped entry env.clock 0 (wantedTexts log)) ↔
      NothingLost env.clock log := by
  rw [places_iff on]
  constructor
  · rintro ⟨placed, room⟩
    have same : (loggedTexts log).length = (wantedTexts log).length := by
      simpa using congrArg List.length placed
    have empty := empty_of_length_eq ends same
    have tail := tail_of_length_eq ends same
    rw [placed] at room
    rw [loggedTexts_eq_wantedTexts ends empty tail,
      stamped_cutEntry_eq_iff] at placed
    exact ⟨empty, tail, placed, room⟩
  · intro nothingLost
    rw [loggedTexts_eq_wantedTexts ends nothingLost.empty nothingLost.tail,
      (stamped_cutEntry_eq_iff 0 _).mpr nothingLost.fit]
    exact ⟨rfl, nothingLost.room⟩

/-- Logging is on and the clock stands still. -/
def standing : Environment :=
  ⟨true, fun _ => 43200000000, "host".toList, 20, 1, true⟩

theorem standing_on :
    standing.On :=
  ⟨rfl, rfl⟩

/-- Two lines in colour, none of which comes out empty. -/
theorem places_wantedTexts_of_colours :
    (lokiAdd standing "\x1b[1mfoo\x1b[0m\nbar\n".toList false).Places
      (stamped entry standing.clock 0
        (wantedTexts "\x1b[1mfoo\x1b[0m\nbar\n".toList)) := by
  have lines :
      terminatedLines (skipLeading "\x1b[1mfoo\x1b[0m\nbar\n".toList) =
        ["\x1b[1mfoo\x1b[0m".toList, "bar".toList] :=
    rfl
  have tail :
      unterminatedTail (skipLeading "\x1b[1mfoo\x1b[0m\nbar\n".toList) = [] :=
    rfl
  have later : laterText = stripper.output .newline :=
    funext laterText_eq_output
  have kept :
      keptTexts (skipLeading "\x1b[1mfoo\x1b[0m\nbar\n".toList) =
        ["foo".toList, "bar".toList] := by
    simp only [keptTexts, lines, firstText_eq_output, later]
    decide
  refine (places_wantedTexts_iff standing_on ?_ false).mpr ⟨?_, ?_, ?_, ?_⟩
  · rw [SequencesEnd, lines]
    exact ⟨by decide, by decide⟩
  · rw [kept]
    decide
  · intro _ _
    simp only [tailText, lines, tail, later]
    decide
  · rw [wantedTexts_eq, kept]
    decide
  · rw [wantedTexts_eq, kept]
    decide

/-- A line of escape sequences alone takes the next line with it. -/
theorem not_places_behind_escape_sequence :
    ¬ ∀ (env : Environment) (_ : env.On) (log : CString) (iscmd : Bool),
      (lokiAdd env log iscmd).Places
        (stamped entry env.clock 0 (wantedTexts log)) := by
  intro places
  have placed :=
    (places_iff standing_on _ _ _).mp
      (places standing standing_on "\x1b[0m\nfoo\n".toList false)
  have output :
      stripper.output .copying (skipLeading "\x1b[0m\nfoo\n".toList) =
        nul :: "foo".toList ++ [nul] := by
    decide
  have unlogged : loggedTexts "\x1b[0m\nfoo\n".toList = [] := by
    have pieces :
        (nul :: "foo".toList ++ [nul]).splitOn nul = [[], "foo".toList, []] :=
      rfl
    rw [loggedTexts_of_output output, pieces]
    decide
  have wanted : wantedTexts "\x1b[0m\nfoo\n".toList = ["foo".toList] := by
    have lines :
        terminatedLines (skipLeading "\x1b[0m\nfoo\n".toList) =
          ["\x1b[0m".toList, "foo".toList] :=
      rfl
    simp only [wantedTexts, lineTexts, lines, firstText_eq_output,
      List.map_cons, List.map_nil, laterText_eq_output]
    decide
  have lengths := congrArg List.length placed.1
  rw [length_stamped, length_stamped, unlogged, wanted] at lengths
  exact absurd lengths (by decide)

end Csh.Loki
