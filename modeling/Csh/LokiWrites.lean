import Csh.LokiPayload

namespace Csh.Loki

open Libc

/-!
# The writes of a log

`loki_add` collects the entries in `formatted_log` with `strcat`, cuts the last
comma, and prints the document to memory that it sizes by a sum of its own.
Here every block that it writes is kept with the message that it queues.
-/

/-- A block of cells that is written, with the size of the memory if it varies. -/
inductive Write where
  | formattedLog (start count : Nat)
  | jsonStrBuf (size start count : Nat)
  deriving Repr, DecidableEq

/-- The block lies in its buffer. -/
def Write.Inside : Write → Prop
  | .formattedLog start count => start + count ≤ formattedLogSize
  | .jsonStrBuf size start count => start + count ≤ size

instance (write : Write) : Decidable write.Inside :=
  match write with
  | .formattedLog start count =>
      inferInstanceAs (Decidable (start + count ≤ formattedLogSize))
  | .jsonStrBuf size start count =>
      inferInstanceAs (Decidable (start + count ≤ size))

/--
The loop of `loki_add` like `lokiLoop`, with the characters that are used of
`formatted_log`: each `strcat` writes an entry and the NUL behind it.
-/
def lokiWriteLoop (clock : Nat → Int64) :
    Nat → Nat → Nat → List Char → List Write
  | 0, _, _, _ => []
  | left + 1, made, used, array =>
      if array.headD nul = nul then
        []
      else
        let p := array.takeWhile (· != nul)
        let next := array.drop (p.length + 1)
        if isPrompt p then
          lokiWriteLoop clock left made used next
        else
          let temp := cutEntry (clock made) p
          .formattedLog used (temp.length + 1) ::
            lokiWriteLoop clock left (made + 1) (used + temp.length) next

/-- The writes of a call, and the message that it queues. -/
structure Trace where
  writes : List Write
  message : Option JsonStr

/-- `loki_add`. -/
def lokiAddTrace (env : Environment) (log : CString) (iscmd : Bool) : Trace :=
  if env.lokiRunning then
    let stripped := stripStr log
    if stripped.2 < 1 then
      ⟨[], none⟩
    else
      let formattedLog := (lokiLoop env.clock stripped.2 0 stripped.1).flatten
      let formatting :=
        .formattedLog 0 1 ::
          lokiWriteLoop env.clock stripped.2 0 0 stripped.1
      if formattedLog = [] then
        ⟨formatting, none⟩
      else
        let cutting := .formattedLog (formattedLog.length - 1) 1
        if env.malloc then
          let message := jsonMessage env iscmd formattedLog
          let printing :=
            .jsonStrBuf (jsonStrMax env formattedLog.length) 0
              (message.data.length + 1)
          ⟨formatting ++ [cutting, printing], some message⟩
        else
          ⟨formatting ++ [cutting], none⟩
  else
    ⟨[], none⟩

/--
All writes lie in their buffers, and the length of the message counts no more
than the characters that were printed to it.
-/
structure Trace.Safe (trace : Trace) : Prop where
  inside : ∀ write ∈ trace.writes, write.Inside
  len :
    ∀ message, trace.message = some message →
      message.len ≤ message.data.length

/-- The lengths of the entries: a text in its frame, as far as `temp` goes. -/
def framedLength (clock : Nat → Int64) : Nat → List CString → Nat
  | _, [] => 0
  | made, text :: rest =>
      min ((printInt (clock made).toInt).length + text.length + 12)
          (tempSize - 1) +
        framedLength clock (made + 1) rest

/-- The blocks that `strcat` writes of some entries. -/
def catenated : Nat → List CString → List Write
  | _, [] => []
  | used, text :: rest =>
      .formattedLog used (text.length + 1) ::
        catenated (used + text.length) rest

section Writes

variable {clock : Nat → Int64}

/-- The instrumented loop writes the entries of the loop. -/
theorem lokiWriteLoop_eq
    (left made used : Nat)
    (array : List Char) :
    lokiWriteLoop clock left made used array =
      catenated used (lokiLoop clock left made array) := by
  induction left generalizing made used array with
  | zero =>
      rfl
  | succ left inductionHypothesis =>
      rw [lokiWriteLoop, lokiLoop]
      split
      · rfl
      · simp only [inductionHypothesis]
        split
        · rfl
        · rfl

/-- The blocks lie in `formatted_log` if the entries leave room for a NUL. -/
theorem catenated_inside_iff
    (used : Nat)
    {texts : List CString}
    (some : texts ≠ []) :
    (∀ write ∈ catenated used texts, write.Inside) ↔
      used + texts.flatten.length < formattedLogSize := by
  induction texts generalizing used with
  | nil =>
      exact absurd rfl some
  | cons text rest inductionHypothesis =>
      rw [catenated, List.forall_mem_cons, Write.Inside, List.flatten_cons,
        List.length_append]
      by_cases last : rest = []
      · subst last
        simp only [catenated, List.not_mem_nil, false_implies, implies_true,
          and_true, List.flatten_nil, List.length_nil]
        omega
      · rw [inductionHypothesis _ last]
        omega

theorem length_cutEntry
    (msec : Int64)
    (text : CString) :
    (cutEntry msec text).length =
      min ((printInt msec.toInt).length + text.length + 12)
        (tempSize - 1) := by
  have frame :
      (entry msec text).length =
        (printInt msec.toInt).length + text.length + 12 := by
    have opening : "[\"".toList.length = 2 := rfl
    have middle : "000\", \"".toList.length = 7 := rfl
    have closing : "\"],".toList.length = 3 := rfl
    rw [entry, List.length_append, List.length_append, List.length_append,
      List.length_append, opening, middle, closing]
    omega
  rw [cutEntry, snprintf, List.length_take, frame, Nat.min_comm]

/-- The entries fill as much of `formatted_log` as their lengths say. -/
theorem length_flatten_stamped
    (made : Nat)
    (texts : List CString) :
    (stamped cutEntry clock made texts).flatten.length =
      framedLength clock made texts := by
  induction texts generalizing made with
  | nil =>
      rfl
  | cons text rest inductionHypothesis =>
      rw [stamped, List.flatten_cons, List.length_append, length_cutEntry,
        inductionHypothesis, framedLength]

/-- `loki_add` in terms of the texts that become entries. -/
theorem lokiAddTrace_eq
    (env : Environment)
    (log : CString)
    (iscmd : Bool)
    (active : env.lokiRunning = true ∧ loggedTexts log ≠ []) :
    let values := stamped cutEntry env.clock 0 (loggedTexts log)
    let message := jsonMessage env iscmd values.flatten
    lokiAddTrace env log iscmd =
      ⟨.formattedLog 0 1 ::
          (catenated 0 values ++
            .formattedLog (values.flatten.length - 1) 1 ::
              if env.malloc then
                [.jsonStrBuf (jsonStrMax env values.flatten.length) 0
                  (message.data.length + 1)]
              else
                []),
        if env.malloc then some message else none⟩ := by
  have counted : ¬ (stripStr log).2 < 1 := by
    intro uncounted
    have zero : (stripStr log).2 = 0 := by
      omega
    exact active.2 (by simp [loggedTexts, walkedTexts, zero])
  intro values message
  have printed : values.flatten ≠ [] :=
    fun empty => active.2 (flatten_stamped_eq_nil_iff.mp empty)
  rw [lokiAddTrace, if_pos active.1]
  simp only [if_neg counted, lokiWriteLoop_eq, lokiLoop_stripStr]
  rw [if_neg printed]
  split <;> rfl

theorem lokiAddTrace_of_inactive
    {env : Environment}
    {log : CString}
    (inactive : ¬ (env.lokiRunning = true ∧ loggedTexts log ≠ []))
    (iscmd : Bool) :
    (lokiAddTrace env log iscmd).Safe := by
  rw [lokiAddTrace]
  by_cases running : env.lokiRunning = true
  · have unlogged : loggedTexts log = [] :=
      not_not.mp fun logged => inactive ⟨running, logged⟩
    rw [if_pos running]
    simp only [lokiWriteLoop_eq, lokiLoop_stripStr, unlogged, stamped,
      List.flatten_nil, ↓reduceIte]
    split
    · exact ⟨by simp, by simp⟩
    · exact ⟨by simp [catenated, Write.Inside, formattedLogSize], by simp⟩
  · rw [if_neg running]
    exact ⟨by simp, by simp⟩

end Writes

section Messages

variable {env : Environment}
variable {formattedLog : CString}

theorem jsonStrMax_pos
    (env : Environment)
    (formattedLen : Nat) :
    0 < jsonStrMax env formattedLen := by
  rw [jsonStrMax]
  omega

theorem length_data_jsonMessage
    (iscmd : Bool)
    (formattedLog : CString) :
    (jsonMessage env iscmd formattedLog).data.length =
      min (jsonStrMax env formattedLog.length - 1)
        (jsonStr env iscmd formattedLog.dropLast).length := by
  rw [jsonMessage, snprintf, List.length_take]

/-- What is printed fits the memory, with the NUL behind it. -/
theorem jsonMessage_inside
    (iscmd : Bool)
    (formattedLog : CString) :
    (Write.jsonStrBuf (jsonStrMax env formattedLog.length) 0
      ((jsonMessage env iscmd formattedLog).data.length + 1)).Inside := by
  have positive := jsonStrMax_pos env formattedLog.length
  rw [Write.Inside, length_data_jsonMessage]
  omega

/-- The length of the message is right if the labels fit their share. -/
theorem len_jsonMessage_le_iff
    (iscmd : Bool)
    (some : formattedLog ≠ []) :
    (jsonMessage env iscmd formattedLog).len ≤
        (jsonMessage env iscmd formattedLog).data.length ↔
      env.hostname.length + (printUnsigned env.slashDflNode).length +
          (logType iscmd).length ≤
        env.cspHostnameLen + 20 := by
  have positive := jsonStrMax_pos env formattedLog.length
  rw [← length_jsonStr_lt_iff iscmd some, length_data_jsonMessage,
    jsonMessage]
  simp only
  omega

end Messages

/--
A call writes inside its buffers and sends the right length exactly when it
makes no entry, or its entries leave room for a NUL and a message that is sent
has labels that fit their share of its memory.
-/
theorem lokiAddTrace_safe_iff
    (env : Environment)
    (log : CString)
    (iscmd : Bool) :
    (lokiAddTrace env log iscmd).Safe ↔
      (env.lokiRunning = true → loggedTexts log ≠ [] →
        framedLength env.clock 0 (loggedTexts log) < formattedLogSize ∧
          (env.malloc = true →
            env.hostname.length + (printUnsigned env.slashDflNode).length +
                (logType iscmd).length ≤
              env.cspHostnameLen + 20)) := by
  by_cases active : env.lokiRunning = true ∧ loggedTexts log ≠ []
  · have entries : stamped cutEntry env.clock 0 (loggedTexts log) ≠ [] := by
      intro empty
      exact active.2 (flatten_stamped_eq_nil_iff.mp (by rw [empty]; rfl))
    have printed :
        (stamped cutEntry env.clock 0 (loggedTexts log)).flatten ≠ [] :=
      fun empty => active.2 (flatten_stamped_eq_nil_iff.mp empty)
    have inside := catenated_inside_iff 0 entries
    rw [Nat.zero_add, length_flatten_stamped] at inside
    rw [lokiAddTrace_eq env log iscmd active]
    simp only [active, ne_eq, not_false_eq_true, forall_const]
    constructor
    · rintro ⟨writes, len⟩
      simp only [List.forall_mem_cons, List.forall_mem_append] at writes
      refine ⟨inside.mp writes.2.1, fun memory => ?_⟩
      exact (len_jsonMessage_le_iff iscmd printed).mp
        (len _ (if_pos memory))
    · rintro ⟨room, fits⟩
      refine ⟨?_, ?_⟩
      · simp only [List.forall_mem_cons, List.forall_mem_append]
        refine ⟨by decide, inside.mpr room, ?_, ?_⟩
        · rw [Write.Inside, length_flatten_stamped]
          omega
        · split
          · exact List.forall_mem_singleton.mpr (jsonMessage_inside iscmd _)
          · exact fun _ member => absurd member List.not_mem_nil
      · intro message sent
        simp only at sent
        by_cases memory : env.malloc = true
        · rw [if_pos memory, Option.some.injEq] at sent
          rw [← sent]
          exact (len_jsonMessage_le_iff iscmd printed).mpr (fits memory)
        · rw [if_neg memory] at sent
          cases sent
  · exact iff_of_true (lokiAddTrace_of_inactive active iscmd)
      fun running logged => absurd ⟨running, logged⟩ active

/-- A node name of 64 characters does not fit its share. -/
theorem lokiAddTrace_unsafe_with_long_hostname :
    ¬ ∀ (env : Environment) (log : CString) (iscmd : Bool),
      env.cspHostnameLen = 20 → env.hostname.length ≤ 64 →
        log.length ≤ 1024 * 1024 - 1 → (lokiAddTrace env log iscmd).Safe := by
  intro safe
  let env := { standing with hostname := List.replicate 64 'a' }
  have output :
      stripper.output .copying (skipLeading "foo\n".toList) =
        "foo".toList ++ [nul] := by
    decide
  have logged : loggedTexts "foo\n".toList = ["foo".toList] := by
    have pieces : ("foo".toList ++ [nul]).splitOn nul = ["foo".toList, []] :=
      rfl
    rw [loggedTexts_of_output output, pieces]
    decide
  have active :
      env.lokiRunning = true ∧ loggedTexts "foo\n".toList ≠ [] :=
    ⟨rfl, by rw [logged]; decide⟩
  have printed :
      (stamped cutEntry env.clock 0
        (loggedTexts "foo\n".toList)).flatten ≠ [] :=
    fun empty => active.2 (flatten_stamped_eq_nil_iff.mp empty)
  have sent :=
    safe env "foo\n".toList false rfl (by decide) (by decide)
  rw [lokiAddTrace_eq env _ false active] at sent
  have fits := (len_jsonMessage_le_iff false printed).mp (sent.len _ rfl)
  exact absurd fits (by decide)

/-- A message that is queued is the one of the trace. -/
theorem message_of_queued
    {env : Environment}
    {log : CString}
    {iscmd : Bool}
    {values : List CString}
    {message : JsonStr}
    (queued : lokiAdd env log iscmd = .queued values message) :
    (lokiAddTrace env log iscmd).message = some message := by
  rw [lokiAdd_eq] at queued
  by_cases active : env.lokiRunning = true ∧ loggedTexts log ≠ []
  · rw [if_pos active] at queued
    simp only at queued
    split at queued
    · cases queued
    · split at queued
      · next memory =>
          rw [lokiAddTrace_eq env log iscmd active]
          simp only [memory, ↓reduceIte]
          exact congrArg some (Outcome.queued.inj queued).2
      · cases queued
  · rw [if_neg active] at queued
    cases queued

end Csh.Loki
