import Csh.LokiStrip

namespace Csh.Loki

open Libc

/-!
# Entries of a log

`loki_add` makes an entry of every piece that `strip_str` leaves of a log, and
puts them together to a document for Loki.  It walks the pieces up to the first
empty one, with the number that `strip_str` returns as a bound.
-/

/-- What `loki_add` finds besides the log. -/
structure Environment where
  lokiRunning : Bool
  /-- The microseconds since 1970 when an entry is made, by its number. -/
  clock : Nat → Int64
  hostname : CString
  cspHostnameLen : Nat
  slashDflNode : Nat
  /-- `malloc` returns memory. -/
  malloc : Bool

/-- The size of `formatted_log`. -/
def formattedLogSize : Nat :=
  1024 * 1024 - 100

/-- The size of `temp`. -/
def tempSize : Nat :=
  4048

/-- An entry in full. -/
def entry (msec : Int64) (text : CString) : CString :=
  "[\"".toList ++ printInt msec.toInt ++ "000\", \"".toList ++ text ++
    "\"],".toList

/-- An entry as `temp` holds it. -/
def cutEntry (msec : Int64) (text : CString) : CString :=
  snprintf tempSize (entry msec text)

/-- The empty command line, which is left out. -/
def isPrompt (text : CString) : Bool :=
  strstr text " @ ".toList && strstr text " d. ".toList

/--
The loop of `loki_add`, from `p` on and with the turns that are left: what it
appends to `formatted_log`.
-/
def lokiLoop (clock : Nat → Int64) : Nat → Nat → List Char → List CString
  | 0, _, _ => []
  | left + 1, made, array =>
      if array.headD nul = nul then
        []
      else
        let p := array.takeWhile (· != nul)
        let next := array.drop (p.length + 1)
        if isPrompt p then
          lokiLoop clock left made next
        else
          cutEntry (clock made) p :: lokiLoop clock left (made + 1) next

/-- `json_format_str`. -/
def jsonFormatStr : CString :=
  ("\x7b\"streams\": [\x7b\"stream\": \x7b\"instance\": \"%s\"," ++
    "\"node\": \"%u\",\"type\": \"%s\"\x7d,\"values\": [%s]\x7d]\x7d").toList

/-- What stands in front of the instance. -/
def jsonInstance : CString :=
  "\x7b\"streams\": [\x7b\"stream\": \x7b\"instance\": \"".toList

/-- What stands between the instance and the node. -/
def jsonNode : CString :=
  "\",\"node\": \"".toList

/-- What stands between the node and the type. -/
def jsonType : CString :=
  "\",\"type\": \"".toList

/-- What stands between the type and the values. -/
def jsonValues : CString :=
  "\"\x7d,\"values\": [".toList

/-- What stands behind the values. -/
def jsonEnd : CString :=
  "]\x7d]\x7d".toList

/-- The type of a log. -/
def logType (iscmd : Bool) : CString :=
  if iscmd then "cmd".toList else "stdout".toList

/-- What `json_format_str` prints. -/
def jsonStr
    (env : Environment)
    (iscmd : Bool)
    (formattedLog : CString) :
    CString :=
  jsonInstance ++ env.hostname ++ jsonNode ++
    printUnsigned env.slashDflNode ++ jsonType ++ logType iscmd ++
    jsonValues ++ formattedLog ++ jsonEnd

/-- `json_str_max`. -/
def jsonStrMax (env : Environment) (formatLen : Nat) : Nat :=
  formatLen + env.cspHostnameLen + (jsonFormatStr.length + 1) + 11

/-- A message for the thread that posts, with the length it is to post. -/
structure JsonStr where
  data : CString
  len : Nat
  deriving Repr, DecidableEq

/-- The message for a log, which ends with a comma that is cut off. -/
def jsonMessage
    (env : Environment)
    (iscmd : Bool)
    (formattedLog : CString) :
    JsonStr :=
  let json := jsonStr env iscmd formattedLog.dropLast
  ⟨snprintf (jsonStrMax env formattedLog.length) json, json.length⟩

/--
What `loki_add` does: nothing, write behind the end of `formatted_log`, report
that there is no memory, or queue a message with some entries.
-/
inductive Outcome where
  | silent
  | overflow
  | skipped
  | queued (values : List CString) (message : JsonStr)
  deriving Repr, DecidableEq

/-- `loki_add`. -/
def lokiAdd (env : Environment) (log : CString) (iscmd : Bool) : Outcome :=
  if env.lokiRunning then
    let stripped := stripStr log
    if stripped.2 < 1 then
      .silent
    else
      let values := lokiLoop env.clock stripped.2 0 stripped.1
      let formattedLog := values.flatten
      if formattedLog.length ≥ formattedLogSize then
        .overflow
      else if formattedLog = [] then
        .silent
      else if env.malloc then
        .queued values (jsonMessage env iscmd formattedLog)
      else
        .skipped
  else
    .silent

/-- The arguments take the place of four conversions. -/
theorem length_jsonStr
    (env : Environment)
    (iscmd : Bool)
    (formattedLog : CString) :
    (jsonStr env iscmd formattedLog).length + 8 =
      jsonFormatStr.length + env.hostname.length +
        (printUnsigned env.slashDflNode).length +
        (logType iscmd).length + formattedLog.length := by
  have format :
      jsonInstance.length + jsonNode.length + jsonType.length +
          jsonValues.length + jsonEnd.length + 8 =
        jsonFormatStr.length := by
    decide
  simp only [jsonStr, List.length_append]
  omega

/-- A piece that becomes an entry. -/
def isLogged (text : CString) : Bool :=
  !text.isEmpty && !isPrompt text

/-- What is made of texts with the readings of the clock, from one on. -/
def stamped {α : Type}
    (print : Int64 → CString → α)
    (clock : Nat → Int64) :
    Nat → List CString → List α
  | _, [] => []
  | made, text :: rest =>
      print (clock made) text :: stamped print clock (made + 1) rest

/-- The pieces that the loop of `loki_add` comes to. -/
def walkedTexts (log : CString) : List CString :=
  (((stripLoop (skipLeading log)).written.splitOn nul).take
      (stripStr log).2).takeWhile
    fun text => !text.isEmpty

/-- The pieces that become entries. -/
def loggedTexts (log : CString) : List CString :=
  (walkedTexts log).filter isLogged

theorem headD_append_nul
    {piece : CString}
    (free : nul ∉ piece)
    (rest : List Char) :
    (piece ++ nul :: rest).headD nul = nul ↔ piece = [] := by
  cases piece with
  | nil =>
      simp
  | cons c later =>
      have different : c ≠ nul := by
        rintro rfl
        exact free List.mem_cons_self
      simp [different]

/-- One turn of the loop, at a piece that is not empty. -/
theorem lokiLoop_piece
    {clock : Nat → Int64}
    {left made : Nat}
    {piece : CString}
    (free : nul ∉ piece)
    (some : piece ≠ [])
    (rest : List Char) :
    lokiLoop clock (left + 1) made (piece ++ nul :: rest) =
      if isLogged piece then
        cutEntry (clock made) piece :: lokiLoop clock left (made + 1) rest
      else
        lokiLoop clock left made rest := by
  have going : ¬ (piece ++ nul :: rest).headD nul = nul := by
    rwa [headD_append_nul free]
  have next :
      (piece ++ nul :: rest).drop (piece.length + 1) = rest := by
    rw [List.drop_append]
    simp
  have logged : isLogged piece = !isPrompt piece := by
    simp [isLogged, some]
  rw [lokiLoop, if_neg going]
  simp only [takeWhile_append_nul free, next, logged]
  cases isPrompt piece <;> simp

/-- The loop makes the entries of the pieces up to the first empty one. -/
theorem lokiLoop_written
    {clock : Nat → Int64}
    {written : List Char}
    {left : Nat}
    (inside : left ≤ (written.splitOn nul).length)
    (made : Nat)
    (stale : List Char) :
    lokiLoop clock left made (written ++ nul :: stale) =
      stamped cutEntry clock made
        ((((written.splitOn nul).take left).takeWhile fun text =>
          !text.isEmpty).filter isLogged) := by
  induction written using splitOn_induction nul generalizing left made with
  | last piece free =>
      rw [List.splitOn_eq_singleton free] at inside ⊢
      cases left with
      | zero =>
          rfl
      | succ left =>
          have none : left = 0 := by
            simpa using inside
          subst none
          by_cases empty : piece = []
          · subst empty
            rfl
          · rw [lokiLoop_piece free empty]
            cases logged : isLogged piece <;>
              simp [empty, logged, stamped, lokiLoop]
  | cons piece rest free inductionHypothesis =>
      rw [List.splitOn_append_cons_self_of_not_mem free] at inside ⊢
      rw [List.append_assoc, List.cons_append]
      cases left with
      | zero =>
          rfl
      | succ left =>
          have within : left ≤ (rest.splitOn nul).length := by
            simpa using inside
          by_cases empty : piece = []
          · subst empty
            rfl
          · rw [lokiLoop_piece free empty, inductionHypothesis within,
              inductionHypothesis within]
            cases logged : isLogged piece <;>
              simp [empty, logged, stamped]

/-- The loop ends before it has passed the text that `strip_str` wrote. -/
theorem strCounter_le_pieces
    (log : CString) :
    (stripStr log).2 ≤
      ((stripLoop (skipLeading log)).written.splitOn nul).length := by
  rw [length_splitOn, ← strCounter_stripLoop]
  simp only [stripStr]
  split <;> omega

/-- The pieces that become entries, by what the loops of `strip_str` write. -/
theorem loggedTexts_of_output
    {log : CString}
    {written : List Char}
    (output : stripper.output .copying (skipLeading log) = written) :
    loggedTexts log =
      (((written.splitOn nul).take
          (if written.count nul ≥ 2 then
            written.count nul + 1
          else
            written.count nul)).takeWhile
        fun text => !text.isEmpty).filter isLogged := by
  simp only [loggedTexts, walkedTexts, stripStr, strCounter_stripLoop,
    written_stripLoop, output]

/-- The entries of `loki_add`. -/
theorem lokiLoop_stripStr
    (clock : Nat → Int64)
    (log : CString) :
    lokiLoop clock (stripStr log).2 0 (stripStr log).1 =
      stamped cutEntry clock 0 (loggedTexts log) :=
  lokiLoop_written (strCounter_le_pieces log) 0 _

end Csh.Loki
