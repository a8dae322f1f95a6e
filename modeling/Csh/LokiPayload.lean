import Csh.Lib.CNumber
import Csh.Lib.Json
import Csh.LokiEntries

namespace Csh.Loki

open Libc Json

/-!
# Payloads for Loki

The payload of a message is printed from raw text: the head with the labels of
the stream, the entries without their last comma, and the end.  It is a document
in the push format of Loki if and only if every entry fits into `temp`, every
backslash of the log begins an escape of JSON, and the host name leaves room.
-/

/-- A stream in the push format: its labels, and its values with their times. -/
structure LokiStream where
  labels : List (CString × CString)
  values : List (CString × CString)

/-- A pair of strings. -/
def pairValue (pair : CString × CString) : Json.Value :=
  .array [.string pair.1, .string pair.2]

/-- A stream as a value. -/
def LokiStream.value (stream : LokiStream) : Json.Value :=
  .object
    [("stream".toList,
        .object (stream.labels.map fun label => (label.1, .string label.2))),
      ("values".toList, .array (stream.values.map pairValue))]

/-- The streams of a document in the push format. -/
def pushValue (streams : List LokiStream) : Json.Value :=
  .object [("streams".toList, .array (streams.map LokiStream.value))]

/-- A document in the push format, whose values are pairs of strings. -/
def IsLokiPush (text : CString) : Prop :=
  ∃ streams, lex .outside text = some (pushValue streams).tokens

/--
What is posted of a message, with what lies behind its text in memory: the
length is that of the whole document, even if it did not fit.
-/
def JsonStr.posted (message : JsonStr) (behind : List Char) : List Char :=
  (message.data ++ nul :: behind).take message.len

/-- What is queued is posted as a document in the push format. -/
def Outcome.WellFormed : Outcome → Prop
  | .silent => True
  | .overflow => False
  | .skipped => True
  | .queued _ message => ∀ behind, IsLokiPush (message.posted behind)

/-- The characters of host names. -/
def isHostChar (c : Char) : Bool :=
  c.isAlphanum || c == '-' || c == '.'

/-- A log is printed in full and in order. -/
structure Printable (env : Environment) (log : CString) (iscmd : Bool) :
    Prop where
  /-- The entries fit into `temp`. -/
  fit :
    ∀ value ∈ stamped entry env.clock 0 (loggedTexts log),
      value.length < tempSize
  /-- Every backslash begins an escape. -/
  escaped : ∀ text ∈ loggedTexts log, IsStringBody text
  /-- The labels fit into `json_str_buf`. -/
  host :
    env.hostname.length + (printUnsigned env.slashDflNode).length +
        (logType iscmd).length ≤
      env.cspHostnameLen + 20

/--
If anything of a log is posted, then it has had room in `formatted_log` and is
printed in full and in order.
-/
def Postable (env : Environment) (log : CString) (iscmd : Bool) : Prop :=
  env.lokiRunning = true →
    loggedTexts log ≠ [] →
      (stamped cutEntry env.clock 0 (loggedTexts log)).flatten.length <
          formattedLogSize ∧
        (env.malloc = true → Printable env log iscmd)

/-- The time of an entry. -/
def stamp (msec : Int64) : CString :=
  printInt msec.toInt ++ "000".toList

/-- An entry up to its text. -/
def entryHead (msec : Int64) : CString :=
  "[\"".toList ++ stamp msec ++ "\", \"".toList

theorem entry_eq
    (msec : Int64)
    (text : CString) :
    entry msec text = entryHead msec ++ (text ++ "\"],".toList) := by
  simp [entry, entryHead, stamp]

theorem isOrdinary_of_isDigit
    {c : Char}
    (digit : c.isDigit = true) :
    IsOrdinary c := by
  refine ⟨ne_of_isDigit digit (by decide), ne_of_isDigit digit (by decide), ?_⟩
  have range := toNat_of_isDigit digit
  omega

theorem isOrdinary_minus :
    IsOrdinary '-' :=
  ⟨by decide, by decide, by decide⟩

theorem isStringBody_stamp
    (msec : Int64) :
    IsStringBody (stamp msec) := by
  refine isStringBody_of_ordinary fun c member => ?_
  rcases List.mem_append.mp member with number | zero
  · rcases mem_printInt number with rfl | digit
    · exact isOrdinary_minus
    · exact isOrdinary_of_isDigit digit
  · have digit : c = '0' := by
      simpa using zero
    rw [digit]
    exact isOrdinary_of_isDigit rfl

/-- No token begins with a digit. -/
theorem lex_of_isDigit
    {c : Char}
    (digit : c.isDigit = true)
    (rest : List Char) :
    lex .outside (c :: rest) = none := by
  have noToken : punctuation? c = none := by
    unfold punctuation?
    split <;> first | rfl | cases digit
  have noBlank : isBlank c = false := by
    simp [isBlank, ne_of_isDigit digit]
  have noQuote : c ≠ '"' :=
    ne_of_isDigit digit (by decide)
  simp [lex, noToken, noBlank, noQuote]

/-- 64 bits give at most 20 characters. -/
theorem length_printInt_le
    (msec : Int64) :
    (printInt msec.toInt).length ≤ 20 := by
  have lower := msec.le_toInt
  have upper := msec.toInt_lt
  have digits : (printUnsigned msec.toInt.natAbs).length ≤ 19 :=
    (Nat.length_toDigits_le_iff (by decide) (by decide)).mpr (by omega)
  rw [printInt]
  split
  · rw [List.length_cons]
    omega
  · omega

/-- The head of an entry is far from filling `temp`. -/
theorem length_entryHead_le
    (msec : Int64) :
    (entryHead msec).length ≤ 29 := by
  have number := length_printInt_le msec
  simp only [entryHead, stamp, List.length_append]
  have fixed :
      "[\"".toList.length + "000".toList.length + "\", \"".toList.length =
        9 := by
    decide
  omega

/-- An entry begins with a bracket and a quote, and no token follows them. -/
theorem entryHead_eq
    (msec : Int64) :
    ∃ c later,
      entryHead msec = '[' :: '"' :: c :: (later ++ "\", \"".toList) ∧
        ∀ rest, lex .outside (c :: rest) = none := by
  have some : printInt msec.toInt ≠ [] := by
    rw [printInt]
    split
    · simp
    · exact (isNumeral_printUnsigned _).1
  obtain ⟨c, later, number⟩ := List.exists_cons_of_ne_nil some
  refine ⟨c, later ++ "000".toList, ?_, fun rest => ?_⟩
  · rw [entryHead, stamp, number]
    rfl
  · have member : c ∈ printInt msec.toInt := by
      rw [number]
      exact List.mem_cons_self
    rcases mem_printInt member with rfl | digit
    · rfl
    · exact lex_of_isDigit digit rest

/-- What the head of an entry gives. -/
theorem lex_entryHead
    (msec : Int64)
    (rest : List Char) :
    lex .outside (entryHead msec ++ rest) =
      (lex (.inString .plain []) rest).map fun later =>
        [.openBracket, .string (stamp msec), .comma] ++ later := by
  have opened :
      feed .outside "[\"".toList =
        some ([.openBracket], .inString .plain []) :=
    rfl
  have closed :
      feed (.inString .plain (stamp msec)) "\", \"".toList =
        some ([.string (stamp msec), .comma], .inString .plain []) :=
    rfl
  rw [entryHead, List.append_assoc, List.append_assoc, lex_of_feed opened,
    lex_of_scan (isStringBody_stamp msec), List.nil_append, lex_of_feed closed,
    Option.map_map]
  rfl

/-- What is left of an entry in `temp`: all of it, or without its end. -/
theorem cutEntry_cases
    (msec : Int64)
    (text : CString) :
    (entry msec text).length < tempSize ∧
        cutEntry msec text = entryHead msec ++ (text ++ "\"],".toList) ∨
      ¬ (entry msec text).length < tempSize ∧
        (cutEntry msec text = entryHead msec ++ (text ++ "\"]".toList) ∨
          cutEntry msec text = entryHead msec ++ (text ++ "\"".toList) ∨
          ∃ part,
            part ≠ [] ∧ part <+: text ∧
              cutEntry msec text = entryHead msec ++ part) := by
  have head := length_entryHead_le msec
  have length :
      (entry msec text).length = (entryHead msec).length + text.length + 3 := by
    simp [entry_eq]
    omega
  have cut :
      cutEntry msec text =
        entryHead msec ++
          (text.take (4047 - (entryHead msec).length) ++
            "\"],".toList.take
              (4047 - (entryHead msec).length - text.length)) := by
    have size : tempSize - 1 = 4047 := rfl
    rw [cutEntry, snprintf, size, entry_eq, List.take_append,
      List.take_of_length_le (by omega), List.take_append]
  rw [length, cut, tempSize]
  obtain ⟨room, left⟩ :
      ∃ room, 4047 - (entryHead msec).length = room :=
    ⟨_, rfl⟩
  rw [left]
  by_cases whole : text.length < room
  · rw [List.take_of_length_le (by omega)]
    have one : "\"],".toList.take 1 = "\"".toList := by
      decide
    have two : "\"],".toList.take 2 = "\"]".toList := by
      decide
    rcases Nat.lt_or_ge (room - text.length) 3 with short | long
    · obtain last | last : room - text.length = 1 ∨ room - text.length = 2 := by
        omega
      · rw [last, one]
        exact .inr ⟨by omega, .inr (.inl rfl)⟩
      · rw [last, two]
        exact .inr ⟨by omega, .inl rfl⟩
    · have all : "\"],".toList.length = 3 := by
        decide
      rw [List.take_of_length_le (by omega)]
      exact .inl ⟨by omega, rfl⟩
  · have none : room - text.length = 0 := by
      omega
    refine .inr ⟨by omega, .inr (.inr ⟨text.take room, ?_, ?_, ?_⟩)⟩
    · rw [ne_eq, List.take_eq_nil_iff, not_or]
      exact ⟨by omega, fun empty => by simp [empty] at whole; omega⟩
    · exact List.take_prefix room text
    · rw [none, List.take_zero, List.append_nil]

section Completes

variable {msec : Int64}
variable {text : CString}

theorem completes_entryHead_iff
    {rest : List Char} :
    Completes .outside ⟨false, 2⟩ (entryHead msec ++ rest) ↔
      Completes (.inString .plain []) ⟨false, 3⟩ rest :=
  completes_iff_of_lex (lex_entryHead msec rest) rfl

theorem quote_not_mem_jsonEnd :
    '"' ∉ jsonEnd := by
  decide

/-- Inside a string, the end of a document is no end. -/
theorem lex_jsonEnd_inString
    {part : List Char}
    (unquoted : '"' ∉ part)
    (body : List Char) :
    lex (.inString .plain body) (part ++ jsonEnd) = none := by
  refine lex_of_unquoted ?_ body
  rw [List.mem_append, not_or]
  exact ⟨unquoted, quote_not_mem_jsonEnd⟩

/-- The end does not close an array that is still open. -/
theorem not_completes_jsonEnd :
    ¬ Completes .outside ⟨true, 3⟩ jsonEnd := by
  rintro ⟨tokens, lexed, completed⟩
  cases lexed
  revert completed
  decide

/-- The last entry of a document is printed in full and in order. -/
theorem of_completes_last
    (unquoted : '"' ∉ text)
    (completes :
      Completes .outside ⟨false, 2⟩
        ((cutEntry msec text).dropLast ++ jsonEnd)) :
    (entry msec text).length < tempSize ∧ IsStringBody text := by
  rcases cutEntry_cases msec text with
    ⟨short, cut⟩ | ⟨_, cut | cut | ⟨part, some, inText, cut⟩⟩
  · rw [cut, ← List.append_assoc, List.dropLast_append_of_ne_nil (by simp),
      List.append_assoc, List.append_assoc, completes_entryHead_iff]
      at completes
    have bracket : '"' ∉ "]".toList := by
      decide
    exact
      ⟨short,
        isStringBody_of_completes unquoted (lex_jsonEnd_inString bracket)
          completes⟩
  · -- The cut takes the bracket instead of the comma.
    rw [cut, ← List.append_assoc, List.dropLast_append_of_ne_nil (by simp),
      List.append_assoc, List.append_assoc, completes_entryHead_iff]
      at completes
    have isBody :=
      isStringBody_of_completes unquoted
        (lex_jsonEnd_inString List.not_mem_nil) completes
    exact
      absurd ((completes_iff_of_isStringBody isBody rfl).mp completes)
        not_completes_jsonEnd
  · -- The cut takes the quote.
    rw [cut, ← List.append_assoc, List.dropLast_append_of_ne_nil (by simp),
      List.append_assoc, List.append_assoc, completes_entryHead_iff]
      at completes
    exact
      absurd completes
        (not_completes_of_lex (lex_jsonEnd_inString unquoted _))
  · rw [cut, List.dropLast_append_of_ne_nil some, List.append_assoc,
      completes_entryHead_iff] at completes
    have unquotedPart : '"' ∉ part.dropLast := fun member =>
      unquoted (inText.subset (List.dropLast_subset part member))
    exact
      absurd completes
        (not_completes_of_lex (lex_jsonEnd_inString unquotedPart _))

/-- A text in front of another entry is in order, whatever separates them. -/
theorem of_completes_separated
    (unquoted : '"' ∉ text)
    {separator rest : List Char}
    (bare : '"' ∉ separator)
    (stuck : lex .outside rest = none)
    (completes :
      Completes (.inString .plain []) ⟨false, 3⟩
        (text ++ '"' :: (separator ++ '[' :: '"' :: rest))) :
    IsStringBody text ∧
      Completes .outside ⟨true, 3⟩ (separator ++ '[' :: '"' :: rest) := by
  have isBody :=
    isStringBody_of_completes unquoted
      (fun longer => lex_of_bracket_quote bare longer stuck) completes
  exact ⟨isBody, (completes_iff_of_isStringBody isBody rfl).mp completes⟩

/-- Any other entry is, too, and the rest completes the document. -/
theorem of_completes_more
    (unquoted : '"' ∉ text)
    {rest : List Char}
    (stuck : lex .outside rest = none)
    (completes :
      Completes .outside ⟨false, 2⟩
        (cutEntry msec text ++ '[' :: '"' :: rest)) :
    (entry msec text).length < tempSize ∧ IsStringBody text ∧
      Completes .outside ⟨false, 2⟩ ('[' :: '"' :: rest) := by
  have openNext :
      lex .outside ('[' :: '"' :: rest) =
        (lex (.inString .plain []) rest).map fun later =>
          [.openBracket] ++ later :=
    rfl
  rcases cutEntry_cases msec text with
    ⟨short, cut⟩ | ⟨_, cut | cut | ⟨part, some, inText, cut⟩⟩
  · rw [cut, List.append_assoc, List.append_assoc,
      completes_entryHead_iff] at completes
    have bare : '"' ∉ "],".toList := by
      decide
    obtain ⟨isBody, next⟩ :=
      of_completes_separated unquoted bare stuck completes
    have fed :
        feed .outside "],".toList = some ([.closeBracket, .comma], .outside) :=
      rfl
    exact
      ⟨short, isBody, (completes_iff_of_lex (lex_of_feed fed _) rfl).mp next⟩
  · -- The comma is missing.
    rw [cut, List.append_assoc, List.append_assoc,
      completes_entryHead_iff] at completes
    have bare : '"' ∉ "]".toList := by
      decide
    obtain ⟨_, next⟩ := of_completes_separated unquoted bare stuck completes
    have fed :
        feed .outside "]".toList = some ([.closeBracket], .outside) :=
      rfl
    have bracket := (completes_iff_of_lex (lex_of_feed fed _) rfl).mp next
    exact absurd bracket (not_completes_of_follow openNext rfl)
  · -- The bracket is missing, too.
    rw [cut, List.append_assoc, List.append_assoc,
      completes_entryHead_iff] at completes
    obtain ⟨_, next⟩ :=
      of_completes_separated unquoted List.not_mem_nil stuck completes
    exact absurd next (not_completes_of_follow openNext rfl)
  · -- The string goes on into the next entry.
    rw [cut, List.append_assoc, completes_entryHead_iff] at completes
    have bare : '"' ∉ part := fun member =>
      unquoted (inText.subset member)
    exact
      absurd completes
        (not_completes_of_lex (lex_of_bracket_quote bare [] stuck))

end Completes

/-- The values of a document and its end, from some entry on. -/
def valuesText
    (clock : Nat → Int64)
    (made : Nat)
    (texts : List CString) :
    CString :=
  (stamped cutEntry clock made texts).flatten.dropLast ++ jsonEnd

theorem exists_cutEntry
    (msec : Int64)
    (text : CString) :
    ∃ part, cutEntry msec text = entryHead msec ++ part := by
  rcases cutEntry_cases msec text with
    ⟨_, cut⟩ | ⟨_, cut | cut | ⟨part, _, _, cut⟩⟩
  all_goals exact ⟨_, cut⟩

section Values

variable {clock : Nat → Int64}

/-- The values begin with the head of an entry. -/
theorem valuesText_cons
    (made : Nat)
    (text : CString)
    (rest : List CString) :
    ∃ more,
      valuesText clock made (text :: rest) = '[' :: '"' :: more ∧
        lex .outside more = none := by
  obtain ⟨part, cut⟩ := exists_cutEntry (clock made) text
  obtain ⟨c, later, head, stuck⟩ := entryHead_eq (clock made)
  have some :
      later ++ "\", \"".toList ++ part ++
          (stamped cutEntry clock (made + 1) rest).flatten ≠
        [] := by
    simp
  refine
    ⟨c ::
      ((later ++ "\", \"".toList ++ part ++
            (stamped cutEntry clock (made + 1) rest).flatten).dropLast ++
        jsonEnd), ?_, stuck _⟩
  rw [valuesText, stamped, List.flatten_cons, cut, head]
  simp only [List.cons_append]
  rw [List.dropLast_cons_of_ne_nil (by simp),
    List.dropLast_cons_of_ne_nil (by simp), List.dropLast_cons_of_ne_nil some]
  rfl

/-- All entries but the last are printed with what separates them. -/
theorem valuesText_cons_cons
    (made : Nat)
    (first second : CString)
    (rest : List CString) :
    valuesText clock made (first :: second :: rest) =
      cutEntry (clock made) first ++
        valuesText clock (made + 1) (second :: rest) := by
  have some :
      (stamped cutEntry clock (made + 1) (second :: rest)).flatten ≠ [] := by
    rw [ne_eq, flatten_stamped_eq_nil_iff]
    simp
  rw [valuesText, stamped, List.flatten_cons,
    List.dropLast_append_of_ne_nil some, List.append_assoc]
  rfl

/-- Entry by entry, a complete document is printed in full and in order. -/
theorem of_completes_valuesText
    {made : Nat}
    {texts : List CString}
    (some : texts ≠ [])
    (unquoted : ∀ text ∈ texts, '"' ∉ text)
    (completes :
      Completes .outside ⟨false, 2⟩ (valuesText clock made texts)) :
    (∀ value ∈ stamped entry clock made texts, value.length < tempSize) ∧
      ∀ text ∈ texts, IsStringBody text := by
  induction texts generalizing made with
  | nil =>
      exact absurd rfl some
  | cons text rest inductionHypothesis =>
      obtain ⟨here, later⟩ := List.forall_mem_cons.mp unquoted
      cases rest with
      | nil =>
          have last :
              Completes .outside ⟨false, 2⟩
                ((cutEntry (clock made) text).dropLast ++ jsonEnd) := by
            simpa [valuesText, stamped] using completes
          obtain ⟨short, isBody⟩ := of_completes_last here last
          simpa [stamped] using ⟨short, isBody⟩
      | cons second rest =>
          obtain ⟨more, shape, stuck⟩ := valuesText_cons (made + 1) second rest
          rw [valuesText_cons_cons, shape] at completes
          obtain ⟨short, isBody, next⟩ :=
            of_completes_more here stuck completes
          rw [← shape] at next
          obtain ⟨shorts, areBodies⟩ :=
            inductionHypothesis (List.cons_ne_nil _ _) later next
          exact
            ⟨List.forall_mem_cons.mpr ⟨short, shorts⟩,
              List.forall_mem_cons.mpr ⟨isBody, areBodies⟩⟩

/-- The tokens of an entry in full, up to its last bracket. -/
theorem lex_entry
    {msec : Int64}
    {text : CString}
    (isBody : IsStringBody text)
    (rest : List Char) :
    lex .outside (entryHead msec ++ (text ++ '"' :: ']' :: rest)) =
      (lex .outside rest).map fun later =>
        (pairValue (stamp msec, text)).tokens ++ later := by
  have bracket :
      lex .outside (']' :: rest) =
        (lex .outside rest).map fun later => .closeBracket :: later :=
    rfl
  rw [lex_entryHead, lex_of_isStringBody isBody, bracket, Option.map_map,
    Option.map_map]
  rfl

/-- The tokens of values that have been printed in full and in order. -/
theorem lex_valuesText
    {made : Nat}
    {texts : List CString}
    (some : texts ≠ [])
    (fit : ∀ value ∈ stamped entry clock made texts, value.length < tempSize)
    (escaped : ∀ text ∈ texts, IsStringBody text) :
    lex .outside (valuesText clock made texts) =
      Option.some
        (elementTokens
            ((stamped (fun msec text => (stamp msec, text)) clock made
              texts).map pairValue) ++
          [.closeBracket, .closeBrace, .closeBracket, .closeBrace]) := by
  induction texts generalizing made with
  | nil =>
      exact absurd rfl some
  | cons text rest inductionHypothesis =>
      obtain ⟨short, shorts⟩ := List.forall_mem_cons.mp fit
      obtain ⟨isBody, areBodies⟩ := List.forall_mem_cons.mp escaped
      have whole : cutEntry (clock made) text = entry (clock made) text :=
        List.take_of_length_le (Nat.le_pred_of_lt short)
      cases rest with
      | nil =>
          have last :
              valuesText clock made [text] =
                entryHead (clock made) ++ (text ++ '"' :: ']' :: jsonEnd) := by
            simp only [valuesText, stamped, List.flatten_cons,
              List.flatten_nil, List.append_nil, whole, entry_eq]
            rw [← List.append_assoc,
              List.dropLast_append_of_ne_nil (by simp), List.append_assoc,
              List.append_assoc]
            rfl
          rw [last, lex_entry isBody]
          rfl
      | cons second rest =>
          have comma :
              lex .outside
                  (',' :: valuesText clock (made + 1) (second :: rest)) =
                (lex .outside
                    (valuesText clock (made + 1) (second :: rest))).map
                  fun later => .comma :: later :=
            rfl
          have split :
              valuesText clock made (text :: second :: rest) =
                entryHead (clock made) ++
                  (text ++
                    '"' :: ']' :: ',' ::
                      valuesText clock (made + 1) (second :: rest)) := by
            rw [valuesText_cons_cons, whole, entry_eq, List.append_assoc,
              List.append_assoc]
            rfl
          rw [split, lex_entry isBody, comma,
            inductionHypothesis (List.cons_ne_nil _ _) shorts areBodies]
          simp [stamped, elementTokens, moreElementTokens]

end Values

section Document

variable {env : Environment}

/-- What is printed in front of the values. -/
def pushHead (env : Environment) (iscmd : Bool) : CString :=
  jsonInstance ++ env.hostname ++ jsonNode ++
    printUnsigned env.slashDflNode ++ jsonType ++ logType iscmd ++ jsonValues

/-- The labels of the stream. -/
def pushLabels (env : Environment) (iscmd : Bool) : List (CString × CString) :=
  [("instance".toList, env.hostname),
    ("node".toList, printUnsigned env.slashDflNode),
    ("type".toList, logType iscmd)]

/-- The tokens in front of the values. -/
def headTokens (env : Environment) (iscmd : Bool) : List Token :=
  [.openBrace, .string "streams".toList, .colon, .openBracket, .openBrace,
    .string "stream".toList, .colon, .openBrace,
    .string "instance".toList, .colon, .string env.hostname, .comma,
    .string "node".toList, .colon, .string (printUnsigned env.slashDflNode),
    .comma, .string "type".toList, .colon, .string (logType iscmd),
    .closeBrace, .comma, .string "values".toList, .colon, .openBracket]

theorem jsonStr_eq
    (iscmd : Bool)
    (formattedLog : CString) :
    jsonStr env iscmd formattedLog =
      pushHead env iscmd ++ (formattedLog ++ jsonEnd) := by
  simp only [jsonStr, pushHead, List.append_assoc]

theorem isStringBody_logType
    (iscmd : Bool) :
    IsStringBody (logType iscmd) := by
  cases iscmd <;> decide

theorem isStringBody_printUnsigned
    (node : Nat) :
    IsStringBody (printUnsigned node) :=
  isStringBody_of_ordinary fun c member =>
    isOrdinary_of_isDigit ((isNumeral_printUnsigned node).2.1 c member)

/-- What is printed in front of the values gives the labels. -/
theorem lex_pushHead
    (plain : IsStringBody env.hostname)
    (iscmd : Bool)
    (rest : List Char) :
    lex .outside (pushHead env iscmd ++ rest) =
      (lex .outside rest).map fun later => headTokens env iscmd ++ later := by
  have opened :
      feed .outside jsonInstance =
        some
          ([.openBrace, .string "streams".toList, .colon, .openBracket,
              .openBrace, .string "stream".toList, .colon, .openBrace,
              .string "instance".toList, .colon],
            .inString .plain []) :=
    rfl
  have node :
      feed (.inString .plain env.hostname) jsonNode =
        some
          ([.string env.hostname, .comma, .string "node".toList, .colon],
            .inString .plain []) :=
    rfl
  have type :
      feed (.inString .plain (printUnsigned env.slashDflNode)) jsonType =
        some
          ([.string (printUnsigned env.slashDflNode), .comma,
              .string "type".toList, .colon],
            .inString .plain []) :=
    rfl
  have values :
      feed (.inString .plain (logType iscmd)) jsonValues =
        some
          ([.string (logType iscmd), .closeBrace, .comma,
              .string "values".toList, .colon, .openBracket],
            .outside) :=
    rfl
  simp only [pushHead, List.append_assoc]
  rw [lex_of_feed opened, lex_of_scan plain, List.nil_append,
    lex_of_feed node,
    lex_of_scan (isStringBody_printUnsigned env.slashDflNode),
    List.nil_append, lex_of_feed type,
    lex_of_scan (isStringBody_logType iscmd), List.nil_append,
    lex_of_feed values, Option.map_map, Option.map_map, Option.map_map]
  rfl

/-- The pieces of a stripped log have no quotes. -/
theorem quote_not_mem_of_logged
    {log text : CString}
    (logged : text ∈ loggedTexts log) :
    '"' ∉ text := by
  intro quote
  have walked := (List.mem_filter.mp logged).1
  have piece :=
    List.take_subset _ _ ((List.takeWhile_prefix _).subset walked)
  have written := (mem_of_mem_splitOn piece quote).1
  rw [written_stripLoop] at written
  exact quote_not_mem_output _ _ written

/-- A document that fits is posted as it is. -/
theorem posted_whole
    (text behind : CString) :
    (JsonStr.mk text text.length).posted behind = text := by
  simp [JsonStr.posted]

/-- Of a document that does not fit, a NUL is posted. -/
theorem nul_mem_posted
    {message : JsonStr}
    (cut : message.data.length < message.len)
    (behind : List Char) :
    nul ∈ message.posted behind := by
  rw [JsonStr.posted, List.take_append]
  obtain ⟨more, left⟩ :
      ∃ more, message.len - message.data.length = more + 1 :=
    ⟨message.len - message.data.length - 1, by omega⟩
  rw [left, List.take_succ_cons]
  simp

theorem isBarred_nul :
    IsBarred nul := by
  refine ⟨by decide, rfl, rfl, fun place => ?_⟩
  cases place <;> rfl

/-- A document in order, and how it is printed. -/
theorem isLokiPush_iff
    (plain : IsStringBody env.hostname)
    (iscmd : Bool)
    {clock : Nat → Int64}
    {texts : List CString}
    (some : texts ≠ [])
    (unquoted : ∀ text ∈ texts, '"' ∉ text) :
    IsLokiPush (pushHead env iscmd ++ valuesText clock 0 texts) ↔
      (∀ value ∈ stamped entry clock 0 texts, value.length < tempSize) ∧
        ∀ text ∈ texts, IsStringBody text := by
  constructor
  · rintro ⟨streams, lexed⟩
    have completes := completes_of_value lexed
    rw [completes_iff_of_lex (lex_pushHead plain iscmd _) rfl] at completes
    exact of_completes_valuesText some unquoted completes
  · rintro ⟨fit, escaped⟩
    refine
      ⟨[⟨pushLabels env iscmd,
          stamped (fun msec text => (stamp msec, text)) clock 0 texts⟩], ?_⟩
    rw [lex_pushHead plain, lex_valuesText some fit escaped]
    simp [pushValue, LokiStream.value, pushLabels, headTokens,
      Json.Value.tokens, elementTokens, moreElementTokens, memberTokens, moreMemberTokens]

/-- The document fits if the labels do. -/
theorem length_jsonStr_lt_iff
    (iscmd : Bool)
    {formattedLog : CString}
    (some : formattedLog ≠ []) :
    (jsonStr env iscmd formattedLog.dropLast).length <
        jsonStrMax env formattedLog.length ↔
      env.hostname.length + (printUnsigned env.slashDflNode).length +
          (logType iscmd).length ≤
        env.cspHostnameLen + 20 := by
  have length := length_jsonStr env iscmd formattedLog.dropLast
  have positive := List.length_pos_iff.mpr some
  rw [List.length_dropLast] at length
  rw [jsonStrMax]
  omega

/-- The characters of host names are ordinary. -/
theorem isOrdinary_of_isHostChar
    {c : Char}
    (host : isHostChar c = true) :
    IsOrdinary c := by
  refine ⟨?_, ?_, ?_⟩
  · rintro rfl
    exact absurd host (by decide)
  · rintro rfl
    exact absurd host (by decide)
  · have control : ∀ code < 32, isHostChar (Char.ofNat code) = false := by
      decide
    by_contra small
    have noHost := control c.toNat (by omega)
    rw [Char.ofNat_toNat, host] at noHost
    cases noHost

/-- What is posted is in order if and only if it is printed so. -/
theorem posted_iff_printable
    (plain : IsStringBody env.hostname)
    (log : CString)
    (iscmd : Bool)
    (some : loggedTexts log ≠ [])
    {values : List CString}
    (made : values = stamped cutEntry env.clock 0 (loggedTexts log)) :
    (∀ behind,
        IsLokiPush ((jsonMessage env iscmd values.flatten).posted behind)) ↔
      Printable env log iscmd := by
  have printed : values.flatten ≠ [] := by
    rwa [made, ne_eq, flatten_stamped_eq_nil_iff]
  have host := @length_jsonStr_lt_iff env iscmd values.flatten printed
  by_cases fits :
      (jsonStr env iscmd values.flatten.dropLast).length <
        jsonStrMax env values.flatten.length
  · have document :=
      @isLokiPush_iff env plain iscmd env.clock _ some
        fun text => quote_not_mem_of_logged
    have whole :
        (jsonStr env iscmd values.flatten.dropLast).take
            (jsonStrMax env values.flatten.length - 1) =
          jsonStr env iscmd values.flatten.dropLast :=
      List.take_of_length_le (Nat.le_pred_of_lt fits)
    rw [jsonMessage, snprintf, whole]
    simp only [posted_whole, forall_const, jsonStr_eq, made]
    rw [← valuesText, document]
    exact
      ⟨fun printed => ⟨printed.1, printed.2, host.mp fits⟩,
        fun printable => ⟨printable.fit, printable.escaped⟩⟩
  · have cut :
        (jsonMessage env iscmd values.flatten).data.length <
          (jsonMessage env iscmd values.flatten).len := by
      simp only [jsonMessage, snprintf, List.length_take]
      have positive : 0 < jsonStrMax env values.flatten.length := by
        rw [jsonStrMax]
        omega
      omega
    constructor
    · intro posted
      obtain ⟨streams, lexed⟩ := posted []
      rw [lex_of_isBarred isBarred_nul (nul_mem_posted cut []) .outside]
        at lexed
      cases lexed
    · exact fun printable => absurd (host.mpr printable.host) fits

end Document

/--
Every payload that `loki_add` queues for a log is a document in the push format
of Loki, with pairs of strings as its values, if and only if the log is
postable.
-/
theorem wellFormed_iff_postable
    {env : Environment}
    (plain : ∀ c ∈ env.hostname, isHostChar c = true)
    (log : CString)
    (iscmd : Bool) :
    (lokiAdd env log iscmd).WellFormed ↔ Postable env log iscmd := by
  have name : IsStringBody env.hostname :=
    isStringBody_of_ordinary fun c member =>
      isOrdinary_of_isHostChar (plain c member)
  rw [lokiAdd_eq]
  by_cases active : env.lokiRunning = true ∧ loggedTexts log ≠ []
  · have posted := posted_iff_printable name log iscmd active.2 rfl
    rw [if_pos active]
    simp only [Postable, active.1, active.2, ne_eq, not_false_eq_true,
      forall_const]
    by_cases room :
        (stamped cutEntry env.clock 0 (loggedTexts log)).flatten.length <
          formattedLogSize
    · rw [if_neg (by omega)]
      cases memory : env.malloc with
      | false =>
          simp only [Bool.false_eq_true, if_false, Outcome.WellFormed, room,
            false_implies, and_self]
      | true =>
          simp only [if_true, Outcome.WellFormed, room, true_and,
            forall_const]
          exact posted
    · rw [if_pos (by omega)]
      simp only [Outcome.WellFormed, room, false_and]
  · rw [if_neg active]
    simp only [Outcome.WellFormed, true_iff]
    exact fun running some => absurd ⟨running, some⟩ active

theorem plain_standing :
    ∀ c ∈ standing.hostname, isHostChar c = true :=
  List.all_eq_true.mp rfl

/-- A line with a backslash that begins an escape. -/
theorem wellFormed_of_escape :
    (lokiAdd standing "foo\\tbar\n".toList false).WellFormed := by
  have output :
      stripper.output .copying (skipLeading "foo\\tbar\n".toList) =
        "foo\\tbar".toList ++ [nul] := by
    decide
  have logged : loggedTexts "foo\\tbar\n".toList = ["foo\\tbar".toList] := by
    have pieces :
        ("foo\\tbar".toList ++ [nul]).splitOn nul =
          ["foo\\tbar".toList, []] :=
      rfl
    rw [loggedTexts_of_output output, pieces]
    decide
  refine (wellFormed_iff_postable plain_standing _ _).mpr fun _ _ => ?_
  rw [logged]
  refine ⟨by decide, fun _ => ⟨?_, ?_, by decide⟩⟩
  · rw [logged]
    decide
  · rw [logged]
    decide

/-- A backslash of the log is not escaped. -/
theorem not_wellFormed_backslash :
    ¬ ∀ (env : Environment) (_ : ∀ c ∈ env.hostname, isHostChar c = true)
      (log : CString) (iscmd : Bool),
      (lokiAdd env log iscmd).WellFormed := by
  intro wellFormed
  have output :
      stripper.output .copying (skipLeading "\\x\n".toList) =
        "\\x".toList ++ [nul] := by
    decide
  have logged : loggedTexts "\\x\n".toList = ["\\x".toList] := by
    have pieces :
        ("\\x".toList ++ [nul]).splitOn nul = ["\\x".toList, []] :=
      rfl
    rw [loggedTexts_of_output output, pieces]
    decide
  have active :
      standing.lokiRunning = true ∧ loggedTexts "\\x\n".toList ≠ [] :=
    ⟨rfl, by rw [logged]; decide⟩
  have posted := wellFormed standing plain_standing "\\x\n".toList false
  rw [lokiAdd_eq, if_pos active, if_neg (by rw [logged]; decide),
    if_pos standing_on.memory] at posted
  have printable :=
    (posted_iff_printable (by decide) _ false active.2 rfl).mp posted
  have inOrder := printable.escaped _ (by rw [logged]; exact List.mem_cons_self)
  exact absurd inOrder (by decide)

end Csh.Loki
