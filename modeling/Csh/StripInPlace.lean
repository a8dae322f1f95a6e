import Csh.Loki
import Csh.Lib.CBuffer
import Csh.Lib.InPlace

namespace Csh.Loki

open Libc

/-!
# Stripping a log in place

`strip_str` moves two pointers over the array that holds the log.  Here its
loops run on the cells, with every read and write checked, and come to what
they leave of a log.  `loki_add` then reads the pieces of that text.
-/

/-- `read_p` moves over an escape sequence. -/
def skipEscape (p : InPlace Char) : Option (InPlace Char) :=
  let p := p.advance
  p.read.bind fun bracket =>
    if bracket = '[' then
      (p.advance.skipWhile isParameter).bind fun p =>
        p.read.map fun final =>
          if final ≠ nul then
            p.advance
          else
            p
    else
      some p

/-- A special character in front of the end of the text. -/
def isSpecialInText (c : Char) : Bool :=
  c != nul && isSpecial c

/-- `read_p` moves over the special characters that a NUL is written for. -/
def replaceNewline (p : InPlace Char) : Option (InPlace Char) :=
  (p.skipWhile isSpecialInText).bind fun p => p.put nul

/--
A turn of the main loop of `strip_str`, at a character other than NUL: where
the pointers are then, and `str_counter`.
-/
def stripTurn
    (c : Char)
    (p : InPlace Char)
    (strCounter : Nat) :
    Option (InPlace Char × Nat) :=
  if c = esc then
    (skipEscape p).map fun p => (p, strCounter)
  else if c = '\n' then
    (replaceNewline p).map fun p => (p, strCounter + 1)
  else if c = '\t' then
    (p.replace ' ').map fun p => (p, strCounter)
  else if c = '"' then
    (p.replace '\'').map fun p => (p, strCounter)
  else if isControl c then
    some (p.advance, strCounter)
  else
    (p.replace c).map fun p => (p, strCounter)

section Progress

variable {p next : InPlace Char}

theorem remaining_skipEscape
    (skipped : skipEscape p = some next) :
    next.remaining ≤ p.advance.remaining := by
  obtain ⟨bracket, _, skipped⟩ := Option.bind_eq_some_iff.mp skipped
  split at skipped
  · obtain ⟨behind, passed, skipped⟩ := Option.bind_eq_some_iff.mp skipped
    obtain ⟨final, _, rfl⟩ := Option.map_eq_some_iff.mp skipped
    have parameters := InPlace.remaining_skipWhile passed
    have sequence := p.advance.remaining_advance
    have ends := behind.remaining_advance
    split <;> omega
  · obtain rfl := Option.some.inj skipped
    exact Nat.le_refl _

theorem remaining_replaceNewline
    (found : p.read = some '\n')
    (replaced : replaceNewline p = some next) :
    next.remaining ≤ p.advance.remaining := by
  obtain ⟨behind, passed, stored⟩ := Option.bind_eq_some_iff.mp replaced
  rw [InPlace.skipWhile_of_read found] at passed
  rw [InPlace.remaining_put stored]
  exact InPlace.remaining_skipWhile passed

/-- A character in place of another one takes one step. -/
theorem remaining_of_replaced
    {new : Char}
    {strCounter count : Nat}
    (turned :
      (p.replace new).map (fun p => (p, strCounter)) = some (next, count)) :
    next.remaining ≤ p.advance.remaining := by
  obtain ⟨_, replaced, ⟨⟩⟩ := Option.map_eq_some_iff.mp turned
  exact (InPlace.remaining_replace replaced).le

/-- Every turn reads on. -/
theorem remaining_stripTurn
    {c : Char}
    {strCounter count : Nat}
    (found : p.read = some c)
    (turned : stripTurn c p strCounter = some (next, count)) :
    next.remaining < p.remaining := by
  have further : next.remaining ≤ p.advance.remaining := by
    unfold stripTurn at turned
    split at turned
    · obtain ⟨_, skipped, ⟨⟩⟩ := Option.map_eq_some_iff.mp turned
      exact remaining_skipEscape skipped
    split at turned
    · rename_i newline
      rw [newline] at found
      obtain ⟨_, replaced, ⟨⟩⟩ := Option.map_eq_some_iff.mp turned
      exact remaining_replaceNewline found replaced
    split at turned
    · exact remaining_of_replaced turned
    split at turned
    · exact remaining_of_replaced turned
    split at turned
    · obtain ⟨⟩ := Option.some.inj turned
      exact Nat.le_refl _
    · exact remaining_of_replaced turned
  have left := InPlace.remaining_pos found
  rw [InPlace.remaining_advance] at further
  omega

end Progress

/--
The main loop of `strip_str`.  It yields nothing if it reads or writes outside
the array, or writes ahead of `read_p`.
-/
def stripLoopIn
    (p : InPlace Char)
    (strCounter : Nat) :
    Option (InPlace Char × Nat) :=
  match _found : p.read with
  | none => none
  | some c =>
      if c = nul then
        some (p, strCounter)
      else
        match _turned : stripTurn c p strCounter with
        | none => none
        | some (next, count) => stripLoopIn next count
termination_by p.remaining
decreasing_by exact remaining_stripTurn _found _turned

/--
`strip_str` on the cells of an array: what they are afterwards, and the number
it returns.
-/
def stripStrIn (cells : List Char) : Option (List Char × Nat) :=
  (InPlace.skipWhile (fun c => c == '\n' || c == '\r') ⟨cells, 0, 0⟩).bind
    fun p =>
      (stripLoopIn p 0).bind fun stripped =>
        (stripped.1.store nul).map fun p =>
          (p.cells,
            if stripped.2 ≥ 2 then
              stripped.2 + 1
            else
              stripped.2)

section Text

variable {text written rest : List Char}
variable {p : InPlace Char}

theorem nul_not_mem_dropWhile
    (plain : nul ∉ rest)
    (kind : Char → Bool) :
    nul ∉ rest.dropWhile kind :=
  fun member => plain ((List.dropWhile_suffix kind).subset member)

/-- An escape sequence is read over up to its final character. -/
theorem skipEscape_sequence
    {sequence : CString}
    (plain : nul ∉ sequence)
    (rewrites : p.Rewrites text written (esc :: '[' :: sequence ++ [nul])) :
    ∃ q,
      skipEscape p = some q ∧
        q.Rewrites text written
          ((sequence.dropWhile isParameter).drop 1 ++ [nul]) := by
  have stops : isParameter nul = false := by
    decide
  obtain ⟨q, reached, later, _⟩ :=
    rewrites.advance.advance.skipWhile isParameter stops
  simp only [skipEscape, rewrites.advance.read_eq, reached, Option.bind_some,
    if_pos]
  cases left : sequence.dropWhile isParameter with
  | nil =>
      rw [left] at later
      exact ⟨q, by simp [later.read_eq], later⟩
  | cons final behind =>
      have copied : final ≠ nul := by
        rintro rfl
        exact nul_not_mem_dropWhile plain isParameter (by simp [left])
      rw [left] at later
      exact ⟨q.advance, by simp [later.read_eq, copied], later.advance⟩

/-- Any other character behind the escape character is left to the main loop. -/
theorem skipEscape_other
    {c : Char}
    (noSequence : ∀ sequence, rest ≠ '[' :: sequence)
    (rewrites : p.Rewrites text written (c :: rest ++ [nul])) :
    skipEscape p = some p.advance := by
  cases rest with
  | nil =>
      simp only [skipEscape, rewrites.advance.read_eq, Option.bind_some]
      rfl
  | cons other behind =>
      have different : other ≠ '[' := by
        rintro rfl
        exact noSequence behind rfl
      simp [skipEscape, rewrites.advance.read_eq, different]

/-- In front of the end of the text, all special characters are skipped. -/
theorem dropWhile_isSpecialInText
    (plain : nul ∉ rest) :
    rest.dropWhile isSpecialInText = rest.dropWhile isSpecial := by
  induction rest with
  | nil =>
      rfl
  | cons c rest inductionHypothesis =>
      simp only [List.mem_cons, not_or] at plain
      obtain ⟨different, plain⟩ := plain
      have same : isSpecialInText c = isSpecial c := by
        simp [isSpecialInText, Ne.symm different]
      rw [List.dropWhile_cons, List.dropWhile_cons, same,
        inductionHypothesis plain]

/-- A newline and the special characters behind it make way for a NUL. -/
theorem replaceNewline_rewrites
    (plain : nul ∉ rest)
    (rewrites : p.Rewrites text written ('\n' :: rest ++ [nul])) :
    ∃ q,
      replaceNewline p = some q ∧
        q.Rewrites text (written ++ [nul])
          (rest.dropWhile isSpecial ++ [nul]) := by
  have stops : isSpecialInText nul = false := by
    decide
  have special : isSpecialInText '\n' = true := by
    decide
  obtain ⟨q, reached, later, passed⟩ :=
    rewrites.advance.skipWhile isSpecialInText stops
  have behind : q.writeP < q.readP := by
    rw [later.writeP, ← rewrites.writeP]
    exact Nat.lt_of_lt_of_le (Nat.lt_succ_of_le rewrites.behind) passed
  obtain ⟨next, stored, terminated⟩ := later.put (by simp) behind nul
  rw [dropWhile_isSpecialInText plain] at terminated
  refine ⟨next, ?_, terminated⟩
  rw [replaceNewline, InPlace.skipWhile_of_read rewrites.read_eq,
    if_pos special, reached]
  exact stored

/-- The main loop ends at the NUL behind the text. -/
theorem stripLoopIn_nul
    (found : p.read = some nul)
    (strCounter : Nat) :
    stripLoopIn p strCounter = some (p, strCounter) := by
  rw [stripLoopIn]
  split
  · rename_i missing
    rw [found] at missing
    cases missing
  · rename_i c again
    rw [if_pos (Option.some.inj (again.symm.trans found))]

/-- One turn of the main loop. -/
theorem stripLoopIn_turn
    {c : Char}
    {next : InPlace Char}
    {strCounter count : Nat}
    (found : p.read = some c)
    (inText : c ≠ nul)
    (turned : stripTurn c p strCounter = some (next, count)) :
    stripLoopIn p strCounter = stripLoopIn next count := by
  rw [stripLoopIn]
  split
  · rename_i missing
    rw [found] at missing
    cases missing
  · rename_i d again
    obtain rfl := Option.some.inj (again.symm.trans found)
    rw [if_neg inText]
    split
    · rename_i missing
      rw [turned] at missing
      cases missing
    · rename_i other otherCount againTurned
      obtain ⟨rfl, rfl⟩ :=
        Prod.mk.inj (Option.some.inj (againTurned.symm.trans turned))
      rfl

/-- From the rest of a text on, the loop on the cells leaves what is given. -/
def StripsTo (text rest : List Char) (stripped : Stripped) : Prop :=
  ∀ p written,
    InPlace.Rewrites text written (rest ++ [nul]) p →
      ∀ strCounter,
        ∃ q,
          stripLoopIn p strCounter =
              some (q, strCounter + stripped.strCounter) ∧
            q.Rewrites text (written ++ stripped.written) [nul]

/-- A turn that writes some characters and counts some NULs. -/
theorem StripsTo.turn
    {c : Char}
    {later : CString}
    {stripped : Stripped}
    (new : List Char)
    (count : Nat)
    (inText : c ≠ nul)
    (continues : StripsTo text later stripped)
    (turns :
      ∀ p written,
        InPlace.Rewrites text written (c :: rest ++ [nul]) p →
          ∃ next,
            (∀ strCounter,
              stripTurn c p strCounter = some (next, strCounter + count)) ∧
              next.Rewrites text (written ++ new) (later ++ [nul])) :
    StripsTo text (c :: rest)
      ⟨new ++ stripped.written, stripped.strCounter + count⟩ := by
  intro p written rewrites strCounter
  obtain ⟨next, turned, rewritten⟩ := turns p written rewrites
  obtain ⟨q, looped, final⟩ :=
    continues next (written ++ new) rewritten (strCounter + count)
  refine ⟨q, ?_, ?_⟩
  · rw [stripLoopIn_turn rewrites.read_eq inText (turned strCounter), looped,
      Nat.add_assoc, Nat.add_comm count]
  · rwa [← List.append_assoc]

/-- A turn that writes a character in place of the one that it reads. -/
theorem StripsTo.replace
    {c new : Char}
    {stripped : Stripped}
    (inText : c ≠ nul)
    (continues : StripsTo text rest stripped)
    (turns :
      ∀ p strCounter,
        stripTurn c p strCounter =
          (p.replace new).map fun p => (p, strCounter)) :
    StripsTo text (c :: rest) (stripped.write new) := by
  refine StripsTo.turn [new] 0 inText continues fun p written rewrites => ?_
  obtain ⟨next, replaced, rewritten⟩ := rewrites.replace new
  refine ⟨next, fun strCounter => ?_, rewritten⟩
  rw [turns, replaced]
  rfl

/-- The loop on the cells leaves what the loop over the text leaves. -/
theorem stripsTo_stripLoop
    (plain : nul ∉ rest) :
    StripsTo text rest (stripLoop rest) := by
  fun_induction stripLoop rest with
  | case1 =>
      intro p written rewrites strCounter
      refine ⟨p, stripLoopIn_nul rewrites.read_eq strCounter, ?_⟩
      rwa [List.append_nil]
  | case2 sequence inductionHypothesis =>
      have plainSequence : nul ∉ sequence := by
        simp only [List.mem_cons, not_or] at plain
        exact plain.2.2
      have plainLater : nul ∉ (sequence.dropWhile isParameter).drop 1 :=
        fun member =>
          nul_not_mem_dropWhile plainSequence isParameter
            (List.mem_of_mem_drop member)
      refine
        StripsTo.turn [] 0 (by decide) (inductionHypothesis plainLater)
          fun p written rewrites => ?_
      obtain ⟨next, skipped, later⟩ :=
        skipEscape_sequence plainSequence rewrites
      rw [List.append_nil]
      exact ⟨next, by simp [stripTurn, skipped], later⟩
  | case3 rest noSequence inductionHypothesis =>
      refine
        StripsTo.turn [] 0 (by decide)
          (inductionHypothesis (List.not_mem_of_not_mem_cons plain))
          fun p written rewrites => ?_
      have skipped := skipEscape_other noSequence rewrites
      rw [List.append_nil]
      exact ⟨p.advance, by simp [stripTurn, skipped], rewrites.advance⟩
  | case4 rest notEsc inductionHypothesis =>
      have plainRest : nul ∉ rest :=
        List.not_mem_of_not_mem_cons plain
      have plainLater := nul_not_mem_dropWhile plainRest isSpecial
      refine
        StripsTo.turn [nul] 1 (by decide) (inductionHypothesis plainLater)
          fun p written rewrites => ?_
      obtain ⟨next, replaced, later⟩ :=
        replaceNewline_rewrites plainRest rewrites
      exact ⟨next, by simp [stripTurn, notEsc, replaced], later⟩
  | case5 rest notEsc notNewline inductionHypothesis =>
      refine
        StripsTo.replace (by decide)
          (inductionHypothesis (List.not_mem_of_not_mem_cons plain)) ?_
      simp [stripTurn, notEsc]
  | case6 rest notEsc notNewline notTab inductionHypothesis =>
      refine
        StripsTo.replace (by decide)
          (inductionHypothesis (List.not_mem_of_not_mem_cons plain)) ?_
      simp [stripTurn, notEsc]
  | case7 c rest notEsc notNewline notTab notQuote control
      inductionHypothesis =>
      refine
        StripsTo.turn [] 0 (Ne.symm (List.ne_of_not_mem_cons plain))
          (inductionHypothesis (List.not_mem_of_not_mem_cons plain))
          fun p written rewrites => ?_
      rw [List.append_nil]
      exact
        ⟨p.advance,
          by simp [stripTurn, notEsc, notNewline, notTab, notQuote, control],
          rewrites.advance⟩
  | case8 c rest notEsc notNewline notTab notQuote control
      inductionHypothesis =>
      refine
        StripsTo.replace (Ne.symm (List.ne_of_not_mem_cons plain))
          (inductionHypothesis (List.not_mem_of_not_mem_cons plain)) ?_
      simp [stripTurn, notEsc, notNewline, notTab, notQuote, control]

end Text

/--
On the array of a log, `strip_str` neither leaves the array nor gets ahead of
what it reads, and it leaves what the loops over the text leave.
-/
theorem stripStrIn_eq
    {log : CString}
    (plain : nul ∉ log) :
    stripStrIn (log ++ [nul]) = some (stripStr log) := by
  obtain ⟨p, reached, later, _⟩ :=
    (InPlace.rewrites_start (log ++ [nul])).skipWhile
      (fun c => c == '\n' || c == '\r') (by decide)
  have plainLater : nul ∉ skipLeading log :=
    nul_not_mem_dropWhile plain _
  obtain ⟨q, looped, final⟩ :=
    stripsTo_stripLoop plainLater p [] later 0
  have stored := final.store_eq (by simp) nul
  simp only [stripStrIn, reached, looped, stored, Option.bind_some,
    Option.map_some, stripStr, Nat.zero_add, List.nil_append]

/-- A NUL, or a printable character other than a quote. -/
def IsStripped (c : Char) : Prop :=
  c = nul ∨ (32 ≤ c.toNat ∧ c.toNat ≤ 127 ∧ c ≠ '"')

theorem isStripped_of_mem_copyEmit
    {c output : Char}
    (written : output ∈ copyEmit c) :
    IsStripped output := by
  have noQuote : output ≠ '"' := by
    rintro rfl
    exact quote_not_mem_copyEmit c written
  unfold copyEmit at written
  split at written
  · cases written
  split at written
  · exact Or.inl (List.mem_singleton.mp written)
  split at written
  · rw [List.mem_singleton.mp written]
    exact Or.inr (by decide)
  split at written
  · rw [List.mem_singleton.mp written]
    exact Or.inr (by decide)
  split at written
  · cases written
  · rename_i printable
    obtain rfl := List.mem_singleton.mp written
    simp only [isControl, Bool.or_eq_true, decide_eq_true_eq, not_or,
      Nat.not_lt, Nat.not_le] at printable
    exact Or.inr ⟨printable.1, Nat.le_of_lt_succ printable.2, noQuote⟩

/-- Some cells that are read together. -/
structure ReadCells where
  start : Nat
  count : Nat
  deriving Repr, DecidableEq

/--
The loop of `loki_add`, from `p` on and with the turns that are left: the cells
that it reads.  `strstr`, `snprintf` and `strlen` read a piece with its NUL.
-/
def lokiReadLoop (cells : List Char) : Nat → Nat → List ReadCells
  | 0, _ => []
  | left + 1, p =>
      let piece := stringAt cells p
      ⟨p, piece.length + 1⟩ ::
        if piece = [] then
          []
        else
          lokiReadLoop cells left (p + piece.length + 1)

/-- The cells that `loki_add` reads of a log behind the call of `strip_str`. -/
def lokiReads (cells : List Char) (strCounter : Nat) : List ReadCells :=
  if strCounter < 1 then
    []
  else
    lokiReadLoop cells strCounter 0

theorem headD_eq_nul_iff
    (array : List Char) :
    array.headD nul = nul ↔ array.takeWhile (· != nul) = [] := by
  cases array with
  | nil =>
      simp
  | cons c rest =>
      simp

/-- The entries are made of the pieces that are read. -/
theorem lokiLoop_of_reads
    (clock : Nat → Int64)
    (cells : List Char)
    (left made p : Nat) :
    lokiLoop clock left made (cells.drop p) =
      stamped cutEntry clock made
        (((lokiReadLoop cells left p).map fun block =>
            stringAt cells block.start).filter isLogged) := by
  induction left generalizing made p with
  | zero =>
      rfl
  | succ left inductionHypothesis =>
      have piece :
          (cells.drop p).takeWhile (· != nul) = stringAt cells p :=
        rfl
      simp only [lokiLoop, lokiReadLoop, headD_eq_nul_iff, piece]
      by_cases empty : stringAt cells p = []
      · simp [empty, isLogged, stamped]
      · have next :
            (cells.drop p).drop ((stringAt cells p).length + 1) =
              cells.drop (p + (stringAt cells p).length + 1) := by
          rw [List.drop_drop, Nat.add_assoc]
        simp only [empty, next, inductionHypothesis]
        cases prompt : isPrompt (stringAt cells p) <;>
          simp [isLogged, empty, prompt, stamped]

/-- The walk over no more pieces than there are stays inside their text. -/
theorem lokiReadLoop_inside
    {cells before text stale : List Char}
    {left : Nat}
    (shape : cells = before ++ (text ++ nul :: stale))
    (inside : left ≤ (text.splitOn nul).length) :
    ∀ block ∈ lokiReadLoop cells left before.length,
      block.start + block.count ≤ before.length + text.length + 1 := by
  induction text using splitOn_induction nul generalizing left before with
  | last piece free =>
      have read : stringAt cells before.length = piece := by
        rw [shape, stringAt_append free]
      rw [List.splitOn_eq_singleton free] at inside
      cases left with
      | zero =>
          simp [lokiReadLoop]
      | succ left =>
          have none : left = 0 := by
            simpa using inside
          simp [lokiReadLoop, read, none, Nat.add_assoc]
  | cons piece rest free inductionHypothesis =>
      have apart :
          cells = before ++ (piece ++ nul :: (rest ++ nul :: stale)) := by
        rw [shape, List.append_assoc, List.cons_append]
      have read : stringAt cells before.length = piece := by
        rw [apart, stringAt_append free]
      rw [List.splitOn_append_cons_self_of_not_mem free] at inside
      cases left with
      | zero =>
          simp [lokiReadLoop]
      | succ left =>
          have within : left ≤ (rest.splitOn nul).length := by
            simpa using inside
          have later :=
            @inductionHypothesis (before ++ (piece ++ [nul])) left
              (by simp [apart]) within
          intro block member
          rw [lokiReadLoop, read] at member
          simp only [List.length_append, List.length_cons, List.length_nil,
            Nat.zero_add] at later ⊢
          rcases List.mem_cons.mp member with rfl | member
          · simp only
            omega
          · split at member
            · cases member
            · have bound := later block member
              omega

/-- The walk of `loki_add` stays inside the text that `strip_str` leaves. -/
theorem lokiReads_inside
    (log : CString)
    (stale : List Char) :
    ∀ block ∈
        lokiReads ((stripLoop (skipLeading log)).written ++ nul :: stale)
          (stripStr log).2,
      block.start + block.count ≤
        (stripLoop (skipLeading log)).written.length + 1 := by
  intro block member
  rw [lokiReads] at member
  split at member
  · cases member
  · have inside :=
      @lokiReadLoop_inside _ [] _ _ _ rfl (strCounter_le_pieces log) block
        member
    simpa using inside

/-- Every NUL takes the place of a newline. -/
theorem strCounter_le_length
    (log : CString) :
    (stripStr log).2 ≤ log.length + 1 := by
  have separators := strCounter_stripLoop (skipLeading log)
  have counted :
      (stripLoop (skipLeading log)).written.count nul ≤
        (stripLoop (skipLeading log)).written.length :=
    List.count_le_length
  have shorter := length_output_le .copying (skipLeading log)
  have leading : (skipLeading log).length ≤ log.length :=
    (List.dropWhile_suffix _).length_le
  rw [← written_stripLoop] at shorter
  simp only [stripStr]
  split <;> omega

/--
What `strip_str` makes of the array of a log: the text, its final NUL, and
stale cells behind it.
-/
structure SafelyStripped
    (log text stale : List Char)
    (strCounter : Nat) :
    Prop where
  /-- No read is behind the terminator, and no write ahead of what is read. -/
  terminates :
    stripStrIn (log ++ [nul]) = some (text ++ nul :: stale, strCounter)
  characters : ∀ c ∈ text, IsStripped c
  separators :
    strCounter =
      if text.count nul ≥ 2 then
        text.count nul + 1
      else
        text.count nul
  /-- An `int` holds the number for all logs that are passed to `loki_add`. -/
  counted : strCounter ≤ log.length + 1
  walk :
    ∀ block ∈ lokiReads (text ++ nul :: stale) strCounter,
      block.start + block.count ≤ text.length + 1

/--
`strip_str` stays inside the array of any log and behind what it reads, and the
number it returns keeps `loki_add` inside the text that it leaves.
-/
theorem stripStrIn_safe
    {log : CString}
    (plain : nul ∉ log) :
    ∃ text stale strCounter, SafelyStripped log text stale strCounter := by
  refine
    ⟨(stripLoop (skipLeading log)).written,
      (log ++ [nul]).drop ((stripLoop (skipLeading log)).written.length + 1),
      (stripStr log).2, ?_⟩
  exact {
    terminates := stripStrIn_eq plain
    characters := by
      rw [written_stripLoop]
      exact
        forall_mem_output
          (fun _ _ _ written => isStripped_of_mem_copyEmit written) .copying
    separators := by
      simp only [stripStr, strCounter_stripLoop]
    counted := strCounter_le_length log
    walk := lokiReads_inside log _
  }

theorem stripStrIn_safe_of_two_lines :
    ∃ text stale strCounter,
      SafelyStripped "\n\"on\"\n\tup\n".toList text stale strCounter :=
  stripStrIn_safe (by decide)

end Csh.Loki
