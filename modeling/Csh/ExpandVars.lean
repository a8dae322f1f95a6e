import Csh.Environment
import Mathlib.Algebra.Order.Ring.Int
import Mathlib.Data.List.GetD

namespace Csh.ExpandVars

open Libc Environment

/-!
# Expanding variables in a text

`csh_expand_vars` scans a text by index and writes into a buffer that starts
as a copy of the text and grows when it is full.  It computes the expansion of
every `$(name)` in one pass from the left.
-/

/--
The buffer of the result: `destLen + 1` bytes, so that there is room for the
terminating NUL.
-/
structure ExpandBuffer where
  dest : List Char
  destLen : Nat
  length_eq : dest.length = destLen + 1

namespace ExpandBuffer

/-- `strdup`. -/
def strdup (text : CString) : ExpandBuffer where
  dest := text ++ [nul]
  destLen := text.length
  length_eq := by simp

/-- `realloc` to 16 more bytes, which hold whatever they held before. -/
def realloc (fresh : Nat → Char) (buffer : ExpandBuffer) : ExpandBuffer where
  dest :=
    buffer.dest ++
      (List.range 16).map fun index => fresh (buffer.dest.length + index)
  destLen := buffer.destLen + 16
  length_eq := by
    rw [List.length_append, buffer.length_eq, List.length_map,
      List.length_range]

/-- `dest[position] = c`. -/
def write
    (buffer : ExpandBuffer)
    (position : Nat)
    (c : Char) :
    ExpandBuffer where
  dest := buffer.dest.set position c
  destLen := buffer.destLen
  length_eq := by rw [List.length_set, buffer.length_eq]

end ExpandBuffer

/-- `csh_copy_char_and_grow`; allocation succeeds. -/
def cshCopyCharAndGrow
    (fresh : Nat → Char)
    (buffer : ExpandBuffer)
    (position : Nat)
    (c : Char) :
    ExpandBuffer :=
  if position = buffer.destLen then
    (buffer.realloc fresh).write position c
  else
    buffer.write position c

/-- The variables of the loop in `csh_expand_vars`. -/
structure ExpandState where
  res : ExpandBuffer
  resIdx : Nat
  varS : Nat
  inVar : Bool

/-- The difference of two `size_t`, which wraps below zero. -/
def sizeSub (a b : Nat) : Nat :=
  if b ≤ a then a - b else a + 2 ^ 64 - b

section Scanner

variable (fresh : Nat → Char)
variable (env : CshEnv)
variable (input : CString)

/-- Copy one character to the result. -/
def ExpandState.copyChar (state : ExpandState) (c : Char) : ExpandState :=
  { state with
    res := cshCopyCharAndGrow fresh state.res state.resIdx c
    resIdx := state.resIdx + 1 }

/-- The character at an index; behind the text stands its NUL. -/
def charAt (index : Nat) : Char :=
  input.getD index nul

/-- The body of the loop for one index. -/
def expandStep (idx : Nat) (state : ExpandState) : ExpandState :=
  if state.inVar = false then
    if idx < sizeSub input.length 2 then
      if charAt input idx = '$' ∧ charAt input (idx + 1) = '(' then
        { state with inVar := true, varS := idx + 2 }
      else
        state.copyChar fresh (charAt input idx)
    else
      state.copyChar fresh (charAt input idx)
  else if charAt input idx = ')' then
    let varName := (input.drop state.varS).take (idx - state.varS)
    let closed := { state with inVar := false, varS := idx }
    match cshGetvar varName env with
    | some varValue => varValue.foldl (ExpandState.copyChar fresh) closed
    | none => closed
  else
    state

/-- The state of the loop in front of an index. -/
def expandLoop : Nat → ExpandState
  | 0 => ⟨.strdup input, 0, 0, false⟩
  | idx + 1 => expandStep fresh env input idx (expandLoop idx)

/-- `csh_expand_vars`: the buffer it returns. -/
def cshExpandVars : ExpandBuffer :=
  let final := expandLoop fresh env input input.length
  final.res.write final.resIdx nul

end Scanner

/-!
## The expansion of references
-/

/-- A reference starts here: `$(` and at least one more character. -/
def StartsReference (text : CString) : Prop :=
  text.take 2 = ['$', '('] ∧ 2 < text.length

instance (text : CString) : Decidable (StartsReference text) :=
  inferInstanceAs (Decidable (_ ∧ _))

/--
The text with each closed reference replaced by the value of its variable, or
by nothing where it is undefined; an unclosed one drops what is left.
-/
def expandReferences (values : Variables) : CString → CString
  | [] => []
  | c :: rest =>
      if StartsReference (c :: rest) then
        match _closing : rest.tail.dropWhile (· != ')') with
        | [] => []
        | _ :: later =>
            (values (rest.tail.takeWhile (· != ')'))).getD [] ++
              expandReferences values later
      else
        c :: expandReferences values rest
termination_by text => text.length
decreasing_by
  · have suffix := (List.dropWhile_suffix (l := rest.tail) (· != ')')).length_le
    rw [_closing] at suffix
    simp at suffix ⊢
    omega
  · simp

section References

variable {values : Variables}
variable {text name later : CString}

theorem expandReferences_cons_of_not_starts
    {c : Char}
    (plain : ¬ StartsReference (c :: text)) :
    expandReferences values (c :: text) =
      c :: expandReferences values text := by
  rw [expandReferences, if_neg plain]

theorem StartsReference.exists_cons
    (starts : StartsReference text) :
    ∃ rest, text = '$' :: rest ∧ rest.tail = text.drop 2 := by
  match text, starts with
  | c :: rest, ⟨opening, _⟩ =>
      refine ⟨rest, ?_, ?_⟩
      · rw [(List.cons.inj opening).1]
      · rw [List.drop_succ_cons, List.drop_one]

/-- A closed reference is its variable's value and what follows it. -/
theorem expandReferences_closed
    (starts : StartsReference text)
    (shape : text.drop 2 = name ++ ')' :: later)
    (closesFirst : ')' ∉ name) :
    expandReferences values text =
      (values name).getD [] ++ expandReferences values later := by
  obtain ⟨rest, rfl, tail⟩ := starts.exists_cons
  have inName : ∀ c ∈ name, (c != ')') = true := by
    intro c member
    simpa using ne_of_mem_of_not_mem member closesFirst
  have dropped :
      rest.tail.dropWhile (· != ')') = ')' :: later := by
    rw [tail, shape, List.dropWhile_append_of_pos inName]
    rfl
  have taken : rest.tail.takeWhile (· != ')') = name := by
    rw [tail, shape, List.takeWhile_append_of_pos inName]
    simp
  rw [expandReferences, if_pos starts, taken]
  split
  · rename_i isNil
    rw [dropped] at isNil
    cases isNil
  · rename_i isCons
    rw [dropped] at isCons
    rw [(List.cons.inj isCons).2]

/-- An unclosed reference leaves nothing. -/
theorem expandReferences_unclosed
    (starts : StartsReference text)
    (unclosed : ')' ∉ text.drop 2) :
    expandReferences values text = [] := by
  obtain ⟨rest, rfl, tail⟩ := starts.exists_cons
  have dropped : rest.tail.dropWhile (· != ')') = [] := by
    rw [tail, List.dropWhile_eq_nil_iff]
    intro c member
    simpa using ne_of_mem_of_not_mem member unclosed
  rw [expandReferences, if_pos starts]
  split
  · rfl
  · rename_i isCons
    rw [dropped] at isCons
    cases isCons

end References

section Buffer

variable {fresh : Nat → Char}
variable {state : ExpandState}
variable {position : Nat}
variable {c : Char}

/-- What has been written to the result. -/
def ExpandState.written (state : ExpandState) : CString :=
  state.res.dest.take state.resIdx

/-- The next character fits the buffer, which has room for a NUL behind it. -/
def ExpandState.Room (state : ExpandState) : Prop :=
  state.resIdx ≤ state.res.destLen

theorem ExpandBuffer.take_write
    {buffer : ExpandBuffer}
    (inside : position ≤ buffer.destLen) :
    (buffer.write position c).dest.take (position + 1) =
      buffer.dest.take position ++ [c] := by
  have bound : position < buffer.dest.length := by
    rw [buffer.length_eq]
    omega
  change (buffer.dest.set position c).take (position + 1) = _
  rw [List.set_eq_take_append_cons_drop, if_pos bound, List.take_append,
    List.take_take, List.length_take]
  simp [Nat.min_eq_left bound.le]

theorem written_copyChar
    (room : state.Room) :
    (state.copyChar fresh c).written = state.written ++ [c] := by
  unfold ExpandState.Room at room
  simp only [ExpandState.written, ExpandState.copyChar, cshCopyCharAndGrow]
  split
  · have inside : state.resIdx ≤ (state.res.realloc fresh).destLen :=
      room.trans (Nat.le_add_right _ _)
    have kept :
        (state.res.realloc fresh).dest.take state.resIdx =
          state.res.dest.take state.resIdx := by
      apply List.take_append_of_le_length
      rw [state.res.length_eq]
      exact room.trans (Nat.le_succ _)
    rw [ExpandBuffer.take_write inside, kept]
  · exact ExpandBuffer.take_write room

theorem room_copyChar
    (room : state.Room) :
    (state.copyChar fresh c).Room := by
  unfold ExpandState.Room at room ⊢
  simp only [ExpandState.copyChar, cshCopyCharAndGrow]
  split
  · change state.resIdx + 1 ≤ state.res.destLen + 16
    exact Nat.add_le_add room (by decide)
  · change state.resIdx + 1 ≤ state.res.destLen
    omega

/-- A whole value is copied behind what has been written. -/
theorem foldl_copyChar
    (value : CString)
    (room : state.Room) :
    (value.foldl (ExpandState.copyChar fresh) state).Room ∧
      (value.foldl (ExpandState.copyChar fresh) state).written =
        state.written ++ value ∧
      (value.foldl (ExpandState.copyChar fresh) state).inVar =
        state.inVar := by
  induction value generalizing state with
  | nil =>
      exact ⟨room, (List.append_nil _).symm, rfl⟩
  | cons c rest inductionHypothesis =>
      obtain ⟨laterRoom, laterWritten, laterInVar⟩ :=
        inductionHypothesis (room_copyChar room)
      refine ⟨laterRoom, ?_, laterInVar⟩
      rw [List.foldl_cons, laterWritten, written_copyChar room,
        List.append_assoc]
      rfl

end Buffer

/-!
## The scanner against the expansion
-/

section Text

variable {input : CString}
variable {idx : Nat}

theorem drop_eq_charAt_cons
    (inside : idx < input.length) :
    input.drop idx = charAt input idx :: input.drop (idx + 1) := by
  rw [charAt, List.getD_eq_getElem _ _ inside,
    List.drop_eq_getElem_cons inside]

/-- The tests on the index and the two characters find the references. -/
theorem startsReference_drop_iff
    (inside : idx < input.length) :
    (idx < sizeSub input.length 2 ∧
      charAt input idx = '$' ∧ charAt input (idx + 1) = '(') ↔
      StartsReference (input.drop idx) := by
  rw [StartsReference, List.length_drop]
  by_cases short : input.length < 2
  · -- `length - 2` has wrapped, and the second character is the NUL
    have isFirst : idx = 0 := by omega
    have single : input.length = 1 := by omega
    have behind : charAt input (0 + 1) = nul := by
      rw [charAt, List.getD_eq_default _ _ (by omega)]
    subst isFirst
    rw [behind]
    constructor
    · rintro ⟨_, _, isOpening⟩
      exact absurd isOpening (by decide)
    · rintro ⟨_, long⟩
      omega
  · have wraps : sizeSub input.length 2 = input.length - 2 := by
      rw [sizeSub, if_pos (by omega)]
    rw [wraps]
    by_cases long : 2 < input.length - idx
    · have next : idx + 1 < input.length := by omega
      rw [drop_eq_charAt_cons inside, drop_eq_charAt_cons next]
      constructor
      · rintro ⟨_, isDollar, isOpening⟩
        exact ⟨by simp [isDollar, isOpening], long⟩
      · rintro ⟨opening, _⟩
        exact ⟨by omega, by simpa using opening⟩
    · constructor
      · rintro ⟨early, _⟩
        omega
      · rintro ⟨_, isLong⟩
        exact absurd isLong long

/-- The text between two indexes grows by the character at the second. -/
theorem take_drop_succ
    {start : Nat}
    (ordered : start ≤ idx)
    (inside : idx < input.length) :
    (input.drop start).take (idx + 1 - start) =
      (input.drop start).take (idx - start) ++ [charAt input idx] := by
  have bound : idx - start < (input.drop start).length := by
    rw [List.length_drop]
    omega
  rw [Nat.succ_sub ordered, List.take_succ_eq_append_getElem bound,
    List.getElem_drop, charAt, List.getD_eq_getElem _ _ inside]
  simp [Nat.add_sub_cancel' ordered]

/-- A text splits at an index behind its start. -/
theorem drop_eq_take_append
    {start : Nat}
    (ordered : start ≤ idx)
    (inside : idx < input.length) :
    input.drop start =
      (input.drop start).take (idx - start) ++
        charAt input idx :: input.drop (idx + 1) := by
  rw [← drop_eq_charAt_cons inside]
  conv_lhs => rw [← List.take_append_drop (idx - start) (input.drop start)]
  rw [List.drop_drop, Nat.add_sub_cancel' ordered]

end Text

/--
The state in front of an index: what is written together with the expansion of
what is left, from the index or from the reference it is in, is the whole.
-/
inductive Scanned
    (values : Variables)
    (input : CString)
    (idx : Nat)
    (state : ExpandState) : Prop where
  | outside
      (room : state.Room)
      (notInVar : state.inVar = false)
      (expanded :
        state.written ++ expandReferences values (input.drop idx) =
          expandReferences values input)
  | inside
      (start : Nat)
      (room : state.Room)
      (isInVar : state.inVar = true)
      (varS_eq : state.varS = start + 2)
      (started : start < idx)
      (starts : StartsReference (input.drop start))
      (unclosed :
        ')' ∉ (input.drop (start + 2)).take (idx - (start + 2)))
      (expanded :
        state.written ++ expandReferences values (input.drop start) =
          expandReferences values input)

section Scanned

variable {fresh : Nat → Char}
variable {env : CshEnv}
variable {input : CString}
variable {idx : Nat}
variable {state : ExpandState}

theorem scanned_start
    (values : Variables) :
    Scanned values input 0 ⟨.strdup input, 0, 0, false⟩ :=
  .outside (Nat.zero_le _) rfl rfl

/-- The characters of an opening stand at its start. -/
theorem charAt_of_starts
    {start : Nat}
    (starts : StartsReference (input.drop start)) :
    charAt input (start + 1) = '(' := by
  obtain ⟨opening, long⟩ := starts
  rw [List.length_drop] at long
  have first : start < input.length := by omega
  have second : start + 1 < input.length := by omega
  rw [drop_eq_charAt_cons first, drop_eq_charAt_cons second] at opening
  simpa using congrArg (fun text => text.getD 1 nul) opening

/-- Outside a reference a character is copied or opens a reference. -/
theorem Scanned.step_outside
    {values : Variables}
    (inside : idx < input.length)
    (room : state.Room)
    (notInVar : state.inVar = false)
    (expanded :
      state.written ++ expandReferences values (input.drop idx) =
        expandReferences values input) :
    Scanned values input (idx + 1) (expandStep fresh env input idx state) := by
  have split := startsReference_drop_iff inside
  by_cases starts : StartsReference (input.drop idx)
  · obtain ⟨early, opening⟩ := split.mpr starts
    rw [expandStep, if_pos notInVar, if_pos early, if_pos opening]
    exact
      .inside idx room rfl rfl (Nat.lt_succ_self idx) starts
        (by simp [show idx + 1 - (idx + 2) = 0 by omega]) expanded
  · have copies :
        expandStep fresh env input idx state =
          state.copyChar fresh (charAt input idx) := by
      rw [expandStep, if_pos notInVar]
      by_cases early : idx < sizeSub input.length 2
      · rw [if_pos early,
          if_neg fun opening => starts (split.mp ⟨early, opening⟩)]
      · rw [if_neg early]
    rw [copies]
    refine .outside (room_copyChar room) notInVar ?_
    rw [drop_eq_charAt_cons inside] at starts expanded
    rw [written_copyChar room, List.append_assoc, ← expanded,
      expandReferences_cons_of_not_starts starts]
    rfl

/-- Inside a reference everything up to its end is part of the name. -/
theorem Scanned.step_inside
    {start : Nat}
    (within : idx < input.length)
    (room : state.Room)
    (isInVar : state.inVar = true)
    (varS_eq : state.varS = start + 2)
    (started : start < idx)
    (starts : StartsReference (input.drop start))
    (unclosed : ')' ∉ (input.drop (start + 2)).take (idx - (start + 2)))
    (expanded :
      state.written ++
          expandReferences (fun name => cshGetvar name env)
            (input.drop start) =
        expandReferences (fun name => cshGetvar name env) input) :
    Scanned (fun name => cshGetvar name env) input (idx + 1)
      (expandStep fresh env input idx state) := by
  rw [expandStep, if_neg (by simp [isInVar])]
  by_cases isClosing : charAt input idx = ')'
  · have ordered : start + 2 ≤ idx := by
      by_contra before
      have isSecond : idx = start + 1 := by omega
      rw [isSecond, charAt_of_starts starts] at isClosing
      exact absurd isClosing (by decide)
    rw [if_pos isClosing, varS_eq]
    generalize nameIs :
      (input.drop (start + 2)).take (idx - (start + 2)) = name at *
    have shape :
        (input.drop start).drop 2 = name ++ ')' :: input.drop (idx + 1) := by
      rw [List.drop_drop, drop_eq_take_append ordered within, nameIs,
        isClosing]
    rw [expandReferences_closed starts shape unclosed] at expanded
    dsimp only
    cases found : cshGetvar name env with
    | some value =>
        obtain ⟨laterRoom, laterWritten, laterInVar⟩ :=
          @foldl_copyChar fresh { state with inVar := false, varS := idx }
            value room
        refine .outside laterRoom laterInVar ?_
        rw [laterWritten, List.append_assoc, ← expanded, found]
        rfl
    | none =>
        refine .outside room rfl ?_
        rw [← expanded, found]
        rfl
  · rw [if_neg isClosing]
    refine
      .inside start room isInVar varS_eq (started.trans (Nat.lt_succ_self _))
        starts ?_ expanded
    by_cases ordered : start + 2 ≤ idx
    · rw [take_drop_succ ordered within, List.mem_append,
        List.mem_singleton, not_or]
      exact ⟨unclosed, fun isLast => isClosing isLast.symm⟩
    · simp [show idx + 1 - (start + 2) = 0 by omega]

theorem Scanned.step
    (scanned : Scanned (fun name => cshGetvar name env) input idx state)
    (within : idx < input.length) :
    Scanned (fun name => cshGetvar name env) input (idx + 1)
      (expandStep fresh env input idx state) := by
  cases scanned with
  | outside room notInVar expanded =>
      exact Scanned.step_outside within room notInVar expanded
  | inside start room isInVar varS_eq started starts unclosed expanded =>
      exact
        Scanned.step_inside within room isInVar varS_eq started starts
          unclosed expanded

theorem scanned_expandLoop
    (upTo : idx ≤ input.length) :
    Scanned (fun name => cshGetvar name env) input idx
      (expandLoop fresh env input idx) := by
  induction idx with
  | zero =>
      exact scanned_start _
  | succ idx inductionHypothesis =>
      exact (inductionHypothesis (Nat.le_of_succ_le upTo)).step upTo

/-- At the end of the text the whole expansion is written. -/
theorem Scanned.finish
    {values : Variables}
    (scanned : Scanned values input input.length state) :
    state.Room ∧ state.written = expandReferences values input := by
  cases scanned with
  | outside room notInVar expanded =>
      rw [List.drop_length, expandReferences, List.append_nil] at expanded
      exact ⟨room, expanded⟩
  | inside start room isInVar varS_eq started starts unclosed expanded =>
      have whole :
          (input.drop (start + 2)).take (input.length - (start + 2)) =
            (input.drop start).drop 2 := by
        rw [List.drop_drop]
        exact List.take_of_length_le (by rw [List.length_drop])
      rw [whole] at unclosed
      rw [expandReferences_unclosed starts unclosed, List.append_nil]
        at expanded
      exact ⟨room, expanded⟩

end Scanned

/--
The returned buffer holds the expansion of the text and its terminating NUL,
whatever fresh memory holds.
-/
theorem cshExpandVars_eq_expandReferences
    (fresh : Nat → Char)
    (env : CshEnv)
    (input : CString) :
    ∃ behind,
      (cshExpandVars fresh env input).dest =
        expandReferences (fun name => cshGetvar name env) input ++
          nul :: behind := by
  obtain ⟨room, written⟩ :=
    (@scanned_expandLoop fresh env input input.length le_rfl).finish
  unfold cshExpandVars
  generalize expandLoop fresh env input input.length = final at *
  have bound : final.resIdx < final.res.dest.length := by
    rw [final.res.length_eq]
    exact Nat.lt_succ_of_le room
  refine ⟨final.res.dest.drop (final.resIdx + 1), ?_⟩
  change (final.res.dest.set final.resIdx nul) = _
  rw [List.set_eq_take_append_cons_drop, if_pos bound, ← written]
  rfl

example :
    ((cshExpandVars (fun _ => nul) [⟨"JB".toList, "SPACEINVENTOR".toList⟩]
        "$(JB) -v 1 $(JB".toList).dest.takeWhile (· != nul)) =
      "SPACEINVENTOR -v 1 ".toList := by
  decide

end Csh.ExpandVars
