import Csh.ExpandVars
import Csh.Lib.History

namespace Csh.ExpandMemory

open Libc Environment ExpandVars

/-!
# The memory of an expansion

`csh_expand_vars` grows the block of its result one call of
`csh_copy_char_and_grow` at a time, and any of these calls may find no memory.
Here every access to the heap is kept, together with the block, `res_len` and
`res_idx` as `csh_expand_vars` has them behind it.
-/

/--
The heap: the sizes for which there is memory and what fresh cells hold.  No
block is as large as `PTRDIFF_MAX`.
-/
structure Allocator where
  grants : Nat → Bool
  grants_lt : ∀ size, grants size = true → size < 2 ^ 63
  fresh : Nat → Char

/-- `realloc` with memory: cells that are there already are kept. -/
def Allocator.resize
    (allocator : Allocator)
    (dest : List Char)
    (size : Nat) :
    List Char :=
  dest.take size ++
    (List.range (size - dest.length)).map fun index =>
      allocator.fresh (dest.length + index)

/-- An access to the heap. -/
inductive Access where
  | strdup (size : Nat) (granted : Bool)
  | realloc (size : Nat) (granted : Bool)
  | free
  | character (position : Nat) (c : Char)
  | terminator (position : Nat)
  deriving Repr, DecidableEq

/-- The access writes to a block. -/
def Access.IsWrite : Access → Prop
  | .character _ _ | .terminator _ => True
  | _ => False

/-- Accesses, and the block and the variables behind them; `none` is NULL. -/
structure Moment where
  accesses : List Access
  res : Option (List Char)
  resLen : Nat
  resIdx : Nat
  deriving Repr, DecidableEq

/-- The variables of `csh_expand_vars`, and what has happened so far. -/
structure Expansion where
  res : Option (List Char)
  resLen : Nat
  resIdx : Nat
  varS : Nat
  inVar : Bool
  moments : List Moment

/-- Keep the moment behind some accesses. -/
def Expansion.note
    (expansion : Expansion)
    (accesses : List Access) :
    Expansion :=
  { expansion with
    moments :=
      expansion.moments ++
        [⟨accesses, expansion.res, expansion.resLen, expansion.resIdx⟩] }

/-- What `csh_copy_char_and_grow` returns, `*dest_len`, and its accesses. -/
structure Grown where
  dest : Option (List Char)
  destLen : Nat
  accesses : List Access

section Program

variable (allocator : Allocator)
variable (env : CshEnv)
variable (input : CString)

/-- `csh_copy_char_and_grow`. -/
def cshCopyCharAndGrow
    (dest : Option (List Char))
    (position destLen : Nat)
    (c : Char) :
    Grown :=
  if position = destLen then
    let longer := (destLen + 16) % 2 ^ 64
    let size := (longer + 1) % 2 ^ 64
    if allocator.grants size then
      let tmp := allocator.resize (dest.getD []) size
      ⟨some (tmp.set position c), longer,
        [.realloc size true, .character position c]⟩
    else
      ⟨none, longer, [.realloc size false, .free]⟩
  else
    ⟨dest.map fun cells => cells.set position c, destLen,
      [.character position c]⟩

/-- A call of `csh_copy_char_and_grow`; without memory `res_idx` stays. -/
def Expansion.copyChar (expansion : Expansion) (c : Char) : Expansion :=
  let grown :=
    cshCopyCharAndGrow allocator expansion.res expansion.resIdx
      expansion.resLen c
  let called :=
    { expansion with res := grown.dest, resLen := grown.destLen }.note
      grown.accesses
  if called.res = none then
    called
  else
    { called with resIdx := (called.resIdx + 1) % 2 ^ 64 }.note []

/-- The loop over a value, which ends where there is no memory. -/
def Expansion.copyValue (expansion : Expansion) : CString → Expansion
  | [] => expansion
  | c :: rest =>
      let copied := expansion.copyChar allocator c
      if copied.res = none then
        copied
      else
        copied.copyValue rest

/-- The body of the loop for one index. -/
def expandStep (idx : Nat) (expansion : Expansion) : Expansion :=
  if expansion.inVar = false then
    if idx < sizeSub input.length 2 then
      if charAt input idx = '$' ∧ charAt input (idx + 1) = '(' then
        { expansion with inVar := true, varS := idx + 2 }
      else
        expansion.copyChar allocator (charAt input idx)
    else
      expansion.copyChar allocator (charAt input idx)
  else if charAt input idx = ')' then
    let varName := (input.drop expansion.varS).take (idx - expansion.varS)
    let closed := { expansion with inVar := false }
    match cshGetvar varName env with
    | some varValue =>
        { closed.copyValue allocator varValue with varS := idx }
    | none => { closed with varS := idx }
  else
    expansion

/-- `strdup`, in front of the loop. -/
def Expansion.start : Expansion :=
  let size := input.length + 1
  let res :=
    if allocator.grants size then
      some (input ++ [nul])
    else
      none
  Expansion.note ⟨res, input.length, 0, 0, false, []⟩
    [.strdup size (allocator.grants size)]

/-- The state in front of an index; without a block the loop has ended. -/
def expandLoop : Nat → Expansion
  | 0 => .start allocator input
  | idx + 1 =>
      let expansion := expandLoop idx
      if expansion.res = none then
        expansion
      else
        expandStep allocator env input idx expansion

/-- `csh_expand_vars`: it returns what is in `res`. -/
def cshExpandVars : Expansion :=
  let expansion := expandLoop allocator env input input.length
  match expansion.res with
  | none => expansion
  | some cells =>
      { expansion with res := some (cells.set expansion.resIdx nul) }.note
        [.terminator expansion.resIdx]

end Program

/-- The position lies in the block. -/
def Moment.Inside (moment : Moment) (position : Nat) : Prop :=
  ∃ cells, moment.res = some cells ∧ position < cells.length

/--
`res_idx` is in bounds, the block has the size that `res_len` says, and what
has just been written is in it: a character in front of its last cell.
-/
structure Moment.Sound (moment : Moment) : Prop where
  room : moment.resIdx ≤ moment.resLen
  block :
    ∀ cells, moment.res = some cells → cells.length = moment.resLen + 1
  character :
    ∀ position c,
      .character position c ∈ moment.accesses →
        position < moment.resLen ∧ moment.Inside position
  terminator :
    ∀ position, .terminator position ∈ moment.accesses → moment.Inside position

/-- Without a write, only the variables and the block are to be looked at. -/
theorem Moment.sound_of_no_write
    {moment : Moment}
    (room : moment.resIdx ≤ moment.resLen)
    (block :
      ∀ cells, moment.res = some cells → cells.length = moment.resLen + 1)
    (noWrite : ∀ access ∈ moment.accesses, ¬ access.IsWrite) :
    moment.Sound where
  room := room
  block := block
  character _ _ member := absurd trivial (noWrite _ member)
  terminator _ member := absurd trivial (noWrite _ member)

/-- There has been no memory for a block. -/
def Moment.Refused (moment : Moment) : Prop :=
  ∃ size,
    .strdup size false ∈ moment.accesses ∨
      .realloc size false ∈ moment.accesses

/-- The result has its block, and there has been memory so far. -/
structure Allocated (cells : List Char) (expansion : Expansion) : Prop where
  isBlock : expansion.res = some cells
  size : cells.length = expansion.resLen + 1
  small : expansion.resLen + 1 < 2 ^ 63
  room : expansion.resIdx ≤ expansion.resLen
  sound : ∀ moment ∈ expansion.moments, moment.Sound
  unrefused : ∀ moment ∈ expansion.moments, ¬ moment.Refused

/-- There is no result, and the last that happened is that memory was missing. -/
structure Exhausted (expansion : Expansion) : Prop where
  noBlock : expansion.res = none
  sound : ∀ moment ∈ expansion.moments, moment.Sound
  last :
    ∃ earlier moment,
      expansion.moments = earlier ++ [moment] ∧
        (∀ moment ∈ earlier, ¬ moment.Refused) ∧
        ∀ access ∈ moment.accesses, ¬ access.IsWrite

/-- What holds of the variables throughout. -/
def Kept (expansion : Expansion) : Prop :=
  (∃ cells, Allocated cells expansion) ∨ Exhausted expansion

section Growing

variable (allocator : Allocator)
variable {expansion : Expansion}
variable {cells : List Char}
variable {c : Char}

theorem length_resize
    (size : Nat) :
    (allocator.resize cells size).length = size := by
  rw [Allocator.resize, List.length_append, List.length_take, List.length_map,
    List.length_range]
  omega

/-- A cell is written in the block, or the block grows, or there is no memory. -/
theorem Allocated.grow_cases
    (allocated : Allocated cells expansion)
    (c : Char) :
    let grown :=
      cshCopyCharAndGrow allocator expansion.res expansion.resIdx
        expansion.resLen c
    (expansion.resIdx < expansion.resLen ∧
        grown =
          ⟨some (cells.set expansion.resIdx c), expansion.resLen,
            [.character expansion.resIdx c]⟩) ∨
      (expansion.resIdx = expansion.resLen ∧
          expansion.resLen + 17 < 2 ^ 63 ∧
          grown =
            ⟨some
                ((allocator.resize cells (expansion.resLen + 17)).set
                  expansion.resIdx c),
              expansion.resLen + 16,
              [.realloc (expansion.resLen + 17) true,
                .character expansion.resIdx c]⟩) ∨
        grown =
          ⟨none, expansion.resLen + 16,
            [.realloc (expansion.resLen + 17) false, .free]⟩ := by
  obtain ⟨isBlock, _, small, room, _, _⟩ := allocated
  have longer : (expansion.resLen + 16) % 2 ^ 64 = expansion.resLen + 16 :=
    Nat.mod_eq_of_lt (by omega)
  have size :
      (expansion.resLen + 16 + 1) % 2 ^ 64 = expansion.resLen + 17 :=
    Nat.mod_eq_of_lt (by omega)
  simp only [cshCopyCharAndGrow, isBlock, Option.getD_some, Option.map_some,
    longer, size]
  by_cases full : expansion.resIdx = expansion.resLen
  · rw [if_pos full]
    cases granted : allocator.grants (expansion.resLen + 17) with
    | true =>
        exact .inr (.inl ⟨full, allocator.grants_lt _ granted, rfl⟩)
    | false =>
        exact .inr (.inr rfl)
  · rw [if_neg full]
    exact .inl ⟨by omega, rfl⟩

/-- The variables behind a character that was written. -/
def Expansion.written
    (expansion : Expansion)
    (cells : List Char)
    (resLen : Nat)
    (accesses : List Access) :
    Expansion :=
  { expansion with
    res := some cells
    resLen := resLen
    resIdx := expansion.resIdx + 1
    moments :=
      expansion.moments ++
        [⟨accesses, some cells, resLen, expansion.resIdx⟩,
          ⟨[], some cells, resLen, expansion.resIdx + 1⟩] }

/-- The variables behind a call that found no memory. -/
def Expansion.exhausted (expansion : Expansion) : Expansion :=
  { expansion with
    res := none
    resLen := expansion.resLen + 16
    moments :=
      expansion.moments ++
        [⟨[.realloc (expansion.resLen + 17) false, .free], none,
          expansion.resLen + 16, expansion.resIdx⟩] }

/-- One character is written inside the block, or there is no memory for it. -/
theorem Allocated.copyChar_cases
    (allocated : Allocated cells expansion)
    (c : Char) :
    (expansion.resIdx < expansion.resLen ∧
        expansion.copyChar allocator c =
          expansion.written (cells.set expansion.resIdx c) expansion.resLen
            [.character expansion.resIdx c]) ∨
      (expansion.resIdx = expansion.resLen ∧
          expansion.resLen + 17 < 2 ^ 63 ∧
          expansion.copyChar allocator c =
            expansion.written
              ((allocator.resize cells (expansion.resLen + 17)).set
                expansion.resIdx c)
              (expansion.resLen + 16)
              [.realloc (expansion.resLen + 17) true,
                .character expansion.resIdx c]) ∨
        expansion.copyChar allocator c = expansion.exhausted := by
  have small := allocated.small
  have room := allocated.room
  have next : (expansion.resIdx + 1) % 2 ^ 64 = expansion.resIdx + 1 :=
    Nat.mod_eq_of_lt (by omega)
  unfold Expansion.copyChar
  rcases allocated.grow_cases allocator c with
    ⟨inside, grown⟩ | ⟨full, fits, grown⟩ | grown
  · refine .inl ⟨inside, ?_⟩
    simp only [grown, Expansion.note, Expansion.written, next, reduceCtorEq,
      ↓reduceIte, List.append_assoc, List.cons_append, List.nil_append]
  · refine .inr (.inl ⟨full, fits, ?_⟩)
    simp only [grown, Expansion.note, Expansion.written, next, reduceCtorEq,
      ↓reduceIte, List.append_assoc, List.cons_append, List.nil_append]
  · refine .inr (.inr ?_)
    rw [grown]
    rfl

/-- A character inside the block keeps the variables as they should be. -/
theorem Allocated.written
    {later : List Char}
    {resLen : Nat}
    {accesses : List Access}
    (allocated : Allocated cells expansion)
    (size : later.length = resLen + 1)
    (small : resLen + 1 < 2 ^ 63)
    (inside : expansion.resIdx < resLen)
    (shape :
      accesses = [.character expansion.resIdx c] ∨
        accesses =
          [.realloc (resLen + 1) true, .character expansion.resIdx c]) :
    Allocated later (expansion.written later resLen accesses) := by
  have character :
      ∀ position d,
        .character position d ∈ accesses → position = expansion.resIdx := by
    rcases shape with rfl | rfl <;> simp
  have noTerminator : ∀ position, .terminator position ∉ accesses := by
    rcases shape with rfl | rfl <;> simp
  have granted :
      ∀ size, .strdup size false ∉ accesses ∧
        .realloc size false ∉ accesses := by
    rcases shape with rfl | rfl <;> simp
  have block :
      ∀ cells, some later = some cells → cells.length = resLen + 1 := by
    rintro cells ⟨⟩
    exact size
  have writes :
      Moment.Sound ⟨accesses, some later, resLen, expansion.resIdx⟩ := by
    refine ⟨Nat.le_of_lt inside, block, ?_, ?_⟩
    · intro position d member
      rw [character position d member]
      exact ⟨inside, later, rfl, by omega⟩
    · intro position member
      exact absurd member (noTerminator position)
  have advances :
      Moment.Sound ⟨[], some later, resLen, expansion.resIdx + 1⟩ :=
    Moment.sound_of_no_write inside block (by simp)
  refine ⟨rfl, size, small, inside, ?_, ?_⟩
  · refine List.forall_mem_append.mpr ⟨allocated.sound, ?_⟩
    exact
      List.forall_mem_cons.mpr
        ⟨writes, List.forall_mem_singleton.mpr advances⟩
  · refine List.forall_mem_append.mpr ⟨allocated.unrefused, ?_⟩
    refine
      List.forall_mem_cons.mpr ⟨?_, List.forall_mem_singleton.mpr ?_⟩
    · rintro ⟨size, member | member⟩
      · exact (granted size).1 member
      · exact (granted size).2 member
    · rintro ⟨size, member | member⟩
      · cases member
      · cases member

/-- Without memory nothing has been written in the end. -/
theorem Allocated.exhausted
    (allocated : Allocated cells expansion) :
    Exhausted expansion.exhausted := by
  have noWrite :
      ∀ access ∈ [Access.realloc (expansion.resLen + 17) false, .free],
        ¬ access.IsWrite := by
    simp [Access.IsWrite]
  have freed :
      Moment.Sound
        ⟨[.realloc (expansion.resLen + 17) false, .free], none,
          expansion.resLen + 16, expansion.resIdx⟩ :=
    Moment.sound_of_no_write (Nat.le_add_right_of_le allocated.room) (by simp)
      noWrite
  refine ⟨rfl, ?_, _, _, rfl, allocated.unrefused, noWrite⟩
  exact
    List.forall_mem_append.mpr
      ⟨allocated.sound, List.forall_mem_singleton.mpr freed⟩

theorem Allocated.copyChar
    (allocated : Allocated cells expansion)
    (c : Char) :
    Kept (expansion.copyChar allocator c) := by
  rcases allocated.copyChar_cases allocator c with
    ⟨inside, copied⟩ | ⟨full, fits, copied⟩ | copied
  · rw [copied]
    refine .inl ⟨_, allocated.written ?_ allocated.small inside (.inl rfl)⟩
    rw [List.length_set, allocated.size]
  · rw [copied]
    refine .inl ⟨_, allocated.written ?_ fits (by omega) (.inr rfl)⟩
    rw [List.length_set, length_resize]
  · rw [copied]
    exact .inr allocated.exhausted

/-- Whole values are copied, or only a part of them when memory is missing. -/
theorem Allocated.copyValue
    (allocated : Allocated cells expansion)
    (value : CString) :
    Kept (expansion.copyValue allocator value) := by
  induction value generalizing expansion cells with
  | nil =>
      exact .inl ⟨cells, allocated⟩
  | cons c rest inductionHypothesis =>
      rw [Expansion.copyValue]
      rcases allocated.copyChar allocator c with ⟨later, copied⟩ | exhausted
      · rw [if_neg (by rw [copied.isBlock]; simp)]
        exact inductionHypothesis copied
      · rw [if_pos exhausted.noBlock]
        exact .inr exhausted

end Growing

section Scanning

variable {allocator : Allocator}
variable {env : CshEnv}
variable {input : CString}
variable {expansion : Expansion}
variable {cells : List Char}
variable {idx : Nat}

/-- Block, lengths and moments do not depend on the reference. -/
theorem Allocated.withReference
    (allocated : Allocated cells expansion)
    (varS : Nat)
    (inVar : Bool) :
    Allocated cells { expansion with varS := varS, inVar := inVar } :=
  ⟨allocated.isBlock, allocated.size, allocated.small, allocated.room,
    allocated.sound, allocated.unrefused⟩

theorem Kept.withStart
    (kept : Kept expansion)
    (varS : Nat) :
    Kept { expansion with varS := varS } := by
  rcases kept with ⟨cells, allocated⟩ | exhausted
  · exact .inl ⟨cells, allocated.withReference varS expansion.inVar⟩
  · exact .inr ⟨exhausted.noBlock, exhausted.sound, exhausted.last⟩

/-- One turn of the loop keeps the block and the variables. -/
theorem Allocated.expandStep
    (allocated : Allocated cells expansion) :
    Kept (expandStep allocator env input idx expansion) := by
  have copied := allocated.copyChar allocator (charAt input idx)
  unfold ExpandMemory.expandStep
  by_cases outside : expansion.inVar = false
  · rw [if_pos outside]
    split
    · split
      · exact .inl ⟨cells, allocated.withReference (idx + 2) true⟩
      · exact copied
    · exact copied
  · rw [if_neg outside]
    split
    · have closed := allocated.withReference expansion.varS false
      dsimp only
      split
      · rename_i varValue _
        exact (closed.copyValue allocator varValue).withStart idx
      · exact Kept.withStart (.inl ⟨cells, closed⟩) idx
    · exact .inl ⟨cells, allocated⟩

theorem kept_start :
    Kept (.start allocator input) := by
  have size : (input ++ [nul]).length = input.length + 1 := by
    rw [List.length_append, List.length_singleton]
  by_cases granted : allocator.grants (input.length + 1) = true
  · have shape :
        Expansion.start allocator input =
          ⟨some (input ++ [nul]), input.length, 0, 0, false,
            [⟨[.strdup (input.length + 1) true], some (input ++ [nul]),
              input.length, 0⟩]⟩ := by
      simp [Expansion.start, Expansion.note, granted]
    have small := allocator.grants_lt _ granted
    rw [shape]
    refine .inl ⟨input ++ [nul], rfl, size, small, Nat.zero_le _, ?_, ?_⟩
    · refine
        List.forall_mem_singleton.mpr
          (Moment.sound_of_no_write (Nat.zero_le _) ?_ ?_)
      · rintro cells ⟨⟩
        exact size
      · simp [Access.IsWrite]
    · simp [Moment.Refused]
  · have shape :
        Expansion.start allocator input =
          ⟨none, input.length, 0, 0, false,
            [⟨[.strdup (input.length + 1) false], none, input.length, 0⟩]⟩ := by
      simp [Expansion.start, Expansion.note, granted]
    have noWrite :
        ∀ access ∈ [Access.strdup (input.length + 1) false],
          ¬ access.IsWrite := by
      simp [Access.IsWrite]
    rw [shape]
    refine .inr ⟨rfl, ?_, [], _, rfl, by simp, noWrite⟩
    exact
      List.forall_mem_singleton.mpr
        (Moment.sound_of_no_write (Nat.zero_le _) (by simp) noWrite)

/-- Block and variables are as they should be in front of every index. -/
theorem kept_expandLoop
    (idx : Nat) :
    Kept (expandLoop allocator env input idx) := by
  induction idx with
  | zero =>
      exact kept_start
  | succ idx inductionHypothesis =>
      rw [expandLoop]
      rcases inductionHypothesis with ⟨cells, allocated⟩ | exhausted
      · simp only [allocated.isBlock, reduceCtorEq, ↓reduceIte]
        exact allocated.expandStep
      · simp only [exhausted.noBlock, ↓reduceIte]
        exact .inr exhausted

end Scanning

/--
Every moment is sound, a result ends with its NUL, and behind a refusal there
is neither a result nor a write.
-/
structure Contained (expansion : Expansion) : Prop where
  sound : ∀ moment ∈ expansion.moments, moment.Sound
  terminated :
    expansion.res ≠ none →
      ∃ earlier last,
        expansion.moments = earlier ++ [last] ∧
          last.accesses = [.terminator last.resIdx]
  refused :
    ∀ earlier moment later,
      expansion.moments = earlier ++ moment :: later →
        moment.Refused →
          expansion.res = none ∧ later = [] ∧
            ∀ access ∈ moment.accesses, ¬ access.IsWrite

/-- The last NUL is written in the block. -/
theorem Allocated.terminate
    {cells : List Char}
    {expansion : Expansion}
    (allocated : Allocated cells expansion) :
    Contained
      (Expansion.note
        { expansion with res := some (cells.set expansion.resIdx nul) }
        [.terminator expansion.resIdx]) := by
  have size :
      (cells.set expansion.resIdx nul).length = expansion.resLen + 1 := by
    rw [List.length_set, allocated.size]
  have last :
      Moment.Sound
        ⟨[.terminator expansion.resIdx],
          some (cells.set expansion.resIdx nul), expansion.resLen,
          expansion.resIdx⟩ := by
    refine ⟨allocated.room, ?_, by simp, ?_⟩
    · rintro cells ⟨⟩
      exact size
    · intro position member
      obtain rfl := Access.terminator.inj (List.mem_singleton.mp member)
      refine ⟨_, rfl, ?_⟩
      rw [size]
      exact Nat.lt_succ_of_le allocated.room
  have unrefused :
      ∀ moment ∈
        (Expansion.note
          { expansion with res := some (cells.set expansion.resIdx nul) }
          [.terminator expansion.resIdx]).moments,
        ¬ moment.Refused := by
    refine List.forall_mem_append.mpr
      ⟨allocated.unrefused, List.forall_mem_singleton.mpr ?_⟩
    simp [Moment.Refused]
  refine ⟨?_, fun _ => ⟨_, _, rfl, rfl⟩, ?_⟩
  · exact
      List.forall_mem_append.mpr
        ⟨allocated.sound, List.forall_mem_singleton.mpr last⟩
  · intro earlier moment later shape refused
    refine absurd refused (unrefused moment ?_)
    rw [shape]
    simp

theorem Exhausted.contained
    {expansion : Expansion}
    (exhausted : Exhausted expansion) :
    Contained expansion := by
  obtain ⟨earlier, last, shape, unrefused, noWrite⟩ := exhausted.last
  refine
    ⟨exhausted.sound, fun result => absurd exhausted.noBlock result, ?_⟩
  intro before moment later split refused
  rw [shape] at split
  rcases History.split_append_singleton_iff.mp split with
    ⟨_, rfl, rfl⟩ | ⟨between, _, rfl⟩
  · exact ⟨exhausted.noBlock, rfl, noWrite⟩
  · exact absurd refused (unrefused moment (by simp))

/--
`csh_expand_vars` writes inside its block, which always has the cells that
`res_len` says, and stops for good where there is no memory.
-/
theorem cshExpandVars_contained
    (allocator : Allocator)
    (env : CshEnv)
    (input : CString) :
    Contained (cshExpandVars allocator env input) := by
  rw [cshExpandVars]
  rcases @kept_expandLoop allocator env input input.length with
    ⟨cells, allocated⟩ | exhausted
  · simp only [allocated.isBlock]
    exact allocated.terminate
  · simp only [exhausted.noBlock]
    exact exhausted.contained

/-!
## The expansion where there is memory
-/

/-- The variables are those of the expansion that always finds memory. -/
structure Shows (expansion : Expansion) (state : ExpandState) : Prop where
  res : expansion.res = some state.res.dest
  resLen : expansion.resLen = state.res.destLen
  resIdx : expansion.resIdx = state.resIdx
  varS : expansion.varS = state.varS
  inVar : expansion.inVar = state.inVar

section Shows

variable {allocator : Allocator}
variable {env : CshEnv}
variable {input : CString}
variable {expansion : Expansion}
variable {state : ExpandState}

theorem Kept.allocated
    (kept : Kept expansion)
    (result : expansion.res ≠ none) :
    ∃ cells, Allocated cells expansion := by
  rcases kept with allocated | exhausted
  · exact allocated
  · exact absurd exhausted.noBlock result

/-- The block grows by the cells that `realloc` adds. -/
theorem resize_dest
    (buffer : ExpandBuffer) :
    allocator.resize buffer.dest (buffer.destLen + 17) =
      (buffer.realloc allocator.fresh).dest := by
  have added : buffer.destLen + 17 - buffer.dest.length = 16 := by
    rw [buffer.length_eq]
    omega
  have whole : buffer.dest.take (buffer.destLen + 17) = buffer.dest :=
    List.take_of_length_le (by rw [buffer.length_eq]; omega)
  rw [Allocator.resize, added, whole]
  rfl

theorem Shows.copyChar
    (shown : Shows expansion state)
    (kept : Kept expansion)
    {c : Char}
    (result : (expansion.copyChar allocator c).res ≠ none) :
    Shows (expansion.copyChar allocator c)
      (state.copyChar allocator.fresh c) := by
  obtain ⟨res, resLen, resIdx, varS, inVar⟩ := shown
  obtain ⟨cells, allocated⟩ := kept.allocated (by rw [res]; simp)
  obtain rfl := Option.some.inj (allocated.isBlock.symm.trans res)
  rcases allocated.copyChar_cases allocator c with
    ⟨inside, copied⟩ | ⟨full, _, copied⟩ | copied
  · have room : ¬ state.resIdx = state.res.destLen := by omega
    rw [copied]
    simp only [ExpandState.copyChar, ExpandVars.cshCopyCharAndGrow, room,
      ↓reduceIte]
    exact
      ⟨by rw [resIdx]; rfl, resLen, congrArg (· + 1) resIdx, varS, inVar⟩
  · have isFull : state.resIdx = state.res.destLen := by omega
    rw [copied, resLen, resize_dest]
    simp only [ExpandState.copyChar, ExpandVars.cshCopyCharAndGrow, isFull,
      ↓reduceIte]
    refine ⟨?_, rfl, congrArg (· + 1) (resIdx.trans isFull), varS, inVar⟩
    rw [← isFull, ← resIdx]
    rfl
  · rw [copied] at result
    exact absurd rfl result

theorem Shows.copyValue
    (shown : Shows expansion state)
    (kept : Kept expansion)
    {value : CString}
    (result : (expansion.copyValue allocator value).res ≠ none) :
    Shows (expansion.copyValue allocator value)
      (value.foldl (ExpandState.copyChar allocator.fresh) state) := by
  induction value generalizing expansion state with
  | nil =>
      exact shown
  | cons c rest inductionHypothesis =>
      obtain ⟨cells, allocated⟩ :=
        kept.allocated (by rw [shown.res]; simp)
      rw [Expansion.copyValue] at result ⊢
      by_cases stopped : (expansion.copyChar allocator c).res = none
      · rw [if_pos stopped] at result
        exact absurd stopped result
      · rw [if_neg stopped] at result ⊢
        exact
          inductionHypothesis (shown.copyChar kept stopped)
            (allocated.copyChar allocator c) result

/-- The start of the reference is not looked at while a value is copied. -/
theorem foldl_withStart
    (value : CString)
    (state : ExpandState)
    (varS : Nat) :
    value.foldl (ExpandState.copyChar allocator.fresh)
        { state with varS := varS } =
      { value.foldl (ExpandState.copyChar allocator.fresh) state with
        varS := varS } := by
  induction value generalizing state with
  | nil =>
      rfl
  | cons c rest inductionHypothesis =>
      exact inductionHypothesis (state.copyChar allocator.fresh c)

theorem Shows.step
    {idx : Nat}
    (shown : Shows expansion state)
    (kept : Kept expansion)
    (result : (expandStep allocator env input idx expansion).res ≠ none) :
    Shows (expandStep allocator env input idx expansion)
      (ExpandVars.expandStep allocator.fresh env input idx state) := by
  unfold ExpandMemory.expandStep at result ⊢
  unfold ExpandVars.expandStep
  rw [← shown.inVar, ← shown.varS]
  by_cases outside : expansion.inVar = false
  · simp only [outside, ↓reduceIte] at result ⊢
    by_cases early : idx < sizeSub input.length 2
    · simp only [early, ↓reduceIte] at result ⊢
      by_cases opening :
          charAt input idx = '$' ∧ charAt input (idx + 1) = '('
      · rw [if_pos opening, if_pos opening]
        exact ⟨shown.res, shown.resLen, shown.resIdx, rfl, rfl⟩
      · rw [if_neg opening] at result ⊢
        rw [if_neg opening]
        exact shown.copyChar kept result
    · simp only [early, ↓reduceIte] at result ⊢
      exact shown.copyChar kept result
  · rw [if_neg outside] at result ⊢
    rw [if_neg outside]
    by_cases closing : charAt input idx = ')'
    · rw [if_pos closing] at result ⊢
      rw [if_pos closing]
      dsimp only at result ⊢
      cases found :
          cshGetvar ((input.drop expansion.varS).take (idx - expansion.varS))
            env with
      | none =>
          exact ⟨shown.res, shown.resLen, shown.resIdx, rfl, rfl⟩
      | some varValue =>
          simp only [found] at result ⊢
          have closed :
              Shows { expansion with inVar := false }
                { state with inVar := false } :=
            ⟨shown.res, shown.resLen, shown.resIdx, shown.varS, rfl⟩
          obtain ⟨cells, allocated⟩ :=
            kept.allocated (by rw [shown.res]; simp)
          have copied :=
            closed.copyValue
              (.inl ⟨cells, allocated.withReference expansion.varS false⟩)
              result
          have moved :=
            @foldl_withStart allocator varValue { state with inVar := false }
              idx
          rw [moved]
          exact ⟨copied.res, copied.resLen, copied.resIdx, rfl, copied.inVar⟩
    · rw [if_neg closing, if_neg closing]
      exact shown

/-- In front of every index that is reached with a block. -/
theorem shows_expandLoop
    (idx : Nat)
    (result : (expandLoop allocator env input idx).res ≠ none) :
    Shows (expandLoop allocator env input idx)
      (ExpandVars.expandLoop allocator.fresh env input idx) := by
  induction idx with
  | zero =>
      by_cases granted : allocator.grants (input.length + 1) = true
      · have found :
            (Expansion.start allocator input).res = some (input ++ [nul]) := by
          simp [Expansion.start, Expansion.note, granted]
        exact ⟨found, rfl, rfl, rfl, rfl⟩
      · refine absurd ?_ result
        simp [expandLoop, Expansion.start, Expansion.note, granted]
  | succ idx inductionHypothesis =>
      rw [expandLoop] at result ⊢
      by_cases stopped : (expandLoop allocator env input idx).res = none
      · simp only [stopped, ↓reduceIte] at result
        exact absurd rfl result
      · simp only [stopped, ↓reduceIte] at result ⊢
        exact
          (inductionHypothesis stopped).step (kept_expandLoop idx) result

end Shows

/-- A result is the block of the expansion that always finds memory. -/
theorem eq_dest_of_cshExpandVars
    {allocator : Allocator}
    {env : CshEnv}
    {input : CString}
    {cells : List Char}
    (result : (cshExpandVars allocator env input).res = some cells) :
    cells = (ExpandVars.cshExpandVars allocator.fresh env input).dest := by
  rw [cshExpandVars] at result
  cases found : (expandLoop allocator env input input.length).res with
  | none =>
      simp only [found] at result
      cases result
  | some block =>
      simp only [found, Expansion.note] at result
      have shown :=
        @shows_expandLoop allocator env input input.length (by rw [found]; simp)
      obtain rfl := Option.some.inj (found.symm.trans shown.res)
      rw [← Option.some.inj result, shown.resIdx]
      rfl

/-- A value that does not fit any more leaves no result. -/
example :
    (cshExpandVars ⟨fun size => size ≤ 22, by simp; omega, fun _ => nul⟩
        [⟨"JB".toList, List.replicate 40 'v'⟩] "$(JB)".toList).res = none := by
  decide

end Csh.ExpandMemory
