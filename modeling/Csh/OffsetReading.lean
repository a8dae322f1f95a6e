import Csh.ParamOffsets

namespace Csh.ParamOffsets

open Libc

/-!
# How offset strings are read

The parser accepts an offset string exactly when every item denotes offsets
and all of them fit the array; it then returns their concatenation.  An index
is whatever `atoi` makes of it.  A slice is read by two `sscanf` patterns in
one of four shapes.
-/

/--
What is left when the colons are taken off a slice with a missing bound: at
most one piece, which is a number other than zero or a plain `0`.
-/
def LonePiece (item : CString) : Prop :=
  match tokens (· == ':') item with
  | [] => True
  | [arg] => (strtoul 10 arg).1 ≠ 0 ∨ arg = ['0']
  | _ => False

/-- The four shapes of a slice, with `intMin` for a missing bound. -/
inductive SliceRead : CString → Int → Int → Prop where
  | closed
      {item rest later : CString}
      {start stop : Int}
      (first : scanInt item = some (start, ':' :: rest))
      (second : scanInt rest = some (stop, later)) :
      SliceRead item start stop
  | openEnd
      {item rest : CString}
      {start : Int}
      (first : scanInt item = some (start, ':' :: rest))
      (missing : scanInt rest = none)
      (lone : LonePiece item) :
      SliceRead item start intMin
  | openStart
      {rest later : CString}
      {stop : Int}
      (second : scanInt rest = some (stop, later)) :
      SliceRead (':' :: rest) intMin stop
  | whole
      {rest : CString}
      (missing : scanInt rest = none)
      (lone : LonePiece (':' :: rest)) :
      SliceRead (':' :: rest) intMin intMin

/-- The offsets an item denotes in an array of `arraySize` elements. -/
inductive Denotes (arraySize : Nat) : CString → List Int → Prop where
  | index
      {item : CString}
      (noColon : ':' ∉ item) :
      Denotes arraySize item [resolveIndex arraySize (atoi item)]
  | slice
      {item : CString}
      {startIndex endIndex : Int}
      (colon : ':' ∈ item)
      (read : SliceRead item startIndex endIndex)
      (start_nonneg : 0 ≤ resolveBound arraySize 0 startIndex)
      (nonempty :
        resolveBound arraySize 0 startIndex <
          resolveBound arraySize arraySize endIndex)
      (inRange : resolveBound arraySize arraySize endIndex ≤ arraySize) :
      Denotes arraySize item
        (offsetRange
          (resolveBound arraySize 0 startIndex)
          (resolveBound arraySize arraySize endIndex))

/-- The offsets of the non-empty items of an offset string, which must fit. -/
def Reads
    (arraySize : Nat)
    (arg : CString)
    (offsets : List Int) :
    Prop :=
  ∃ parts,
    List.Forall₂ (Denotes arraySize) (tokens (· == ',') arg) parts ∧
      offsets = parts.flatten ∧
      offsets.length ≤ arraySize

section Slices

theorem scanInt_colon
    (rest : CString) :
    scanInt (':' :: rest) = none :=
  scanInt_cons_eq_none (by decide) (by decide) (by decide) rest

/-- The check behind a missing bound looks at the pieces between colons. -/
theorem secondArgValid_iff
    (token : CString) :
    secondArgValid token = true ↔ LonePiece token := by
  obtain ⟨firstToken, remaining⟩ :=
    strtokR_tokens (· == ':') token
  obtain ⟨secondToken, _⟩ :=
    strtokR_tokens (· == ':') (strtokR (· == ':') token).2
  rw [remaining] at secondToken
  simp only [secondArgValid, firstToken, secondToken, LonePiece]
  match tokens (· == ':') token with
  | [] =>
      simp
  | [arg] =>
      by_cases zero : (strtoul 10 arg).1 = 0 <;> simp [zero]
  | _ :: _ :: _ =>
      simp

/-- The bounds of a slice from its delimiter on, where its start is known. -/
def boundsFrom
    (token : CString)
    (start : Int)
    (delimitor : Char)
    (rest : CString) :
    Option (Int × Int) :=
  if delimitor = ':' then
    match scanInt rest with
    | none =>
        if secondArgValid token = false then none else some (start, intMin)
    | some (stop, _) => some (start, stop)
  else
    none

theorem boundsFrom_eq_some_iff
    {token rest : CString}
    {start startIndex endIndex : Int}
    {delimitor : Char} :
    boundsFrom token start delimitor rest = some (startIndex, endIndex) ↔
      delimitor = ':' ∧
        startIndex = start ∧
        ((∃ later, scanInt rest = some (endIndex, later)) ∨
          scanInt rest = none ∧ endIndex = intMin ∧ LonePiece token) := by
  rw [← secondArgValid_iff, boundsFrom]
  split
  · rename_i isColon
    cases scanInt rest with
    | none =>
        cases secondArgValid token with
        | false =>
            simp
        | true =>
            simp only [↓reduceIte, Option.some.injEq, Prod.mk.injEq,
              reduceCtorEq, exists_false, false_or, true_and, and_true,
              isColon, eq_comm]
    | some read =>
        obtain ⟨stop, later⟩ := read
        simp [isColon, @eq_comm _ startIndex]
  · rename_i notColon
    simp [notColon]

/-- A token that starts with a number is read from its delimiter on. -/
theorem paramSlashParseSlice_of_start
    {garbage delimitor : Char}
    {token rest : CString}
    {start : Int}
    (scanned : scanInt token = some (start, delimitor :: rest)) :
    paramSlashParseSlice garbage token intMin intMin =
      boundsFrom token start delimitor rest := by
  cases stopScanned : scanInt rest with
  | none =>
      by_cases isColon : delimitor = ':'
      · subst isColon
        simp [paramSlashParseSlice, boundsFrom, firstScan, scanned,
          stopScanned]
      · simp [paramSlashParseSlice, boundsFrom, firstScan, scanned,
          stopScanned, isColon]
  | some read =>
      by_cases isColon : delimitor = ':'
      · subst isColon
        simp [paramSlashParseSlice, boundsFrom, firstScan, scanned,
          stopScanned]
      · simp [paramSlashParseSlice, boundsFrom, firstScan, scanned,
          stopScanned, isColon]

/-- Any other token is read by the second pattern, from its first character. -/
theorem paramSlashParseSlice_of_no_start
    {garbage delimitor : Char}
    {rest : CString}
    (scanned : scanInt (delimitor :: rest) = none) :
    paramSlashParseSlice garbage (delimitor :: rest) intMin intMin =
      boundsFrom (delimitor :: rest) intMin delimitor rest := by
  cases stopScanned : scanInt rest with
  | none =>
      by_cases isColon : delimitor = ':'
      · subst isColon
        simp [paramSlashParseSlice, boundsFrom, firstScan, secondScan,
          scanned, stopScanned]
      · simp [paramSlashParseSlice, boundsFrom, firstScan, secondScan,
          scanned, stopScanned, isColon]
  | some read =>
      by_cases isColon : delimitor = ':'
      · subst isColon
        simp [paramSlashParseSlice, boundsFrom, firstScan, secondScan,
          scanned, stopScanned]
      · simp [paramSlashParseSlice, boundsFrom, firstScan, secondScan,
          scanned, stopScanned, isColon]

/-- A token with a colon is read as one of the four shapes or refused. -/
theorem paramSlashParseSlice_eq_some_iff
    {garbage : Char}
    {token : CString}
    {startIndex endIndex : Int}
    (colon : ':' ∈ token) :
    paramSlashParseSlice garbage token intMin intMin =
        some (startIndex, endIndex) ↔
      SliceRead token startIndex endIndex := by
  cases scanned : scanInt token with
  | none =>
      obtain ⟨c, rest, rfl⟩ :=
        List.exists_cons_of_ne_nil (List.ne_nil_of_mem colon)
      rw [paramSlashParseSlice_of_no_start scanned, boundsFrom_eq_some_iff]
      constructor
      · rintro ⟨rfl, rfl, ⟨later, second⟩ | ⟨missing, rfl, lone⟩⟩
        · exact .openStart second
        · exact .whole missing lone
      · rintro (⟨first, _⟩ | ⟨first, _, _⟩ | ⟨second⟩ | ⟨missing, lone⟩)
        · simp [scanned] at first
        · simp [scanned] at first
        · exact ⟨rfl, rfl, .inl ⟨_, second⟩⟩
        · exact ⟨rfl, rfl, .inr ⟨missing, rfl, lone⟩⟩
  | some read =>
      obtain ⟨start, rest⟩ := read
      have colonBehind : ':' ∈ rest :=
        mem_rest_of_scanInt scanned colon (by decide) (by decide) (by decide)
      obtain ⟨c, later, rfl⟩ :=
        List.exists_cons_of_ne_nil (List.ne_nil_of_mem colonBehind)
      rw [paramSlashParseSlice_of_start scanned, boundsFrom_eq_some_iff]
      constructor
      · rintro ⟨rfl, rfl, ⟨behind, second⟩ | ⟨missing, rfl, lone⟩⟩
        · exact .closed scanned second
        · exact .openEnd scanned missing lone
      · rintro (⟨first, second⟩ | ⟨first, missing, lone⟩ | _ | _)
        · rw [scanned] at first
          simp only [Option.some.injEq, Prod.mk.injEq, List.cons.injEq]
            at first
          obtain ⟨rfl, rfl, rfl⟩ := first
          exact ⟨rfl, rfl, .inl ⟨_, second⟩⟩
        · rw [scanned] at first
          simp only [Option.some.injEq, Prod.mk.injEq, List.cons.injEq]
            at first
          obtain ⟨rfl, rfl, rfl⟩ := first
          exact ⟨rfl, rfl, .inr ⟨missing, rfl, lone⟩⟩
        · simp [scanInt_colon] at scanned
        · simp [scanInt_colon] at scanned

end Slices

section Items

variable {arraySize : Nat}

theorem mem_offsetRange
    {start stop offset : Int} :
    offset ∈ offsetRange start stop ↔ start ≤ offset ∧ offset < stop := by
  simp only [offsetRange, List.mem_map, List.mem_range]
  constructor
  · rintro ⟨index, below, rfl⟩
    omega
  · rintro ⟨above, below⟩
    exact ⟨(offset - start).toNat, by omega, by omega⟩

@[simp] theorem length_offsetRange
    (start stop : Int) :
    (offsetRange start stop).length = (stop - start).toNat := by
  simp [offsetRange]

/-- Every item denotes at least one offset. -/
theorem Denotes.ne_nil
    {item : CString}
    {offsets : List Int}
    (denotes : Denotes arraySize item offsets) :
    offsets ≠ [] := by
  cases denotes with
  | index noColon =>
      simp
  | slice colon read start_nonneg nonempty inRange =>
      intro isEmpty
      have noOffset := congrArg List.length isEmpty
      rw [length_offsetRange, List.length_nil] at noOffset
      omega

/-- Storing offsets appends them all, and some must still have fitted. -/
theorem storeOffsets_eq_some_iff
    {stored offsets next : List Int}
    (fits : stored.length ≤ arraySize) :
    storeOffsets arraySize stored offsets = some next ↔
      next = stored ++ offsets ∧ next.length ≤ arraySize := by
  induction offsets generalizing stored with
  | nil =>
      simp only [storeOffsets, Option.some.injEq, List.append_nil]
      constructor
      · rintro rfl
        exact ⟨rfl, fits⟩
      · rintro ⟨rfl, _⟩
        rfl
  | cons offset rest inductionHypothesis =>
      by_cases full : arraySize ≤ stored.length
      · simp only [storeOffsets, full, ↓reduceIte, reduceCtorEq, false_iff,
          not_and]
        rintro rfl
        simp only [List.length_append, List.length_cons]
        omega
      · have room : (stored ++ [offset]).length ≤ arraySize := by
          simp only [List.length_append, List.length_singleton]
          omega
        simp only [storeOffsets, full, ↓reduceIte, inductionHypothesis room,
          List.append_assoc, List.singleton_append]

/-- One turn of the loop appends the offsets of the item, if they fit. -/
theorem parseToken_eq_some_iff
    {garbage : Char}
    {stored next : List Int}
    {token : CString}
    (fits : stored.length ≤ arraySize) :
    parseToken garbage arraySize stored token = some next ↔
      ∃ offsets,
        Denotes arraySize token offsets ∧
          next = stored ++ offsets ∧
          next.length ≤ arraySize := by
  by_cases full : arraySize ≤ stored.length
  · simp only [parseToken, full, ↓reduceIte, reduceCtorEq, false_iff]
    rintro ⟨offsets, denotes, rfl, short⟩
    have positive := List.length_pos_iff.mpr denotes.ne_nil
    rw [List.length_append] at short
    omega
  by_cases colon : ':' ∈ token
  · have contains : token.contains ':' = true := by
      simpa using colon
    simp only [parseToken, full, contains, ↓reduceIte]
    constructor
    · intro accepted
      split at accepted
      · simp at accepted
      · rename_i startIndex endIndex parsed
        have read := (paramSlashParseSlice_eq_some_iff colon).mp parsed
        simp only [Option.ite_none_left_eq_some] at accepted
        obtain ⟨start_nonneg, stop_nonneg, nonempty, inRange, storing⟩ :=
          accepted
        exact ⟨_,
          .slice colon read (by omega) (by omega) (by omega),
          (storeOffsets_eq_some_iff fits).mp storing⟩
    · rintro ⟨offsets, denotes, shape, short⟩
      cases denotes with
      | index noColon =>
          exact (noColon colon).elim
      | slice _ read start_nonneg nonempty inRange =>
          rw [(paramSlashParseSlice_eq_some_iff colon).mpr read]
          simp only [Option.ite_none_left_eq_some]
          exact ⟨by omega, by omega, by omega, by omega,
            (storeOffsets_eq_some_iff fits).mpr ⟨shape, short⟩⟩
  · have contains : token.contains ':' = false := by
      simpa using colon
    simp only [parseToken, full, contains, ↓reduceIte, Bool.false_eq_true,
      Option.some.injEq]
    constructor
    · rintro rfl
      refine ⟨_, .index colon, rfl, ?_⟩
      simp only [List.length_append, List.length_singleton]
      omega
    · rintro ⟨offsets, denotes, shape, _⟩
      cases denotes with
      | index noColon =>
          exact shape.symm
      | slice present _ _ _ _ =>
          exact (colon present).elim

/-- The loop appends the offsets of all items, if they fit. -/
theorem foldlM_parseToken_eq_some_iff
    {garbage : Char}
    {items : List CString}
    {stored result : List Int}
    (fits : stored.length ≤ arraySize) :
    items.foldlM (parseToken garbage arraySize) stored = some result ↔
      ∃ parts,
        List.Forall₂ (Denotes arraySize) items parts ∧
          result = stored ++ parts.flatten ∧
          result.length ≤ arraySize := by
  induction items generalizing stored with
  | nil =>
      constructor
      · intro same
        obtain rfl := Option.some.inj same
        exact ⟨[], .nil, by simp, fits⟩
      · rintro ⟨parts, ⟨⟩, rfl, _⟩
        simp
  | cons item items inductionHypothesis =>
      rw [List.foldlM_cons]
      constructor
      · intro accepted
        obtain ⟨next, turn, later⟩ := Option.bind_eq_some_iff.mp accepted
        obtain ⟨offsets, denotes, rfl, short⟩ :=
          (parseToken_eq_some_iff fits).mp turn
        obtain ⟨parts, denoted, rfl, bounded⟩ :=
          (inductionHypothesis short).mp later
        exact ⟨offsets :: parts, .cons denotes denoted, by simp, bounded⟩
      · rintro ⟨parts, denoted, rfl, bounded⟩
        cases denoted with
        | cons denotes denoted =>
            rename_i offsets parts
            have short : (stored ++ offsets).length ≤ arraySize := by
              simp only [List.flatten_cons, List.length_append] at bounded ⊢
              omega
            refine Option.bind_eq_some_iff.mpr
              ⟨stored ++ offsets,
                (parseToken_eq_some_iff fits).mpr
                  ⟨offsets, denotes, rfl, short⟩,
                (inductionHypothesis short).mpr
                  ⟨parts, denoted, by simp, bounded⟩⟩

/-- The parser returns exactly the offsets its items read as. -/
theorem paramOffsetsParseFromStr_eq_some_iff
    {garbage : Char}
    {arg : CString}
    {offsets : List Int} :
    paramOffsetsParseFromStr garbage arraySize (some arg) = some offsets ↔
      Reads arraySize arg offsets := by
  have unfolded :=
    @foldlM_parseToken_eq_some_iff arraySize garbage (tokens (· == ',') arg)
      [] offsets (Nat.zero_le arraySize)
  simp only [List.nil_append] at unfolded
  exact unfolded

end Items

section Ranges

variable {arraySize : Nat}

/-- An element of an array. -/
def InArray (arraySize : Nat) (offset : Int) : Prop :=
  0 ≤ offset ∧ offset < arraySize

/-- An item without a colon is an index of the array, from either end. -/
def IndexInRange (arraySize : Nat) (item : CString) : Prop :=
  ':' ∉ item → -(arraySize : Int) ≤ atoi item ∧ atoi item < arraySize

/--
What keeps the offsets of an offset string inside the array: there is an item,
and every item without a colon is an index of the array, if the string is read
at all.  No offset string selects every element.
-/
def IndexesInRange (arraySize : Nat) : Option CString → Prop
  | none => True
  | some arg =>
      (∃ offsets, Reads arraySize arg offsets) →
        tokens (· == ',') arg ≠ [] ∧
          ∀ item ∈ tokens (· == ',') arg, IndexInRange arraySize item

theorem inArray_resolveIndex_iff
    (value : Int) :
    InArray arraySize (resolveIndex arraySize value) ↔
      -(arraySize : Int) ≤ value ∧ value < arraySize := by
  unfold InArray resolveIndex
  split <;> omega

/-- Only an index can denote an offset outside the array. -/
theorem Denotes.forall_inArray_iff
    {item : CString}
    {offsets : List Int}
    (denotes : Denotes arraySize item offsets) :
    (∀ offset ∈ offsets, InArray arraySize offset) ↔
      IndexInRange arraySize item := by
  cases denotes with
  | index noColon =>
      simp [IndexInRange, noColon, inArray_resolveIndex_iff]
  | slice colon read start_nonneg nonempty inRange =>
      constructor
      · intro _ noColon
        exact (noColon colon).elim
      · intro _ offset member
        have bounds := mem_offsetRange.mp member
        exact ⟨by omega, by omega⟩

/-- The offsets of all items are in the array when the indexes are. -/
theorem forall_flatten_inArray_iff
    {items : List CString}
    {parts : List (List Int)}
    (denoted : List.Forall₂ (Denotes arraySize) items parts) :
    (∀ offset ∈ parts.flatten, InArray arraySize offset) ↔
      ∀ item ∈ items, IndexInRange arraySize item := by
  induction denoted with
  | nil =>
      simp
  | cons denotes denoted inductionHypothesis =>
      rw [List.flatten_cons, List.forall_mem_append, List.forall_mem_cons,
        denotes.forall_inArray_iff, inductionHypothesis]

/-- There is an offset when there is an item. -/
theorem flatten_ne_nil_iff
    {items : List CString}
    {parts : List (List Int)}
    (denoted : List.Forall₂ (Denotes arraySize) items parts) :
    parts.flatten ≠ [] ↔ items ≠ [] := by
  cases denoted with
  | nil =>
      simp
  | cons denotes denoted =>
      simp [denotes.ne_nil]

/--
The offsets of an accepted offset string are between one and `arraySize` in
number, and all in the array, exactly when there is an item and the indexes
are in range.
-/
theorem offsets_inArray_iff
    (nonempty : 1 ≤ arraySize)
    (garbage : Char)
    (arg : Option CString) :
    (∀ offsets,
        paramOffsetsParseFromStr garbage arraySize arg = some offsets →
          (1 ≤ offsets.length ∧ offsets.length ≤ arraySize) ∧
            ∀ offset ∈ offsets, InArray arraySize offset) ↔
      IndexesInRange arraySize arg := by
  cases arg with
  | none =>
      simp only [paramOffsetsParseFromStr, IndexesInRange, iff_true]
      rintro offsets accepted
      obtain rfl := Option.some.inj accepted
      refine ⟨by simpa using nonempty, ?_⟩
      intro offset member
      obtain ⟨index, below, rfl⟩ := List.mem_map.mp member
      have bound := List.mem_range.mp below
      exact ⟨by omega, by omega⟩
  | some arg =>
      simp only [paramOffsetsParseFromStr_eq_some_iff]
      constructor
      · rintro valid ⟨offsets, reads⟩
        have checked := valid offsets reads
        obtain ⟨parts, denoted, rfl, _⟩ := reads
        exact
          ⟨(flatten_ne_nil_iff denoted).mp
              (List.length_pos_iff.mp checked.1.1),
            (forall_flatten_inArray_iff denoted).mp checked.2⟩
      · intro inRange offsets reads
        obtain ⟨someItem, indexes⟩ := inRange ⟨offsets, reads⟩
        obtain ⟨parts, denoted, rfl, short⟩ := reads
        exact
          ⟨⟨List.length_pos_iff.mpr ((flatten_ne_nil_iff denoted).mpr someItem),
              short⟩,
            (forall_flatten_inArray_iff denoted).mpr indexes⟩

/-- The slice and the last element of eight stay inside the array. -/
theorem offsets_inArray_of_slice_and_last :
    IndexesInRange 8 (some ['2', ':', '5', ',', '-', '1']) ∧
      ∀ offsets,
        paramOffsetsParseFromStr ' ' 8 (some ['2', ':', '5', ',', '-', '1']) =
            some offsets →
          (1 ≤ offsets.length ∧ offsets.length ≤ 8) ∧
            ∀ offset ∈ offsets, InArray 8 offset := by
  have inRange :
      IndexesInRange 8 (some ['2', ':', '5', ',', '-', '1']) := by
    refine fun _ => ⟨by decide, ?_⟩
    unfold IndexInRange
    decide
  refine ⟨inRange, ?_⟩
  exact
    (offsets_inArray_iff (by decide) ' '
      (some ['2', ':', '5', ',', '-', '1'])).mpr inRange

/-- Index 100 of an array of eight elements is accepted. -/
theorem offsets_accept_index_outside :
    ¬ ∀ (arraySize : Nat) (garbage : Char) (arg : Option CString),
      1 ≤ arraySize →
        ∀ offsets,
          paramOffsetsParseFromStr garbage arraySize arg = some offsets →
            (1 ≤ offsets.length ∧ offsets.length ≤ arraySize) ∧
              ∀ offset ∈ offsets, InArray arraySize offset := by
  intro inside
  have claimed :=
    inside 8 ' ' (some ['1', '0', '0']) (by decide) [100] (by decide)
  have outside := (claimed.2 100 (by simp)).2
  omega

end Ranges

end Csh.ParamOffsets
