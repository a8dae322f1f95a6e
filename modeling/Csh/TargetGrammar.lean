import Csh.OffsetReading

namespace Csh.ParamOffsets

open Libc

/-!
# The grammar of targets

A target should be `NAME` or `NAME[item,...,item]`, where an item is a decimal
integer or a slice.  The parser accepts every well-formed target whose items
fit the array, and some that are not well-formed: the malformations it lets
through are listed one by one.
-/

def NoBracket (text : CString) : Prop :=
  '[' ∉ text ∧ ']' ∉ text

instance (text : CString) : Decidable (NoBracket text) :=
  inferInstanceAs (Decidable (_ ∧ _))

/-- A slice `a:b`, where either bound may be missing. -/
def IsSlice (item : CString) : Prop :=
  ∃ start stop,
    item = start ++ ':' :: stop ∧
      (start = [] ∨ IsInteger start) ∧
      (stop = [] ∨ IsInteger stop)

def IsItem (item : CString) : Prop :=
  IsInteger item ∨ IsSlice item

/-- `NAME` or `NAME[item,...,item]`. -/
inductive WellFormedTarget : CString → Prop where
  | name
      {name : CString}
      (nonempty : name ≠ [])
      (noBracket : NoBracket name) :
      WellFormedTarget name
  | items
      {name body : CString}
      (nonempty : name ≠ [])
      (noBracket : NoBracket name)
      (items : ∀ item ∈ body.splitOn ',', IsItem item) :
      WellFormedTarget (name ++ '[' :: (body ++ [']']))

/-- The text behind the first colon of an item. -/
def afterColon (item : CString) : CString :=
  (item.dropWhile (· != ':')).drop 1

/-- What a slice may contain beyond its two bounds without being refused. -/
inductive LooseSlice (item : CString) : Prop where
  | blank
      {c : Char}
      (member : c ∈ item)
      (blank : isspace c = true)
  | colon
      (several : 1 < item.count ':')
  | textBehind
      {stop : Int}
      {later : CString}
      (scanned : scanInt (afterColon item) = some (stop, later))
      (nonempty : later ≠ [])

/--
The brackets of a target open: a second piece follows the first `[`, it ends
with `]`, and cutting it at its first `]` drops one character at most, which
leaves the offset string `body`.
-/
def Opened (target body : CString) : Prop :=
  ∃ token,
    (tokens (· == '[') target).tail.head? = some token ∧
      token.getLast? = some ']' ∧
      token.length ≤ (strtokCut (· == ']') token).length + 1 ∧
      body = strtokCut (· == ']') token

/-- The malformations that the items of an offset string may have. -/
inductive LooseBody (body : CString) : Prop where
  | emptyItem
      (member : [] ∈ body.splitOn ',')
  | index
      {item : CString}
      (member : item ∈ tokens (· == ',') body)
      (noColon : ':' ∉ item)
      (notInteger : ¬ IsInteger item)
  | slice
      {item : CString}
      (member : item ∈ tokens (· == ',') body)
      (colon : ':' ∈ item)
      (loose : LooseSlice item)

/--
The malformed targets that are accepted.  Without a second piece the brackets
are not looked at.  With one, a further `[` cuts text off, a further `]` may
stand in the name or in front of the items, and the items may be loose.
-/
inductive Tolerated (arraySize : Nat) (target : CString) : Prop where
  | unopened
      (unopened : (tokens (· == '[') target).tail = [])
      (malformed : target = [] ∨ ¬ NoBracket target)
  | opened
      {body : CString}
      {offsets : List Int}
      (opened : Opened target body)
      (reads : Reads arraySize body offsets)
      (malformed :
        1 < target.count '[' ∨ 1 < target.count ']' ∨ LooseBody body)

section Brackets

/-- The second piece of a target is what its brackets are read from. -/
theorem paramGetOffsetString_eq_some_iff
    {target name : CString}
    {offsetString : Option CString} :
    paramGetOffsetString target = some (name, offsetString) ↔
      name = strtokCut (· == '[') target ∧
        match offsetString with
        | none => (tokens (· == '[') target).tail = []
        | some body => Opened target body := by
  obtain ⟨_, remaining⟩ := strtokR_tokens (· == '[') target
  obtain ⟨secondToken, _⟩ :=
    strtokR_tokens (· == '[') (strtokR (· == '[') target).2
  rw [remaining] at secondToken
  simp only [paramGetOffsetString, Opened, secondToken]
  cases (tokens (· == '[') target).tail with
  | nil =>
      cases offsetString <;> simp [eq_comm]
  | cons token later =>
      by_cases closed : token.getLast? = some ']'
      · by_cases short :
            token.length ≤ (strtokCut (· == ']') token).length + 1
        · have accepted :
              ¬ 1 < token.length - (strtokCut (· == ']') token).length := by
            omega
          cases offsetString <;> simp [closed, short, accepted, eq_comm]
        · have refused :
              1 < token.length - (strtokCut (· == ']') token).length := by
            omega
          cases offsetString <;> simp [closed, short, refused]
      · cases offsetString <;> simp [closed]

/-- A target is accepted when nothing opens, or when its items are read. -/
theorem parseTarget_isSome_iff
    {garbage : Char}
    {arraySize : Nat}
    {target : CString} :
    (parseTarget garbage arraySize target).isSome ↔
      (tokens (· == '[') target).tail = [] ∨
        ∃ body offsets,
          Opened target body ∧ Reads arraySize body offsets := by
  constructor
  · intro accepted
    cases brackets : paramGetOffsetString target with
    | none =>
        simp [parseTarget, brackets] at accepted
    | some read =>
        obtain ⟨name, offsetString⟩ := read
        obtain ⟨_, shape⟩ := paramGetOffsetString_eq_some_iff.mp brackets
        cases offsetString with
        | none =>
            exact .inl shape
        | some body =>
            simp only [parseTarget, brackets, Option.isSome_map,
              Option.isSome_iff_exists] at accepted
            obtain ⟨offsets, parsed⟩ := accepted
            exact .inr
              ⟨body, offsets, shape,
                paramOffsetsParseFromStr_eq_some_iff.mp parsed⟩
  · rintro (unopened | ⟨body, offsets, opened, reads⟩)
    · have brackets :
          paramGetOffsetString target =
            some (strtokCut (· == '[') target, none) :=
        paramGetOffsetString_eq_some_iff.mpr ⟨rfl, unopened⟩
      simp [parseTarget, brackets, paramOffsetsParseFromStr]
    · have brackets :
          paramGetOffsetString target =
            some (strtokCut (· == '[') target, some body) :=
        paramGetOffsetString_eq_some_iff.mpr ⟨rfl, opened⟩
      simp [parseTarget, brackets,
        paramOffsetsParseFromStr_eq_some_iff.mpr reads]

/-- A well-formed target opens its body and nothing else. -/
theorem opened_items_iff
    {name body cut : CString}
    (nonempty : name ≠ [])
    (noBracket : NoBracket name)
    (bodyNonempty : body ≠ [])
    (bodyNoBracket : NoBracket body) :
    Opened (name ++ '[' :: (body ++ [']'])) cut ↔ cut = body := by
  have noOpen : '[' ∉ body ++ [']'] := by
    simp [bodyNoBracket.1]
  have pieces :
      tokens (· == '[') (name ++ '[' :: (body ++ [']'])) =
        [name, body ++ [']']] := by
    rw [tokens_append_delimiter _ (by simp),
      tokens_of_not_mem nonempty noBracket.1,
      tokens_of_not_mem (by simp) noOpen]
    rfl
  have closed : strtokCut (· == ']') (body ++ [']']) = body :=
    strtokCut_append_of_not_mem bodyNonempty bodyNoBracket.2
  simp [Opened, pieces, closed]

/-- A target that opens once and closes once is a name and a body. -/
theorem Opened.exists_eq_append
    {target body : CString}
    (opened : Opened target body)
    (opensOnce : target.count '[' ≤ 1)
    (closesOnce : target.count ']' ≤ 1) :
    body = [']'] ∨
      ∃ name,
        target = name ++ '[' :: (body ++ [']']) ∧
          name ≠ [] ∧ NoBracket name ∧ NoBracket body := by
  obtain ⟨token, second, last, _, rfl⟩ := opened
  have opens : '[' ∈ target := by
    by_contra absent
    by_cases empty : target = []
    · simp [empty] at second
    · simp [tokens_of_not_mem empty absent] at second
  obtain ⟨name, trailing, rfl, opensBefore, opensBehind⟩ :=
    exists_append_of_count_le_one opens opensOnce
  rw [tokens_append_delimiter _ (by simp)] at second
  have nonempty : name ≠ [] := by
    rintro rfl
    by_cases empty : trailing = []
    · simp [empty] at second
    · simp [tokens_of_not_mem empty opensBehind] at second
  have trailingNonempty : trailing ≠ [] := by
    rintro rfl
    simp [tokens_of_not_mem nonempty opensBefore] at second
  rw [tokens_of_not_mem nonempty opensBefore,
    tokens_of_not_mem trailingNonempty opensBehind] at second
  obtain rfl : trailing = token := by
    simpa using second
  obtain ⟨body, rfl⟩ := List.getLast?_eq_some_iff.mp last
  simp only [List.count_append, List.count_cons, List.count_nil] at closesOnce
  have bodyNoBracket : NoBracket body := by
    refine ⟨fun inside => opensBehind (by simp [inside]), ?_⟩
    exact List.count_eq_zero.mp (by simp at closesOnce; omega)
  by_cases empty : body = []
  · subst empty
    exact .inl (by decide)
  · have cut : strtokCut (· == ']') (body ++ [']']) = body :=
      strtokCut_append_of_not_mem empty bodyNoBracket.2
    have noClose : ']' ∉ name :=
      List.count_eq_zero.mp (by simp at closesOnce; omega)
    rw [cut]
    exact .inr
      ⟨name, rfl, nonempty, ⟨opensBefore, noClose⟩, bodyNoBracket⟩

end Brackets

section Slices

theorem afterColon_append
    {start : CString}
    (noColon : ':' ∉ start)
    (stop : CString) :
    afterColon (start ++ ':' :: stop) = stop := by
  have kept := bne_of_not_mem noColon
  simp [afterColon, List.dropWhile_append_of_pos kept]

theorem IsInteger.not_mem_colon
    {text : CString}
    (integer : IsInteger text) :
    ':' ∉ text := by
  intro member
  exact integer.ne member (by decide) (by decide) rfl

/-- A bound of a slice that is missing or an integer. -/
theorem bound_isspace
    {bound : CString}
    (integer : bound = [] ∨ IsInteger bound)
    {c : Char}
    (member : c ∈ bound) :
    isspace c = false := by
  rcases integer with rfl | integer
  · simp at member
  · exact integer.isspace member

theorem bound_not_mem_colon
    {bound : CString}
    (integer : bound = [] ∨ IsInteger bound) :
    ':' ∉ bound := by
  rcases integer with rfl | integer
  · simp
  · exact IsInteger.not_mem_colon integer

/-- A slice holds no blank, one colon and nothing behind its second bound. -/
theorem IsSlice.not_loose
    {item : CString}
    (slice : IsSlice item) :
    ¬ LooseSlice item := by
  obtain ⟨start, stop, rfl, startBound, stopBound⟩ := slice
  have noColonBefore := bound_not_mem_colon startBound
  have noColonBehind := bound_not_mem_colon stopBound
  intro loose
  cases loose with
  | blank member blank =>
      rename_i c
      rcases List.mem_append.mp member with inStart | inRest
      · simp [bound_isspace startBound inStart] at blank
      · rcases List.mem_cons.mp inRest with rfl | inStop
        · exact absurd blank (by decide)
        · simp [bound_isspace stopBound inStop] at blank
  | colon several =>
      simp [List.count_append, List.count_eq_zero.mpr noColonBefore,
        List.count_eq_zero.mpr noColonBehind] at several
  | textBehind scanned nonempty =>
      rw [afterColon_append noColonBefore] at scanned
      rcases stopBound with rfl | integer
      · simp [scanInt, scanNumeral, scanSign] at scanned
      · obtain ⟨value, whole⟩ := scanInt_of_isInteger integer
        rw [whole] at scanned
        simp only [Option.some.injEq, Prod.mk.injEq] at scanned
        exact nonempty scanned.2.symm

/-- Behind the only colon of a read slice no bound means no text. -/
theorem eq_nil_of_lonePiece
    {start stop : CString}
    (startBound : start = [] ∨ IsInteger start)
    (noColon : ':' ∉ stop)
    (missing : scanInt stop = none)
    (lone : LonePiece (start ++ ':' :: stop)) :
    stop = [] := by
  by_contra nonempty
  have behind := tokens_of_not_mem nonempty noColon
  have pieces :
      tokens (· == ':') (start ++ ':' :: stop) =
        tokens (· == ':') start ++ [stop] := by
    rw [tokens_append_delimiter _ (by simp), behind]
  rw [LonePiece, pieces] at lone
  rcases startBound with rfl | integer
  · rcases lone with nonzero | rfl
    · have noNumber : scanNumeral 10 stop = none := by
        simpa [scanInt] using missing
      simp [strtoul, noNumber] at nonzero
    · exact absurd missing (by decide)
  · rw [tokens_of_not_mem integer.ne_nil
      (IsInteger.not_mem_colon integer)] at lone
    exact lone

/-- An integer or nothing, a colon and a second bound that was read. -/
theorem isSlice_of_not_loose
    {start stop : CString}
    (startBound : start = [] ∨ IsInteger start)
    (tight : ¬ LooseSlice (start ++ ':' :: stop))
    (read :
      (∃ value later, scanInt stop = some (value, later)) ∨
        (scanInt stop = none ∧ LonePiece (start ++ ':' :: stop))) :
    IsSlice (start ++ ':' :: stop) := by
  refine ⟨start, stop, rfl, startBound, ?_⟩
  have noBlank : ∀ c ∈ stop, isspace c = false := by
    intro c member
    by_contra blank
    have inItem : c ∈ start ++ ':' :: stop := by
      simp [member]
    exact tight (.blank inItem (by simpa using blank))
  have noColon : ':' ∉ stop := by
    intro member
    have positive := List.count_pos_iff.mpr member
    refine tight (.colon ?_)
    rw [List.count_append, List.count_cons_self]
    omega
  rcases read with ⟨value, later, scanned⟩ | ⟨missing, lone⟩
  · obtain ⟨number, integer, rfl⟩ :=
      exists_isInteger_of_scanInt noBlank scanned
    by_cases nothingBehind : later = []
    · subst nothingBehind
      rw [List.append_nil]
      exact .inr integer
    · have behind := afterColon_append (bound_not_mem_colon startBound)
      exact (tight (.textBehind (by rw [behind, scanned]) nothingBehind)).elim
  · exact .inl (eq_nil_of_lonePiece startBound noColon missing lone)

/-- A slice that is read is well-formed unless it is loose. -/
theorem SliceRead.isSlice_iff
    {item : CString}
    {startIndex endIndex : Int}
    (read : SliceRead item startIndex endIndex) :
    IsSlice item ↔ ¬ LooseSlice item := by
  refine ⟨IsSlice.not_loose, fun tight => ?_⟩
  have noBlank : ∀ c ∈ item, isspace c = false := by
    intro c member
    by_contra blank
    exact tight (.blank member (by simpa using blank))
  cases read with
  | closed first second =>
      obtain ⟨start, integer, rfl⟩ :=
        exists_isInteger_of_scanInt noBlank first
      exact isSlice_of_not_loose (.inr integer) tight (.inl ⟨_, _, second⟩)
  | openEnd first missing lone =>
      obtain ⟨start, integer, rfl⟩ :=
        exists_isInteger_of_scanInt noBlank first
      exact isSlice_of_not_loose (.inr integer) tight (.inr ⟨missing, lone⟩)
  | openStart second =>
      exact isSlice_of_not_loose (.inl rfl) tight (.inl ⟨_, _, second⟩)
  | whole missing lone =>
      exact isSlice_of_not_loose (.inl rfl) tight (.inr ⟨missing, lone⟩)

end Slices

section Targets

theorem IsItem.ne_nil
    {item : CString}
    (wellFormed : IsItem item) :
    item ≠ [] := by
  rcases wellFormed with integer | ⟨start, stop, rfl, _⟩
  · exact integer.ne_nil
  · simp

/-- No bracket stands in an item. -/
theorem IsItem.ne_bracket
    {item : CString}
    (wellFormed : IsItem item)
    {c d : Char}
    (member : c ∈ item)
    (bracket : d = '[' ∨ d = ']') :
    c ≠ d := by
  have outside :
      ∀ bound, (bound = [] ∨ IsInteger bound) → c ∈ bound → c ≠ d := by
    intro bound integer inside
    rcases integer with rfl | integer
    · simp at inside
    · rcases bracket with rfl | rfl
      · exact integer.ne inside (by decide) (by decide)
      · exact integer.ne inside (by decide) (by decide)
  rcases wellFormed with integer | ⟨start, stop, rfl, startBound, stopBound⟩
  · exact outside item (.inr integer) member
  · rcases List.mem_append.mp member with inStart | inRest
    · exact outside start startBound inStart
    · rcases List.mem_cons.mp inRest with rfl | inStop
      · rcases bracket with rfl | rfl <;> decide
      · exact outside stop stopBound inStop

/-- The offset string of a well-formed target is neither empty nor bracketed. -/
theorem body_of_items
    {body : CString}
    (items : ∀ item ∈ body.splitOn ',', IsItem item) :
    body ≠ [] ∧ NoBracket body := by
  have outside : ∀ c, (c = '[' ∨ c = ']') → c ∉ body := by
    intro c bracket inBody
    have noComma : c ≠ ',' := by
      rcases bracket with rfl | rfl <;> decide
    obtain ⟨item, member, inItem⟩ := exists_mem_splitOn inBody noComma
    exact (items item member).ne_bracket inItem bracket rfl
  refine ⟨?_, outside '[' (.inl rfl), outside ']' (.inr rfl)⟩
  rintro rfl
  exact (items [] (by simp)).ne_nil rfl

/-- A well-formed target opens and closes at most once. -/
theorem WellFormedTarget.count_le_one
    {target : CString}
    (wellFormed : WellFormedTarget target) :
    target.count '[' ≤ 1 ∧ target.count ']' ≤ 1 := by
  cases wellFormed with
  | name nonempty noBracket =>
      simp [List.count_eq_zero.mpr noBracket.1,
        List.count_eq_zero.mpr noBracket.2]
  | items nonempty noBracket items =>
      have bodyNoBracket := (body_of_items items).2
      simp [List.count_append, List.count_eq_zero.mpr noBracket.1,
        List.count_eq_zero.mpr noBracket.2,
        List.count_eq_zero.mpr bodyNoBracket.1,
        List.count_eq_zero.mpr bodyNoBracket.2]

/-- Every item of an offset string that is read denotes offsets. -/
theorem Reads.exists_denotes
    {arraySize : Nat}
    {body item : CString}
    {offsets : List Int}
    (reads : Reads arraySize body offsets)
    (member : item ∈ tokens (· == ',') body) :
    ∃ part, Denotes arraySize item part := by
  obtain ⟨parts, denoted, -⟩ := reads
  generalize tokens (· == ',') body = items at denoted member
  induction denoted with
  | nil =>
      simp at member
  | cons denotes _ inductionHypothesis =>
      rcases List.mem_cons.mp member with rfl | later
      · exact ⟨_, denotes⟩
      · exact inductionHypothesis later

/-- The items of an offset string that is read are well-formed unless loose. -/
theorem Reads.items_iff
    {arraySize : Nat}
    {body : CString}
    {offsets : List Int}
    (reads : Reads arraySize body offsets) :
    (∀ item ∈ body.splitOn ',', IsItem item) ↔ ¬ LooseBody body := by
  constructor
  · intro items loose
    cases loose with
    | emptyItem member =>
        exact (items [] member).ne_nil rfl
    | index member noColon notInteger =>
        rcases items _ (mem_tokens_iff.mp member).1 with integer | slice
        · exact notInteger integer
        · obtain ⟨start, stop, rfl, _⟩ := slice
          simp at noColon
    | slice member colon loose =>
        rcases items _ (mem_tokens_iff.mp member).1 with integer | slice
        · exact IsInteger.not_mem_colon integer colon
        · exact slice.not_loose loose
  · intro tight item piece
    have nonempty : item ≠ [] := by
      rintro rfl
      exact tight (.emptyItem piece)
    have member := mem_tokens_iff.mpr ⟨piece, nonempty⟩
    obtain ⟨part, denotes⟩ := reads.exists_denotes member
    cases denotes with
    | index noColon =>
        by_contra malformed
        refine tight (.index member noColon fun integer => ?_)
        exact malformed (.inl integer)
    | slice colon read _ _ _ =>
        refine .inr (read.isSlice_iff.mpr fun loose => ?_)
        exact tight (.slice member colon loose)

/-- An opened target whose items are read is well-formed unless malformed. -/
theorem Opened.wellFormed_iff
    {arraySize : Nat}
    {target body : CString}
    {offsets : List Int}
    (opened : Opened target body)
    (reads : Reads arraySize body offsets) :
    WellFormedTarget target ↔
      ¬ (1 < target.count '[' ∨ 1 < target.count ']' ∨ LooseBody body) := by
  constructor
  · intro wellFormed malformed
    obtain ⟨opensOnce, closesOnce⟩ := wellFormed.count_le_one
    cases wellFormed with
    | name nonempty noBracket =>
        obtain ⟨token, second, _⟩ := opened
        simp [tokens_of_not_mem nonempty noBracket.1] at second
    | items nonempty noBracket items =>
        obtain ⟨bodyNonempty, bodyNoBracket⟩ := body_of_items items
        obtain rfl :=
          (opened_items_iff nonempty noBracket bodyNonempty
            bodyNoBracket).mp opened
        rcases malformed with doubledOpen | doubledClose | loose
        · omega
        · omega
        · exact reads.items_iff.mp items loose
  · intro proper
    have items : ∀ item ∈ body.splitOn ',', IsItem item :=
      reads.items_iff.mpr fun loose => proper (.inr (.inr loose))
    have bodyNoBracket := (body_of_items items).2
    have opensOnce : target.count '[' ≤ 1 := by
      by_contra doubled
      exact proper (.inl (by omega))
    have closesOnce : target.count ']' ≤ 1 := by
      by_contra doubled
      exact proper (.inr (.inl (by omega)))
    rcases opened.exists_eq_append opensOnce closesOnce with
      closeOnly | ⟨name, rfl, nonempty, noBracket, _⟩
    · subst closeOnly
      simp [NoBracket] at bodyNoBracket
    · exact .items nonempty noBracket items

/-- A target whose brackets do not open is well-formed as a plain name. -/
theorem wellFormed_iff_of_unopened
    {target : CString}
    (unopened : (tokens (· == '[') target).tail = []) :
    WellFormedTarget target ↔ ¬ (target = [] ∨ ¬ NoBracket target) := by
  constructor
  · intro wellFormed
    cases wellFormed with
    | name nonempty noBracket =>
        simp [nonempty, noBracket]
    | items nonempty noBracket items =>
        obtain ⟨bodyNonempty, bodyNoBracket⟩ := body_of_items items
        obtain ⟨token, second, _⟩ :=
          (opened_items_iff nonempty noBracket bodyNonempty
            bodyNoBracket).mpr rfl
        simp [unopened] at second
  · intro proper
    rw [not_or, not_not] at proper
    exact .name proper.1 proper.2

/--
Only well-formed targets are accepted, exactly when the target is not one of
the malformed ones that the parser tolerates.
-/
theorem accepted_wellFormed_iff
    (garbage : Char)
    (arraySize : Nat)
    (target : CString) :
    ((parseTarget garbage arraySize target).isSome →
        WellFormedTarget target) ↔
      ¬ Tolerated arraySize target := by
  rw [parseTarget_isSome_iff]
  constructor
  · intro wellFormed tolerated
    cases tolerated with
    | unopened unopened malformed =>
        exact
          (wellFormed_iff_of_unopened unopened).mp
            (wellFormed (.inl unopened)) malformed
    | opened opened reads malformed =>
        exact
          (opened.wellFormed_iff reads).mp
            (wellFormed (.inr ⟨_, _, opened, reads⟩)) malformed
  · rintro proper (unopened | ⟨body, offsets, opened, reads⟩)
    · refine (wellFormed_iff_of_unopened unopened).mpr fun malformed => ?_
      exact proper (.unopened unopened malformed)
    · refine (opened.wellFormed_iff reads).mpr fun malformed => ?_
      exact proper (.opened opened reads malformed)

/-- The target `test_array_param[[:3]` is accepted. -/
theorem malformed_target_accepted :
    ¬ ∀ (garbage : Char) (arraySize : Nat) (target : CString),
      (parseTarget garbage arraySize target).isSome →
        WellFormedTarget target := by
  intro strict
  have claimed :=
    strict ' ' 8 "test_array_param[[:3]".toList (by decide)
  exact absurd claimed.count_le_one.1 (by decide)

end Targets

end Csh.ParamOffsets
