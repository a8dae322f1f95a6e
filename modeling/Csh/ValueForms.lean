import Csh.QueueCapacity
import Csh.TargetGrammar

namespace Csh.ParamSet

open Libc Interaction ParamOffsets

/-!
# The forms of value arguments

Values should be written in one of two forms, a single value or a bracketed
list.  With room in the queue the command assigns what is written in one of
them, and it also accepts some arguments that are written in neither.
-/

section Forms

/--
The two forms values are written in, with the text each offset gets: one value
without brackets, or a bracketed list of as many values as there are offsets.
-/
inductive ValueTexts (expected : Nat) : List CString → List CString → Prop where
  | single
      {value : CString}
      (noBracket : NoBracket value) :
      ValueTexts expected [value] (List.replicate expected value)
  | list
      {first last : CString}
      {middle : List CString}
      (firstNoBracket : NoBracket first)
      (middleNoBracket : ∀ arg ∈ middle, NoBracket arg)
      (lastNoBracket : NoBracket last)
      (count : middle.length + 2 = expected) :
      ValueTexts expected
        (('[' :: first) :: (middle ++ [last ++ [']']]))
        (first :: (middle ++ [last]))

section Arguments

variable {before : Char}
variable {arg : CString}

theorem closes_iff
    (nonempty : arg ≠ []) :
    closes before arg = true ↔ arg.getLast? = some ']' := by
  rcases List.eq_nil_or_concat' arg with rfl | ⟨leading, last, rfl⟩
  · exact (nonempty rfl).elim
  · simp [closes, lastByte]

theorem closes_eq_false_iff
    (nonempty : arg ≠ []) :
    closes before arg = false ↔ arg.getLast? ≠ some ']' := by
  rw [← Bool.not_eq_true, closes_iff nonempty]

/-- The byte in front of a text that is not empty does not matter. -/
theorem valueText_eq
    (nonempty : arg ≠ []) :
    valueText before arg = valueText nul arg := by
  have same : closes before arg = closes nul arg := by
    rw [Bool.eq_iff_iff, closes_iff nonempty, closes_iff nonempty]
  simp [valueText, same]

theorem getLast?_ne_of_noBracket
    (noBracket : NoBracket arg) :
    arg.getLast? ≠ some ']' := by
  intro last
  exact noBracket.2 (List.mem_of_getLast? last)

theorem valueText_of_noBracket
    (nonempty : arg ≠ [])
    (noBracket : NoBracket arg) :
    valueText before arg = arg := by
  have open_ : closes before arg = false :=
    (closes_eq_false_iff nonempty).mpr (getLast?_ne_of_noBracket noBracket)
  simp [valueText, noBracket.1, open_]

end Arguments

/-- The texts up to the closing argument, when no argument is empty. -/
theorem bracketedTexts_eq_some_iff
    {before : Nat → Char}
    {index : Nat}
    {args texts : List CString}
    (nonempty : ∀ arg ∈ args, arg ≠ []) :
    bracketedTexts before index args = some texts ↔
      ∃ leading last rest,
        args = leading ++ last :: rest ∧
          (∀ arg ∈ leading, arg.getLast? ≠ some ']') ∧
          last.getLast? = some ']' ∧
          texts = (leading ++ [last]).map (valueText nul) := by
  induction args generalizing index texts with
  | nil =>
      simp [bracketedTexts]
  | cons arg rest inductionHypothesis =>
      have argNonempty : arg ≠ [] :=
        nonempty arg (by simp)
      have restNonempty : ∀ later ∈ rest, later ≠ [] :=
        fun later member => nonempty later (by simp [member])
      rw [bracketedTexts_cons_eq_some_iff, valueText_eq argNonempty]
      by_cases closing : closes (before index) arg = true
      · have last := (closes_iff argNonempty).mp closing
        simp only [closing, ↓reduceIte, exists_eq_right]
        constructor
        · rintro rfl
          exact ⟨[], arg, rest, rfl, by simp, last, rfl⟩
        · rintro ⟨leading, closer, later, shape, goesOn, _, rfl⟩
          cases leading with
          | nil =>
              obtain ⟨rfl, rfl⟩ := List.cons.inj shape
              rfl
          | cons first leading =>
              obtain ⟨rfl, _⟩ := List.cons.inj shape
              exact (goesOn arg (by simp) last).elim
      · have open_ : arg.getLast? ≠ some ']' := by
          rwa [closes_iff argNonempty] at closing
        simp only [closing, Bool.false_eq_true, ↓reduceIte,
          inductionHypothesis restNonempty]
        constructor
        · rintro ⟨_, rfl, leading, last, later, rfl, goesOn, closed, rfl⟩
          exact
            ⟨arg :: leading, last, later, rfl,
              by simpa [open_] using goesOn, closed, rfl⟩
        · rintro ⟨leading, last, later, shape, goesOn, closed, rfl⟩
          cases leading with
          | nil =>
              obtain ⟨rfl, rfl⟩ := List.cons.inj shape
              exact (open_ closed).elim
          | cons first leading =>
              obtain ⟨rfl, rfl⟩ := List.cons.inj shape
              exact
                ⟨_, rfl, leading, last, later, rfl,
                  fun other member => goesOn other (by simp [member]),
                  closed, rfl⟩

theorem parseSlashValues_iff
    {args : List CString}
    {expected : Nat}
    (few : args.length ≤ 99) :
    parseSlashValues args [1, expected] = true ↔
      args.length = 1 ∨ args.length = expected := by
  have counted : min args.length 100 = args.length := by
    omega
  simp [parseSlashValues, counted]

theorem Taken.unique
    {before : Nat → Char}
    {expected : Nat}
    {args texts others : List CString}
    (taken : Taken before expected args texts)
    (otherTaken : Taken before expected args others) :
    texts = others :=
  Option.some.inj (taken.2.1.symm.trans otherTaken.2.1)

/-- The texts of a well-written list are its arguments without brackets. -/
theorem map_valueText_list
    {first last : CString}
    {middle : List CString}
    (middleNonempty : ∀ arg ∈ middle, arg ≠ [])
    (firstNoBracket : NoBracket first)
    (middleNoBracket : ∀ arg ∈ middle, NoBracket arg)
    (lastNoBracket : NoBracket last) :
    (('[' :: first) :: (middle ++ [last ++ [']']])).map (valueText nul) =
      first :: (middle ++ [last]) := by
  have firstOpen : ¬ closes nul ('[' :: first) = true := by
    rw [closes_iff (by simp)]
    intro last
    have inFirst := List.mem_of_getLast? last
    simp [firstNoBracket.2] at inFirst
  have firstText : valueText nul ('[' :: first) = first := by
    simp [valueText, firstOpen]
  have lastClosed : closes nul (last ++ [']']) = true := by
    rw [closes_iff (by simp), List.getLast?_concat]
  have lastText : valueText nul (last ++ [']']) = last := by
    simp [valueText, lastClosed, lastNoBracket.1]
  have middleTexts : middle.map (valueText nul) = middle := by
    calc
      middle.map (valueText nul) = middle.map id :=
        List.map_congr_left fun arg member =>
          valueText_of_noBracket (middleNonempty arg member)
            (middleNoBracket arg member)
      _ = middle := List.map_id middle
  simp [firstText, middleTexts, lastText]

/-- What is written in one of the two forms is taken as it is written. -/
theorem ValueTexts.taken
    {before : Nat → Char}
    {expected : Nat}
    {args texts : List CString}
    (written : ValueTexts expected args texts)
    (few : args.length ≤ 99)
    (nonempty : ∀ arg ∈ args, arg ≠ []) :
    Taken before expected args texts := by
  have counted :=
    @parseSlashValues_iff args expected few
  cases written with
  | single noBracket =>
      rename_i value
      have valueNonempty : value ≠ [] :=
        nonempty value (by simp)
      have broadcasts : Broadcasts (before 0) value := by
        refine ⟨noBracket.1, ?_⟩
        rw [closes_eq_false_iff valueNonempty]
        exact getLast?_ne_of_noBracket noBracket
      exact
        (taken_of_broadcasts (counted.mpr (.inl rfl)) broadcasts).mpr rfl
  | list firstNoBracket middleNoBracket lastNoBracket count =>
      rename_i first last middle
      have opened : '[' ∈ '[' :: first := by
        simp
      have firstOpen : ('[' :: first).getLast? ≠ some ']' := by
        intro last
        have inFirst := List.mem_of_getLast? last
        simp [firstNoBracket.2] at inFirst
      have texts :=
        map_valueText_list (fun arg member => nonempty arg (by simp [member]))
          firstNoBracket middleNoBracket lastNoBracket
      refine ⟨counted.mpr (.inr ?_), ?_, ?_, ?_⟩
      · simp only [List.length_cons, List.length_append, List.length_nil]
        omega
      · rw [takenTexts, if_neg (fun broadcasts => broadcasts.1 opened),
          bracketedTexts_eq_some_iff nonempty]
        refine
          ⟨('[' :: first) :: middle, last ++ [']'], [], rfl, ?_,
            List.getLast?_concat, texts.symm⟩
        intro arg member
        rcases List.mem_cons.mp member with rfl | inMiddle
        · exact firstOpen
        · exact getLast?_ne_of_noBracket (middleNoBracket arg inMiddle)
      · simp only [List.length_cons, List.length_append, List.length_nil]
        omega
      · omega

/--
What is taken although it is written in neither form.  Several values without
brackets are read as their first one; a closing bracket alone is dropped in
front of a single offset; in a list the brackets of the inner arguments are
dropped with whatever character stands first.
-/
inductive Misread
    {Value : Type}
    (lib : Libparam Value)
    (param : Param)
    (expected : Nat) :
    List CString → Prop where
  | broadcast
      {first : CString}
      {rest : List CString}
      {value : Value}
      (count : rest = [] ∨ rest.length + 1 = expected)
      (noOpen : '[' ∉ first)
      (noClose : first.getLast? ≠ some ']')
      (converted : lib.paramStrToValue param.type first = some value)
      (malformed : rest ≠ [] ∨ ']' ∈ first) :
      Misread lib param expected (first :: rest)
  | closeOnly
      {text : CString}
      {value : Value}
      (single : expected = 1)
      (noOpen : '[' ∉ text)
      (converted : lib.paramStrToValue param.type text = some value) :
      Misread lib param expected [text ++ [']']]
  | list
      {first last : CString}
      {middle : List CString}
      {values : List Value}
      (count : middle.length + 2 = expected)
      (opens : '[' ∈ first)
      (goesOn : ∀ arg ∈ first :: middle, arg.getLast? ≠ some ']')
      (closed : last.getLast? = some ']')
      (converts :
        convert lib param ((first :: (middle ++ [last])).map (valueText nul)) =
          some values)
      (malformed :
        first.head? ≠ some '[' ∨
          1 < (first :: (middle ++ [last])).flatten.count '[' ∨
          1 < (first :: (middle ++ [last])).flatten.count ']') :
      Misread lib param expected (first :: (middle ++ [last]))

section Misreadings

variable {Value : Type}
variable {lib : Libparam Value}
variable {param : Param}
variable {before : Nat → Char}
variable {expected : Nat}
variable {args : List CString}

/-- A list that closes at its end and has no other bracket is well-written. -/
theorem valueTexts_of_count
    {first last : CString}
    {middle : List CString}
    (nonempty : ∀ arg ∈ first :: (middle ++ [last]), arg ≠ [])
    (count : middle.length + 2 = expected)
    (closed : last.getLast? = some ']')
    (begins : first.head? = some '[')
    (opensOnce : (first :: (middle ++ [last])).flatten.count '[' ≤ 1)
    (closesOnce : (first :: (middle ++ [last])).flatten.count ']' ≤ 1) :
    ValueTexts expected (first :: (middle ++ [last]))
      ((first :: (middle ++ [last])).map (valueText nul)) := by
  obtain ⟨first, rfl⟩ := List.head?_eq_some_iff.mp begins
  obtain ⟨last, rfl⟩ := List.getLast?_eq_some_iff.mp closed
  simp only [List.flatten_cons, List.flatten_append, List.flatten_nil,
    List.append_nil, List.cons_append, List.count_append, List.count_cons,
    List.count_nil, beq_self_eq_true, ↓reduceIte] at opensOnce closesOnce
  have firstNoBracket : NoBracket first :=
    ⟨List.count_eq_zero.mp (by omega), List.count_eq_zero.mp (by omega)⟩
  have lastNoBracket : NoBracket last :=
    ⟨List.count_eq_zero.mp (by omega), List.count_eq_zero.mp (by omega)⟩
  have opens : '[' ∉ middle.flatten :=
    List.count_eq_zero.mp (by omega)
  have closes : ']' ∉ middle.flatten :=
    List.count_eq_zero.mp (by omega)
  have middleNoBracket : ∀ arg ∈ middle, NoBracket arg := by
    intro arg member
    have inMiddle : ∀ c ∈ arg, c ∈ middle.flatten :=
      fun c inArg => List.mem_flatten.mpr ⟨arg, member, inArg⟩
    exact
      ⟨fun inArg => opens (inMiddle _ inArg),
        fun inArg => closes (inMiddle _ inArg)⟩
  rw [map_valueText_list (fun arg member => nonempty arg (by simp [member]))
    firstNoBracket middleNoBracket lastNoBracket]
  exact .list firstNoBracket middleNoBracket lastNoBracket count

/-- A well-written list has one bracket of each kind. -/
theorem count_flatten_list
    {first last : CString}
    {middle : List CString}
    (firstNoBracket : NoBracket first)
    (middleNoBracket : ∀ arg ∈ middle, NoBracket arg)
    (lastNoBracket : NoBracket last) :
    (('[' :: first) :: (middle ++ [last ++ [']']])).flatten.count '[' = 1 ∧
      (('[' :: first) :: (middle ++ [last ++ [']']])).flatten.count ']' =
        1 := by
  have middleOpens : '[' ∉ middle.flatten := by
    intro inMiddle
    obtain ⟨arg, member, inArg⟩ := List.mem_flatten.mp inMiddle
    exact (middleNoBracket arg member).1 inArg
  have middleCloses : ']' ∉ middle.flatten := by
    intro inMiddle
    obtain ⟨arg, member, inArg⟩ := List.mem_flatten.mp inMiddle
    exact (middleNoBracket arg member).2 inArg
  simp only [List.flatten_cons, List.flatten_append, List.flatten_nil,
    List.append_nil, List.cons_append, List.count_append, List.count_cons,
    List.count_nil, List.count_eq_zero.mpr firstNoBracket.1,
    List.count_eq_zero.mpr firstNoBracket.2,
    List.count_eq_zero.mpr lastNoBracket.1,
    List.count_eq_zero.mpr lastNoBracket.2,
    List.count_eq_zero.mpr middleOpens, List.count_eq_zero.mpr middleCloses]
  decide

theorem valueText_concat
    {text : CString}
    (noOpen : '[' ∉ text) :
    valueText nul (text ++ [']']) = text := by
  have closing : closes nul (text ++ [']']) = true := by
    rw [closes_iff (by simp), List.getLast?_concat]
  simp [valueText, closing, noOpen]

/-- What is misread is written in neither form. -/
theorem Misread.not_valueTexts
    {others : List CString}
    (misread : Misread lib param expected args) :
    ¬ ValueTexts expected args others := by
  intro written
  cases misread with
  | broadcast count noOpen noClose converted malformed =>
      cases written with
      | single noBracket =>
          rcases malformed with several | closesInside
          · exact several rfl
          · exact noBracket.2 closesInside
      | list _ _ _ _ =>
          simp at noOpen
  | @closeOnly text _ single noOpen converted =>
      generalize shape : [text ++ [']']] = args at written
      cases written with
      | single noBracket =>
          obtain ⟨rfl, _⟩ := List.cons.inj shape
          exact noBracket.2 (by simp)
      | list _ _ _ _ =>
          have lengths := congrArg List.length shape
          simp at lengths
  | @list first last middle _ count opens goesOn closed converts malformed =>
      generalize shape : first :: (middle ++ [last]) = args
        at written malformed
      cases written with
      | single _ =>
          have lengths := congrArg List.length shape
          simp at lengths
      | list firstNoBracket middleNoBracket lastNoBracket _ =>
          obtain ⟨rfl, _⟩ := List.cons.inj shape
          obtain ⟨opensOnce, closesOnce⟩ :=
            count_flatten_list firstNoBracket middleNoBracket lastNoBracket
          rcases malformed with notFirst | opensTwice | closesTwice
          · exact notFirst rfl
          · omega
          · omega

/-- What is misread fills the queue. -/
theorem Misread.exists_taken
    (misread : Misread lib param expected args)
    (few : args.length ≤ 99)
    (nonempty : ∀ arg ∈ args, arg ≠ []) :
    ∃ texts values,
      Taken before expected args texts ∧
        convert lib param texts = some values := by
  have counted :=
    @parseSlashValues_iff args expected few
  cases misread with
  | @broadcast first rest _ count noOpen noClose converted malformed =>
      have broadcasts : Broadcasts (before 0) first := by
        refine ⟨noOpen, ?_⟩
        rw [closes_eq_false_iff (nonempty first (by simp))]
        exact noClose
      have lengths :
          (first :: rest).length = 1 ∨ (first :: rest).length = expected := by
        rcases count with rfl | count
        · exact .inl rfl
        · exact .inr count
      exact
        ⟨_, _, (taken_of_broadcasts (counted.mpr lengths) broadcasts).mpr rfl,
          convert_replicate converted _⟩
  | @closeOnly text value single noOpen converted =>
      have notBroadcasts : ¬ Broadcasts (before 0) (text ++ [']']) := by
        rintro ⟨_, open_⟩
        rw [closes_eq_false_iff (by simp)] at open_
        exact open_ List.getLast?_concat
      refine
        ⟨[text], [value], ⟨counted.mpr (.inl rfl), ?_, single.symm, ?_⟩,
          convert_cons_eq_some_iff.mpr ⟨value, [], converted, rfl, rfl⟩⟩
      · rw [takenTexts, if_neg notBroadcasts,
          bracketedTexts_eq_some_iff nonempty]
        refine
          ⟨[], text ++ [']'], [], rfl, by simp, List.getLast?_concat, ?_⟩
        simp [valueText_concat noOpen]
      · rintro - _ ⟨⟩
        simp [noOpen]
  | @list first last middle values count opens goesOn closed converts _ =>
      refine ⟨_, values, ⟨counted.mpr (.inr ?_), ?_, ?_, ?_⟩, converts⟩
      · simp only [List.length_cons, List.length_append, List.length_nil]
        omega
      · rw [takenTexts, if_neg (fun broadcasts => broadcasts.1 opens),
          bracketedTexts_eq_some_iff nonempty]
        exact ⟨first :: middle, last, [], rfl, goesOn, closed, rfl⟩
      · simp only [List.length_map, List.length_cons, List.length_append,
          List.length_nil]
        omega
      · omega

/-- What is taken in neither form is misread. -/
theorem misread_of_taken
    {texts : List CString}
    {values : List Value}
    (positive : 0 < expected)
    (few : args.length ≤ 99)
    (nonempty : ∀ arg ∈ args, arg ≠ [])
    (taken : Taken before expected args texts)
    (converts : convert lib param texts = some values)
    (malformed : ¬ ValueTexts expected args texts) :
    Misread lib param expected args := by
  have counted := (parseSlashValues_iff few).mp taken.1
  cases args with
  | nil =>
      simp [Taken, takenTexts] at taken
  | cons first rest =>
      by_cases broadcasts : Broadcasts (before 0) first
      · obtain rfl := (taken_of_broadcasts taken.1 broadcasts).mp taken
        obtain ⟨value, converted, _⟩ :=
          exists_of_convert_replicate positive converts
        have noClose : first.getLast? ≠ some ']' :=
          (closes_eq_false_iff (nonempty first (by simp))).mp broadcasts.2
        refine .broadcast ?_ broadcasts.1 noClose converted ?_
        · simpa using counted
        · by_contra wellFormed
          rw [not_or, not_not] at wellFormed
          obtain ⟨rfl, noClose⟩ := wellFormed
          exact malformed (.single ⟨broadcasts.1, noClose⟩)
      · obtain ⟨_, found, length, single⟩ := taken
        rw [takenTexts, if_neg broadcasts,
          bracketedTexts_eq_some_iff nonempty] at found
        obtain ⟨leading, last, behind, shape, goesOn, closed, rfl⟩ := found
        have lengths := congrArg List.length shape
        simp only [List.length_map, List.length_append, List.length_cons,
          List.length_nil] at length lengths counted
        obtain rfl : behind = [] :=
          List.eq_nil_of_length_eq_zero (by omega)
        cases leading with
        | nil =>
            obtain ⟨rfl, rfl⟩ := List.cons.inj shape
            obtain ⟨text, rfl⟩ := List.getLast?_eq_some_iff.mp closed
            have noOpen : '[' ∉ text := by
              have outside := single (by simpa using length.symm) _ rfl
              simpa using outside
            simp only [List.nil_append, List.map_cons, List.map_nil,
              valueText_concat noOpen] at converts
            obtain ⟨value, _, converted, _⟩ :=
              convert_cons_eq_some_iff.mp converts
            exact .closeOnly (by simpa using length.symm) noOpen converted
        | cons opener middle =>
            obtain ⟨rfl, rfl⟩ := List.cons.inj shape
            refine
              .list (by simpa using length) ?_ goesOn closed converts ?_
            · by_contra noOpen
              refine broadcasts ⟨noOpen, ?_⟩
              rw [closes_eq_false_iff (nonempty first (by simp))]
              exact goesOn first (by simp)
            · by_contra wellFormed
              simp only [not_or, not_not, not_lt] at wellFormed
              obtain ⟨begins, opensOnce, closesOnce⟩ := wellFormed
              exact malformed
                (valueTexts_of_count nonempty (by simpa using length) closed
                  begins opensOnce closesOnce)

end Misreadings

section Assignments

variable {Value : Type}

/--
A run assigns as written: values in one of the two forms are delivered to
their offsets, and anything else is an error without a delivery.
-/
structure AssignsAsWritten
    (lib : Libparam Value)
    (param : Param)
    (offsets : List Int)
    (args : List CString)
    (trace : List (Step (SetAnswer Value)))
    (result : SlashResult) :
    Prop where
  written :
    ∀ texts values,
      ValueTexts offsets.length args texts →
        convert lib param texts = some values →
          deliveries trace = [entriesFor param offsets values]
  otherwise :
    (∀ texts values,
      ValueTexts offsets.length args texts →
        convert lib param texts ≠ some values) →
      deliveries trace = [] ∧ result.isError = true

variable {lib : Libparam Value}
variable {memory : Memory}
variable {param : Param}
variable {offsets : List Int}
variable {args : List CString}

theorem fits_of_room
    (room : ∀ queue entry, lib.room queue entry = true)
    (queue entries : List (QueueEntry Value)) :
    Fits lib queue entries := by
  induction entries generalizing queue with
  | nil =>
      trivial
  | cons entry rest inductionHypothesis =>
      exact ⟨room queue entry, inductionHypothesis _⟩

/-- With room for everything the queue holds the taken values. -/
theorem filledQueue_of_room
    {queue : List (QueueEntry Value)}
    (room : ∀ queue entry, lib.room queue entry = true)
    (positive : 0 < offsets.length) :
    filledQueue lib memory param offsets args = some queue ↔
      ∃ texts values,
        Taken memory.byteBefore offsets.length args texts ∧
          convert lib param texts = some values ∧
          queue = entriesFor param offsets values := by
  cases args with
  | nil =>
      simp [filledQueue_nil, Taken, takenTexts]
  | cons first rest =>
      by_cases broadcasts : Broadcasts (memory.byteBefore 0) first
      · have everyEntry :=
          fun value =>
            addToEvery_eq_append_iff.mpr
              (fits_of_room room []
                (offsets.map fun offset => ⟨param, offset, value⟩))
        constructor
        · intro filled
          have counted :
              parseSlashValues (first :: rest) [1, offsets.length] =
                true := by
            by_contra notCounted
            simp [filledQueue, notCounted] at filled
          rw [filledQueue_of_broadcasts counted broadcasts] at filled
          obtain ⟨value, converted, rfl⟩ := Option.map_eq_some_iff.mp filled
          refine
            ⟨_, _, (taken_of_broadcasts counted broadcasts).mpr rfl,
              convert_replicate converted _, ?_⟩
          rw [everyEntry, entriesFor_replicate, List.nil_append]
        · rintro ⟨texts, values, taken, converts, rfl⟩
          obtain rfl := (taken_of_broadcasts taken.1 broadcasts).mp taken
          obtain ⟨value, converted, rfl⟩ :=
            exists_of_convert_replicate positive converts
          rw [filledQueue_of_broadcasts taken.1 broadcasts, converted,
            Option.map_some, everyEntry, entriesFor_replicate,
            List.nil_append]
      · simp only [filledQueue_of_bracketed broadcasts, fits_of_room room,
          true_and]

/--
With room for everything the values are assigned as written exactly when they
are not one of the readings that the loop allows itself beyond the two forms.
-/
theorem cmdSet_assigns_iff
    {options : SetOptions}
    {target : CString}
    (accepted : AcceptedTarget lib memory options target param offsets)
    (room : ∀ queue entry, lib.room queue entry = true)
    (few : args.length ≤ 99)
    (nonempty : ∀ arg ∈ args, arg ≠ [])
    (timeout : Nat) :
    (∀ trace result,
        Runs (cmdSet lib memory timeout (some (options, target :: args)))
            trace result →
          AssignsAsWritten lib param offsets args trace result) ↔
      ¬ Misread lib param offsets.length args := by
  have filledIff :=
    fun queue =>
      @filledQueue_of_room _ _ memory param _ args queue room
        accepted.length_pos
  constructor
  · intro assigns misread
    obtain ⟨texts, values, taken, converts⟩ :=
      @Misread.exists_taken _ _ _ memory.byteBefore _ _ misread few nonempty
    have filled :=
      (filledIff _).mpr ⟨texts, values, taken, converts, rfl⟩
    obtain ⟨trace, run, _⟩ :=
      @exists_runs_cmdSet _ _ _ timeout _ _ _ _ _ _ accepted filled
    have failed :=
      (assigns trace _ run).otherwise
        fun _ _ written _ => misread.not_valueTexts written
    exact absurd failed.2 (by decide)
  · intro proper trace result run
    have outcome := deliveries_of_runs_cmdSet accepted run
    cases filled : filledQueue lib memory param offsets args with
    | none =>
        rw [filled] at outcome
        refine ⟨fun texts values written converts => ?_, fun _ => outcome⟩
        have full :=
          (filledIff _).mpr
            ⟨texts, values, written.taken few nonempty, converts, rfl⟩
        simp [filled] at full
    | some queue =>
        rw [filled] at outcome
        obtain ⟨texts, values, taken, converts, rfl⟩ :=
          (filledIff queue).mp filled
        have written : ValueTexts offsets.length args texts := by
          by_contra malformed
          exact proper
            (misread_of_taken accepted.length_pos few nonempty taken converts
              malformed)
        refine
          ⟨?_, fun unwritten => (unwritten _ _ written converts).elim⟩
        intro others otherValues otherWritten otherConverts
        obtain rfl :=
          (otherWritten.taken few nonempty).unique taken
        obtain rfl :=
          Option.some.inj (otherConverts.symm.trans converts)
        exact outcome.1

/-- The list of three values is assigned as written. -/
theorem cmdSet_assigns_list :
    ¬ Misread (boundedLib none) localArray 3
        ["[1".toList, "2".toList, "3]".toList] ∧
      ∀ trace result,
        Runs
            (cmdSet (boundedLib none) zeroMemory 1000
              (some
                (plainOptions,
                  ["array".toList, "[1".toList, "2".toList, "3]".toList])))
            trace result →
          AssignsAsWritten (boundedLib none) localArray [0, 1, 2]
            ["[1".toList, "2".toList, "3]".toList] trace result := by
  have few : ["[1".toList, "2".toList, "3]".toList].length ≤ 99 := by
    decide
  have nonempty :
      ∀ arg ∈ ["[1".toList, "2".toList, "3]".toList], arg ≠ [] := by
    decide
  have read :
      ¬ Misread (boundedLib none) localArray 3
        ["[1".toList, "2".toList, "3]".toList] := by
    intro misread
    exact misread.not_valueTexts
      (@ValueTexts.list 3 ['1'] ['3'] [['2']] (by decide) (by decide)
        (by decide) rfl)
  refine ⟨read, ?_⟩
  exact
    (cmdSet_assigns_iff (localArray_accepted none) (fun _ _ => rfl) few
      nonempty 1000).mpr read

/-- `set array 3 4 5` assigns 3 to all three elements. -/
theorem cmdSet_assigns_unwritten :
    ¬ ∀ (lib : Libparam Int) (memory : Memory) (options : SetOptions)
        (target : CString) (param : Param) (offsets : List Int)
        (timeout : Nat) (args : List CString),
      AcceptedTarget lib memory options target param offsets →
        (∀ queue entry, lib.room queue entry = true) →
          args.length ≤ 99 →
            (∀ arg ∈ args, arg ≠ []) →
              ∀ trace result,
                Runs
                    (cmdSet lib memory timeout
                      (some (options, target :: args)))
                    trace result →
                  AssignsAsWritten lib param offsets args trace result := by
  intro assigns
  obtain ⟨trace, run, _⟩ :=
    @exists_runs_cmdSet _ _ _ 1000 _ _ _ _
      ["3".toList, "4".toList, "5".toList]
      [⟨localArray, 0, 3⟩, ⟨localArray, 1, 3⟩, ⟨localArray, 2, 3⟩]
      (localArray_accepted none) (by decide)
  have claimed :=
    assigns _ _ _ _ _ _ _ _ (localArray_accepted none) (fun _ _ => rfl)
      (by decide) (by decide) trace _ run
  refine absurd (claimed.otherwise ?_).2 (by decide)
  intro texts values written
  generalize shape : ["3".toList, "4".toList, "5".toList] = args at written
  cases written with
  | single _ =>
      simp at shape
  | list _ _ _ _ =>
      simp at shape

end Assignments

end Forms

end Csh.ParamSet
