import Mathlib.Data.List.TakeWhile
import Mathlib.Order.Basic

namespace Csh.Cells

/-!
# Numbered cells

The cells of a buffer, overwriting a stretch of them, texts that end at a mark,
and buffers that collect texts one behind the other.
-/

variable {α : Type}

/-- Overwrite the cells from `start` on. -/
def poke
    (cells : Nat → α)
    (start : Nat)
    (text : List α) :
    Nat → α :=
  fun index =>
    if start ≤ index then
      text.getD (index - start) (cells index)
    else
      cells index

section Poke

variable {cells : Nat → α}
variable {start index : Nat}
variable {text : List α}

/-- The cells in front of the text keep what they hold. -/
theorem poke_before
    (before : index < start) :
    poke cells start text index = cells index := by
  simp [poke, Nat.not_le.mpr before]

/-- The cells behind the text keep what they hold. -/
theorem poke_behind
    (behind : start + text.length ≤ index) :
    poke cells start text index = cells index := by
  have missing : text[index - start]? = none :=
    List.getElem?_eq_none (by omega)
  simp [poke, List.getD_eq_getElem?_getD, missing]

/-- The cells of the text hold its elements. -/
theorem poke_inside
    {value : α}
    (found : text[index]? = some value) :
    poke cells start text (start + index) = value := by
  simp [poke, List.getD_eq_getElem?_getD, found]

/-- Storing a text is storing its parts. -/
theorem poke_append
    (more : List α) :
    poke cells start (text ++ more) =
      poke (poke cells (start + text.length) more) start text := by
  funext index
  rcases Nat.lt_or_ge index start with before | after
  · rw [poke_before before, poke_before before, poke_before (by omega)]
  · obtain ⟨offset, rfl⟩ := Nat.exists_eq_add_of_le after
    rcases Nat.lt_or_ge offset text.length with inText | behind
    · have found : text[offset]? = some text[offset] :=
        List.getElem?_eq_getElem inText
      have foundWhole : (text ++ more)[offset]? = some text[offset] := by
        rw [List.getElem?_append_left inText, found]
      rw [poke_inside found, poke_inside foundWhole]
    · obtain ⟨further, rfl⟩ := Nat.exists_eq_add_of_le behind
      have outside :
          poke (poke cells (start + text.length) more) start text
              (start + (text.length + further)) =
            poke cells (start + text.length) more
              (start + text.length + further) := by
        rw [poke_behind (by omega), Nat.add_assoc]
      rw [outside]
      rcases Nat.lt_or_ge further more.length with inMore | past
      · have found : more[further]? = some more[further] :=
          List.getElem?_eq_getElem inMore
        have foundWhole :
            (text ++ more)[text.length + further]? = some more[further] := by
          rw [List.getElem?_append_right (by omega), Nat.add_sub_cancel_left,
            found]
        rw [poke_inside found, poke_inside foundWhole]
      · rw [poke_behind (by simp; omega), poke_behind (by omega),
          Nat.add_assoc]

end Poke

/-- The text in the first `size` cells, up to the end mark if there is one. -/
def textIn [DecidableEq α]
    (endMark : α)
    (size : Nat)
    (cells : Nat → α) :
    List α :=
  ((List.range size).map cells).takeWhile (· ≠ endMark)

/--
The cells hold a text of at most `size` elements with the end mark behind it,
and nothing but end marks from `size` on.
-/
structure HoldsText
    (endMark : α)
    (size : Nat)
    (cells : Nat → α)
    (text : List α) :
    Prop where
  fits : text.length ≤ size
  plain : endMark ∉ text
  inside : ∀ index value, text[index]? = some value → cells index = value
  marked : cells text.length = endMark
  beyond : ∀ index, size ≤ index → cells index = endMark

section Text

variable {endMark : α}
variable {size : Nat}
variable {cells : Nat → α}
variable {text more source : List α}

theorem HoldsText.textIn [DecidableEq α]
    (held : HoldsText endMark size cells text) :
    textIn endMark size cells = text := by
  obtain ⟨fits, plain, inside, marked, _⟩ := held
  obtain ⟨rest, rfl⟩ := Nat.exists_eq_add_of_le fits
  have front : (List.range text.length).map cells = text := by
    refine List.ext_getElem (by simp) fun index _ inText => ?_
    simpa using inside index _ (List.getElem?_eq_getElem inText)
  unfold Cells.textIn
  rw [List.range_add, List.map_append, front, List.takeWhile_append_of_pos]
  · cases rest with
    | zero =>
        simp
    | succ rest =>
        simp [List.range_succ_eq_map, marked]
  · intro value member
    rw [decide_eq_true_iff]
    rintro rfl
    exact plain member

/-- Cells that end with end marks hold the text that is read from them. -/
theorem holdsText_textIn [DecidableEq α]
    (beyond : ∀ index, size ≤ index → cells index = endMark) :
    HoldsText endMark size cells (textIn endMark size cells) := by
  have whole :
      textIn endMark size cells ++
          ((List.range size).map cells).dropWhile (· ≠ endMark) =
        (List.range size).map cells :=
    List.takeWhile_append_dropWhile
  have found :
      ∀ index value,
        ((List.range size).map cells)[index]? = some value →
          cells index = value := by
    intro index value shape
    obtain ⟨_, rfl⟩ := List.getElem?_eq_some_iff.mp shape
    simp
  have fits : (textIn endMark size cells).length ≤ size := by
    have length := congrArg List.length whole
    simp only [List.length_append, List.length_map,
      List.length_range] at length
    omega
  refine ⟨fits, ?_, ?_, ?_, beyond⟩
  · intro member
    have unlike := List.mem_takeWhile_imp member
    simp at unlike
  · intro index value shape
    refine found index value ?_
    rw [← whole]
    have inText := (List.getElem?_eq_some_iff.mp shape).1
    rw [List.getElem?_append_left inText, shape]
  · cases rest : ((List.range size).map cells).dropWhile (· ≠ endMark) with
    | nil =>
        rw [rest, List.append_nil] at whole
        refine beyond _ (le_of_eq ?_)
        rw [whole]
        simp
    | cons head rest' =>
        have stopped := List.head?_dropWhile_not (· ≠ endMark)
          ((List.range size).map cells)
        rw [rest] at stopped
        have isMark : head = endMark := by
          simpa using stopped
        refine (found _ head ?_).trans isMark
        rw [← whole, rest, List.getElem?_append_right (le_refl _)]
        simp

/-- A text that is stored behind the held one is added to it. -/
theorem HoldsText.append
    (held : HoldsText endMark size cells text)
    (plain : endMark ∉ source)
    (room : text.length + source.length ≤ size) :
    HoldsText endMark size
      (poke cells text.length (source ++ [endMark])) (text ++ source) := by
  obtain ⟨fits, textPlain, inside, marked, beyond⟩ := held
  have last : (source ++ [endMark])[source.length]? = some endMark := by
    simp
  refine ⟨by simpa using room, ?_, ?_, ?_, ?_⟩
  · rw [List.mem_append]
    exact not_or.mpr ⟨textPlain, plain⟩
  · intro index value shape
    rcases Nat.lt_or_ge index text.length with old | new
    · rw [List.getElem?_append_left old] at shape
      rw [poke_before old]
      exact inside index value shape
    · obtain ⟨offset, rfl⟩ := Nat.exists_eq_add_of_le new
      rw [List.getElem?_append_right (by omega)] at shape
      rw [Nat.add_sub_cancel_left] at shape
      have inSource := (List.getElem?_eq_some_iff.mp shape).1
      refine poke_inside ?_
      rw [List.getElem?_append_left inSource, shape]
  · rw [List.length_append]
    exact poke_inside last
  · intro index far
    rcases Nat.lt_or_ge (text.length + source.length) index with past | upTo
    · rw [poke_behind (by simp; omega)]
      exact beyond index far
    · have behind : index = text.length + source.length := by
        omega
      rw [behind]
      exact poke_inside last

/-- An end mark inside the held text cuts it there. -/
theorem HoldsText.cut
    (held : HoldsText endMark size cells (text ++ more)) :
    HoldsText endMark size (poke cells text.length [endMark]) text := by
  obtain ⟨fits, plain, inside, marked, beyond⟩ := held
  have cutMark : poke cells text.length [endMark] text.length = endMark :=
    poke_inside (List.getElem?_cons_zero)
  refine ⟨?_, ?_, ?_, cutMark, ?_⟩
  · rw [List.length_append] at fits
    omega
  · exact fun member => plain (List.mem_append_left _ member)
  · intro index value shape
    have inText := (List.getElem?_eq_some_iff.mp shape).1
    rw [poke_before inText]
    refine inside index value ?_
    rw [List.getElem?_append_left inText, shape]
  · intro index far
    rcases Nat.lt_or_ge index (text.length + 1) with near | past
    · rw [List.length_append] at fits
      have last : index = text.length := by
        omega
      rw [last]
      exact cutMark
    · rw [poke_behind (by simpa using past)]
      exact beyond index far

/-- A text that is stored without an end mark ends at one that is there. -/
theorem holdsText_poke
    (beyond : ∀ index, size ≤ index → cells index = endMark)
    (plain : endMark ∉ source)
    (room : source.length ≤ size)
    (marked : cells source.length = endMark) :
    HoldsText endMark size (poke cells 0 source) source := by
  refine ⟨room, plain, ?_, ?_, ?_⟩
  · intro index value shape
    have stored : poke cells 0 source (0 + index) = value :=
      poke_inside shape
    rwa [Nat.zero_add] at stored
  · rw [poke_behind (by simp)]
    exact marked
  · intro index far
    rw [poke_behind (by omega)]
    exact beyond index far

/-- A text that is stored with its end mark ends there. -/
theorem holdsText_poke_marked
    (beyond : ∀ index, size ≤ index → cells index = endMark)
    (plain : endMark ∉ source)
    (room : source.length ≤ size) :
    HoldsText endMark size (poke cells 0 (source ++ [endMark])) source := by
  have mark :
      poke cells source.length [endMark] source.length = endMark :=
    poke_inside List.getElem?_cons_zero
  rw [poke_append, Nat.zero_add]
  refine holdsText_poke (fun index far => ?_) plain room mark
  rcases eq_or_ne index source.length with rfl | other
  · exact mark
  · rw [poke_behind (by simp; omega)]
    exact beyond index far

/-- Without one it goes on with what the cells held before. -/
theorem textIn_poke_ne [DecidableEq α]
    (room : source.length < size)
    (unmarked : cells source.length ≠ endMark)
    (beyond : ∀ index, size ≤ index → cells index = endMark) :
    textIn endMark size (poke cells 0 source) ≠ source := by
  intro same
  have held :
      HoldsText endMark size (poke cells 0 source)
        (textIn endMark size (poke cells 0 source)) := by
    refine holdsText_textIn fun index far => ?_
    rw [poke_behind (by omega)]
    exact beyond index far
  have marked := held.marked
  rw [same, poke_behind (by simp)] at marked
  exact unmarked marked

end Text

/-- Cells that are used from the first one on. -/
structure Filled (α : Type) where
  cells : Nat → α
  used : Nat

namespace Filled

variable {filled : Filled α}

/-- What the used cells hold. -/
def contents (filled : Filled α) : List α :=
  (List.range filled.used).map filled.cells

/-- Store a text and its end mark; the end mark does not count as used. -/
def append
    (endMark : α)
    (text : List α)
    (filled : Filled α) :
    Filled α where
  cells := poke filled.cells filled.used (text ++ [endMark])
  used := filled.used + text.length

/-- Give up the cells as they are. -/
def clear (filled : Filled α) : Filled α :=
  { filled with used := 0 }

@[simp] theorem length_contents :
    filled.contents.length = filled.used := by
  simp [contents]

@[simp] theorem contents_clear :
    filled.clear.contents = [] :=
  rfl

@[simp] theorem used_clear :
    filled.clear.used = 0 :=
  rfl

@[simp] theorem used_append
    {endMark : α}
    {text : List α} :
    (filled.append endMark text).used = filled.used + text.length :=
  rfl

/-- A stored text is added to what the cells hold. -/
@[simp] theorem contents_append
    {endMark : α}
    {text : List α} :
    (filled.append endMark text).contents = filled.contents ++ text := by
  refine List.ext_getElem (by simp) fun index inNew inOld => ?_
  rw [length_contents, used_append] at inNew
  simp only [contents, append, List.getElem_map, List.getElem_range]
  rcases Nat.lt_or_ge index filled.used with old | new
  · rw [poke_before old, List.getElem_append_left (by simpa using old)]
    simp
  · obtain ⟨offset, rfl⟩ := Nat.exists_eq_add_of_le new
    have inText : offset < text.length := by
      omega
    have found : (text ++ [endMark])[offset]? = some text[offset] := by
      rw [List.getElem?_append_left inText, List.getElem?_eq_getElem]
    rw [poke_inside found, List.getElem_append_right (by simp)]
    simp

end Filled

end Csh.Cells
