import Mathlib.Data.List.TakeWhile

namespace Csh

/-!
# Rewriting in place

A text is read from one position of an array while what becomes of it is
written to the same array, at a position of its own.  A read outside the array
yields nothing, and so does a write outside it or ahead of the reading
position.  As long as what is written stays behind, every read finds the text
as it was.
-/

/-- An array with the positions that are read from and written to. -/
structure InPlace (α : Type) where
  cells : List α
  readP : Nat
  writeP : Nat
  deriving Repr, DecidableEq

namespace InPlace

variable {α : Type}

/-- The value at the reading position. -/
def read (p : InPlace α) : Option α :=
  p.cells[p.readP]?

/-- Move the reading position on. -/
def advance (p : InPlace α) : InPlace α :=
  { p with readP := p.readP + 1 }

/-- Store a value at the writing position. -/
def store (value : α) (p : InPlace α) : Option (InPlace α) :=
  if p.writeP ≤ p.readP ∧ p.writeP < p.cells.length then
    some { p with cells := p.cells.set p.writeP value }
  else
    none

/-- Store a value, and move the writing position on. -/
def put (value : α) (p : InPlace α) : Option (InPlace α) :=
  (p.store value).map fun q => { q with writeP := q.writeP + 1 }

/-- Store a value while another one is read, and move both positions on. -/
def replace (value : α) (p : InPlace α) : Option (InPlace α) :=
  (p.put value).map advance

/-- The number of cells from the reading position on. -/
def remaining (p : InPlace α) : Nat :=
  p.cells.length - p.readP

theorem remaining_pos
    {p : InPlace α}
    {value : α}
    (found : p.read = some value) :
    0 < p.remaining :=
  Nat.sub_pos_of_lt (List.getElem?_eq_some_iff.mp found).choose

theorem remaining_advance
    (p : InPlace α) :
    p.advance.remaining = p.remaining - 1 :=
  Nat.sub_add_eq p.cells.length p.readP 1

/-- Move the reading position on to the first value that is of another kind. -/
def skipWhile (kind : α → Bool) (p : InPlace α) : Option (InPlace α) :=
  match _found : p.read with
  | none => none
  | some value =>
      if kind value then
        skipWhile kind p.advance
      else
        some p
termination_by p.remaining
decreasing_by
  rw [remaining_advance]
  exact Nat.sub_lt (remaining_pos _found) Nat.one_pos

section Progress

variable {p q : InPlace α}
variable {value : α}
variable {kind : α → Bool}

/-- A write leaves as many cells to read. -/
theorem remaining_put
    (stored : p.put value = some q) :
    q.remaining = p.remaining := by
  obtain ⟨written, wrote, rfl⟩ := Option.map_eq_some_iff.mp stored
  simp only [store] at wrote
  split at wrote
  · obtain rfl := Option.some.inj wrote
    simp [remaining]
  · cases wrote

theorem remaining_replace
    (stored : p.replace value = some q) :
    q.remaining = p.advance.remaining := by
  obtain ⟨written, wrote, rfl⟩ := Option.map_eq_some_iff.mp stored
  rw [remaining_advance, remaining_advance, remaining_put wrote]

/-- One turn of the loop that skips. -/
theorem skipWhile_of_read
    (found : p.read = some value) :
    p.skipWhile kind =
      if kind value then
        p.advance.skipWhile kind
      else
        some p := by
  rw [skipWhile]
  split
  · simp_all
  · rename_i again
    rw [Option.some.inj (found.symm.trans again)]

theorem remaining_skipWhile
    (skipped : p.skipWhile kind = some q) :
    q.remaining ≤ p.remaining := by
  fun_induction skipWhile kind p with
  | case1 =>
      cases skipped
  | case2 p value found same inductionHypothesis =>
      have later := inductionHypothesis skipped
      rw [remaining_advance] at later
      omega
  | case3 p value found other =>
      obtain rfl := Option.some.inj skipped
      exact Nat.le_refl _

end Progress

/--
A text is being rewritten: what has been written takes the place of its first
values, and the rest from the reading position on is as it was.
-/
structure Rewrites (text written rest : List α) (p : InPlace α) : Prop where
  cells : p.cells = written ++ text.drop written.length
  writeP : p.writeP = written.length
  behind : p.writeP ≤ p.readP
  unread : text.drop p.readP = rest

theorem rewrites_start
    (text : List α) :
    Rewrites text [] text ⟨text, 0, 0⟩ :=
  ⟨rfl, rfl, Nat.le_refl 0, rfl⟩

namespace Rewrites

variable {text written rest : List α}
variable {value : α}
variable {p : InPlace α}

/-- The text is read as it was. -/
theorem read_eq
    (rewrites : Rewrites text written (value :: rest) p) :
    p.read = some value := by
  have behind := rewrites.behind
  rw [rewrites.writeP] at behind
  have position : written.length + (p.readP - written.length) = p.readP := by
    omega
  have first := congrArg List.head? rewrites.unread
  rw [read, rewrites.cells, List.getElem?_append_right behind,
    List.getElem?_drop, position]
  simpa using first

theorem advance
    (rewrites : Rewrites text written (value :: rest) p) :
    Rewrites text written rest p.advance where
  cells := rewrites.cells
  writeP := rewrites.writeP
  behind := Nat.le_succ_of_le rewrites.behind
  unread := by
    have later := congrArg (List.drop 1) rewrites.unread
    rwa [List.drop_drop] at later

/-- There is a cell for what is written, since one is still read. -/
theorem store_eq
    (rewrites : Rewrites text written rest p)
    (unread : rest ≠ [])
    (new : α) :
    p.store new =
      some
        { p with
          cells := written ++ new :: text.drop (written.length + 1) } := by
  obtain ⟨value, later, rfl⟩ := List.exists_cons_of_ne_nil unread
  have reading : p.readP < p.cells.length :=
    (List.getElem?_eq_some_iff.mp rewrites.read_eq).choose
  have inside : p.writeP < p.cells.length :=
    rewrites.behind.trans_lt reading
  have room : written.length < text.length := by
    rw [rewrites.cells, rewrites.writeP, List.length_append,
      List.length_drop] at inside
    omega
  rw [store, if_pos ⟨rewrites.behind, inside⟩, rewrites.cells,
    rewrites.writeP, List.set_append_right _ _ (Nat.le_refl _), Nat.sub_self,
    List.drop_eq_getElem_cons room, List.set_cons_zero]

/-- What is written in front of the reading position stays behind it. -/
theorem put
    (rewrites : Rewrites text written rest p)
    (unread : rest ≠ [])
    (passed : p.writeP < p.readP)
    (new : α) :
    ∃ q,
      p.put new = some q ∧
        Rewrites text (written ++ [new]) rest q := by
  refine ⟨_, by rw [InPlace.put, rewrites.store_eq unread new]; rfl, ?_⟩
  exact {
    cells := by simp
    writeP := by simp [rewrites.writeP]
    behind := passed
    unread := rewrites.unread
  }

/-- A value is written while the one in its place is read. -/
theorem replace
    (rewrites : Rewrites text written (value :: rest) p)
    (new : α) :
    ∃ q,
      p.replace new = some q ∧
        Rewrites text (written ++ [new]) rest q := by
  have unread : value :: rest ≠ [] :=
    List.cons_ne_nil value rest
  have stored := rewrites.store_eq unread new
  refine ⟨_, by rw [InPlace.replace, InPlace.put, stored]; rfl, ?_⟩
  exact {
    cells := by simp [InPlace.advance]
    writeP := by simp [InPlace.advance, rewrites.writeP]
    behind := Nat.succ_le_succ rewrites.behind
    unread := rewrites.advance.unread
  }

/-- The loop that skips ends at the mark behind the text at last. -/
theorem skipWhile
    {mark : α}
    (rewrites : Rewrites text written (rest ++ [mark]) p)
    (kind : α → Bool)
    (stops : kind mark = false) :
    ∃ q,
      p.skipWhile kind = some q ∧
        Rewrites text written (rest.dropWhile kind ++ [mark]) q ∧
          p.readP ≤ q.readP := by
  induction rest generalizing p with
  | nil =>
      refine ⟨p, ?_, rewrites, Nat.le_refl _⟩
      rw [skipWhile_of_read rewrites.read_eq, stops]
      rfl
  | cons first rest inductionHypothesis =>
      rw [skipWhile_of_read rewrites.read_eq, List.dropWhile_cons]
      split
      · obtain ⟨q, reached, later, passed⟩ :=
          inductionHypothesis rewrites.advance
        exact ⟨q, reached, later, Nat.le_of_succ_le passed⟩
      · exact ⟨p, rfl, rewrites, Nat.le_refl _⟩

end Rewrites

end InPlace

end Csh
