import Mathlib.Data.List.Infix

namespace Csh.CommonPrefix

/-!
# Common prefixes

The longest common prefix of two lists, and that of any number of lists.  The
latter is found by comparing neighbours only.
-/

variable {α : Type}

section Two

variable [DecidableEq α]
variable {first second front : List α}

/-- The longest common prefix of two lists. -/
def commonPrefix : List α → List α → List α
  | [], _ => []
  | _ :: _, [] => []
  | a :: first, b :: second =>
      if a = b then
        a :: commonPrefix first second
      else
        []

/-- A list is in front of both exactly when it is in front of the prefix. -/
theorem prefix_commonPrefix_iff :
    front <+: commonPrefix first second ↔
      front <+: first ∧ front <+: second := by
  induction first, second using commonPrefix.induct generalizing front with
  | case1 second =>
      rw [commonPrefix, List.prefix_nil]
      exact ⟨fun none => by simp [none], fun both => both.1⟩
  | case2 a first =>
      rw [commonPrefix, List.prefix_nil]
      exact ⟨fun none => by simp [none], fun both => both.2⟩
  | case3 a first second inductionHypothesis =>
      rw [commonPrefix, if_pos rfl]
      cases front with
      | nil =>
          simp
      | cons c rest =>
          simp only [List.cons_prefix_cons, inductionHypothesis]
          exact and_and_left
  | case4 a first b second different =>
      rw [commonPrefix, if_neg different, List.prefix_nil]
      refine ⟨fun none => by simp [none], fun both => ?_⟩
      cases front with
      | nil =>
          rfl
      | cons c rest =>
          have inFirst := (List.cons_prefix_cons.mp both.1).1
          have inSecond := (List.cons_prefix_cons.mp both.2).1
          exact absurd (inFirst.symm.trans inSecond) different

theorem commonPrefix_prefix_left :
    commonPrefix first second <+: first :=
  (prefix_commonPrefix_iff.mp (List.prefix_refl _)).1

theorem commonPrefix_prefix_right :
    commonPrefix first second <+: second :=
  (prefix_commonPrefix_iff.mp (List.prefix_refl _)).2

theorem commonPrefix_prefix_comm :
    commonPrefix first second <+: commonPrefix second first :=
  prefix_commonPrefix_iff.mpr
    ⟨commonPrefix_prefix_right, commonPrefix_prefix_left⟩

theorem commonPrefix_comm :
    commonPrefix first second = commonPrefix second first :=
  List.infix_antisymm commonPrefix_prefix_comm.isInfix
    commonPrefix_prefix_comm.isInfix

theorem commonPrefix_self :
    commonPrefix first first = first :=
  List.infix_antisymm commonPrefix_prefix_left.isInfix
    (prefix_commonPrefix_iff.mpr
      ⟨List.prefix_refl _, List.prefix_refl _⟩).isInfix

/-- Up to its length the common prefix is what either list begins with. -/
theorem take_commonPrefix_left :
    first.take (commonPrefix first second).length =
      commonPrefix first second :=
  (List.prefix_iff_eq_take.mp commonPrefix_prefix_left).symm

theorem take_commonPrefix_right :
    second.take (commonPrefix first second).length =
      commonPrefix first second :=
  (List.prefix_iff_eq_take.mp commonPrefix_prefix_right).symm

end Two

section Many

variable {front other next last : List α}
variable {lists : List (List α)}

/-- The longest list that all the lists begin with. -/
structure IsLongestCommonPrefix
    (front : List α)
    (lists : List (List α)) :
    Prop where
  common : ∀ list ∈ lists, front <+: list
  longest : ∀ other, (∀ list ∈ lists, other <+: list) → other <+: front

/-- There is at most one longest common prefix. -/
theorem IsLongestCommonPrefix.unique
    (one : IsLongestCommonPrefix front lists)
    (another : IsLongestCommonPrefix other lists) :
    front = other :=
  List.infix_antisymm (another.longest front one.common).isInfix
    (one.longest other another.common).isInfix

/-- The common prefix of two of the lists is the one of all if it is common. -/
theorem isLongestCommonPrefix_of_two
    [DecidableEq α]
    {first second : List α}
    (isFirst : first ∈ lists)
    (isSecond : second ∈ lists)
    (common : ∀ list ∈ lists, commonPrefix first second <+: list) :
    IsLongestCommonPrefix (commonPrefix first second) lists where
  common := common
  longest _ inAll :=
    prefix_commonPrefix_iff.mpr ⟨inAll first isFirst, inAll second isSecond⟩

/--
One more list behind the last: the prefix is cut to what the two have in
common if that is shorter, and stays as it is otherwise.
-/
theorem IsLongestCommonPrefix.concat
    [DecidableEq α]
    (isLongest : IsLongestCommonPrefix front lists)
    (isLast : last ∈ lists) :
    IsLongestCommonPrefix
      (if (commonPrefix last next).length < front.length then
        commonPrefix last next
      else
        front)
      (lists ++ [next]) := by
  have inLast := isLongest.common last isLast
  have withNext :
      ∀ other, (∀ list ∈ lists ++ [next], other <+: list) →
        other <+: front ∧ other <+: commonPrefix last next := by
    intro other inAll
    exact
      ⟨isLongest.longest other fun list member =>
          inAll list (List.mem_append_left _ member),
        prefix_commonPrefix_iff.mpr
          ⟨inAll last (List.mem_append_left _ isLast), inAll next (by simp)⟩⟩
  split
  · rename_i shorter
    have cut : commonPrefix last next <+: front :=
      List.prefix_of_prefix_length_le commonPrefix_prefix_left inLast
        (Nat.le_of_lt shorter)
    refine ⟨fun list member => ?_, fun other inAll => (withNext other inAll).2⟩
    rcases List.mem_append.mp member with earlier | isNext
    · exact cut.trans (isLongest.common list earlier)
    · rw [List.mem_singleton.mp isNext]
      exact commonPrefix_prefix_right
  · rename_i longEnough
    have kept : front <+: commonPrefix last next :=
      List.prefix_of_prefix_length_le inLast commonPrefix_prefix_left
        (Nat.le_of_not_lt longEnough)
    refine ⟨fun list member => ?_, fun other inAll => (withNext other inAll).1⟩
    rcases List.mem_append.mp member with earlier | isNext
    · exact isLongest.common list earlier
    · rw [List.mem_singleton.mp isNext]
      exact kept.trans commonPrefix_prefix_right

/-- The longest common prefix of some lists, from the last to the first. -/
def commonPrefixOf [DecidableEq α] : List (List α) → List α
  | [] => []
  | [list] => list
  | list :: second :: rest =>
      commonPrefix list (commonPrefixOf (second :: rest))

theorem isLongestCommonPrefix_commonPrefixOf
    [DecidableEq α]
    (nonempty : lists ≠ []) :
    IsLongestCommonPrefix (commonPrefixOf lists) lists := by
  induction lists using commonPrefixOf.induct with
  | case1 =>
      exact absurd rfl nonempty
  | case2 list =>
      refine ⟨fun other member => ?_, fun other inAll => inAll list (by simp)⟩
      rw [List.mem_singleton.mp member]
      exact List.prefix_refl list
  | case3 list second rest inductionHypothesis =>
      obtain ⟨common, longest⟩ := inductionHypothesis (by simp)
      refine ⟨fun other member => ?_, fun other inAll => ?_⟩
      · rcases List.mem_cons.mp member with rfl | later
        · exact commonPrefix_prefix_left
        · exact commonPrefix_prefix_right.trans (common other later)
      · exact
          prefix_commonPrefix_iff.mpr
            ⟨inAll list (by simp),
              longest other fun later member =>
                inAll later (List.mem_cons_of_mem _ member)⟩

/-- The order of the lists does not matter. -/
theorem IsLongestCommonPrefix.of_reverse
    (isLongest : IsLongestCommonPrefix front lists.reverse) :
    IsLongestCommonPrefix front lists where
  common list member := isLongest.common list (List.mem_reverse.mpr member)
  longest other inAll :=
    isLongest.longest other fun list member =>
      inAll list (List.mem_reverse.mp member)

end Many

end Csh.CommonPrefix
