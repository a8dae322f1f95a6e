import Csh.KnownHosts
import Csh.Lib.CNumber
import Mathlib.Data.Nat.Digits.Defs

namespace Csh.PromptNode

open Libc KeyedList KnownHosts

/-!
# The node in the prompt

`slash_prompt` shows the default node of the shell.  For a known host it prints
the name, which is cut to make room for `@` and the number of the node.
-/

/-- `CSP_HOSTNAME_LEN`, the size of `nodebuf`. -/
def cspHostnameLen : Nat :=
  20

/-- `strnlen` of an array of characters. -/
def strnlen (cells : List Char) (maxlen : Nat) : Nat :=
  ((cells.take maxlen).takeWhile (· != nul)).length

/-- The `int` that the difference of two `size_t` is stored in. -/
def overflow (length size : Nat) : Int :=
  toInt (((length : Int) - size) % 2 ^ 64)

/-- `node_idx`, where the number is put behind a name of so many characters. -/
def nodeIdx (length number : Nat) : Int :=
  let excess := overflow (length + number) cspHostnameLen
  let index : Int := if excess > 0 then length - (excess + 1) else length
  if index < 0 then 0 else index

/-- The node text of `slash_prompt`, for a node other than 0. -/
def promptNode (slashDflNode : Int32) (knownHosts : List Host) : CString :=
  let got :=
    knownHostsGetName slashDflNode (List.replicate cspHostnameLen nul)
      (cspHostnameLen - 1) knownHosts
  if got.1 = 0 then
    snprintf cspHostnameLen (printInt slashDflNode.toInt)
  else
    let nodebuf := got.2
    let nodenumbuf := snprintf 7 ('@' :: printInt slashDflNode.toInt)
    let index := nodeIdx (strnlen nodebuf cspHostnameLen) nodenumbuf.length
    let nodebuf := nodebuf.set index.toNat nul
    strncat (nodebuf.takeWhile (· != nul)) nodenumbuf
      (cspHostnameLen - strnlen nodebuf (cspHostnameLen - 1) - 1)

/--
A part of the name from its start, `@` and all digits of the node, in at most
19 characters.
-/
def WellFormed (name : CString) (node : Int32) (text : CString) : Prop :=
  text.length ≤ cspHostnameLen - 1 ∧
    ∃ front,
      front <+: name ∧ text = front ++ '@' :: printInt node.toInt

section Buffer

variable {front pad : List Char}

/-- A NUL that is set inside a text cuts it there. -/
theorem exists_set
    {index : Nat}
    (inText : index ≤ front.length)
    (padded : 0 < pad.length) :
    ∃ behind,
      (front ++ pad).set index nul = front.take index ++ nul :: behind := by
  have inside : index < (front ++ pad).length := by
    rw [List.length_append]
    omega
  have cut : (front ++ pad).take index = front.take index :=
    List.take_append_of_le_length inText
  rw [List.set_eq_take_append_cons_drop, if_pos inside, cut]
  exact ⟨_, rfl⟩

theorem strnlen_text
    (plain : nul ∉ front)
    {maxlen : Nat}
    (short : front.length ≤ maxlen)
    (behind : List Char) :
    strnlen (front ++ nul :: behind) maxlen = front.length := by
  obtain ⟨left, rfl⟩ := Nat.exists_eq_add_of_le short
  have cut :
      (front ++ nul :: behind).take (front.length + left) =
        front ++ (nul :: behind).take left :=
    List.take_length_add_append left
  rw [strnlen, cut]
  cases left with
  | zero =>
      rw [List.take_zero, List.append_nil, takeWhile_of_not_mem plain]
  | succ left =>
      rw [List.take_succ_cons, takeWhile_append_nul plain]

/-- Copied into the empty buffer, a name leaves its last cell a NUL. -/
theorem strncpy_nodebuf
    (name : CString) :
    strncpy nul (cspHostnameLen - 1) (List.replicate cspHostnameLen nul)
        name =
      name.take 19 ++ List.replicate (20 - (name.take 19).length) nul := by
  have last :
      (List.replicate cspHostnameLen nul).drop (cspHostnameLen - 1) =
        List.replicate 1 nul :=
    rfl
  rw [strncpy, last, List.append_assoc, ← List.replicate_add,
    List.length_take]
  have room :
      cspHostnameLen - 1 - name.length + 1 = 20 - min 19 name.length := by
    unfold cspHostnameLen
    omega
  rw [room]
  rfl

end Buffer

section Digits

variable {node : Int32}

/-- A node has up to five digits, and no sign. -/
theorem length_printInt_node
    (positive : 1 ≤ node.toInt)
    (small : node.toInt ≤ 16383) :
    0 < (printInt node.toInt).length ∧ (printInt node.toInt).length ≤ 5 ∧
      ∀ c ∈ printInt node.toInt, c.isDigit = true := by
  have noSign : ¬ node.toInt < 0 := by
    omega
  rw [printInt, if_neg noSign]
  obtain ⟨nonempty, decimal, _⟩ := isNumeral_printUnsigned node.toInt.natAbs
  refine ⟨List.length_pos_iff.mpr nonempty, ?_, decimal⟩
  exact (Nat.length_toDigits_le_iff (by decide) (by decide)).mpr (by omega)

theorem overflow_eq
    {length size : Nat}
    (short : length < 2 ^ 31)
    (small : size < 2 ^ 31) :
    overflow length size = (length : Int) - size := by
  unfold overflow toInt
  rw [Int.bmod_def]
  omega

/-- How much of the name is left in front of a number with its `@`. -/
def keptLength (length number : Nat) : Nat :=
  if 20 < min 19 length + number then
    19 - number
  else
    min 19 length

/-- The index is the number of characters that are kept. -/
theorem nodeIdx_eq
    {length number : Nat}
    (short : number ≤ 6) :
    (nodeIdx (min 19 length) number).toNat = keptLength length number := by
  unfold nodeIdx keptLength
  rw [overflow_eq (by omega) (by decide)]
  unfold cspHostnameLen
  dsimp only
  split <;> split <;> split <;> omega

/-- A known name is copied, as far as it goes, with NUL behind it. -/
theorem knownHostsGetName_of_found
    {knownHosts : List Host}
    {host : Host}
    (found : lookup Host.node node knownHosts = some host) :
    knownHostsGetName node (List.replicate cspHostnameLen nul)
        (cspHostnameLen - 1) knownHosts =
      (1,
        host.name.take 19 ++
          List.replicate (20 - (host.name.take 19).length) nul) := by
  rw [knownHostsGetName, found]
  exact congrArg (Prod.mk 1) (strncpy_nodebuf host.name)

/-- The copied name is measured. -/
theorem strnlen_copied
    {name : CString}
    (plain : nul ∉ name.take 19) :
    strnlen
        (name.take 19 ++ List.replicate (20 - (name.take 19).length) nul)
        cspHostnameLen =
      min 19 name.length := by
  have named : (name.take 19).length = min 19 name.length :=
    List.length_take
  obtain ⟨padding, isPadding⟩ :
      ∃ padding, 20 - (name.take 19).length = padding + 1 :=
    ⟨19 - (name.take 19).length, by omega⟩
  rw [isPadding, List.replicate_succ,
    strnlen_text plain (by unfold cspHostnameLen; omega), named]

/-- What is printed: the name is cut, and the rest of the cells is filled. -/
theorem promptNode_eq
    {knownHosts : List Host}
    {host : Host}
    (found : lookup Host.node node knownHosts = some host)
    (plain : nul ∉ host.name)
    (positive : 1 ≤ node.toInt)
    (small : node.toInt ≤ 16383) :
    promptNode node knownHosts =
      host.name.take
          (keptLength host.name.length ((printInt node.toInt).length + 1)) ++
        ('@' :: printInt node.toInt).take
          (19 -
            keptLength host.name.length
              ((printInt node.toInt).length + 1)) := by
  obtain ⟨_, short, _⟩ := length_printInt_node positive small
  have named : (host.name.take 19).length = min 19 host.name.length :=
    List.length_take
  have plainFront : nul ∉ host.name.take 19 :=
    fun member => plain (List.mem_of_mem_take member)
  have number :
      snprintf 7 ('@' :: printInt node.toInt) = '@' :: printInt node.toInt :=
    List.take_of_length_le (by rw [List.length_cons]; omega)
  have measured := strnlen_copied plainFront
  have kept :
      keptLength host.name.length ((printInt node.toInt).length + 1) ≤
        (host.name.take 19).length := by
    unfold keptLength
    split <;> omega
  obtain ⟨behind, cut⟩ :=
    @exists_set (host.name.take 19)
      (List.replicate (20 - (host.name.take 19).length) nul) _ kept
      (by rw [List.length_replicate]; omega)
  have got := knownHostsGetName_of_found found
  have plainKept :
      nul ∉
        (host.name.take 19).take
          (keptLength host.name.length ((printInt node.toInt).length + 1)) :=
    fun member => plainFront (List.mem_of_mem_take member)
  have measuredKept :=
    @strnlen_text _ plainKept 19 (by rw [List.length_take]; omega) behind
  rw [List.length_take, min_eq_left kept] at measuredKept
  have last : cspHostnameLen - 1 = 19 := rfl
  have room : ∀ used, cspHostnameLen - used - 1 = 19 - used := by
    unfold cspHostnameLen
    omega
  rw [last] at got
  unfold promptNode
  simp only [got, number, measured, List.length_cons,
    nodeIdx_eq (show (printInt node.toInt).length + 1 ≤ 6 by omega), cut,
    takeWhile_append_nul plainKept, last, measuredKept, room]
  rw [if_neg (by decide), strncat, List.take_take, min_eq_left (by omega)]

/-- Of 20 characters the last digit is lost. -/
theorem not_wellFormed_of_twenty
    {name : CString}
    (positive : 1 ≤ node.toInt)
    (small : node.toInt ≤ 16383)
    (together : name.length + 1 + (printInt node.toInt).length = 20) :
    ¬ WellFormed name node
      (name.take (keptLength name.length ((printInt node.toInt).length + 1)) ++
        ('@' :: printInt node.toInt).take
          (19 -
            keptLength name.length ((printInt node.toInt).length + 1))) := by
  obtain ⟨nonempty, short, decimal⟩ := length_printInt_node positive small
  rintro ⟨_, front, _, shape⟩
  have kept :
      keptLength name.length ((printInt node.toInt).length + 1) =
        name.length := by
    unfold keptLength
    rw [if_neg (by omega)]
    omega
  obtain ⟨left, isLeft⟩ : ∃ left, 19 - name.length = left + 1 :=
    ⟨18 - name.length, by omega⟩
  rw [kept, List.take_length, isLeft, List.take_succ_cons] at shape
  have lengths := congrArg List.length shape
  simp only [List.length_append, List.length_cons, List.length_take]
    at lengths
  obtain ⟨digit, digits, isPrinted⟩ :=
    List.exists_cons_of_length_pos nonempty
  have behindFront : name.length = front.length + 1 := by
    omega
  -- behind the name stands the mark, and behind mark and front a digit
  have mark :
      (name ++ '@' :: (printInt node.toInt).take left)[name.length]? =
        some '@' := by
    rw [List.getElem?_append_right (Nat.le_refl _), Nat.sub_self]
    rfl
  rw [shape, behindFront, List.getElem?_append_right (by omega),
    Nat.add_sub_cancel_left, isPrinted, List.getElem?_cons_succ,
    List.getElem?_cons_zero, Option.some_inj] at mark
  have isDigit := decimal digit (by rw [isPrinted]; simp)
  rw [mark] at isDigit
  exact absurd isDigit (by decide)

/-- The last digit is lost when name and number take exactly 20 characters. -/
theorem wellFormed_iff
    {name : CString}
    (positive : 1 ≤ node.toInt)
    (small : node.toInt ≤ 16383) :
    WellFormed name node
        (name.take (keptLength name.length ((printInt node.toInt).length + 1)) ++
          ('@' :: printInt node.toInt).take
            (19 -
              keptLength name.length ((printInt node.toInt).length + 1))) ↔
      name.length + 1 + (printInt node.toInt).length ≠ 20 := by
  obtain ⟨nonempty, short, decimal⟩ := length_printInt_node positive small
  by_cases together : name.length + 1 + (printInt node.toInt).length = 20
  · exact
      iff_of_false (not_wellFormed_of_twenty positive small together)
        (not_not_intro together)
  · refine
      iff_of_true
        ⟨?_,
          name.take
            (keptLength name.length ((printInt node.toInt).length + 1)),
          List.take_prefix _ name, ?_⟩
        together
    · rw [List.length_append, List.length_take, List.length_take]
      unfold cspHostnameLen keptLength
      split <;> omega
    · have room :
          ('@' :: printInt node.toInt).length ≤
            19 - keptLength name.length ((printInt node.toInt).length + 1) := by
        rw [List.length_cons]
        unfold keptLength
        split <;> omega
      rw [List.take_of_length_le room]

end Digits

/--
For a known host the prompt shows the start of its name, `@` and all digits,
exactly when name, `@` and digits do not take 20 characters together.
-/
theorem promptNode_wellFormed_iff
    {knownHosts : List Host}
    {host : Host}
    {node : Int32}
    (found : lookup Host.node node knownHosts = some host)
    (plain : nul ∉ host.name)
    (positive : 1 ≤ node.toInt)
    (small : node.toInt ≤ 16383) :
    WellFormed host.name node (promptNode node knownHosts) ↔
      host.name.length + 1 + (printInt node.toInt).length ≠ 20 := by
  rw [promptNode_eq found plain positive small]
  exact wellFormed_iff positive small

/-- A name that has to be cut for the number. -/
theorem promptNode_wellFormed_of_long_name :
    WellFormed "a-rather-long-name".toList 12
      (promptNode 12 [⟨12, "a-rather-long-name".toList⟩]) :=
  (@promptNode_wellFormed_iff [⟨12, "a-rather-long-name".toList⟩]
    ⟨12, "a-rather-long-name".toList⟩ 12 rfl (by decide) (by decide)
    (by decide)).mpr (by decide)

/-- Node 12 of a name with 17 characters is shown as node 1. -/
theorem promptNode_loses_digit :
    promptNode 12 [⟨12, "seventeen-letters".toList⟩] =
        "seventeen-letters@1".toList ∧
      ¬ WellFormed "seventeen-letters".toList 12
        (promptNode 12 [⟨12, "seventeen-letters".toList⟩]) := by
  have shown :=
    @promptNode_eq 12 [⟨12, "seventeen-letters".toList⟩]
      ⟨12, "seventeen-letters".toList⟩ rfl (by decide) (by decide) (by decide)
  refine ⟨shown.trans (by decide), ?_⟩
  rw [shown, wellFormed_iff (by decide) (by decide)]
  decide

end Csh.PromptNode
