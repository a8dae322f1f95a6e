import Csh.Lib.Linked
import Csh.Lib.Strcmp
import Mathlib.Data.List.Sort

namespace Csh.ApmQueue

open Libc Linked

/-!
# The queue of APMs

`apm_queue_add` inserts an entry into the list of loaded APMs.  It walks the
list with the `next` field of the new entry as its cursor, behind it a pointer
to the entry that the cursor has passed.
-/

/--
The `next` fields of all entries, and `apm_queue`; the `file` of an entry does
not change and is a parameter.
-/
structure ApmHeap (Entry : Type) where
  next : Entry → Option Entry
  apmQueue : Option Entry

section Add

variable {Entry : Type}
variable [DecidableEq Entry]

variable (file : Entry → CString)

/--
The loop of `apm_queue_add`: the `next` fields and `prev` when it ends, or
nothing if it takes more turns than it is given.
-/
def searchPlace
    (e : Entry) :
    Nat →
    (Entry → Option Entry) →
    Option Entry →
    Option ((Entry → Option Entry) × Option Entry)
  | 0, _, _ => none
  | turns + 1, next, prev =>
      match next e with
      | none => some (next, prev)
      | some cursor =>
          if 0 < strcmp (file e) (file cursor) then
            searchPlace e turns
              (Function.update next e (next cursor)) (some cursor)
          else
            some (next, prev)

/-- `apm_queue_add`. -/
def apmQueueAdd
    (turns : Nat)
    (heap : ApmHeap Entry)
    (e : Option Entry) :
    Option (ApmHeap Entry) :=
  match e with
  | none => some heap
  | some e =>
      let next := Function.update heap.next e heap.apmQueue
      match searchPlace file e turns next none with
      | none => none
      | some (next, some prev) =>
          some { heap with next := Function.update next prev (some e) }
      | some (next, none) =>
          some { next, apmQueue := some e }

/-- One call after the other. -/
def addAll
    (turns : Nat) :
    ApmHeap Entry → List Entry → Option (ApmHeap Entry)
  | heap, [] => some heap
  | heap, e :: rest =>
      (apmQueueAdd file turns heap (some e)).bind fun heap =>
        addAll turns heap rest

/-- The order of the queue: `strcmp` does not put the second file first. -/
def InOrder (first second : Entry) : Prop :=
  strcmp (file first) (file second) ≤ 0

instance : DecidableRel (InOrder file) :=
  fun first second =>
    inferInstanceAs (Decidable (strcmp (file first) (file second) ≤ 0))

end Add

section Order

variable {Entry : Type}
variable {file : Entry → CString}
variable {first second : Entry}

theorem inOrder_iff :
    InOrder file first second ↔ file first ≤ file second := by
  rw [InOrder, ← not_lt, strcmp_pos_iff, not_lt]

instance : Std.Total (InOrder file) where
  total first second := by
    simp only [inOrder_iff]
    exact le_total _ _

instance : IsTrans Entry (InOrder file) where
  trans _ _ _ := by
    simp only [inOrder_iff]
    exact le_trans

end Order

section Insertion

variable {Entry : Type}
variable {file : Entry → CString}
variable {e : Entry}

/-- The entries that a new one goes behind. -/
def passed (file : Entry → CString) (e : Entry) (items : List Entry) :
    List Entry :=
  items.takeWhile fun item => 0 < strcmp (file e) (file item)

/-- The entries that a new one goes in front of. -/
def kept (file : Entry → CString) (e : Entry) (items : List Entry) :
    List Entry :=
  items.dropWhile fun item => 0 < strcmp (file e) (file item)

theorem kept_cons
    (item : Entry)
    (rest : List Entry) :
    kept file e (item :: rest) =
      if 0 < strcmp (file e) (file item) then
        kept file e rest
      else
        item :: rest := by
  simp [kept, List.dropWhile_cons]

theorem passed_cons
    (item : Entry)
    (rest : List Entry) :
    passed file e (item :: rest) =
      if 0 < strcmp (file e) (file item) then
        item :: passed file e rest
      else
        [] := by
  simp [passed, List.takeWhile_cons]

/-- The list with a new entry between the two parts. -/
theorem passed_append_kept
    (file : Entry → CString)
    (e : Entry)
    (items : List Entry) :
    passed file e items ++ e :: kept file e items =
      items.orderedInsert (InOrder file) e := by
  rw [List.orderedInsert_eq_take_drop]
  have same :
      (fun item => decide (¬ InOrder file e item)) =
        fun item => decide (0 < strcmp (file e) (file item)) := by
    funext item
    simp only [InOrder, not_le]
  rw [same]
  rfl

/-- An insertion moves an entry from the calls to come into the queue. -/
theorem perm_orderedInsert_append
    (e : Entry)
    (items rest : List Entry) :
    (items.orderedInsert (InOrder file) e ++ rest).Perm (items ++ e :: rest) :=
  ((List.perm_orderedInsert _ e items).append_right rest).trans
    List.perm_middle.symm

variable [DecidableEq Entry]

/-- The loop ends with the cursor behind the entries that are passed. -/
theorem searchPlace_eq
    {items : List Entry}
    {turns : Nat}
    {next : Entry → Option Entry}
    (isList : IsList next (next e) items)
    (absent : e ∉ items)
    (enough : items.length < turns)
    (prev : Option Entry) :
    searchPlace file e turns next prev =
      some
        (Function.update next e (kept file e items).head?,
          (passed file e items).getLast?.or prev) := by
  induction items generalizing turns next prev with
  | nil =>
      obtain ⟨left, rfl⟩ := Nat.exists_eq_add_of_lt enough
      have ended : next e = none := isList
      have same : Function.update next e none = next := by
        rw [← ended, Function.update_eq_self]
      simp [searchPlace, ended, kept, passed, same]
  | cons item rest inductionHypothesis =>
      cases turns with
      | zero =>
          cases enough
      | succ turns =>
          rw [List.mem_cons, not_or] at absent
          obtain ⟨cursor, behind⟩ := isList
          rw [searchPlace, cursor]
          simp only
          by_cases passes : 0 < strcmp (file e) (file item)
          · have moved :
                IsList (Function.update next e (next item))
                  (Function.update next e (next item) e) rest := by
              rw [Function.update_self]
              exact behind.update absent.2 _
            rw [if_pos passes,
              inductionHypothesis moved absent.2 (Nat.lt_of_succ_lt_succ enough),
              Function.update_idem, kept_cons, if_pos passes, passed_cons,
              if_pos passes, List.getLast?_cons]
            cases (passed file e rest).getLast? <;> rfl
          · have same : Function.update next e (some item) = next := by
              rw [← cursor, Function.update_eq_self]
            rw [if_neg passes, kept_cons, if_neg passes, passed_cons,
              if_neg passes, List.head?_cons, same]
            rfl

/-- A queue that is a list of different entries. -/
structure Queued (heap : ApmHeap Entry) (items : List Entry) : Prop where
  isList : IsList heap.next heap.apmQueue items
  distinct : items.Nodup

/-- A call inserts its entry where its name belongs. -/
theorem Queued.add
    {heap : ApmHeap Entry}
    {items : List Entry}
    {turns : Nat}
    (queued : Queued heap items)
    (absent : e ∉ items)
    (enough : items.length < turns) :
    ∃ added,
      apmQueueAdd file turns heap (some e) = some added ∧
        Queued added (items.orderedInsert (InOrder file) e) := by
  have distinct : (items.orderedInsert (InOrder file) e).Nodup :=
    (List.perm_orderedInsert _ e items).nodup_iff.mpr
      (List.nodup_cons.mpr ⟨absent, queued.distinct⟩)
  have start :
      IsList (Function.update heap.next e heap.apmQueue)
        (Function.update heap.next e heap.apmQueue e) items := by
    rw [Function.update_self]
    exact queued.isList.update absent _
  have searched :=
    @searchPlace_eq Entry file e _ items turns _ start absent enough none
  have parted : passed file e items ++ kept file e items = items :=
    List.takeWhile_append_dropWhile
  rw [Function.update_idem, Option.or_none] at searched
  rw [← parted] at absent
  rw [List.mem_append, not_or] at absent
  have whole := queued.isList
  rw [← parted] at whole
  obtain ⟨front, back⟩ := whole.split
  have inserted :
      IsList
        (Function.update heap.next e (kept file e items).head?) (some e)
        (e :: kept file e items) := by
    refine ⟨rfl, ?_⟩
    rw [Function.update_self]
    exact back.update absent.2 _
  rw [← passed_append_kept] at distinct ⊢
  rcases List.eq_nil_or_concat (passed file e items) with
    none | ⟨leading, prev, shape⟩
  · rw [none] at searched distinct ⊢
    refine ⟨_, by rw [apmQueueAdd, searched]; rfl, inserted, distinct⟩
  · rw [List.concat_eq_append] at shape
    rw [shape] at searched distinct front absent ⊢
    rw [List.getLast?_concat] at searched
    have alone : prev ∉ leading := by
      rw [List.append_assoc] at distinct
      exact fun again =>
        (List.disjoint_of_nodup_append distinct) again (by simp)
    have outside : prev ∉ e :: kept file e items :=
      fun again =>
        (List.disjoint_of_nodup_append distinct) (by simp) again
    refine ⟨_, by rw [apmQueueAdd, searched], ?_, distinct⟩
    exact
      segment_append_iff.mpr
        ⟨some e, (front.update absent.1 _).relink alone _,
          inserted.update outside _⟩

/-- One call after the other inserts the entries one after the other. -/
theorem Queued.addAll
    {heap : ApmHeap Entry}
    {items entries : List Entry}
    {turns : Nat}
    (queued : Queued heap items)
    (distinct : (items ++ entries).Nodup)
    (enough : (items ++ entries).length ≤ turns) :
    ∃ added,
      ApmQueue.addAll file turns heap entries = some added ∧
        Queued added
          (entries.foldl
            (fun items e => items.orderedInsert (InOrder file) e) items) := by
  induction entries generalizing heap items with
  | nil =>
      exact ⟨heap, rfl, queued⟩
  | cons e rest inductionHypothesis =>
      have absent : e ∉ items := fun member =>
        (List.disjoint_of_nodup_append distinct) member List.mem_cons_self
      have room : items.length < turns := by
        rw [List.length_append, List.length_cons] at enough
        omega
      obtain ⟨added, here, later⟩ :=
        @Queued.add _ file e _ _ _ turns queued absent room
      have sameItems := @perm_orderedInsert_append _ file e items rest
      obtain ⟨final, ran, whole⟩ :=
        inductionHypothesis later (sameItems.nodup_iff.mpr distinct)
          (sameItems.length_eq.trans_le enough)
      refine ⟨final, ?_, whole⟩
      rw [ApmQueue.addAll, here]
      exact ran

end Insertion

section Sorting

variable {Entry : Type}

theorem perm_foldl_orderedInsert
    (file : Entry → CString)
    (entries items : List Entry) :
    (entries.foldl
        (fun items e => items.orderedInsert (InOrder file) e) items).Perm
      (items ++ entries) := by
  induction entries generalizing items with
  | nil =>
      rw [List.append_nil]
      exact .refl items
  | cons e rest inductionHypothesis =>
      exact
        (inductionHypothesis _).trans (perm_orderedInsert_append e items rest)

theorem pairwise_foldl_orderedInsert
    (file : Entry → CString)
    (entries : List Entry)
    {items : List Entry}
    (sorted : items.Pairwise (InOrder file)) :
    (entries.foldl
        (fun items e => items.orderedInsert (InOrder file) e)
        items).Pairwise (InOrder file) := by
  induction entries generalizing items with
  | nil =>
      exact sorted
  | cons e rest inductionHypothesis =>
      exact inductionHypothesis (sorted.orderedInsert e items)

end Sorting

/--
Adding different entries to the empty queue ends, and leaves a list of exactly
these entries that is sorted by the names of their files.
-/
theorem addAll_sorted
    {Entry : Type}
    [DecidableEq Entry]
    (file : Entry → CString)
    (next : Entry → Option Entry)
    {entries : List Entry}
    (distinct : entries.Nodup)
    {turns : Nat}
    (enough : entries.length ≤ turns) :
    ∃ heap items,
      addAll file turns ⟨next, none⟩ entries = some heap ∧
        IsList heap.next heap.apmQueue items ∧
        items.Perm entries ∧
        items.Pairwise
          fun first second => strcmp (file first) (file second) ≤ 0 := by
  have empty : Queued (ApmHeap.mk next none) [] :=
    ⟨rfl, List.nodup_nil⟩
  obtain ⟨heap, ran, queued⟩ :=
    @Queued.addAll _ file _ _ _ entries turns empty distinct enough
  exact
    ⟨heap, _, ran, queued.isList, perm_foldl_orderedInsert file entries [],
      pairwise_foldl_orderedInsert file entries List.Pairwise.nil⟩

/-- Three entries, two of them with the same name. -/
theorem addAll_sorted_three :
    ∃ heap items,
      addAll
            (fun entry : Fin 3 =>
              if entry = 1 then "a.so".toList else "b.so".toList)
            3 ⟨fun _ => none, none⟩ [0, 1, 2] =
          some heap ∧
        IsList heap.next heap.apmQueue items ∧
        items.Perm [0, 1, 2] ∧
        items.Pairwise fun first second =>
          strcmp
              (if first = 1 then "a.so".toList else "b.so".toList)
              (if second = 1 then "a.so".toList else "b.so".toList) ≤
            0 :=
  addAll_sorted
    (fun entry : Fin 3 => if entry = 1 then "a.so".toList else "b.so".toList)
    (fun _ => none) (by decide) (by decide)

end Csh.ApmQueue
