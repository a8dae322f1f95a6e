import Mathlib.Data.List.Nodup

namespace Csh.KeyedList

/-!
# Linked lists that are searched by a key

A list whose entries are found by a key, changed where they stand and
unlinked.  While the keys are distinct such a list is a finite map.
-/

universe u v

variable {Entry : Type u} {Key : Type v} [DecidableEq Key]
variable (key : Entry → Key)

/-- The first entry with a key. -/
def lookup
    (wanted : Key)
    (entries : List Entry) :
    Option Entry :=
  entries.find? fun entry => key entry = wanted

/-- Change the first entry with a key where it stands. -/
def update
    (wanted : Key)
    (change : Entry → Entry) :
    List Entry → List Entry
  | [] => []
  | entry :: rest =>
      if key entry = wanted then
        change entry :: rest
      else
        entry :: update wanted change rest

/-- Unlink the first entry with a key. -/
def unlink
    (wanted : Key)
    (entries : List Entry) :
    List Entry :=
  entries.eraseP fun entry => key entry = wanted

/-- No two entries have the same key. -/
def Distinct (entries : List Entry) : Prop :=
  (entries.map key).Nodup

section Lookup

variable {key : Entry → Key}
variable {entries : List Entry}
variable {entry : Entry}
variable {wanted : Key}

@[simp] theorem lookup_nil :
    lookup key wanted [] = none :=
  rfl

theorem lookup_cons_of_eq
    (sameKey : key entry = wanted) :
    lookup key wanted (entry :: entries) = some entry := by
  simp [lookup, sameKey]

theorem lookup_cons_of_ne
    (otherKey : key entry ≠ wanted) :
    lookup key wanted (entry :: entries) = lookup key wanted entries := by
  simp [lookup, otherKey]

theorem lookup_eq_none_iff :
    lookup key wanted entries = none ↔ wanted ∉ entries.map key := by
  simp [lookup]

theorem key_of_lookup
    (found : lookup key wanted entries = some entry) :
    key entry = wanted := by
  simpa using List.find?_some found

theorem mem_of_lookup
    (found : lookup key wanted entries = some entry) :
    entry ∈ entries :=
  List.mem_of_find?_eq_some found

/-- Where keys are distinct, each entry is the one its key finds. -/
theorem lookup_of_mem
    (distinct : Distinct key entries)
    (member : entry ∈ entries) :
    lookup key (key entry) entries = some entry := by
  induction entries with
  | nil =>
      exact absurd member (by simp)
  | cons first rest inductionHypothesis =>
      obtain ⟨notInRest, restDistinct⟩ := List.nodup_cons.mp distinct
      rcases List.mem_cons.mp member with isFirst | inRest
      · subst isFirst
        exact lookup_cons_of_eq rfl
      · have otherKey : key first ≠ key entry := by
          intro sameKey
          apply notInRest
          rw [sameKey]
          exact List.mem_map_of_mem inRest
        rw [lookup_cons_of_ne otherKey]
        exact inductionHypothesis restDistinct inRest

/-- The entry a key finds, and what stands in front of it and behind it. -/
theorem exists_split_of_lookup
    (found : lookup key wanted entries = some entry) :
    ∃ before after,
      entries = before ++ entry :: after ∧
        ∀ earlier ∈ before, key earlier ≠ wanted := by
  obtain ⟨_, before, after, shape, others⟩ :=
    List.find?_eq_some_iff_append.mp found
  exact
    ⟨before, after, shape, fun earlier member => by
      simpa using others earlier member⟩

theorem lookup_of_split
    {before after : List Entry}
    (hasKey : key entry = wanted)
    (others : ∀ earlier ∈ before, key earlier ≠ wanted) :
    lookup key wanted (before ++ entry :: after) = some entry :=
  List.find?_eq_some_iff_append.mpr
    ⟨by simpa using hasKey, before, after, rfl, fun earlier member => by
      simpa using others earlier member⟩

/-- An entry that is kept stays the one its key finds. -/
theorem lookup_filter_of_keeps
    {keeps : Entry → Bool}
    (found : lookup key wanted entries = some entry)
    (kept : keeps entry = true) :
    lookup key wanted (entries.filter keeps) = some entry := by
  obtain ⟨before, after, rfl, others⟩ := exists_split_of_lookup found
  rw [List.filter_append, List.filter_cons_of_pos kept]
  exact lookup_of_split (key_of_lookup found) fun earlier member =>
    others earlier (List.mem_of_mem_filter member)

/-- Where keys are distinct the order of the list does not matter. -/
theorem lookup_reverse
    (distinct : Distinct key entries) :
    lookup key wanted entries.reverse = lookup key wanted entries := by
  cases found : lookup key wanted entries with
  | none =>
      rw [lookup_eq_none_iff, List.map_reverse, List.mem_reverse]
      exact lookup_eq_none_iff.mp found
  | some entry =>
      have reversed : Distinct key entries.reverse := by
        rw [Distinct, List.map_reverse]
        exact List.nodup_reverse.mpr distinct
      rw [← key_of_lookup found]
      exact lookup_of_mem reversed (List.mem_reverse.mpr (mem_of_lookup found))

/-- An entry that a key finds from both ends is the only one with the key. -/
theorem eq_of_lookup_reverse
    (nodup : entries.Nodup)
    (found : lookup key wanted entries = some entry)
    (foundReverse : lookup key wanted entries.reverse = some entry)
    {other : Entry}
    (member : other ∈ entries)
    (sameKey : key other = wanted) :
    other = entry := by
  obtain ⟨before, after, rfl, others⟩ := exists_split_of_lookup found
  have notAfter : entry ∉ after :=
    (List.nodup_cons.mp (List.nodup_append.mp nodup).2.1).1
  rcases List.mem_append.mp member with inBefore | inRest
  · exact absurd sameKey (others other inBefore)
  rcases List.mem_cons.mp inRest with isEntry | inAfter
  · exact isEntry
  -- the search from the end would stop behind the entry
  cases foundAfter : lookup key wanted after.reverse with
  | none =>
      rw [lookup_eq_none_iff, List.map_reverse, List.mem_reverse]
        at foundAfter
      exact absurd (List.mem_map.mpr ⟨other, inAfter, sameKey⟩) foundAfter
  | some last =>
      have lastIs : last = entry := by
        rw [lookup] at foundAfter
        rw [List.reverse_append, List.reverse_cons, List.append_assoc,
          lookup, List.find?_append, foundAfter] at foundReverse
        exact Option.some.inj foundReverse
      have inReverse := mem_of_lookup foundAfter
      rw [lastIs, List.mem_reverse] at inReverse
      exact absurd inReverse notAfter

end Lookup

section Update

variable {key : Entry → Key}
variable {entries : List Entry}
variable {wanted other : Key}
variable {change : Entry → Entry}

/-- A change that keeps the key of an entry keeps the keys of the list. -/
theorem map_update
    (keeps : ∀ entry, key (change entry) = key entry) :
    (update key wanted change entries).map key = entries.map key := by
  induction entries with
  | nil =>
      rfl
  | cons first rest inductionHypothesis =>
      by_cases sameKey : key first = wanted
      · simp [update, sameKey, keeps]
      · simp [update, sameKey, inductionHypothesis]

theorem lookup_update_same
    (keeps : ∀ entry, key (change entry) = key entry) :
    lookup key wanted (update key wanted change entries) =
      (lookup key wanted entries).map change := by
  induction entries with
  | nil =>
      rfl
  | cons first rest inductionHypothesis =>
      by_cases sameKey : key first = wanted
      · have changedKey : key (change first) = wanted := by
          rw [keeps, sameKey]
        rw [update, if_pos sameKey, lookup_cons_of_eq changedKey,
          lookup_cons_of_eq sameKey]
        rfl
      · rw [update, if_neg sameKey, lookup_cons_of_ne sameKey,
          lookup_cons_of_ne sameKey, inductionHypothesis]

theorem lookup_update_other
    (keeps : ∀ entry, key (change entry) = key entry)
    (different : other ≠ wanted) :
    lookup key other (update key wanted change entries) =
      lookup key other entries := by
  induction entries with
  | nil =>
      rfl
  | cons first rest inductionHypothesis =>
      by_cases sameKey : key first = wanted
      · have firstOther : key first ≠ other := by
          rw [sameKey]
          exact different.symm
        have changedOther : key (change first) ≠ other := by
          rw [keeps]
          exact firstOther
        rw [update, if_pos sameKey, lookup_cons_of_ne changedOther,
          lookup_cons_of_ne firstOther]
      · rw [update, if_neg sameKey]
        by_cases isOther : key first = other
        · rw [lookup_cons_of_eq isOther, lookup_cons_of_eq isOther]
        · rw [lookup_cons_of_ne isOther, lookup_cons_of_ne isOther,
            inductionHypothesis]

end Update

section Unlink

variable {key : Entry → Key}
variable {entries : List Entry}
variable {wanted other : Key}

theorem unlink_distinct
    (distinct : Distinct key entries) :
    Distinct key (unlink key wanted entries) :=
  distinct.sublist (List.eraseP_sublist.map key)

/-- Where keys are distinct, the first entry with a key is the only one. -/
theorem lookup_unlink_same
    (distinct : Distinct key entries) :
    lookup key wanted (unlink key wanted entries) = none := by
  induction entries with
  | nil =>
      rfl
  | cons first rest inductionHypothesis =>
      obtain ⟨notInRest, restDistinct⟩ := List.nodup_cons.mp distinct
      by_cases sameKey : key first = wanted
      · rw [unlink, List.eraseP_cons_of_pos (by simpa using sameKey),
          lookup_eq_none_iff, ← sameKey]
        exact notInRest
      · rw [unlink, List.eraseP_cons_of_neg (by simpa using sameKey),
          lookup_cons_of_ne sameKey]
        exact inductionHypothesis restDistinct

theorem lookup_unlink_other
    (different : other ≠ wanted) :
    lookup key other (unlink key wanted entries) =
      lookup key other entries := by
  induction entries with
  | nil =>
      rfl
  | cons first rest inductionHypothesis =>
      by_cases sameKey : key first = wanted
      · have firstOther : key first ≠ other := by
          rw [sameKey]
          exact different.symm
        rw [unlink, List.eraseP_cons_of_pos (by simpa using sameKey),
          lookup_cons_of_ne firstOther]
      · rw [unlink, List.eraseP_cons_of_neg (by simpa using sameKey)]
        by_cases isOther : key first = other
        · rw [lookup_cons_of_eq isOther, lookup_cons_of_eq isOther]
        · rw [lookup_cons_of_ne isOther, lookup_cons_of_ne isOther]
          exact inductionHypothesis

end Unlink

section Bounded

/--
Change the entry of a key, or put a new one at the end while there is room.
-/
def boundedPut
    (key : Entry → Key)
    (capacity : Nat)
    (wanted : Key)
    (change : Entry → Entry)
    (new : Entry)
    (entries : List Entry) :
    List Entry :=
  if (lookup key wanted entries).isSome then
    update key wanted change entries
  else if capacity ≤ entries.length then
    entries
  else
    entries ++ [new]

variable {key : Entry → Key}
variable {capacity : Nat}
variable {wanted other : Key}
variable {change : Entry → Entry}
variable {new entry : Entry}
variable {entries : List Entry}

theorem mem_of_mem_update
    (member : entry ∈ update key wanted change entries) :
    entry ∈ entries ∨ ∃ old ∈ entries, entry = change old := by
  induction entries with
  | nil =>
      exact .inl member
  | cons first rest inductionHypothesis =>
      by_cases sameKey : key first = wanted
      · rw [update, if_pos sameKey] at member
        rcases List.mem_cons.mp member with rfl | later
        · exact .inr ⟨first, List.mem_cons_self, rfl⟩
        · exact .inl (List.mem_cons_of_mem _ later)
      · rw [update, if_neg sameKey] at member
        rcases List.mem_cons.mp member with rfl | later
        · exact .inl List.mem_cons_self
        · rcases inductionHypothesis later with kept | ⟨old, isOld, rfl⟩
          · exact .inl (List.mem_cons_of_mem _ kept)
          · exact .inr ⟨old, List.mem_cons_of_mem _ isOld, rfl⟩

/-- What is put is old, changed or new. -/
theorem mem_of_mem_boundedPut
    (member : entry ∈ boundedPut key capacity wanted change new entries) :
    entry ∈ entries ∨ (∃ old ∈ entries, entry = change old) ∨ entry = new := by
  unfold boundedPut at member
  split at member
  · exact (mem_of_mem_update member).imp_right .inl
  · split at member
    · exact .inl member
    · rcases List.mem_append.mp member with earlier | isNew
      · exact .inl earlier
      · exact .inr (.inr (List.mem_singleton.mp isNew))

/-- The capacity is kept. -/
theorem length_boundedPut_le
    (keeps : ∀ entry, key (change entry) = key entry)
    (fits : entries.length ≤ capacity) :
    (boundedPut key capacity wanted change new entries).length ≤
      capacity := by
  unfold boundedPut
  split
  · have same :=
      congrArg List.length (@map_update _ _ _ _ entries wanted _ keeps)
    rw [List.length_map, List.length_map] at same
    rwa [same]
  · split
    · exact fits
    · rw [List.length_append, List.length_singleton]
      omega

/-- There is one entry for each key. -/
theorem distinct_boundedPut
    (keeps : ∀ entry, key (change entry) = key entry)
    (hasKey : key new = wanted)
    (distinct : Distinct key entries) :
    Distinct key (boundedPut key capacity wanted change new entries) := by
  unfold boundedPut
  split
  · rw [Distinct, map_update keeps]
    exact distinct
  · rename_i missing
    split
    · exact distinct
    · rw [Option.not_isSome_iff_eq_none, lookup_eq_none_iff] at missing
      rw [Distinct, List.map_append, List.map_singleton, hasKey,
        List.nodup_append]
      refine ⟨distinct, List.nodup_singleton _, fun found member => ?_⟩
      intro last isLast
      rw [List.mem_singleton.mp isLast]
      rintro rfl
      exact missing member

/-- The other keys find what they did. -/
theorem lookup_boundedPut_other
    (keeps : ∀ entry, key (change entry) = key entry)
    (hasKey : key new = wanted)
    (different : other ≠ wanted) :
    lookup key other (boundedPut key capacity wanted change new entries) =
      lookup key other entries := by
  unfold boundedPut
  split
  · exact lookup_update_other keeps different
  · split
    · rfl
    · rw [lookup, List.find?_append]
      have notNew : lookup key other [new] = none := by
        rw [lookup_cons_of_ne (by rw [hasKey]; exact different.symm)]
        rfl
      rw [lookup] at notNew
      rw [notNew, Option.or_none]
      rfl

/-- An entry that is there is changed, however full the list is. -/
theorem lookup_boundedPut_same
    (keeps : ∀ entry, key (change entry) = key entry)
    (found : lookup key wanted entries = some entry) :
    lookup key wanted (boundedPut key capacity wanted change new entries) =
      some (change entry) := by
  rw [boundedPut, if_pos (by rw [found]; rfl), lookup_update_same keeps,
    found]
  rfl

end Bounded

end Csh.KeyedList
