import Csh.Lib.CString

namespace Csh.PathList

/-!
# Walking a path list

`walk_path_list` cuts a list of search paths at every `;` and hands the paths
to its callback.  The runner is advanced by the condition of the loop before
it is looked at, so that the first character of a path is never compared.  A
list with an empty path in front of a `;` therefore has that `;` taken for the
first character of the next path.
-/

open Libc

/-- The string a callback reads from a cell; `none` when no NUL ends it. -/
def stringFrom
    (cells : List Char)
    (start : Nat) :
    Option CString :=
  if nul ∈ cells.drop start then
    some ((cells.drop start).takeWhile (· != nul))
  else
    none

/--
The loop of `walk_path_list`, from its condition on: the strings the callback
is called with, and `none` when a cell outside the array is read.
-/
def walkFrom
    (finish : Nat)
    (cells : List Char)
    (runner start : Nat) :
    Option (List CString) :=
  if runner < finish then
    match cells[runner + 1]? with
    | none => none
    | some c =>
        if c = ';' then do
          -- the callback sees the NUL that was put in place of the separator
          let path ← stringFrom (cells.set (runner + 1) nul) start
          let later ←
            walkFrom finish (cells.set (runner + 1) nul)
              (runner + 2) (runner + 2)
          some (path :: later)
        else if c = nul then do
          let path ← stringFrom cells start
          let later ← walkFrom finish cells (runner + 2) (runner + 2)
          some (path :: later)
        else
          walkFrom finish cells (runner + 1) start
  else
    some []
termination_by finish - runner

/-- `walk_path_list`: the strings its callback is called with, in order. -/
def walkPathList (pathlist : CString) : Option (List CString) :=
  walkFrom pathlist.length (pathlist ++ [nul]) 0 0

/--
The paths that are cut out of a text: a `;` ends a path that has a character,
and belongs to the path otherwise.
-/
def pathsFrom (current : CString) : CString → List CString
  | [] =>
      if current = [] then
        []
      else
        [current]
  | c :: rest =>
      if c = ';' ∧ current ≠ [] then
        current :: pathsFrom [] rest
      else
        pathsFrom (current ++ [c]) rest

section Turns

variable {finish runner start : Nat}
variable {cells : List Char}
variable {path : CString}
variable {later : List CString}

theorem walkFrom_stop
    (reached : finish ≤ runner) :
    walkFrom finish cells runner start = some [] := by
  rw [walkFrom, if_neg (by omega)]

/-- A separator ends the path, and the character behind it starts the next. -/
theorem walkFrom_separator
    (inside : runner < finish)
    (cell : cells[runner + 1]? = some ';')
    (read : stringFrom (cells.set (runner + 1) nul) start = some path)
    (rest :
      walkFrom finish (cells.set (runner + 1) nul) (runner + 2) (runner + 2) =
        some later) :
    walkFrom finish cells runner start = some (path :: later) := by
  rw [walkFrom, if_pos inside, cell]
  simp [read, rest]

/-- The NUL of the list ends the last path. -/
theorem walkFrom_end
    (inside : runner < finish)
    (cell : cells[runner + 1]? = some nul)
    (read : stringFrom cells start = some path)
    (last : finish ≤ runner + 2) :
    walkFrom finish cells runner start = some [path] := by
  have different : nul ≠ ';' := by decide
  rw [walkFrom, if_pos inside, cell]
  simp [different, read, walkFrom_stop last]

/-- Any other character stays in the path. -/
theorem walkFrom_other
    {c : Char}
    (inside : runner < finish)
    (cell : cells[runner + 1]? = some c)
    (noSeparator : c ≠ ';')
    (noNul : c ≠ nul) :
    walkFrom finish cells runner start =
      walkFrom finish cells (runner + 1) start := by
  rw [walkFrom, if_pos inside, cell]
  simp [noSeparator, noNul]

end Turns

section Loop

variable {before current later : List Char}

theorem stringFrom_eq
    (plain : nul ∉ current) :
    stringFrom (before ++ (current ++ nul :: later)) before.length =
      some current := by
  rw [stringFrom, List.drop_left, if_pos (by simp),
    takeWhile_append_nul plain]

/-- The cell behind the current path is the one the runner comes to. -/
theorem getElem?_behind
    {runner : Nat}
    {c : Char}
    (position : runner + 1 = before.length + current.length) :
    (before ++ (current ++ c :: later))[runner + 1]? = some c := by
  rw [position, List.getElem?_append_right (by omega), Nat.add_sub_cancel_left,
    List.getElem?_append_right (by omega), Nat.sub_self, List.getElem?_cons_zero]

theorem set_behind
    {runner : Nat}
    {c : Char}
    (position : runner + 1 = before.length + current.length) :
    (before ++ (current ++ c :: later)).set (runner + 1) nul =
      before ++ (current ++ nul :: later) := by
  rw [position, List.set_append_right _ _ (by omega), Nat.add_sub_cancel_left,
    List.set_append_right _ _ (by omega), Nat.sub_self, List.set_cons_zero]

end Loop

/--
What the loop does while `current` stands between the start and the runner,
which has come to its last character.
-/
theorem walkFrom_eq
    {finish runner : Nat}
    {before current rest : List Char}
    (started : current ≠ [])
    (plain : nul ∉ current ++ rest)
    (position : runner + 1 = before.length + current.length)
    (size : finish = before.length + current.length + rest.length) :
    walkFrom finish (before ++ (current ++ (rest ++ [nul]))) runner
        before.length =
      some (pathsFrom current rest) := by
  have plainCurrent : nul ∉ current :=
    fun member => plain (List.mem_append_left _ member)
  have inside : runner < finish := by
    omega
  cases rest with
  | nil =>
      rw [pathsFrom, if_neg started]
      exact
        walkFrom_end inside (getElem?_behind position)
          (stringFrom_eq plainCurrent) (by simp at size; omega)
  | cons c rest =>
      rw [List.length_cons] at size
      by_cases separator : c = ';'
      · subst separator
        rw [pathsFrom, if_pos ⟨rfl, started⟩]
        refine
          walkFrom_separator inside (getElem?_behind position) ?_ ?_
        · rw [List.cons_append, set_behind position, stringFrom_eq plainCurrent]
        · rw [List.cons_append, set_behind position]
          cases rest with
          | nil =>
              exact walkFrom_stop (by simp at size; omega)
          | cons first rest =>
              -- the character behind the separator is taken without a look
              rw [List.length_cons] at size
              have plainNext : nul ∉ [first] ++ rest :=
                fun member =>
                  plain
                    (List.mem_append_right _ (List.mem_cons_of_mem _ member))
              have next :=
                @walkFrom_eq finish (runner + 2) (before ++ (current ++ [nul]))
                  [first] rest (by simp) plainNext
                  (by simp; omega) (by simp; omega)
              have start :
                  (before ++ (current ++ [nul])).length = runner + 2 := by
                simp
                omega
              rw [start] at next
              rw [pathsFrom, if_neg (by simp)]
              simpa using next
      · have noNul : c ≠ nul := by
          rintro rfl
          exact plain (by simp)
        rw [pathsFrom, if_neg (by simp [separator]), List.cons_append,
          walkFrom_other inside (getElem?_behind position) separator noNul]
        have next :=
          @walkFrom_eq finish (runner + 1) before (current ++ [c]) rest
            (by simp) (by simpa using plain) (by simp; omega)
            (by simp; omega)
        simpa using next
termination_by rest.length

/-- The walk of a whole list never leaves its cells, and cuts it this way. -/
theorem walkPathList_eq
    {pathlist : CString}
    (plain : nul ∉ pathlist) :
    walkPathList pathlist = some (pathsFrom [] pathlist) := by
  cases pathlist with
  | nil =>
      exact walkFrom_stop (Nat.le_refl _)
  | cons first rest =>
      rw [pathsFrom, if_neg (by simp)]
      exact
        @walkFrom_eq _ 0 [] [first] rest (by simp) plain rfl
          (by simp; omega)

section Segments

variable {current segment rest : CString}

/-- Characters that are not separators are added to the path. -/
theorem pathsFrom_append
    (free : ';' ∉ segment) :
    pathsFrom current (segment ++ rest) =
      pathsFrom (current ++ segment) rest := by
  induction segment generalizing current with
  | nil =>
      rw [List.nil_append, List.append_nil]
  | cons c segment inductionHypothesis =>
      have other : c ≠ ';' := by
        rintro rfl
        exact free List.mem_cons_self
      have freeRest : ';' ∉ segment :=
        fun member => free (List.mem_cons_of_mem _ member)
      rw [List.cons_append, pathsFrom, if_neg (by simp [other]),
        inductionHypothesis freeRest, List.append_assoc,
        List.singleton_append]

/-- A text without separators is one path. -/
theorem pathsFrom_segment
    (free : ';' ∉ segment) :
    pathsFrom [] segment = [segment].filter (· ≠ []) := by
  have whole := @pathsFrom_append [] segment [] free
  rw [List.append_nil, List.nil_append] at whole
  rw [whole, pathsFrom]
  by_cases empty : segment = []
  · simp [empty]
  · simp [empty]

/-- What the current path holds is in one of the paths. -/
theorem exists_mem_pathsFrom
    {c : Char}
    (member : c ∈ current) :
    ∃ path ∈ pathsFrom current rest, c ∈ path := by
  induction rest generalizing current with
  | nil =>
      refine ⟨current, ?_, member⟩
      rw [pathsFrom, if_neg (List.ne_nil_of_mem member)]
      exact List.mem_singleton_self current
  | cons head rest inductionHypothesis =>
      rw [pathsFrom]
      split
      · exact ⟨current, List.mem_cons_self, member⟩
      · exact inductionHypothesis (List.mem_append_left _ member)

/-- A separator with no path in front of it gets into a path. -/
theorem pathsFrom_ne_of_separator
    {segments : List CString}
    (free : ∀ segment ∈ segments, ';' ∉ segment) :
    pathsFrom [] (';' :: rest) ≠ segments := by
  rintro rfl
  rw [pathsFrom, if_neg (by simp)] at free
  obtain ⟨path, member, separator⟩ :=
    @exists_mem_pathsFrom ([] ++ [';']) rest ';' (by simp)
  exact free path member separator

/-- The segments are cut out exactly when only the last one may be empty. -/
theorem pathsFrom_eq_segments_iff
    (pathlist : CString) :
    pathsFrom [] pathlist = (pathlist.splitOn ';').filter (· ≠ []) ↔
      ∀ segment ∈ (pathlist.splitOn ';').dropLast, segment ≠ [] := by
  induction pathlist using splitOn_induction ';' with
  | last segment free =>
      rw [List.splitOn_eq_singleton free]
      simpa using pathsFrom_segment free
  | cons segment rest free inductionHypothesis =>
      rw [List.splitOn_append_cons_self_of_not_mem free,
        List.dropLast_cons_of_ne_nil (List.splitOn_ne_nil _ _)]
      by_cases empty : segment = []
      · subst empty
        refine iff_of_false ?_ (by simp)
        refine pathsFrom_ne_of_separator fun segment member inside => ?_
        rw [List.mem_filter] at member
        rcases List.mem_cons.mp member.1 with rfl | later
        · cases inside
        · exact (mem_of_mem_splitOn later inside).2 rfl
      · rw [pathsFrom_append free, List.nil_append, pathsFrom,
          if_pos ⟨rfl, empty⟩, List.filter_cons_of_pos (by simpa using empty),
          List.cons_inj_right, inductionHypothesis, List.forall_mem_cons]
        exact (and_iff_right empty).symm

end Segments

/--
The callback gets every non-empty segment, in order and unchanged, exactly
when no separator is the first character of the list or stands behind another.
-/
theorem walkPathList_eq_segments_iff
    {pathlist : CString}
    (plain : nul ∉ pathlist) :
    walkPathList pathlist =
        some ((pathlist.splitOn ';').filter (· ≠ [])) ↔
      ∀ segment ∈ (pathlist.splitOn ';').dropLast, segment ≠ [] := by
  rw [walkPathList_eq plain, Option.some_inj, pathsFrom_eq_segments_iff]

/-- Two paths with a separator at the end of the list. -/
theorem walkPathList_two_paths :
    walkPathList "/a;/b;".toList =
        some (("/a;/b;".toList.splitOn ';').filter (· ≠ [])) ∧
      ("/a;/b;".toList.splitOn ';').filter (· ≠ []) =
        ["/a".toList, "/b".toList] :=
  ⟨(walkPathList_eq_segments_iff (by decide)).mpr (by decide), by decide⟩

/-- A doubled separator gets into the path behind it. -/
theorem walkPathList_doubled_separator :
    walkPathList "/a;;/b".toList = some ["/a".toList, ";/b".toList] ∧
      ("/a;;/b".toList.splitOn ';').filter (· ≠ []) =
        ["/a".toList, "/b".toList] := by
  refine ⟨?_, by decide⟩
  rw [walkPathList_eq (by decide)]
  decide

end Csh.PathList
