import Csh.SlotCommands

namespace Csh.Spaceboot

open Libc Interaction Walkdir

/-!
# The table of files

A path is stored in a row of 256 bytes by `strncpy`, which ends it with a NUL
only where there is room for one, and read back as the string that begins at
the row.  A search enters the first 32 files it validates, in its order.
-/

/-- A row has room for the path and a NUL behind it. -/
def FitsRow (path : CString) : Prop :=
  path.length < walkdirMaxPathSize ∧ nul ∉ path

instance (path : CString) : Decidable (FitsRow path) :=
  inferInstanceAs (Decidable (_ ∧ _))

/-- The row of a stored path, filled up with NULs. -/
def rowOf (path : CString) : List Char :=
  path ++ List.replicate (walkdirMaxPathSize - path.length) nul

/-- A row whose last byte is a NUL. -/
def Terminated (row : List Char) : Prop :=
  ∃ text, text.length = walkdirMaxPathSize - 1 ∧ row = text ++ [nul]

section Rows

variable {path : CString}
variable {row : List Char}

theorem Terminated.length
    (terminated : Terminated row) :
    row.length = walkdirMaxPathSize := by
  obtain ⟨text, length, rfl⟩ := terminated
  simp [length, walkdirMaxPathSize]

/-- All rows are empty strings when the program starts. -/
theorem terminated_zero
    (index : Nat) :
    Terminated (BinInfo.zero.files index) :=
  ⟨List.replicate (walkdirMaxPathSize - 1) nul, List.length_replicate,
    List.replicate_succ'⟩

/-- The last NUL of a row that holds a path. -/
theorem rowOf_eq_append
    (fits : FitsRow path) :
    rowOf path =
      path ++
        List.replicate (walkdirMaxPathSize - 1 - path.length) nul ++
          [nul] := by
  have room :
      walkdirMaxPathSize - path.length =
        walkdirMaxPathSize - 1 - path.length + 1 := by
    have length := fits.1
    omega
  rw [rowOf, room, List.replicate_succ', List.append_assoc]

theorem terminated_rowOf
    (fits : FitsRow path) :
    Terminated (rowOf path) := by
  refine ⟨_, ?_, rowOf_eq_append fits⟩
  have length := fits.1
  rw [List.length_append, List.length_replicate]
  omega

/-- `strncpy` of the whole row stores a path that fits. -/
theorem strncpy_eq_rowOf
    (fits : FitsRow path)
    (terminated : Terminated row) :
    strncpy nul walkdirMaxPathSize row path = rowOf path := by
  rw [strncpy, List.take_of_length_le fits.1.le,
    List.drop_of_length_le terminated.length.le, List.append_nil, rowOf]

/-- `strncpy` in front of the last NUL stores a path that fits. -/
theorem strncpy_pred_eq_rowOf
    (fits : FitsRow path)
    (terminated : Terminated row) :
    strncpy nul (walkdirMaxPathSize - 1) row path = rowOf path := by
  obtain ⟨text, length, rfl⟩ := terminated
  have short : path.length ≤ walkdirMaxPathSize - 1 :=
    Nat.le_sub_one_of_lt fits.1
  rw [strncpy, List.take_of_length_le short, rowOf_eq_append fits,
    List.drop_left' length]

/-- A path is read from its row. -/
theorem takeWhile_rowOf
    (fits : FitsRow path) :
    (rowOf path).takeWhile (· != nul) = path := by
  obtain ⟨more, rest⟩ :=
    Nat.exists_eq_succ_of_ne_zero (Nat.sub_ne_zero_of_lt fits.1)
  rw [rowOf, rest, List.replicate_succ, takeWhile_append_nul fits.2]

theorem contains_rowOf
    (fits : FitsRow path) :
    (rowOf path).contains nul = true := by
  rw [rowOf_eq_append fits]
  simp

/-- The string at a row that holds a path is the path. -/
theorem pathAt_eq_pure
    {binf : BinInfo}
    {index : Nat}
    (inTable : index < walkdirMaxEntries)
    (stored : binf.files index = rowOf path)
    (fits : FitsRow path) :
    pathAt binf index = pure path := by
  obtain ⟨toGo, rest⟩ :
      ∃ toGo, walkdirMaxEntries - index = toGo + 1 :=
    ⟨walkdirMaxEntries - index - 1, by omega⟩
  rw [pathAt, if_pos (by omega), Int.toNat_natCast, rest, readRows]
  simp only [stored, contains_rowOf fits, takeWhile_rowOf fits, ↓reduceIte]

/-- A `-f` argument that fits is the selected path. -/
theorem selectFile_filename
    {filename : CString}
    {binf : BinInfo}
    (fits : FitsRow filename)
    (terminated : Terminated (binf.files 0))
    (pathSize : Nat)
    (area : VmemArea) :
    selectFile pathSize (some filename) area binf =
      pure (.ok filename, binf.enterFilename filename) := by
  have stored : (binf.enterFilename filename).files 0 = rowOf filename :=
    strncpy_pred_eq_rowOf fits terminated
  have read : pathAt (binf.enterFilename filename) 0 = pure filename :=
    pathAt_eq_pure (by decide) stored fits
  have chosen :
      chooseFile (binf.enterFilename filename) = pure (.ok filename) := by
    rw [chooseFile, if_neg (by simp [BinInfo.enterFilename]), read]
    rfl
  rw [selectFile, listFiles]
  change
    (do
      let chosen ← chooseFile (binf.enterFilename filename)
      pure (chosen, binf.enterFilename filename)) = _
  rw [chosen]
  rfl

end Rows

section Search

variable {area : VmemArea}
variable {path name : CString}
variable {binf final : BinInfo}
variable {listed : List CString}
variable {trace first later : Trace}

/-- The path of a step that reads a file which is valid for the slot. -/
def validatedPath? (area : VmemArea) : Step SpacebootAnswer → Option CString
  | ⟨.readFile path, some file⟩ =>
      if area.validates path file then some path else none
  | _ => none

/-- The paths that are validated for the slot, in their order. -/
def Trace.validated (trace : Trace) (area : VmemArea) : List CString :=
  trace.filterMap (validatedPath? area)

@[simp] theorem Trace.validated_append :
    Trace.validated (first ++ later) area =
      first.validated area ++ later.validated area :=
  List.filterMap_append

/-- Nothing is validated without a file that is read. -/
theorem Trace.validated_eq_nil
    (noRead : ∀ step ∈ trace, ¬ step.request.IsRead) :
    trace.validated area = [] := by
  refine List.filterMap_eq_nil_iff.mpr fun step member => ?_
  have other := noRead step member
  unfold validatedPath?
  split
  · exact (other trivial).elim
  · rfl

/-- The rows of the table all end with a NUL. -/
def BinInfo.Terminated (binf : BinInfo) : Prop :=
  ∀ index, Spaceboot.Terminated (binf.files index)

/-- The table holds the listed paths for the slot. -/
structure BinInfo.Lists
    (binf : BinInfo)
    (area : VmemArea)
    (listed : List CString) :
    Prop where
  addrMin : binf.addrMin = area.vaddr
  addrMax : binf.addrMax = area.addrMax
  count : binf.count = listed.length
  length_le : listed.length ≤ walkdirMaxEntries
  files :
    ∀ index path, listed[index]? = some path → binf.files index = rowOf path

/-- A search begins with an empty list and the rows of earlier commands. -/
theorem lists_searching :
    (binf.searching area).Lists area [] where
  addrMin := rfl
  addrMax := rfl
  count := rfl
  length_le := Nat.zero_le _
  files := by simp

/-- A path is entered behind the listed ones while there is room. -/
theorem BinInfo.Lists.enter
    (lists : binf.Lists area listed)
    (terminated : binf.Terminated)
    (fits : FitsRow path)
    (ident : BinFileIdent) :
    (binf.enter path ident).Lists area
        ((listed ++ [path]).take walkdirMaxEntries) ∧
      (binf.enter path ident).Terminated := by
  unfold BinInfo.enter
  split
  · rename_i room
    have room : (listed ++ [path]).length ≤ walkdirMaxEntries := by
      rw [List.length_append, ← lists.count]
      exact room
    rw [List.take_of_length_le room]
    have stored :
        strncpy nul walkdirMaxPathSize (binf.files binf.count) path =
          rowOf path :=
      strncpy_eq_rowOf fits (terminated binf.count)
    refine
      ⟨⟨lists.addrMin, lists.addrMax, by simp [lists.count], room, ?_⟩, ?_⟩
    · intro index other entered
      dsimp only
      by_cases isNew : index = binf.count
      · subst isNew
        rw [if_pos rfl, stored]
        rw [lists.count] at entered
        simp at entered
        rw [entered]
      · rw [if_neg isNew]
        refine lists.files index other ?_
        rw [lists.count] at isNew
        grind
    · intro index
      dsimp only
      split
      · rename_i isNew
        rw [isNew, stored]
        exact terminated_rowOf fits
      · exact terminated index
  · rename_i full
    rw [lists.count] at full
    have whole : listed.length = walkdirMaxEntries :=
      Nat.le_antisymm lists.length_le (Nat.le_of_not_lt full)
    rw [List.take_left' whole]
    exact ⟨lists, terminated⟩

theorem validated_read
    (area : VmemArea)
    (path : CString)
    (file : FileRead) :
    Trace.validated [⟨.readFile path, some file⟩] area =
      if area.validates path file then [path] else [] := by
  cases valid : area.validates path file with
  | true =>
      simp [Trace.validated, validatedPath?, valid]
  | false =>
      simp [Trace.validated, validatedPath?, valid]

/-- The validator reads a file with the extension, once. -/
theorem isValidBinary_validated
    {ident : BinFileIdent}
    {checked : Bool × BinFileIdent}
    (lists : binf.Lists area listed)
    (run : Runs (isValidBinary path binf ident) trace checked) :
    trace.validated area = if checked.1 then [path] else [] := by
  unfold isValidBinary at run
  split at run
  · obtain ⟨rfl, rfl⟩ := runs_pure_iff.mp run
    rfl
  · rename_i extension
    have extension : hasBinExtension path = true := by
      simpa using extension
    obtain ⟨_, opened, _, rfl, reads, behind⟩ := runs_bind_iff.mp run
    obtain ⟨file, rfl, rfl⟩ := runs_imageGet_iff.mp reads
    cases file with
    | none =>
        obtain ⟨rfl, rfl⟩ := runs_pure_iff.mp behind
        rfl
    | some file =>
        rw [Option.bind_some] at behind
        cases loaded : file.image? with
        | none =>
            rw [loaded] at behind
            obtain ⟨rfl, rfl⟩ := runs_pure_iff.mp behind
            rw [List.append_nil, validated_read]
            simp [VmemArea.validates, loaded]
        | some image =>
            rw [loaded] at behind
            obtain ⟨rfl, rfl⟩ := runs_pure_iff.mp behind
            rw [List.append_nil, validated_read]
            have same :=
              @isValidImage_congr binf (BinInfo.zero.searching area)
                lists.addrMin lists.addrMax image ident
                (BinInfo.zero.idents 0)
            rw [same, VmemArea.validates, extension, loaded, Bool.true_and,
              Option.any_some]

/-- A file is entered exactly when it is read and valid. -/
theorem fileCallback_cases
    (lists : binf.Lists area listed)
    (run : Runs (fileCallback path name binf) trace final) :
    (trace.validated area = [] ∧ final = binf) ∨
      (trace.validated area = [path] ∧
        ∃ ident, final = binf.enter path ident) := by
  obtain ⟨ident, _, rfl, behindIdent⟩ := runs_ask_bind_iff.mp run
  obtain ⟨checking, checked, _, rfl, checks, behind⟩ :=
    runs_bind_iff.mp behindIdent
  have validated := isValidBinary_validated lists checks
  split at behind
  · rename_i valid
    obtain ⟨rfl, rfl⟩ := runs_pure_iff.mp behind
    rw [if_pos valid] at validated
    rw [List.append_nil]
    exact .inr ⟨validated, _, rfl⟩
  · rename_i invalid
    obtain ⟨rfl, rfl⟩ := runs_pure_iff.mp behind
    rw [if_neg invalid] at validated
    rw [List.append_nil]
    exact .inl ⟨validated, rfl⟩

/-- What a search lists is a prefix of what it has validated. -/
def Enters
    (area : VmemArea)
    (trace : Trace)
    (binf final : BinInfo) :
    Prop :=
  (∀ path ∈ trace.validated area, FitsRow path) →
    binf.Terminated →
      ∀ listed,
        binf.Lists area listed →
          final.Terminated ∧
            final.Lists area
              ((listed ++ trace.validated area).take walkdirMaxEntries)

theorem enters_of_noRead
    (noRead : ∀ step ∈ trace, ¬ step.request.IsRead) :
    Enters area trace binf binf := by
  intro _ terminated listed lists
  rw [Trace.validated_eq_nil noRead, List.append_nil,
    List.take_of_length_le lists.length_le]
  exact ⟨terminated, lists⟩

theorem take_take_append
    {α : Type}
    (n : Nat)
    (items more : List α) :
    (items.take n ++ more).take n = (items ++ more).take n := by
  rw [List.take_append, List.take_append, List.take_take, Nat.min_self,
    List.length_take]
  congr 2
  omega

theorem Enters.append
    {middle : BinInfo}
    (early : Enters area first binf middle)
    (late : Enters area later middle final) :
    Enters area (first ++ later) binf final := by
  intro fits terminated listed lists
  rw [Trace.validated_append] at fits ⊢
  obtain ⟨fitsFirst, fitsLater⟩ := List.forall_mem_append.mp fits
  obtain ⟨terminatedMiddle, listsMiddle⟩ :=
    early fitsFirst terminated listed lists
  have entered := late fitsLater terminatedMiddle _ listsMiddle
  rwa [take_take_append, List.append_assoc] at entered

theorem fileCallback_enters
    (run : Runs (fileCallback path name binf) trace final) :
    Enters area trace binf final := by
  intro fits terminated listed lists
  rcases fileCallback_cases lists run with
    ⟨nothing, rfl⟩ | ⟨entered, ident, rfl⟩
  · rw [nothing, List.append_nil, List.take_of_length_le lists.length_le]
    exact ⟨terminated, lists⟩
  · rw [entered] at fits ⊢
    exact (lists.enter terminated (fits path (by simp)) ident).symm

/-- The callbacks of a search keep what it lists. -/
theorem kept_enters
    (area : VmemArea) :
    Kept surroundings callbacks (Enters area) where
  nothing _ := enters_of_noRead (by simp)
  append := Enters.append
  opendir _ run := by
    obtain rfl := runs_ask_iff.mp run
    exact enters_of_noRead (List.forall_mem_singleton.mpr id)
  lstat _ run := by
    obtain rfl := runs_ask_iff.mp run
    exact enters_of_noRead (List.forall_mem_singleton.mpr id)
  interrupted _ run := by
    obtain rfl := runs_ask_iff.mp run
    exact enters_of_noRead (List.forall_mem_singleton.mpr id)
  dirCb run := by
    obtain ⟨rfl, rfl⟩ := runs_pure_iff.mp run
    exact enters_of_noRead (by simp)
  fileCb {path name _ _ _} run :=
    @fileCallback_enters _ path name _ _ _ run

/-- The walk decides about the table, and its count about going on. -/
theorem searchFiles_cases
    {pathSize : Nat}
    {found : Bool × BinInfo}
    (run : Runs (searchFiles pathSize area binf) trace found) :
    ∃ walking interrupted path,
      trace = walking ++ [⟨.interrupted, interrupted⟩] ∧
        Runs
          (walkdir surroundings callbacks pathSize 10 ['.']
            (binf.searching area))
          walking (path, found.2) ∧
        (found.1 = true → found.2.count ≠ 0) := by
  obtain ⟨walking, walked, _, rfl, walks, behindWalk⟩ := runs_bind_iff.mp run
  obtain ⟨interrupted, _, rfl, behind⟩ := runs_ask_bind_iff.mp behindWalk
  refine ⟨walking, interrupted, walked.1, ?_⟩
  split at behind
  · obtain ⟨rfl, rfl⟩ := runs_pure_iff.mp behind
    exact ⟨rfl, walks, by simp⟩
  · split at behind
    · obtain ⟨rfl, rfl⟩ := runs_pure_iff.mp behind
      exact ⟨rfl, walks, by simp⟩
    · rename_i nonempty
      obtain ⟨rfl, rfl⟩ := runs_pure_iff.mp behind
      exact ⟨rfl, walks, fun _ => nonempty⟩

/-- A search lists the first files it has validated. -/
theorem searchFiles_lists
    {pathSize : Nat}
    {found : Bool × BinInfo}
    (terminated : binf.Terminated)
    (fits : ∀ path ∈ trace.validated area, FitsRow path)
    (run : Runs (searchFiles pathSize area binf) trace found) :
    found.2.Terminated ∧
      found.2.Lists area ((trace.validated area).take walkdirMaxEntries) := by
  obtain ⟨walking, interrupted, path, rfl, walks, _⟩ := searchFiles_cases run
  have asked : Trace.validated [⟨.interrupted, interrupted⟩] area = [] := by
    rfl
  rw [Trace.validated_append, asked, List.append_nil] at fits ⊢
  have enters := (kept_enters area).walkdir walks
  exact enters fits terminated [] lists_searching

/--
The user chooses among several files; a single one is programmed unasked.
-/
theorem chooseFile_cases
    {chosen : Except SlashResult CString}
    (lists : binf.Lists area listed)
    (fits : ∀ path ∈ listed, FitsRow path)
    (nonempty : binf.count ≠ 0)
    (run : Runs (chooseFile binf) trace chosen) :
    (∃ path, listed = [path] ∧ trace = [] ∧ chosen = .ok path) ∨
      (1 < listed.length ∧
        ∃ (typed : CString) (reading : Trace),
          trace = ⟨.slashReadline, typed⟩ :: reading ∧
            (typed = [] → chosen = .error .eusage) ∧
            ∀ index path,
              IsNumeral typed index →
                listed[index]? = some path →
                  reading = [] ∧ chosen = .ok path) := by
  have stored :
      ∀ (index : Nat) (path : CString),
        listed[index]? = some path →
          pathAt binf index = pure path := by
    intro index path entered
    obtain ⟨inList, rfl⟩ := List.getElem?_eq_some_iff.mp entered
    exact pathAt_eq_pure (inList.trans_le lists.length_le)
      (lists.files index _ entered) (fits _ (List.getElem_mem inList))
  unfold chooseFile at run
  rw [lists.count] at run nonempty
  split at run
  · rename_i several
    obtain ⟨typed, reading, rfl, behind⟩ := runs_ask_bind_iff.mp run
    refine .inr ⟨several, typed, reading, rfl, ?_, ?_⟩
    · rintro rfl
      obtain ⟨_, rfl⟩ := runs_pure_iff.mp behind
      rfl
    · intro index path numeral entered
      have inList : index < listed.length :=
        (List.getElem?_eq_some_iff.mp entered).1
      have bound : index < 2 ^ 31 :=
        (inList.trans_le lists.length_le).trans (by decide)
      rw [if_neg numeral.1, atoi_of_isNumeral numeral,
        toInt_toLong_of_lt bound, stored index path entered] at behind
      exact runs_pure_iff.mp behind
  · rename_i few
    obtain ⟨path, rfl⟩ : ∃ path, listed = [path] :=
      List.length_eq_one_iff.mp (by omega)
    have first := stored 0 path rfl
    rw [Nat.cast_zero] at first
    rw [first] at run
    obtain ⟨rfl, rfl⟩ := runs_pure_iff.mp run
    exact .inl ⟨path, rfl, rfl, rfl⟩

end Search

end Csh.Spaceboot
