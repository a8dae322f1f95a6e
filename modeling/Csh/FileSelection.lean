import Csh.FileTable

namespace Csh.Spaceboot

open Libc Interaction Walkdir

/-!
# Sessions of programming commands

`bin_info` is a global that survives from one command to the next, and the line
typed at the prompt is an index into its rows without any check.  What is
programmed is nevertheless the `-f` argument or a file of the same command's
search, as long as every path fits its row and every typed line is a number of
the list.
-/

/-- The first line that the user types. -/
def Trace.firstLine? (trace : Trace) : Option CString :=
  trace.findSome? fun step =>
    match step with
    | ⟨.slashReadline, typed⟩ => some typed
    | _ => none

/-- The files that the search lists in front of the first prompt. -/
def Trace.listed (trace : Trace) (area : VmemArea) : List CString :=
  (Trace.validated (trace.takeWhile (·.request ≠ .slashReadline)) area).take
    walkdirMaxEntries

/--
The path is the `-f` argument, the only file the search has listed, or the
listed file whose number was typed.
-/
def SlotCommand.Chosen
    (command : SlotCommand)
    (before : Trace)
    (path : CString) :
    Prop :=
  match command.filename? with
  | some filename => path = filename
  | none =>
      ∃ node timeout name area,
        ⟨.vmemClientFind node timeout name, area⟩ ∈ before ∧
          (before.listed area = [path] ∨
            ∃ typed index,
              before.firstLine? = some typed ∧
                IsNumeral typed index ∧
                (before.listed area)[index]? = some path)

/-- Whatever file the command programs was chosen. -/
def SlotCommand.ProgramsChosen
    (command : SlotCommand)
    (trace : Trace) :
    Prop :=
  ∀ before path file,
    trace.ProgramsFile before path file → command.Chosen before path

/--
The inputs of a command that the table and the prompt can take: paths that fit
a row, and a line that is empty or the number of a listed file.
-/
structure SlotCommand.Selectable
    (command : SlotCommand)
    (trace : Trace) :
    Prop where
  filename : ∀ filename ∈ command.filename?, FitsRow filename
  validated :
    ∀ node timeout name area,
      ⟨.vmemClientFind node timeout name, area⟩ ∈ trace →
        ∀ path ∈ trace.validated area, FitsRow path
  typed :
    command.filename? = none →
      ∀ node timeout name area,
        ⟨.vmemClientFind node timeout name, area⟩ ∈ trace →
          1 < (trace.listed area).length →
            ∀ typed ∈ trace.firstLine?,
              typed = [] ∨
                ∃ index < (trace.listed area).length, IsNumeral typed index

/-- The commands run so far, with their traces, and the `bin_info` they left. -/
inductive Session
    (settings : Settings) :
    List (SlotCommand × Trace) → BinInfo → Prop where
  | start :
      Session settings [] BinInfo.zero
  | command
      {history : List (SlotCommand × Trace)}
      {binf : BinInfo}
      {next : SlotCommand}
      {trace : Trace}
      {value : SlashResult × BinInfo}
      (session : Session settings history binf)
      (run : Runs (next.run settings binf) trace value) :
      Session settings (history ++ [(next, trace)]) value.2

section Selection

variable {area : VmemArea}
variable {pathSize : Nat}
variable {binf final : BinInfo}
variable {selection : Trace}
variable {chosen : Except SlashResult CString}

/-- A selection by a search, and the choice from what it has listed. -/
theorem exists_search_of_runs_selectFile
    (run :
      Runs (selectFile pathSize none area binf) selection (chosen, final)) :
    ∃ searching choosing found,
      selection = searching ++ choosing ∧
        Runs (searchFiles pathSize area binf) searching (found, final) ∧
        (found = true → Runs (chooseFile final) choosing chosen) ∧
        (found = false → choosing = [] ∧ chosen = .error .einval) := by
  obtain ⟨searching, listed, choosing, rfl, searches, behind⟩ :=
    runs_bind_iff.mp run
  obtain ⟨found, walked⟩ := listed
  refine ⟨searching, choosing, found, rfl, ?_⟩
  cases found with
  | true =>
      obtain ⟨choosing, choice, _, rfl, chooses, done⟩ :=
        runs_bind_iff.mp behind
      obtain ⟨rfl, same⟩ := runs_pure_iff.mp done
      cases same
      rw [List.append_nil]
      exact ⟨searches, fun _ => chooses, by simp⟩
  | false =>
      obtain ⟨rfl, same⟩ := runs_pure_iff.mp behind
      cases same
      exact ⟨searches, by simp, fun _ => ⟨rfl, rfl⟩⟩

/-- A selection leaves every row with its NUL. -/
theorem terminated_of_runs_selectFile
    {filename? : Option CString}
    (terminated : binf.Terminated)
    (fitsFilename : ∀ filename ∈ filename?, FitsRow filename)
    (fits : ∀ path ∈ selection.validated area, FitsRow path)
    (run :
      Runs (selectFile pathSize filename? area binf) selection
        (chosen, final)) :
    final.Terminated := by
  cases filename? with
  | some filename =>
      have fitsFilename := fitsFilename filename rfl
      rw [selectFile_filename fitsFilename (terminated 0)] at run
      obtain ⟨_, same⟩ := runs_pure_iff.mp run
      cases same
      intro index
      simp only [BinInfo.enterFilename]
      split
      · rw [strncpy_pred_eq_rowOf fitsFilename (terminated 0)]
        exact terminated_rowOf fitsFilename
      · exact terminated index
  | none =>
      obtain ⟨searching, choosing, found, rfl, searches, _⟩ :=
        exists_search_of_runs_selectFile run
      rw [Trace.validated_append] at fits
      have fitsSearch :=
        (List.forall_mem_append.mp fits).1
      exact (searchFiles_lists terminated fitsSearch searches).1

end Selection

section Prompt

variable {area : VmemArea}
variable {quiet contacting later : Trace}
variable {typed : CString}

/-- Nobody types a line. -/
def Trace.Silent (trace : Trace) : Prop :=
  ∀ step ∈ trace, step.request ≠ .slashReadline

theorem listed_append_plain
    (silent : quiet.Silent)
    (plain : later.Plain) :
    Trace.listed (quiet ++ later) area =
      (quiet.validated area).take walkdirMaxEntries := by
  have whole :
      ∀ step ∈ quiet, decide (step.request ≠ .slashReadline) = true :=
    fun step member => decide_eq_true (silent step member)
  have noRead :
      ∀ step ∈ later.takeWhile (·.request ≠ .slashReadline),
        ¬ step.request.IsRead :=
    fun step member =>
      (plain step (List.takeWhile_subset _ member)).2.1
  rw [Trace.listed, List.takeWhile_append_of_pos whole,
    Trace.validated_append, Trace.validated_eq_nil noRead, List.append_nil]

/-- What is listed in front of a prompt does not depend on what follows. -/
theorem listed_append_prompt
    (silent : quiet.Silent) :
    Trace.listed (quiet ++ ⟨.slashReadline, typed⟩ :: later) area =
      (quiet.validated area).take walkdirMaxEntries := by
  have whole :
      ∀ step ∈ quiet, decide (step.request ≠ .slashReadline) = true :=
    fun step member => decide_eq_true (silent step member)
  rw [Trace.listed, List.takeWhile_append_of_pos whole,
    List.takeWhile_cons_of_neg (by simp), List.append_nil]

theorem firstLine?_append_prompt
    (silent : quiet.Silent) :
    Trace.firstLine? (quiet ++ ⟨.slashReadline, typed⟩ :: later) =
      some typed := by
  have none : Trace.firstLine? quiet = Option.none := by
    refine List.findSome?_eq_none_iff.mpr fun step member => ?_
    have other := silent step member
    split
    · exact (other rfl).elim
    · rfl
  rw [Trace.firstLine?, List.findSome?_append]
  rw [Trace.firstLine?] at none
  rw [none]
  rfl

end Prompt

section Sessions

variable {settings : Settings}
variable {command : SlotCommand}
variable {binf final : BinInfo}
variable {trace : Trace}

theorem mem_validated_of_subset
    {area : VmemArea}
    {part : Trace}
    {path : CString}
    (subset : part ⊆ trace)
    (member : path ∈ part.validated area) :
    path ∈ trace.validated area := by
  obtain ⟨step, inPart, validated⟩ := List.mem_filterMap.mp member
  exact List.mem_filterMap.mpr ⟨step, subset inPart, validated⟩

/-- The search of a selection chooses one of the files it has listed. -/
theorem chosen_of_search
    {area : VmemArea}
    {pathSize : Nat}
    {searching choosing : Trace}
    {path : CString}
    (terminated : binf.Terminated)
    (fits : ∀ path ∈ searching.validated area, FitsRow path)
    (searches :
      Runs (searchFiles pathSize area binf) searching (true, final))
    (chooses : Runs (chooseFile final) choosing (.ok path)) :
    let listed := (searching.validated area).take walkdirMaxEntries
    (listed = [path] ∧ choosing = []) ∨
      (1 < listed.length ∧
        ∃ typed reading,
          choosing = ⟨.slashReadline, typed⟩ :: reading ∧
            typed ≠ [] ∧
            ∀ index < listed.length,
              IsNumeral typed index →
                reading = [] ∧ listed[index]? = some path) := by
  intro listed
  obtain ⟨_, _, _, _, _, nonempty⟩ := searchFiles_cases searches
  have lists := (searchFiles_lists terminated fits searches).2
  have fitsListed : ∀ path ∈ listed, FitsRow path :=
    fun path member => fits path (List.mem_of_mem_take member)
  rcases chooseFile_cases lists fitsListed (nonempty rfl) chooses with
    ⟨only, single, rfl, same⟩ | ⟨several, typed, reading, rfl, empty, number⟩
  · cases same
    exact .inl ⟨single, rfl⟩
  · refine .inr ⟨several, typed, reading, rfl, ?_, ?_⟩
    · intro isEmpty
      simpa using empty isEmpty
    · intro index inList numeral
      have entered := List.getElem?_eq_getElem inList
      obtain ⟨done, same⟩ := number index _ numeral entered
      cases same
      exact ⟨done, entered⟩

/-- What comes in front of a prompt, when a search is made. -/
theorem silent_of_search
    {opening searching : Trace}
    {node timeout pathSize : Nat}
    {name : CString}
    {area : VmemArea}
    {found : Bool × BinInfo}
    (apart : opening.Aside)
    (searches : Runs (searchFiles pathSize area binf) searching found) :
    Trace.Silent
        (opening ++ ⟨.vmemClientFind node timeout name, area⟩ :: searching) ∧
      Trace.validated
          (opening ++ ⟨.vmemClientFind node timeout name, area⟩ :: searching)
          area =
        searching.validated area := by
  constructor
  · simp only [Trace.Silent, List.forall_mem_append, List.forall_mem_cons]
    refine ⟨fun step member isPrompt => ?_, by simp,
      fun step member isPrompt => ?_⟩
    · have aside := apart step member
      rw [isPrompt] at aside
      exact aside.2.1 rfl
    · have isSearch := calls_searchFiles _ _ _ _ _ searches step member
      rw [isPrompt] at isSearch
      exact isSearch
  · have nothing : opening.validated area = [] :=
      Trace.validated_eq_nil fun step member => (apart.plain step member).2.1
    rw [Trace.validated_append, nothing, List.nil_append]
    rfl

/-- A command with such inputs programs a chosen file. -/
theorem SlotCommand.Uploads.programsChosen
    (terminated : binf.Terminated)
    (selectable : command.Selectable trace)
    (uploads : command.Uploads binf trace final) :
    command.ProgramsChosen trace := by
  obtain @⟨opening, selection, contacting, rest, node, timeout, pathSize,
    name, path, area, file, image, count, final, apart, size, selected,
    contacts, read, plain⟩ := uploads
  intro before otherPath otherFile programs
  obtain ⟨rfl, rfl, rfl⟩ :=
    (@programsFile_iff _ path file
      ⟨.vmemUpload node 10000 (toInt area.vaddr) image.data, count⟩ rest
      before otherPath otherFile trivial
      (List.forall_mem_cons.mpr
        ⟨id, fun step late => (plain step late).2.1⟩)).mp programs
  cases given : command.filename? with
  | some filename =>
      have fits := selectable.filename filename given
      rw [given, selectFile_filename fits (terminated 0)] at selected
      obtain ⟨_, same⟩ := runs_pure_iff.mp selected
      cases same
      simp [SlotCommand.Chosen, given]
  | none =>
      rw [given] at selected
      obtain ⟨searching, choosing, found, rfl, searches, going, stopping⟩ :=
        exists_search_of_runs_selectFile selected
      cases found with
      | false =>
          simpa using (stopping rfl).2
      | true =>
          have fits :
              ∀ path ∈ searching.validated area, FitsRow path := by
            intro listed member
            refine selectable.validated node timeout name area (by simp)
              listed (mem_validated_of_subset ?_ member)
            intro step inSearch
            simp [inSearch]
          obtain ⟨silent, validated⟩ :=
            @silent_of_search _ opening searching node timeout pathSize name
              area _ apart searches
          unfold SlotCommand.Chosen
          rw [given]
          refine ⟨node, timeout, name, area, by simp, ?_⟩
          rcases chosen_of_search terminated fits searches (going rfl) with
            ⟨single, rfl⟩ |
              ⟨several, typed, reading, rfl, nonempty, number⟩
          · refine .inl ?_
            rw [List.append_nil, ← List.cons_append, ← List.append_assoc,
              listed_append_plain silent contacts, validated]
            exact single
          · have asked :
                ∀ later : Trace,
                  opening ++
                        ⟨.vmemClientFind node timeout name, area⟩ ::
                          (searching ++
                              ⟨.slashReadline, typed⟩ :: reading ++
                            contacting) ++
                      later =
                    opening ++
                        ⟨.vmemClientFind node timeout name, area⟩ ::
                          searching ++
                      ⟨.slashReadline, typed⟩ ::
                        (reading ++ (contacting ++ later)) := by
              intro later
              simp
            have inputs :=
              selectable.typed given node timeout name area (by simp)
            rw [asked, listed_append_prompt silent, validated,
              firstLine?_append_prompt silent] at inputs
            obtain ⟨index, inList, numeral⟩ :=
              (inputs several typed rfl).resolve_left nonempty
            refine .inr ⟨typed, index, ?_, numeral, ?_⟩
            · rw [← List.append_nil (opening ++ _), asked,
                firstLine?_append_prompt silent]
            · rw [← List.append_nil (opening ++ _), asked,
                listed_append_prompt silent, validated]
              exact (number index inList numeral).2

/-- One command keeps the NULs of the rows and programs a chosen file. -/
theorem programsChosen_of_runs
    {value : SlashResult × BinInfo}
    (terminated : binf.Terminated)
    (selectable : command.Selectable trace)
    (run : Runs (command.run settings binf) trace value) :
    command.ProgramsChosen trace ∧ value.2.Terminated := by
  rcases command.uploads_or_selects_of_runs run with
    ⟨none, same | ⟨opening, selection, rest, node, timeout, pathSize, name,
      area, chosen, rfl, _, selects⟩⟩ | uploads
  · rw [same]
    refine ⟨fun before path file programs => ?_, terminated⟩
    exact (not_programsFile_of_noUpload none programs).elim
  · refine ⟨fun before path file programs => ?_, ?_⟩
    · exact (not_programsFile_of_noUpload none programs).elim
    · refine terminated_of_runs_selectFile terminated selectable.filename
        (fun path member => ?_) selects
      refine selectable.validated node timeout name area (by simp) path
        (mem_validated_of_subset ?_ member)
      intro step inSelection
      simp [inSelection]
  · refine ⟨uploads.programsChosen terminated selectable, ?_⟩
    obtain @⟨opening, selection, contacting, rest, node, timeout, pathSize,
      name, path, area, file, image, count, final, apart, size, selected,
      contacts, read, plain⟩ := uploads
    refine terminated_of_runs_selectFile terminated selectable.filename
      (fun path member => ?_) selected
    refine selectable.validated node timeout name area (by simp) path
      (mem_validated_of_subset ?_ member)
    intro step inSelection
    simp [inSelection]

/-- The rows end with a NUL whatever was run, and every file was chosen. -/
theorem Session.terminated_and_chosen
    {history : List (SlotCommand × Trace)}
    (session : Session settings history binf)
    (selectable : ∀ entry ∈ history, entry.1.Selectable entry.2) :
    binf.Terminated ∧
      ∀ entry ∈ history, entry.1.ProgramsChosen entry.2 := by
  induction session with
  | start =>
      exact ⟨terminated_zero, by simp⟩
  | command session run inductionHypothesis =>
      rename_i history binf next trace value
      obtain ⟨earlier, latest⟩ := List.forall_mem_append.mp selectable
      obtain ⟨terminated, chosen⟩ := inductionHypothesis earlier
      obtain ⟨nextChosen, nextTerminated⟩ :=
        programsChosen_of_runs terminated
          (latest (next, trace) (by simp)) run
      refine ⟨nextTerminated, List.forall_mem_append.mpr ⟨chosen, ?_⟩⟩
      simpa using nextChosen

/--
In every session of commands whose paths fit their rows and whose typed lines
are empty or numbers of the list, every programmed file was chosen in its own
command.
-/
theorem session_programs_chosen
    {history : List (SlotCommand × Trace)}
    (session : Session settings history binf)
    (selectable : ∀ entry ∈ history, entry.1.Selectable entry.2) :
    ∀ entry ∈ history, entry.1.ProgramsChosen entry.2 :=
  (session.terminated_and_chosen selectable).2

/-- `program -F` with a slot, which searches. -/
def searchCommand (slot : CString) : SlotCommand :=
  .program (some (⟨1, none, true, false⟩, [slot]))

/-- A file of eight bytes with its entry address at the first offset. -/
def withEntry (entry : UInt8) : FileRead :=
  ⟨8, [0, 0, 0, 0, 0, entry, 0, 0], fun _ => 0, [], by simp⟩

/-- What the search does with a file. -/
def visitedFile (path : CString) (file : FileRead) : Trace :=
  [⟨.lstat path, FileKind.regular⟩,
    ⟨.uninitialisedIdent, BinInfo.zero.idents 0⟩,
    ⟨.readFile path, some file⟩,
    ⟨.interrupted, false⟩]

/-- The path of `a.bin` and its like. -/
def binPath (letter : Char) : CString :=
  ['.', '/', letter, '.', 'b', 'i', 'n']

/--
A search of three files, of which the first two enter at 0x2000 and the third
at 0x1000, and the line that is typed behind it.
-/
def promptTrace (name : CString) (area : VmemArea) (typed : CString) : Trace :=
  [⟨.vmemClientFind 1 1000 name, area⟩,
      ⟨.opendir ['.'],
        Listing.entries (['a', 'b', 'c'].map fun c => (binPath c).drop 2)⟩] ++
    visitedFile (binPath 'a') (withEntry 0x20) ++
      visitedFile (binPath 'b') (withEntry 0x20) ++
        visitedFile (binPath 'c') (withEntry 0x10) ++
          [⟨.interrupted, false⟩, ⟨.slashReadline, typed⟩]

/-- The programming of a file, up to its verification. -/
def transferTrace (area : VmemArea) (path : CString) (file : FileRead) :
    Trace :=
  [⟨.cspCmpIdent 1, (0 : Int)⟩,
    ⟨.readFile path, some file⟩,
    ⟨.vmemUpload 1 10000 (toInt area.vaddr) file.data,
      (file.data.length : Int)⟩,
    ⟨.malloc file.data.length, ⟨file.data, rfl⟩⟩,
    ⟨.vmemDownload 1 10000 (toInt area.vaddr) file.data.length,
      ⟨file.data.length, file.data, Nat.le_refl _, .inl rfl⟩⟩,
    ⟨.cspRdpSetOpt deliveredSettings.rdpDfl, ()⟩]

/-- The slot from 0x1000 to 0x3000, where all three files enter. -/
def wideSlot : VmemArea :=
  ⟨0x1000, 0x2000, by decide, by decide⟩

/-- The slot from 0x2000 to 0x4000, where the third file does not enter. -/
def highSlot : VmemArea :=
  ⟨0x2000, 0x2000, by decide, by decide⟩

/-- `bin_info` behind a search that enters the files with these letters. -/
def searchedFrom
    (binf : BinInfo)
    (area : VmemArea)
    (letters : List Char) :
    BinInfo :=
  letters.foldl (fun binf c => binf.enter (binPath c) (BinInfo.zero.idents 0))
    (binf.searching area)

/-- The user types the number of the second file. -/
theorem runs_program_listed_file :
    Runs ((searchCommand ['0']).run deliveredSettings BinInfo.zero)
      (promptTrace ['f', 'l', '0'] wideSlot ['1'] ++
        transferTrace wideSlot (binPath 'b') (withEntry 0x20))
      (.success, searchedFrom BinInfo.zero wideSlot ['a', 'b', 'c']) := by
  unfold promptTrace transferTrace visitedFile
  iterate 22 (refine Runs.call _ ?_)
  exact .done _

/-- The command programs the second file of its search. -/
theorem program_chooses_listed_file :
    (searchCommand ['0']).ProgramsChosen
      (promptTrace ['f', 'l', '0'] wideSlot ['1'] ++
        transferTrace wideSlot (binPath 'b') (withEntry 0x20)) := by
  refine session_programs_chosen (.command .start runs_program_listed_file)
    (List.forall_mem_singleton.mpr ?_) (_, _) (List.mem_singleton_self _)
  have onlyArea :
      ∀ (node timeout : Nat) (name : CString) (area : VmemArea),
        ⟨.vmemClientFind node timeout name, area⟩ ∈
            promptTrace ['f', 'l', '0'] wideSlot ['1'] ++
              transferTrace wideSlot (binPath 'b') (withEntry 0x20) →
          area = wideSlot := by
    intro node timeout name area found
    have same :
        (node = 1 ∧ timeout = 1000 ∧ name = ['f', 'l', '0']) ∧
          area = wideSlot := by
      simpa [promptTrace, visitedFile, transferTrace] using found
    exact same.2
  refine ⟨by simp [searchCommand, SlotCommand.filename?], ?_, ?_⟩
  · intro node timeout name area found
    rw [onlyArea node timeout name area found]
    decide
  · intro _ node timeout name area found _ typed line
    rw [onlyArea node timeout name area found]
    obtain rfl : ['1'] = typed :=
      Option.some.inj line
    exact
      .inr
        ⟨1, by decide, by decide, List.all_eq_true.mp rfl, by decide⟩

/-- The user aborts, and the table keeps what was listed. -/
theorem runs_program_aborted :
    Runs ((searchCommand ['0']).run deliveredSettings BinInfo.zero)
      (promptTrace ['f', 'l', '0'] wideSlot [] ++
        [⟨.cspRdpSetOpt deliveredSettings.rdpDfl, ()⟩])
      (.eusage, searchedFrom BinInfo.zero wideSlot ['a', 'b', 'c']) := by
  unfold promptTrace visitedFile
  iterate 17 (refine Runs.call _ ?_)
  exact .done _

/-- The next search lists two files, and the user types the number 2. -/
theorem runs_program_stale_file :
    Runs
      ((searchCommand ['1']).run deliveredSettings
        (searchedFrom BinInfo.zero wideSlot ['a', 'b', 'c']))
      (promptTrace ['f', 'l', '1'] highSlot ['2'] ++
        transferTrace highSlot (binPath 'c') (withEntry 0x10))
      (.success,
        searchedFrom (searchedFrom BinInfo.zero wideSlot ['a', 'b', 'c'])
          highSlot ['a', 'b']) := by
  unfold promptTrace transferTrace visitedFile
  iterate 22 (refine Runs.call _ ?_)
  exact .done _

/-- The third row still holds a file that is not valid for the second slot. -/
theorem program_takes_stale_file :
    ¬ ∀ (settings : Settings) (history : List (SlotCommand × Trace))
      (binf : BinInfo),
      Session settings history binf →
        ∀ entry ∈ history, entry.1.ProgramsChosen entry.2 := by
  intro programsChosen
  have session :=
    Session.command (.command .start runs_program_aborted)
      runs_program_stale_file
  have chosen :=
    programsChosen _ _ _ session (_, _)
      (List.mem_append_right _ (List.mem_singleton_self _))
      (promptTrace ['f', 'l', '1'] highSlot ['2'] ++
        [⟨.cspCmpIdent 1, (0 : Int)⟩])
      (binPath 'c') (withEntry 0x10)
      ⟨_, by simp [transferTrace]; rfl, by simp [SpacebootCall.IsUpload],
        by simp [SpacebootCall.IsRead]⟩
  obtain ⟨node, timeout, name, area, found, listed⟩ := chosen
  obtain ⟨_, rfl⟩ :
      (node = 1 ∧ timeout = 1000 ∧ name = ['f', 'l', '1']) ∧
        area = highSlot := by
    simpa [promptTrace, visitedFile] using found
  have files :
      Trace.listed
          (promptTrace ['f', 'l', '1'] highSlot ['2'] ++
            [⟨.cspCmpIdent 1, (0 : Int)⟩])
          highSlot =
        [binPath 'a', binPath 'b'] := by
    decide
  rw [files] at listed
  rcases listed with single | ⟨typed, index, line, numeral, entered⟩
  · simp at single
  · obtain rfl : ['2'] = typed :=
      Option.some.inj line
    obtain ⟨_, _, rfl⟩ := numeral
    revert entered
    decide

end Sessions

end Csh.Spaceboot
