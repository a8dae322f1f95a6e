import Csh.HostCompletion

namespace Csh.ParamCompletion

open Libc CommonPrefix Completion

/-!
# Completing the names of parameters

`param_completer` looks for the last word of the line and writes over it what
the parameters of the node have in common that begin with it.  What it prints
is left out, and the line is long enough for what is written.
-/

/-- A parameter, as far as the completer looks at it. -/
structure Param where
  node : UInt16
  name : CString
  plain : nul ∉ name

/--
The line of a completion: the offset of the token that slash passes, what
`optparse_parse` returns for the arguments, and the last of them.
-/
structure CompleterLine where
  buffer : List Char
  token : Nat
  argc : Nat
  argi : Option Nat
  lastArg : CString
  inside : token ≤ buffer.length

/-- Skip blanks. -/
def skipBlanks (buffer : List Char) (start : Nat) : Nat :=
  start + ((buffer.drop start).takeWhile (· == ' ')).length

/-- Where the word starts that is completed, unless the options are wrong. -/
def wordStart (line : CompleterLine) : Option Nat :=
  line.argi.map fun argi =>
    skipBlanks line.buffer <|
      if argi = line.argc then
        (stringAt line.buffer 0).length
      else if argi = 0 then
        line.token
      else
        (stringAt line.buffer 0).length - line.lastArg.length

/-- The variables of the loop; no length stands for `(size_t) -1`. -/
structure CompleterScan where
  hits : Nat
  first : CString
  prefixlen : Option Nat

/-- One turn of the loop over the parameters. -/
def CompleterScan.next
    (lib : Libslash)
    (node : UInt16)
    (token : CString)
    (scan : CompleterScan)
    (param : Param) :
    CompleterScan :=
  if node ≠ param.node then
    scan
  else if token.length > param.name.length then
    scan
  else if
      strncmpEq (min param.name.length token.length) token param.name ∧
        param.node = node then
    match scan.prefixlen with
    | none => ⟨scan.hits + 1, param.name, some param.name.length⟩
    | some prefixlen =>
        let newPrefixlen := lib.slashPrefixLength scan.first param.name
        ⟨scan.hits + 1, scan.first,
          some (if newPrefixlen < prefixlen then newPrefixlen else prefixlen)⟩
  else
    scan

/--
`param_completer`: what it leaves in the line buffer.  A word with wildcards is
only searched for.
-/
def paramCompleter
    (lib : Libslash)
    (hasWildcard : CString → Bool)
    (params : List Param)
    (node : UInt16)
    (line : CompleterLine) :
    List Char :=
  match wordStart line with
  | none => line.buffer
  | some start =>
      let token := stringAt line.buffer start
      if hasWildcard token then
        line.buffer
      else
        let scan :=
          params.foldl (CompleterScan.next lib node token) ⟨0, [], none⟩
        if scan.hits = 0 then
          line.buffer
        else
          let prefixlen := scan.prefixlen.getD 0
          storeAt (strncpyAt line.buffer start scan.first prefixlen)
            (start + prefixlen) [nul]

/-- The names of a node that begin with a word. -/
def namesBeginningWith
    (params : List Param)
    (node : UInt16)
    (word : CString) :
    List CString :=
  ((params.filter fun param => param.node = node).map Param.name).filter
    fun name => word.isPrefixOf name

section Scanning

variable {lib : Libslash}
variable {node : UInt16}
variable {token : CString}
variable {scan : CompleterScan}
variable {param : Param}
variable {params : List Param}

/-- The checks of the loop find the names that begin with the word. -/
theorem strncmpEq_token_iff
    (name : CString) :
    (¬ token.length > name.length ∧
        strncmpEq (min name.length token.length) token name = true) ↔
      token <+: name := by
  rw [strncmpEq, beq_iff_eq, not_lt]
  constructor
  · rintro ⟨short, same⟩
    rw [min_eq_right short, List.take_length] at same
    exact List.prefix_iff_eq_take.mpr same
  · intro begins
    have short := begins.length_le
    refine ⟨short, ?_⟩
    rw [min_eq_right short, List.take_length]
    exact List.prefix_iff_eq_take.mp begins

/-- What the loop knows of the names that it has found. -/
structure Scanned (seen : List CString) (scan : CompleterScan) : Prop where
  counted : scan.hits = seen.length
  fresh : seen = [] → scan.prefixlen = none
  found :
    seen ≠ [] →
      ∃ prefixlen,
        scan.prefixlen = some prefixlen ∧
          scan.first ∈ seen ∧
          prefixlen ≤ scan.first.length ∧
          IsLongestCommonPrefix (scan.first.take prefixlen) seen

/-- A name that begins with the word cuts the prefix. -/
theorem Scanned.next
    {seen : List CString}
    (documented : lib.Documented)
    (scanned : Scanned seen scan)
    (ofNode : param.node = node)
    (begins : token <+: param.name) :
    Scanned (seen ++ [param.name]) (scan.next lib node token param) := by
  obtain ⟨short, same⟩ := (strncmpEq_token_iff param.name).mpr begins
  rw [CompleterScan.next, if_neg (not_not.mpr ofNode.symm), if_neg short,
    if_pos ⟨same, ofNode⟩]
  rcases List.eq_nil_or_concat seen with rfl | ⟨front, last, shape⟩
  · rw [scanned.fresh rfl]
    refine ⟨by simp [scanned.counted], by simp, fun _ => ?_⟩
    refine ⟨_, rfl, List.mem_cons_self, Nat.le_refl _, ?_⟩
    rw [List.take_length]
    exact ⟨by simp, fun other inAll => inAll _ List.mem_cons_self⟩
  · have nonempty : seen ≠ [] := by
      rw [shape]
      simp
    obtain ⟨prefixlen, isLength, member, inside, longest⟩ :=
      scanned.found nonempty
    rw [isLength]
    refine ⟨by simp [scanned.counted], by simp, fun _ => ⟨_, rfl, ?_⟩⟩
    have extended :=
      @IsLongestCommonPrefix.concat _ _ param.name scan.first _ _ longest member
    have size : (scan.first.take prefixlen).length = prefixlen := by
      rw [List.length_take, min_eq_left inside]
    rw [size] at extended
    refine ⟨List.mem_append_left _ member, ?_, ?_⟩
    · simp only [documented.prefixLength]
      split
      · exact commonPrefix_prefix_left.length_le
      · exact inside
    · simp only [documented.prefixLength]
      split
      · rename_i shorter
        rw [if_pos shorter] at extended
        rwa [take_commonPrefix_left]
      · rename_i longEnough
        rwa [if_neg longEnough] at extended

/-- Any other parameter is passed over. -/
theorem next_of_other
    (other : ¬ (param.node = node ∧ token <+: param.name)) :
    scan.next lib node token param = scan := by
  rw [CompleterScan.next]
  split
  · rfl
  · rename_i ofNode
    split
    · rfl
    · rename_i short
      rw [if_neg]
      rintro ⟨same, _⟩
      rw [not_not] at ofNode
      exact
        other ⟨ofNode.symm, (strncmpEq_token_iff param.name).mp ⟨short, same⟩⟩

theorem scanned_foldl
    (documented : lib.Documented)
    (params : List Param)
    {seen : List CString}
    (scanned : Scanned seen scan) :
    Scanned (seen ++ namesBeginningWith params node token)
      (params.foldl (CompleterScan.next lib node token) scan) := by
  induction params generalizing seen scan with
  | nil =>
      rw [namesBeginningWith, List.filter_nil, List.map_nil, List.filter_nil,
        List.append_nil]
      exact scanned
  | cons param rest inductionHypothesis =>
      rw [List.foldl_cons]
      by_cases isHit : param.node = node ∧ token <+: param.name
      · have more :
            namesBeginningWith (param :: rest) node token =
              param.name :: namesBeginningWith rest node token := by
          simp [namesBeginningWith, isHit.1, isHit.2]
        rw [more, List.append_cons]
        exact inductionHypothesis (scanned.next documented isHit.1 isHit.2)
      · have same :
            namesBeginningWith (param :: rest) node token =
              namesBeginningWith rest node token := by
          rw [not_and_or] at isHit
          rcases isHit with apart | apart
          · simp [namesBeginningWith, apart]
          · simp only [namesBeginningWith, List.filter_cons]
            split
            · simp [apart]
            · rfl
        rw [same, next_of_other isHit]
        exact inductionHypothesis scanned

end Scanning

section Words

variable {params : List Param}
variable {node : UInt16}
variable {word front name : CString}

theorem mem_namesBeginningWith_iff :
    name ∈ namesBeginningWith params node word ↔
      (∃ param ∈ params, param.node = node ∧ param.name = name) ∧
        word <+: name := by
  simp [namesBeginningWith, and_assoc]

/-- The names that begin with a word begin with what they have in common. -/
theorem namesBeginningWith_common
    (common :
      IsLongestCommonPrefix front (namesBeginningWith params node word)) :
    word <+: front ∧
      namesBeginningWith params node front =
        namesBeginningWith params node word := by
  have begins : word <+: front :=
    common.longest word fun name member =>
      (mem_namesBeginningWith_iff.mp member).2
  refine ⟨begins, List.filter_congr fun name member => ?_⟩
  rw [Bool.eq_iff_iff, List.isPrefixOf_iff_prefix,
    List.isPrefixOf_iff_prefix]
  refine ⟨begins.trans, fun starts => common.common name ?_⟩
  exact List.mem_filter.mpr ⟨member, List.isPrefixOf_iff_prefix.mpr starts⟩

end Words

section Completer

variable {lib : Libslash}
variable {hasWildcard : CString → Bool}
variable {params : List Param}
variable {node : UInt16}
variable {line : CompleterLine}
variable {start : Nat}

theorem skipBlanks_le
    {buffer : List Char}
    (inside : start ≤ buffer.length) :
    skipBlanks buffer start ≤ buffer.length := by
  have blanks :=
    (List.takeWhile_prefix (l := buffer.drop start) (· == ' ')).length_le
  rw [List.length_drop] at blanks
  rw [skipBlanks]
  omega

/-- The word starts inside the line. -/
theorem wordStart_le
    (found : wordStart line = some start) :
    start ≤ line.buffer.length := by
  obtain ⟨argi, _, rfl⟩ := Option.map_eq_some_iff.mp found
  have text : (stringAt line.buffer 0).length ≤ line.buffer.length := by
    rw [stringAt, List.drop_zero]
    exact (List.takeWhile_prefix _).length_le
  refine skipBlanks_le ?_
  split_ifs
  · exact text
  · exact line.inside
  · exact (Nat.sub_le _ _).trans text

/-- The line behind a completion: only the word is another one. -/
theorem paramCompleter_eq
    (documented : lib.Documented)
    (found : wordStart line = some start)
    (noWildcard : hasWildcard (stringAt line.buffer start) = false)
    (several :
      namesBeginningWith params node (stringAt line.buffer start) ≠ []) :
    ∃ front behind,
      IsLongestCommonPrefix front
          (namesBeginningWith params node (stringAt line.buffer start)) ∧
        nul ∉ front ∧
        paramCompleter lib hasWildcard params node line =
          line.buffer.take start ++ (front ++ nul :: behind) := by
  have empty : Scanned [] ⟨0, [], none⟩ :=
    ⟨rfl, fun _ => rfl, fun nonempty => absurd rfl nonempty⟩
  have scanned :=
    @scanned_foldl lib node (stringAt line.buffer start) _ documented params
      [] empty
  rw [List.nil_append] at scanned
  rw [paramCompleter, found]
  simp only [noWildcard, Bool.false_eq_true, if_false]
  generalize
    params.foldl (CompleterScan.next lib node (stringAt line.buffer start))
      ⟨0, [], none⟩ = scan at scanned ⊢
  obtain ⟨prefixlen, isLength, member, inside, longest⟩ :=
    scanned.found several
  have counted : scan.hits ≠ 0 := by
    rw [scanned.counted]
    exact fun none => several (List.length_eq_zero_iff.mp none)
  obtain ⟨⟨param, _, _, isName⟩, _⟩ := mem_namesBeginningWith_iff.mp member
  have plain : nul ∉ scan.first.take prefixlen := fun inPrefix =>
    param.plain (isName ▸ List.mem_of_mem_take inPrefix)
  have size : (line.buffer.take start).length = start :=
    List.length_take_of_le (wordStart_le found)
  refine
    ⟨_, (line.buffer.drop start).drop (prefixlen + 1), longest, plain, ?_⟩
  have stored :=
    @storeAt_strncpyAt (line.buffer.take start) (line.buffer.drop start)
      scan.first prefixlen inside
  rw [List.take_append_drop, size] at stored
  rw [if_neg counted, isLength, Option.getD_some, stored]

/-- Without a name that begins with the word the line stays as it is. -/
theorem paramCompleter_of_none
    (documented : lib.Documented)
    (found : wordStart line = some start)
    (without :
      namesBeginningWith params node (stringAt line.buffer start) = []) :
    paramCompleter lib hasWildcard params node line = line.buffer := by
  have scanned :=
    @scanned_foldl lib node (stringAt line.buffer start) ⟨0, [], none⟩
      documented params []
      ⟨rfl, fun _ => rfl, fun nonempty => absurd rfl nonempty⟩
  rw [without, List.append_nil] at scanned
  rw [paramCompleter, found]
  simp only [scanned.counted, List.length_nil, if_true, ite_self]

end Completer

/--
A word is completed to the longest text that all names of the node share that
begin with it: the line in front of it stays, what is typed is kept, and to
complete the result changes nothing any more.
-/
theorem paramCompleter_completes
    {lib : Libslash}
    (documented : lib.Documented)
    (hasWildcard : CString → Bool)
    (params : List Param)
    (node : UInt16)
    {line : CompleterLine}
    {start : Nat}
    (found : wordStart line = some start)
    (noWildcard : hasWildcard (stringAt line.buffer start) = false) :
    let names := namesBeginningWith params node (stringAt line.buffer start)
    let completed := paramCompleter lib hasWildcard params node line
    (names = [] → completed = line.buffer) ∧
      (names ≠ [] →
        completed.take start = line.buffer.take start ∧
          IsLongestCommonPrefix (stringAt completed start) names ∧
          stringAt line.buffer start <+: stringAt completed start ∧
          ∀ again : CompleterLine,
            again.buffer = completed → wordStart again = some start →
              stringAt (paramCompleter lib hasWildcard params node again)
                  start =
                stringAt completed start) := by
  intro names completed
  refine ⟨paramCompleter_of_none documented found, fun several => ?_⟩
  obtain ⟨front, behind, longest, plain, shape⟩ :=
    paramCompleter_eq documented found noWildcard several
  have isCompleted :
      completed = line.buffer.take start ++ (front ++ nul :: behind) :=
    shape
  have size : (line.buffer.take start).length = start :=
    List.length_take_of_le (wordStart_le found)
  have isFront : stringAt completed start = front := by
    have read :=
      @stringAt_append (line.buffer.take start) behind front plain
    rw [size] at read
    rw [isCompleted]
    exact read
  obtain ⟨begins, sameNames⟩ := namesBeginningWith_common longest
  rw [isFront]
  refine ⟨?_, longest, begins, fun again sameLine sameStart => ?_⟩
  · rw [isCompleted, List.take_append_of_le_length size.ge, List.take_take,
      min_self]
  · have word : stringAt again.buffer start = front := by
      rw [sameLine, isFront]
    have sizeAgain : (again.buffer.take start).length = start :=
      List.length_take_of_le (wordStart_le sameStart)
    cases wild : hasWildcard front with
    | true =>
        rw [paramCompleter, sameStart]
        simp only [word, wild, if_true]
    | false =>
        obtain ⟨another, rest, alsoLongest, alsoPlain, isAgain⟩ :=
          @paramCompleter_eq lib hasWildcard params node again start
            documented sameStart
            (by rw [word, wild]) (by rwa [word, sameNames])
        rw [word, sameNames] at alsoLongest
        have read :=
          @stringAt_append (again.buffer.take start) rest another alsoPlain
        rw [sizeAgain] at read
        rw [isAgain, read]
        exact alsoLongest.unique longest

/-- The word of a line that asks for a parameter. -/
def sampleLine : CompleterLine where
  buffer := "get g".toList ++ List.replicate 10 nul
  token := 4
  argc := 1
  argi := some 0
  lastArg := []
  inside := by decide

/-- Two names of one node, and a name of another. -/
theorem paramCompleter_completes_twice :
    ∃ again : CompleterLine,
      stringAt again.buffer 4 = "gnss_l".toList ∧
        stringAt
            (paramCompleter plainLibslash (fun _ => false)
              [⟨1, "gnss_lat".toList, by decide⟩,
                ⟨2, "gain".toList, by decide⟩,
                ⟨1, "gnss_lon".toList, by decide⟩]
              1 again)
            4 =
          "gnss_l".toList := by
  let params : List Param :=
    [⟨1, "gnss_lat".toList, by decide⟩, ⟨2, "gain".toList, by decide⟩,
      ⟨1, "gnss_lon".toList, by decide⟩]
  let again : CompleterLine :=
    { sampleLine with
      buffer :=
        paramCompleter plainLibslash (fun _ => false) params 1 sampleLine
      inside := by decide }
  have once : stringAt again.buffer 4 = "gnss_l".toList := by
    decide
  have several :
      namesBeginningWith params 1 (stringAt sampleLine.buffer 4) ≠ [] := by
    decide
  obtain ⟨_, completes⟩ :=
    @paramCompleter_completes plainLibslash plainLibslash_documented
      (fun _ => false) params 1 sampleLine 4 rfl rfl
  obtain ⟨_, _, _, unchanged⟩ := completes several
  refine ⟨again, once, ?_⟩
  have sameWord : wordStart again = some 4 := by
    decide
  rw [unchanged again rfl sameWord]
  exact once

end Csh.ParamCompletion
