import Csh.KnownHosts
import Csh.Lib.CommonPrefix
import Csh.Slash
import Mathlib.Algebra.Order.Ring.Int

namespace Csh.Completion

open Libc KnownHosts CommonPrefix

/-!
# Completing the names of hosts

`host_name_completer` goes back from the end of the token to a blank.  It
copies the matching entries of the table to a new list, in reverse, and looks
at neighbours for the prefix that they share.  Of what it prints only the names
matter, each of which is the format of a `slash_printf`.  Allocation succeeds.
-/

/-- `INT_MAX`. -/
def intMax : Nat :=
  2 ^ 31 - 1

/-- A format that is defined without arguments: every conversion is `%%`. -/
def plainFormat : CString → Bool
  | [] => true
  | '%' :: '%' :: rest => plainFormat rest
  | '%' :: _ => false
  | _ :: rest => plainFormat rest

/--
What the completers call of libslash: the prefix length of two strings, and
whether `slash_printf` is defined for a format without arguments.
-/
structure Libslash where
  slashPrefixLength : CString → CString → Nat
  slashPrintfDefined : CString → Bool

/-- libslash as documented; `slash_printf` takes the formats of `printf`. -/
structure Libslash.Documented (lib : Libslash) : Prop where
  prefixLength :
    ∀ first second,
      lib.slashPrefixLength first second = (commonPrefix first second).length
  printfDefined : ∀ format, lib.slashPrintfDefined format = plainFormat format

/-- The rewinding loop, from an offset behind the token. -/
def rewind (buffer : List Char) (token : Nat) : Nat → Nat
  | 0 => token
  | offset + 1 =>
      if buffer[token + (offset + 1)]? = some ' ' then
        token + (offset + 1) + 1
      else
        rewind buffer token offset

/-- The names of the matching hosts, each put in front of those before it. -/
def matchingHosts (part : CString) (knownHosts : List Host) : List CString :=
  let tokenL := (part.take (hostnameMaxlen - 1)).length
  knownHosts.foldl
    (fun matching element =>
      if strncmpEq tokenL element.name part then
        element.name :: matching
      else
        matching)
    []

/-- What the loop over the copies keeps. -/
structure PrefixScan where
  prevCompletion : Option CString
  completion : CString
  prefixLen : Nat

/-- One turn of that loop. -/
def PrefixScan.next
    (lib : Libslash)
    (scan : PrefixScan)
    (cur : CString) :
    PrefixScan :=
  match scan.prevCompletion with
  | none => { scan with prevCompletion := some cur }
  | some prev =>
      let curPrefix := lib.slashPrefixLength prev cur
      if curPrefix < scan.prefixLen then
        ⟨some cur, cur, curPrefix⟩
      else
        { scan with prevCompletion := some cur }

/--
`host_name_completer`, for the token at an offset of the buffer; `none` where a
name that is printed is not defined as a format.
-/
def hostNameCompleter
    (lib : Libslash)
    (knownHosts : List Host)
    (token : Nat)
    (slash : SlashLine) :
    Option SlashLine :=
  let length := min (stringAt slash.buffer token).length slash.length
  let partToComplete := rewind slash.buffer token length
  let part := stringAt slash.buffer partToComplete
  let matching := matchingHosts part knownHosts
  let scan :=
    matching.foldl (PrefixScan.next lib) ⟨none, matching.headD [], intMax⟩
  if 1 < matching.length ∧ matching.all lib.slashPrintfDefined = false then
    none
  else if matching.length = 1 then
    SlashLine.refreshed
      (strcat (storeAt slash.buffer partToComplete [nul]) scan.completion)
  else if 1 < matching.length then
    if slash.buffer[slash.length - 1]? ≠ some ' ' ∧
        part.length < scan.prefixLen then
      let start := slash.length - part.length
      SlashLine.refreshed
        (storeAt (strncpyAt slash.buffer start scan.completion scan.prefixLen)
          (start + scan.prefixLen) [nul])
    else
      slash
  else
    slash

section Matching

variable {part : CString}
variable {knownHosts : List Host}

/-- The names of the table that begin with a word. -/
def hostsBeginningWith (word : CString) (knownHosts : List Host) :
    List CString :=
  (knownHosts.map Host.name).filter fun name => word.isPrefixOf name

/-- `strncmp` over the length of the part finds what begins with it. -/
theorem strncmpEq_iff_isPrefixOf
    (name : CString) :
    strncmpEq (part.take (hostnameMaxlen - 1)).length name part =
      (part.take (hostnameMaxlen - 1)).isPrefixOf name := by
  have whole :
      part.take (part.take (hostnameMaxlen - 1)).length =
        part.take (hostnameMaxlen - 1) :=
    (List.prefix_iff_eq_take.mp (List.take_prefix _ part)).symm
  rw [strncmpEq, whole, Bool.eq_iff_iff, beq_iff_eq,
    List.isPrefixOf_iff_prefix, List.prefix_iff_eq_take]
  exact eq_comm

/-- Of a part only the first 49 characters are looked at. -/
theorem matchingHosts_eq_reverse :
    matchingHosts part knownHosts =
      (hostsBeginningWith (part.take (hostnameMaxlen - 1))
        knownHosts).reverse := by
  have collects :
      ∀ found : List CString,
        knownHosts.foldl
            (fun matching element =>
              if strncmpEq (part.take (hostnameMaxlen - 1)).length
                  element.name part then
                element.name :: matching
              else
                matching)
            found =
          (hostsBeginningWith (part.take (hostnameMaxlen - 1))
            knownHosts).reverse ++ found := by
    induction knownHosts with
    | nil =>
        intro found
        rfl
    | cons element rest inductionHypothesis =>
        intro found
        rw [List.foldl_cons, inductionHypothesis, strncmpEq_iff_isPrefixOf,
          hostsBeginningWith, hostsBeginningWith, List.map_cons]
        by_cases isMatch :
            (part.take (hostnameMaxlen - 1)).isPrefixOf element.name = true
        · rw [if_pos isMatch, List.filter_cons_of_pos isMatch,
            List.reverse_cons, List.append_assoc, List.singleton_append]
        · rw [if_neg isMatch, List.filter_cons_of_neg isMatch]
  rw [matchingHosts, collects [], List.append_nil]

end Matching

section Scanning

variable {lib : Libslash}
variable {matching : List CString}
variable {scan : PrefixScan}
variable {first cur : CString}

/--
What the loop knows of the names it has seen: the last of them, and from the
second on the prefix that is common to all, as the start of one.
-/
structure Scanned
    (seen : List CString)
    (scan : PrefixScan) :
    Prop where
  last : scan.prevCompletion = seen.getLast?
  one : seen.length = 1 → scan.prefixLen = intMax
  inside : 2 ≤ seen.length → scan.prefixLen ≤ scan.completion.length
  longest :
    2 ≤ seen.length →
      IsLongestCommonPrefix (scan.completion.take scan.prefixLen) seen

/-- One more name, behind at least one. -/
theorem Scanned.next
    {seen : List CString}
    (documented : lib.Documented)
    (scanned : Scanned seen scan)
    (nonempty : seen ≠ [])
    (short : cur.length < intMax) :
    Scanned (seen ++ [cur]) (scan.next lib cur) := by
  obtain ⟨prev, isPrev⟩ : ∃ prev, seen.getLast? = some prev :=
    ⟨_, List.getLast?_eq_some_getLast nonempty⟩
  have prevMember : prev ∈ seen := List.mem_of_getLast? isPrev
  have both := @commonPrefix_prefix_right _ _ prev cur
  have some : 1 ≤ seen.length := List.length_pos_iff.mpr nonempty
  rw [PrefixScan.next, scanned.last, isPrev]
  dsimp only
  rw [documented.prefixLength]
  rcases Nat.lt_or_ge seen.length 2 with one | several
  · obtain ⟨only, rfl⟩ := List.length_eq_one_iff.mp (by omega : seen.length = 1)
    obtain rfl : only = prev := by simpa using isPrev
    rw [scanned.one rfl, if_pos]
    · refine ⟨by simp, by simp, fun _ => both.length_le, fun _ => ?_⟩
      rw [take_commonPrefix_right]
      refine isLongestCommonPrefix_of_two (by simp) (by simp) ?_
      simp only [List.singleton_append, List.mem_cons, List.not_mem_nil,
        or_false, forall_eq_or_imp, forall_eq]
      exact ⟨commonPrefix_prefix_left, both⟩
    · exact Nat.lt_of_le_of_lt both.length_le short
  · have extended :=
      @IsLongestCommonPrefix.concat _ _ cur _ _ _ (scanned.longest several)
        prevMember
    have size :
        (scan.completion.take scan.prefixLen).length = scan.prefixLen := by
      rw [List.length_take, min_eq_left (scanned.inside several)]
    rw [size] at extended
    split
    · rename_i shorter
      rw [if_pos shorter] at extended
      refine
        ⟨by simp, fun isOne => ?_, fun _ => both.length_le, fun _ => ?_⟩
      · rw [List.length_append, List.length_singleton] at isOne
        omega
      · rwa [take_commonPrefix_right]
    · rename_i longEnough
      rw [if_neg longEnough] at extended
      refine
        ⟨by simp, fun isOne => ?_, fun _ => scanned.inside several,
          fun _ => extended⟩
      rw [List.length_append, List.length_singleton] at isOne
      omega

/-- The loop finds the prefix that all names share. -/
theorem scanned_foldl
    (documented : lib.Documented)
    (nonempty : matching ≠ [])
    (short : ∀ name ∈ matching, name.length < intMax) :
    Scanned matching
      (matching.foldl (PrefixScan.next lib) ⟨none, first, intMax⟩) := by
  induction matching using List.reverseRecOn with
  | nil =>
      exact absurd rfl nonempty
  | append_singleton seen cur inductionHypothesis =>
      rw [List.foldl_concat]
      cases seen with
      | nil =>
          exact ⟨rfl, fun _ => rfl, by simp, by simp⟩
      | cons name rest =>
          have scanned :=
            inductionHypothesis (by simp) fun other member =>
              short other (List.mem_append_left _ member)
          exact scanned.next documented (by simp) (short cur (by simp))

/-- The scan of several names ends with what all of them have in common. -/
theorem scan_of_several
    {names : List CString}
    (documented : lib.Documented)
    (several : 2 ≤ names.length)
    (short : ∀ name ∈ names, name.length < intMax)
    {first : CString}
    {scan : PrefixScan}
    (scans :
      names.reverse.foldl (PrefixScan.next lib) ⟨none, first, intMax⟩ =
        scan) :
    scan.completion.take scan.prefixLen = commonPrefixOf names ∧
      scan.prefixLen = (commonPrefixOf names).length ∧
      scan.prefixLen ≤ scan.completion.length := by
  have nonempty : names ≠ [] := by
    rintro rfl
    exact absurd several (by decide)
  have scanned :=
    @scanned_foldl lib names.reverse first documented
      (by simpa using nonempty)
      fun name member => short name (List.mem_reverse.mp member)
  rw [scans] at scanned
  have severalReversed : 2 ≤ names.reverse.length := by
    rwa [List.length_reverse]
  have inside := scanned.inside severalReversed
  have isCommon :
      scan.completion.take scan.prefixLen = commonPrefixOf names :=
    (scanned.longest severalReversed).of_reverse.unique
      (isLongestCommonPrefix_commonPrefixOf nonempty)
  refine ⟨isCommon, ?_, inside⟩
  rw [← isCommon, List.length_take, min_eq_left inside]

end Scanning

/-- What a word is completed to, by the names that begin with it. -/
def completion (word : CString) : List CString → CString
  | [] => word
  | [name] => name
  | first :: second :: rest =>
      if word.length < (commonPrefixOf (first :: second :: rest)).length then
        commonPrefixOf (first :: second :: rest)
      else
        word

/-- Several names are printed, and each has to be defined as a format. -/
def Printable (names : List CString) : Prop :=
  1 < names.length → ∀ name ∈ names, plainFormat name = true

instance (names : List CString) : Decidable (Printable names) :=
  inferInstanceAs
    (Decidable (1 < names.length → ∀ name ∈ names, plainFormat name = true))

section Completing

variable {lib : Libslash}
variable {knownHosts : List Host}
variable {before part stale : CString}
variable {token : Nat}
variable {slash : SlashLine}

/-- The line does not end with a blank. -/
theorem lastCell_ne_blank
    (shape : slash.buffer = before ++ (part ++ nul :: stale))
    (whole : slash.length = before.length + part.length)
    (nonempty : part ≠ [])
    (noBlank : part.getLast? ≠ some ' ') :
    slash.buffer[slash.length - 1]? ≠ some ' ' := by
  have positive : 1 ≤ part.length := List.length_pos_iff.mpr nonempty
  rw [shape, whole, List.getElem?_append_right (by omega),
    List.getElem?_append_left (by omega),
    show before.length + part.length - 1 - before.length =
      part.length - 1 by omega, ← List.getLast?_eq_getElem?]
  exact noBlank

/-- The names found are names of the table. -/
theorem of_mem_hostsBeginningWith
    {word name : CString}
    (plainNames : ∀ host ∈ knownHosts, nul ∉ host.name)
    (short : NamesFit knownHosts)
    (member : name ∈ hostsBeginningWith word knownHosts) :
    nul ∉ name ∧ name.length < intMax := by
  obtain ⟨host, isHost, rfl⟩ :=
    List.mem_map.mp (List.mem_of_mem_filter member)
  exact ⟨plainNames host isHost, Nat.lt_trans (short host isHost) (by decide)⟩

/-- The call is undefined exactly where a name cannot be printed. -/
theorem printed_iff
    (documented : lib.Documented)
    (names : List CString) :
    1 < names.reverse.length ∧
        names.reverse.all lib.slashPrintfDefined = false ↔
      ¬ Printable names := by
  simp [Printable, documented.printfDefined]

/-- The text found by rewinding is completed, if the names can be printed. -/
theorem text_hostNameCompleter
    (documented : lib.Documented)
    (shape : slash.buffer = before ++ (part ++ nul :: stale))
    (whole : slash.length = before.length + part.length)
    (rewound :
      rewind slash.buffer token
          (min (stringAt slash.buffer token).length slash.length) =
        before.length)
    (plainBefore : nul ∉ before)
    (plain : nul ∉ part)
    (nonempty : part ≠ [])
    (noBlank : part.getLast? ≠ some ' ')
    (plainNames : ∀ host ∈ knownHosts, nul ∉ host.name)
    (short : NamesFit knownHosts) :
    (hostNameCompleter lib knownHosts token slash).map SlashLine.text =
      let found :=
        hostsBeginningWith (part.take (hostnameMaxlen - 1)) knownHosts
      if Printable found then
        some (before ++ completion part found)
      else
        none := by
  have isPart : stringAt slash.buffer before.length = part := by
    rw [shape, stringAt_append plain]
  have unchanged : slash.text = before ++ part := by
    rw [SlashLine.text, shape, ← List.append_assoc]
    exact stringAt_zero (by simp [plainBefore, plain])
  have lastCell := lastCell_ne_blank shape whole nonempty noBlank
  have ofHost :
      ∀ name ∈ hostsBeginningWith (part.take (hostnameMaxlen - 1)) knownHosts,
        nul ∉ name ∧ name.length < intMax :=
    fun _ member => of_mem_hostsBeginningWith plainNames short member
  simp only [hostNameCompleter, rewound, isPart, matchingHosts_eq_reverse,
    printed_iff documented, ite_not]
  split
  swap
  · rfl
  rw [List.length_reverse]
  cases found :
      hostsBeginningWith (part.take (hostnameMaxlen - 1)) knownHosts with
  | nil =>
      rw [if_neg (by simp), if_neg (by simp), Option.map_some, unchanged,
        completion]
  | cons first rest =>
      rw [found] at ofHost
      have plainFirst := (ofHost first List.mem_cons_self).1
      cases rest with
      | nil =>
          have only :
              ([first].reverse.foldl (PrefixScan.next lib)
                ⟨Option.none, [first].reverse.headD [], intMax⟩).completion =
                first := rfl
          rw [if_pos List.length_singleton, only, shape, storeAt_append,
            completion, List.singleton_append, strcat_append plainBefore,
            Option.map_some, ← List.append_assoc,
            SlashLine.text_refreshed (by simp [plainBefore, plainFirst])]
      | cons second rest =>
          generalize scans :
            (first :: second :: rest).reverse.foldl (PrefixScan.next lib) _ =
              scan
          obtain ⟨isCommon, size, inside⟩ :=
            scan_of_several documented (by simp) (fun name member =>
              (ofHost name member).2) scans
          have inFirst :
              commonPrefixOf (first :: second :: rest) <+: first :=
            (isLongestCommonPrefix_commonPrefixOf (by simp)).common first
              List.mem_cons_self
          rw [if_neg (by simp), if_pos (by simp), completion]
          by_cases longer :
              part.length <
                (commonPrefixOf (first :: second :: rest)).length
          · have start : slash.length - part.length = before.length := by
              omega
            have plainCommon :
                nul ∉ before ++ commonPrefixOf (first :: second :: rest) := by
              rw [List.mem_append, not_or]
              exact
                ⟨plainBefore, fun member =>
                  plainFirst (inFirst.subset member)⟩
            rw [if_pos ⟨lastCell, by rwa [size]⟩, if_pos longer, start, shape,
              storeAt_strncpyAt inside, isCommon, ← List.append_assoc,
              Option.map_some, SlashLine.text_refreshed plainCommon]
          · rw [if_neg fun both => longer (size ▸ both.2), if_neg longer,
              Option.map_some, unchanged]

end Completing

section Rewinding

variable {buffer : List Char}
variable {token i n : Nat}

/-- The loop stops behind the last blank that is not at the very start. -/
theorem rewind_eq_of_blank
    (blank : buffer[token + i]? = some ' ')
    (behindToken : 1 ≤ i)
    (inside : i ≤ n)
    (noneBehind : ∀ j, i < j → j ≤ n → buffer[token + j]? ≠ some ' ') :
    rewind buffer token n = token + i + 1 := by
  induction n with
  | zero =>
      omega
  | succ n inductionHypothesis =>
      rw [rewind]
      rcases Nat.lt_or_ge n i with here | before
      · obtain rfl : i = n + 1 := by omega
        rw [if_pos blank]
      · rw [if_neg (noneBehind (n + 1) (by omega) (Nat.le_refl _))]
        exact inductionHypothesis before fun j behind below =>
          noneBehind j behind (Nat.le_succ_of_le below)

theorem rewind_eq_token
    (noBlank : ∀ j, 1 ≤ j → j ≤ n → buffer[token + j]? ≠ some ' ') :
    rewind buffer token n = token := by
  induction n with
  | zero =>
      rfl
  | succ n inductionHypothesis =>
      rw [rewind, if_neg (noBlank (n + 1) (by omega) (Nat.le_refl _))]
      exact inductionHypothesis fun j behind below =>
        noBlank j behind (Nat.le_succ_of_le below)

variable {before word stale : CString}

/-- There is no blank in the word and at its end. -/
theorem getElem?_word_ne_blank
    (shape : buffer = before ++ (word ++ nul :: stale))
    (noBlank : ' ' ∉ word)
    {j : Nat}
    (inside : j ≤ word.length) :
    buffer[before.length + j]? ≠ some ' ' := by
  rw [shape, List.getElem?_append_right (by omega), Nat.add_sub_cancel_left]
  rcases Nat.lt_or_ge j word.length with inWord | atEnd
  · rw [List.getElem?_append_left inWord]
    exact fun found => noBlank (List.mem_of_getElem? found)
  · obtain rfl : j = word.length := by omega
    rw [List.getElem?_append_right (Nat.le_refl _), Nat.sub_self,
      List.getElem?_cons_zero]
    decide

variable {command front : CString}

/-- The word is found behind a blank that is not the start of the token. -/
theorem rewind_eq_wordStart
    (shape : buffer = command ++ front ++ (word ++ nul :: stale))
    (wordStart : front = [] ∨ ∃ earlier, front = earlier ++ [' '])
    (notSingle : front ≠ [' '])
    (noBlank : ' ' ∉ word) :
    rewind buffer command.length (front ++ word).length =
      (command ++ front).length := by
  have noneInWord :=
    fun j => @getElem?_word_ne_blank buffer _ word stale shape noBlank j
  rcases wordStart with rfl | ⟨earlier, rfl⟩
  · rw [List.append_nil] at noneInWord ⊢
    exact rewind_eq_token fun j _ inside => noneInWord j inside
  · have behindToken : 1 ≤ earlier.length := by
      cases earlier with
      | nil =>
          exact absurd rfl notSingle
      | cons =>
          simp
    have blank : buffer[command.length + earlier.length]? = some ' ' := by
      rw [shape, List.append_assoc, List.getElem?_append_right (by omega),
        Nat.add_sub_cancel_left, List.append_assoc,
        List.getElem?_append_right (Nat.le_refl _), Nat.sub_self]
      rfl
    rw [rewind_eq_of_blank blank behindToken (by simp)]
    · simp
      omega
    · intro j behind inside
      obtain ⟨k, rfl⟩ := Nat.exists_eq_add_of_lt behind
      have index :
          command.length + (earlier.length + k + 1) =
            (command ++ (earlier ++ [' '])).length + k := by
        simp
        omega
      rw [index]
      refine noneInWord k ?_
      simp at inside
      omega

/-- The blank at the start of the token is not looked at. -/
theorem rewind_eq_start_of_single
    (shape : buffer = command ++ [' '] ++ (word ++ nul :: stale))
    (noBlank : ' ' ∉ word) :
    rewind buffer command.length ([' '] ++ word).length = command.length := by
  refine rewind_eq_token fun j behind inside => ?_
  obtain ⟨k, rfl⟩ := Nat.exists_eq_add_of_le behind
  have index :
      command.length + (1 + k) = (command ++ [' ']).length + k := by
    simp
    omega
  rw [index]
  refine getElem?_word_ne_blank shape noBlank ?_
  simp at inside
  omega

end Rewinding

/-- What the line should be, by the names that begin with the word. -/
def HostCompletesTo
    (before word line : CString) :
    List CString → Prop
  | [] => line = before ++ word
  | [name] => line = before ++ name
  | first :: second :: rest =>
      ∃ front,
        IsLongestCommonPrefix front (first :: second :: rest) ∧
          line = before ++ if word.length < front.length then front else word

theorem hostCompletesTo_iff
    {before word line : CString}
    (found : List CString) :
    HostCompletesTo before word line found ↔
      line = before ++ completion word found := by
  cases found with
  | nil =>
      rfl
  | cons first rest =>
      cases rest with
      | nil =>
          rfl
      | cons second rest =>
          have isLongest :=
            @isLongestCommonPrefix_commonPrefixOf _
              (first :: second :: rest) _ (by simp)
          constructor
          · rintro ⟨front, longest, rfl⟩
            rw [longest.unique isLongest, completion]
          · intro same
            exact ⟨_, isLongest, same⟩

/-- A call is right if it is defined and leaves the line that it should. -/
theorem completed_iff
    {result : Option SlashLine}
    {names found : List CString}
    {before word text : CString}
    (left :
      result.map SlashLine.text =
        if Printable names then some text else none) :
    (∃ line, result = some line ∧ HostCompletesTo before word line.text found) ↔
      Printable names ∧ text = before ++ completion word found := by
  by_cases printable : Printable names
  · rw [if_pos printable] at left
    obtain ⟨line, rfl, rfl⟩ := Option.map_eq_some_iff.mp left
    simp only [Option.some.injEq, exists_eq_left', hostCompletesTo_iff,
      printable, true_and]
  · rw [if_neg printable, Option.map_eq_none_iff] at left
    simp [left, printable]

/--
What the names are compared with: a blank at the start of the token is taken
for a part of the word, and 49 characters count.
-/
def comparedPart (front word : CString) : CString :=
  if front = [' '] then
    (' ' :: word).take (hostnameMaxlen - 1)
  else
    word

/--
The last word of a line is completed as it should be, exactly when the names
compared with can be printed and the word is not behind a single blank at the
start of the token, or the blank makes no difference to what the table gives.
-/
theorem hostNameCompleter_completes_iff
    {lib : Libslash}
    {knownHosts : List Host}
    {command front word stale : CString}
    {slash : SlashLine}
    (documented : lib.Documented)
    (shape : slash.buffer = command ++ front ++ (word ++ nul :: stale))
    (whole : slash.length = (command ++ front ++ word).length)
    (wordStart : front = [] ∨ ∃ earlier, front = earlier ++ [' '])
    (plain : nul ∉ command ++ front ++ word)
    (nonempty : word ≠ [])
    (noBlank : ' ' ∉ word)
    (fits : word.length < hostnameMaxlen)
    (plainNames : ∀ host ∈ knownHosts, nul ∉ host.name)
    (short : NamesFit knownHosts) :
    (∃ line,
        hostNameCompleter lib knownHosts command.length slash = some line ∧
          HostCompletesTo (command ++ front) word line.text
            (hostsBeginningWith word knownHosts)) ↔
      Printable (hostsBeginningWith (comparedPart front word) knownHosts) ∧
        (front = [' '] →
          completion (' ' :: word)
              (hostsBeginningWith (comparedPart front word) knownHosts) =
            ' ' :: completion word (hostsBeginningWith word knownHosts)) := by
  obtain ⟨plainBefore, plainWord⟩ := not_or.mp (mt List.mem_append.mpr plain)
  have plainFront : nul ∉ front ++ word := by
    rw [List.append_assoc, List.mem_append, not_or] at plain
    exact plain.2
  have token :
      (stringAt slash.buffer command.length).length =
        (front ++ word).length := by
    have same :
        slash.buffer = command ++ ((front ++ word) ++ nul :: stale) := by
      rw [shape]
      simp
    rw [same, stringAt_append plainFront]
  have fromToken :
      min (stringAt slash.buffer command.length).length slash.length =
        (front ++ word).length := by
    rw [token, whole, min_eq_left]
    simp
  have lastWord : word.getLast? ≠ some ' ' := fun isLast =>
    noBlank (List.mem_of_getLast? isLast)
  have allOfWord : word.take (hostnameMaxlen - 1) = word :=
    List.take_of_length_le (Nat.le_pred_of_lt fits)
  by_cases single : front = [' ']
  · subst single
    have part :
        slash.buffer = command ++ ((' ' :: word) ++ nul :: stale) := by
      rw [shape, List.append_assoc, List.singleton_append]
      rfl
    have rewound := rewind_eq_start_of_single shape noBlank
    rw [← fromToken] at rewound
    have lastPart : (' ' :: word).getLast? ≠ some ' ' := by
      rwa [List.getLast?_cons_of_ne_nil nonempty]
    have text :=
      text_hostNameCompleter documented part (by simp [whole]) rewound
        (fun member => plainBefore (List.mem_append_left _ member))
        plainFront (by simp) lastPart plainNames short
    rw [completed_iff text, comparedPart, if_pos rfl, List.append_assoc,
      List.append_cancel_left_eq]
    exact and_congr_right fun _ =>
      ⟨fun same _ => same, fun same => same rfl⟩
  · have rewound :
        rewind slash.buffer command.length
            (min (stringAt slash.buffer command.length).length
              slash.length) =
          (command ++ front).length := by
      rw [fromToken]
      exact rewind_eq_wordStart shape wordStart single noBlank
    have text :=
      text_hostNameCompleter documented shape
        (by rw [whole, List.length_append]) rewound plainBefore plainWord
        nonempty lastWord plainNames short
    rw [allOfWord] at text
    rw [completed_iff text, comparedPart, if_neg single]
    simp only [single, false_implies, and_true]

/-- libslash with the common prefix, and the formats of `printf`. -/
def plainLibslash : Libslash where
  slashPrefixLength first second := (commonPrefix first second).length
  slashPrintfDefined := plainFormat

theorem plainLibslash_documented :
    plainLibslash.Documented :=
  ⟨fun _ _ => rfl, fun _ => rfl⟩

/-- Two hosts that begin with the word, at the start of the token. -/
theorem host_completed_to_common_start :
    ∃ line,
      hostNameCompleter plainLibslash
          [⟨1, "alpha".toList⟩, ⟨2, "alphabet".toList⟩] 5
          ⟨"ping al".toList ++ [nul], 7, 7⟩ =
        some line ∧
      HostCompletesTo "ping ".toList "al".toList line.text
        ["alpha".toList, "alphabet".toList] :=
  (@hostNameCompleter_completes_iff plainLibslash
    [⟨1, "alpha".toList⟩, ⟨2, "alphabet".toList⟩] "ping ".toList []
    "al".toList [] ⟨"ping al".toList ++ [nul], 7, 7⟩ plainLibslash_documented
    rfl rfl (.inl rfl) (by decide) (by decide) (by decide) (by decide)
    (by decide) (by unfold NamesFit; decide)).mpr
    ⟨by decide, by simp⟩

/--
Behind a second blank the host is not found.  Of two names that are printed,
one takes an argument that it is not given.
-/
theorem host_not_completed_behind_blank :
    ((hostNameCompleter plainLibslash [⟨1, "alpha".toList⟩] 5
          ⟨"ping  al".toList ++ [nul], 8, 8⟩).map SlashLine.text =
        some "ping  al".toList ∧
      ¬ HostCompletesTo "ping  ".toList "al".toList "ping  al".toList
        (hostsBeginningWith "al".toList [⟨1, "alpha".toList⟩])) ∧
      hostNameCompleter plainLibslash
          [⟨1, "alpha".toList⟩, ⟨2, "al%s".toList⟩] 5
          ⟨"ping al".toList ++ [nul], 7, 7⟩ =
        none := by
  refine ⟨⟨by decide, fun completes => ?_⟩, by decide⟩
  have same : "ping  al".toList = "ping  ".toList ++ "alpha".toList :=
    completes
  exact absurd same (by decide)

end Csh.Completion
