import Csh.Environment
import Csh.Lib.CommonPrefix
import Csh.Slash

namespace Csh.Completion

open Libc Environment CommonPrefix

/-!
# Completing the names of variables

`env_var_completer` completes the last word of the arguments of a command, and
`env_var_ref_completer` what stands behind an open `$(`.  Both let
`csh_foreach_var` call back with the names, in whatever order the list has; the
names that are listed on the way are not part of the model.
-/

/-- `env_var_completer_t`, without what stays the same. -/
structure EnvVarCompleter where
  previousMatch : Option CString
  matchCount : Nat
  prevMatchLength : Nat
  deriving DecidableEq

/-- The test of the callback, over the shorter of the two lengths. -/
def isMatch (toMatch name : CString) : Bool :=
  strncmpEq (min name.length toMatch.length) toMatch name

/-- `prefix_length`. -/
def prefixLength (first second : CString) : Nat :=
  (commonPrefix first second).length

/-- `env_var_completer_csh_foreach_var_cb`. -/
def envVarCompleterCb
    (toMatch name : CString)
    (ctx : EnvVarCompleter) :
    EnvVarCompleter :=
  if isMatch toMatch name = true then
    match ctx.previousMatch with
    | some previous =>
        ⟨some previous, ctx.matchCount + 1, prefixLength name previous⟩
    | none => ⟨some name, ctx.matchCount + 1, name.length⟩
  else if ctx.matchCount = 2 then
    { ctx with matchCount := ctx.matchCount + 1 }
  else
    ctx

/-- The matches of a word among the variables. -/
def gather (env : CshEnv) (toMatch : CString) : EnvVarCompleter :=
  cshForeachVar (envVarCompleterCb toMatch) ⟨none, 0, 0⟩ env

/--
The word from an offset on is completed: one match is copied with a suffix, of
several the common start, behind which a NUL is put or is not.
-/
def completeAt
    (env : CshEnv)
    (suffix : CString)
    (terminates : Bool)
    (varStart : Nat)
    (slash : SlashLine) :
    SlashLine :=
  let word := stringAt slash.buffer varStart
  let toMatch := word.take ((word.takeWhile (· != ' ')).length + 1)
  let ctx := gather env toMatch
  let previousMatch := ctx.previousMatch.getD []
  match ctx.matchCount with
  | 0 => slash
  | 1 =>
      SlashLine.refreshed
        (strcat (strcpyAt slash.buffer varStart previousMatch) suffix)
  | _ =>
      let buffer :=
        strncpyAt slash.buffer varStart previousMatch ctx.prevMatchLength
      if terminates then
        SlashLine.refreshed
          (storeAt buffer (varStart + ctx.prevMatchLength) [nul])
      else
        SlashLine.refreshed buffer

/-- The last blank among the first `i` characters of the token. -/
def lastBlank (token : CString) : Nat → Option Nat
  | 0 => none
  | i + 1 => if token[i]? = some ' ' then some i else lastBlank token i

/-- `env_var_completer`, for the token at an offset of the buffer. -/
def envVarCompleter (env : CshEnv) (token : Nat) (slash : SlashLine) :
    SlashLine :=
  let text := stringAt slash.buffer token
  match lastBlank text text.length with
  | some i => completeAt env " ".toList false (token + (i + 1)) slash
  | none =>
      if text = [] then
        slash
      else
        completeAt env " ".toList true token slash

/-- The last `$(` among the first `i` characters, if no `)` is behind it. -/
def openReference (token : CString) : Bool → Nat → Option Nat
  | _, 0 => none
  | closingBracket, i + 1 =>
      if token[i]? = some ')' then
        openReference token true i
      else if token[i]? = some '$' ∧ token[i + 1]? = some '(' then
        if closingBracket = false then
          some i
        else
          none
      else
        openReference token closingBracket i

/-- `env_var_ref_completer`, for the token at an offset of the buffer. -/
def envVarRefCompleter (env : CshEnv) (token : Nat) (slash : SlashLine) :
    SlashLine :=
  let text := stringAt slash.buffer token
  if 1 < text.length then
    match openReference text false text.length with
    | some i => completeAt env ") ".toList true (token + (i + 2)) slash
    | none => slash
  else
    slash

section Gathering

variable {toMatch name : CString}
variable {names found : List CString}
variable {ctx : EnvVarCompleter}

/-- A name matches if it begins with the word, or the word with the name. -/
theorem isMatch_iff :
    isMatch toMatch name = true ↔ toMatch <+: name ∨ name <+: toMatch := by
  rw [isMatch, strncmpEq, beq_iff_eq]
  rcases Nat.le_total name.length toMatch.length with shorter | longer
  · rw [min_eq_left shorter, List.take_length, eq_comm,
      ← List.prefix_iff_eq_take, or_iff_right_of_imp]
    intro isPrefix
    rw [isPrefix.eq_of_length_le shorter]
  · rw [min_eq_right longer, List.take_length, ← List.prefix_iff_eq_take,
      or_iff_left_of_imp]
    intro isPrefix
    rw [isPrefix.eq_of_length_le longer]

/-- What the callback has noted of the matches so far. -/
structure Gathered
    (found : List CString)
    (ctx : EnvVarCompleter) :
    Prop where
  first : ctx.previousMatch = found.head?
  few : found.length ≤ 1 → ctx.matchCount = found.length
  many : 2 ≤ found.length → 2 ≤ ctx.matchCount
  common :
    ∀ first ∈ found.head?, ∀ last ∈ found.getLast?,
      ctx.prevMatchLength = prefixLength last first

/-- One more match. -/
theorem Gathered.concat
    (gathered : Gathered found ctx)
    (isMatched : isMatch toMatch name = true) :
    Gathered (found ++ [name]) (envVarCompleterCb toMatch name ctx) := by
  rw [envVarCompleterCb, if_pos isMatched, gathered.first]
  cases found with
  | nil =>
      have none : ctx.matchCount = 0 := gathered.few (by simp)
      refine ⟨rfl, fun _ => by simp [none], by simp, ?_⟩
      rintro _ ⟨⟩ _ ⟨⟩
      simp [prefixLength, commonPrefix_self]
  | cons first rest =>
      have some : 1 ≤ ctx.matchCount := by
        rcases Nat.lt_or_ge (first :: rest).length 2 with one | several
        · rw [gathered.few (by omega)]
          simp
        · exact Nat.le_of_succ_le (gathered.many several)
      refine ⟨rfl, by simp, fun _ => Nat.succ_le_succ some, ?_⟩
      rintro _ ⟨⟩ last isLast
      rw [List.getLast?_concat] at isLast
      obtain rfl := Option.some.inj isLast
      rfl

/-- A name that does not match. -/
theorem Gathered.skip
    (gathered : Gathered found ctx)
    (unmatched : ¬ isMatch toMatch name = true) :
    Gathered found (envVarCompleterCb toMatch name ctx) := by
  rw [envVarCompleterCb, if_neg unmatched]
  split
  · rename_i two
    refine
      ⟨gathered.first, fun few => ?_, fun _ => by simp [two],
        gathered.common⟩
    have count := gathered.few few
    omega
  · exact gathered

/-- The matches of a word are gathered in the order of the list. -/
theorem gathered_gather
    (env : CshEnv)
    (toMatch : CString) :
    Gathered ((env.map CshEnvEntry.name).filter (isMatch toMatch))
      (gather env toMatch) := by
  rw [gather, cshForeachVar_eq_foldl]
  induction env.map CshEnvEntry.name using List.reverseRecOn with
  | nil =>
      exact ⟨rfl, fun _ => rfl, by simp, by simp⟩
  | append_singleton names name inductionHypothesis =>
      rw [List.foldl_concat, List.filter_append]
      by_cases isMatched : isMatch toMatch name = true
      · rw [List.filter_cons_of_pos isMatched, List.filter_nil]
        exact inductionHypothesis.concat isMatched
      · rw [List.filter_cons_of_neg isMatched, List.filter_nil,
          List.append_nil]
        exact inductionHypothesis.skip isMatched

end Gathering

section Completing

variable {env : CshEnv}
variable {before word stale suffix first last : CString}
variable {terminates : Bool}
variable {slash : SlashLine}

/-- The names that the callback takes as matches, in their order. -/
def matched (env : CshEnv) (word : CString) : List CString :=
  (env.map CshEnvEntry.name).filter (isMatch word)

/-- A word without a blank at the end of the line is matched as it is. -/
theorem toMatch_eq
    (shape : slash.buffer = before ++ (word ++ nul :: stale))
    (plain : nul ∉ word)
    (noBlank : ' ' ∉ word) :
    (stringAt slash.buffer before.length).take
        (((stringAt slash.buffer before.length).takeWhile
            (· != ' ')).length + 1) =
      word := by
  rw [shape, stringAt_append plain, takeWhile_of_not_mem noBlank]
  exact List.take_of_length_le (Nat.le_succ _)

/-- Without a match nothing changes. -/
theorem completeAt_none
    (shape : slash.buffer = before ++ (word ++ nul :: stale))
    (plain : nul ∉ word)
    (noBlank : ' ' ∉ word)
    (none : matched env word = []) :
    completeAt env suffix terminates before.length slash = slash := by
  have gathered : Gathered (matched env word) (gather env word) :=
    gathered_gather env word
  rw [none] at gathered
  have count := gathered.few (by simp)
  simp only [completeAt, toMatch_eq shape plain noBlank, count,
    List.length_nil]

/-- The only match is copied, with the suffix behind it. -/
theorem completeAt_one
    (shape : slash.buffer = before ++ (word ++ nul :: stale))
    (plainBefore : nul ∉ before)
    (plain : nul ∉ word)
    (noBlank : ' ' ∉ word)
    (plainSuffix : nul ∉ suffix)
    (one : matched env word = [first])
    (plainFirst : nul ∉ first) :
    (completeAt env suffix terminates before.length slash).text =
      before ++ first ++ suffix := by
  have gathered : Gathered (matched env word) (gather env word) :=
    gathered_gather env word
  rw [one] at gathered
  have count := gathered.few (by simp)
  have match_eq := gathered.first
  simp only [completeAt, toMatch_eq shape plain noBlank, count, match_eq,
    List.length_singleton, List.head?_cons, Option.getD_some]
  rw [shape, strcpyAt_append, ← List.append_assoc,
    strcat_append (by simp [plainBefore, plainFirst]), ← List.append_assoc,
    SlashLine.text_refreshed (by simp [plainBefore, plainFirst, plainSuffix])]

/-- What is read behind a copied text that got no NUL. -/
def readBehind (word stale : List Char) (length : Nat) : CString :=
  stringAt (word ++ nul :: stale) length

/-- Of several matches the common start of the first and the last is copied. -/
theorem completeAt_many
    (shape : slash.buffer = before ++ (word ++ nul :: stale))
    (plainBefore : nul ∉ before)
    (plain : nul ∉ word)
    (noBlank : ' ' ∉ word)
    (many : 2 ≤ (matched env word).length)
    (isFirst : first ∈ (matched env word).head?)
    (isLast : last ∈ (matched env word).getLast?)
    (plainFirst : nul ∉ first) :
    (completeAt env suffix terminates before.length slash).text =
      before ++ (commonPrefix first last ++
        if terminates then
          []
        else
          readBehind word stale (commonPrefix first last).length) := by
  have gathered : Gathered (matched env word) (gather env word) :=
    gathered_gather env word
  obtain ⟨further, count⟩ := Nat.exists_eq_add_of_le' (gathered.many many)
  have match_eq := gathered.first.trans isFirst
  have common := gathered.common first isFirst last isLast
  rw [prefixLength, commonPrefix_comm] at common
  have inFirst := @commonPrefix_prefix_left _ _ first last
  have plainBoth : nul ∉ before ++ commonPrefix first last := by
    rw [List.mem_append, not_or]
    exact ⟨plainBefore, fun member => plainFirst (inFirst.subset member)⟩
  simp only [completeAt, toMatch_eq shape plain noBlank, count, match_eq,
    Option.getD_some, common]
  rw [shape]
  cases terminates with
  | true =>
      rw [if_pos rfl, if_pos rfl, storeAt_strncpyAt inFirst.length_le,
        take_commonPrefix_left, ← List.append_assoc,
        SlashLine.text_refreshed plainBoth, List.append_nil]
  | false =>
      rw [if_neg Bool.false_ne_true, if_neg Bool.false_ne_true,
        strncpyAt_append inFirst.length_le, take_commonPrefix_left,
        ← List.append_assoc, ← List.append_assoc,
        SlashLine.text, SlashLine.refreshed, stringAt, List.drop_zero,
        List.takeWhile_append_of_pos (bne_of_not_mem plainBoth)]
      rfl

end Completing

/-- The names of the variables that begin with a word. -/
def beginningWith (env : CshEnv) (word : CString) : List CString :=
  (env.map CshEnvEntry.name).filter fun name => word.isPrefixOf name

/-- What the line should be, by the names that begin with the word. -/
def CompletesTo
    (before word suffix : CString)
    (line : CString) :
    List CString → Prop
  | [] => line = before ++ word
  | [name] => line = before ++ name ++ suffix
  | first :: second :: rest =>
      ∃ front,
        IsLongestCommonPrefix front (first :: second :: rest) ∧
          line = before ++ front

/-- The right names are taken as matches, and the line is what it should be. -/
structure Completed
    (env : CshEnv)
    (before word suffix line : CString) :
    Prop where
  taken : matched env word = beginningWith env word
  shown : CompletesTo before word suffix line (beginningWith env word)

/--
No name is a proper start of the word; the start that the first and the last of
the names beginning with it share is common to all of them; and if no NUL is
put behind it there is one.
-/
structure Completable
    (env : CshEnv)
    (word stale : List Char)
    (terminates : Bool) :
    Prop where
  noShorter : ∀ name ∈ env.map CshEnvEntry.name, name <+: word → name = word
  agree :
    ∀ first ∈ (beginningWith env word).head?,
      ∀ last ∈ (beginningWith env word).getLast?,
        ∀ name ∈ beginningWith env word, commonPrefix first last <+: name
  ended :
    terminates = false →
      2 ≤ (beginningWith env word).length →
        ∀ first ∈ (beginningWith env word).head?,
          ∀ last ∈ (beginningWith env word).getLast?,
            (word ++ nul :: stale).getD (commonPrefix first last).length nul =
              nul

section Completed

variable {env : CshEnv}
variable {before word stale suffix : CString}
variable {terminates : Bool}
variable {slash : SlashLine}

/-- The right names are taken when none is a proper start of the word. -/
theorem matched_eq_beginningWith_iff :
    matched env word = beginningWith env word ↔
      ∀ name ∈ env.map CshEnvEntry.name, name <+: word → name = word := by
  constructor
  · intro same name member shorter
    have isMatched : name ∈ matched env word :=
      List.mem_filter.mpr ⟨member, isMatch_iff.mpr (.inr shorter)⟩
    rw [same, beginningWith, List.mem_filter,
      List.isPrefixOf_iff_prefix] at isMatched
    exact List.infix_antisymm shorter.isInfix isMatched.2.isInfix
  · intro noShorter
    refine List.filter_congr fun name member => ?_
    rw [Bool.eq_iff_iff, isMatch_iff, List.isPrefixOf_iff_prefix]
    refine or_iff_left_of_imp fun shorter => ?_
    rw [noShorter name member shorter]

theorem readBehind_eq_nil_iff
    {length : Nat} :
    readBehind word stale length = [] ↔
      (word ++ nul :: stale).getD length nul = nul := by
  rw [readBehind, stringAt, List.getD_eq_getElem?_getD, ← List.head?_drop]
  cases (word ++ nul :: stale).drop length with
  | nil =>
      simp
  | cons c rest =>
      by_cases isNul : c = nul
      · simp [isNul]
      · simp [isNul]

/-- A text copied from the first match, when it is the right one. -/
theorem exists_longest_iff
    {first last behind : CString}
    {found : List CString}
    (isFirst : first ∈ found)
    (isLast : last ∈ found) :
    (∃ front,
        IsLongestCommonPrefix front found ∧
          before ++ (commonPrefix first last ++ behind) = before ++ front) ↔
      (∀ name ∈ found, commonPrefix first last <+: name) ∧ behind = [] := by
  constructor
  · rintro ⟨front, isLongest, same⟩
    obtain rfl := List.append_cancel_left same
    have inside :
        commonPrefix first last ++ behind <+: commonPrefix first last :=
      prefix_commonPrefix_iff.mpr
        ⟨isLongest.common first isFirst, isLongest.common last isLast⟩
    have nothing : behind = [] := by
      have fits := inside.length_le
      rw [List.length_append] at fits
      exact List.length_eq_zero_iff.mp (by omega)
    subst nothing
    rw [List.append_nil] at isLongest
    exact ⟨isLongest.common, rfl⟩
  · rintro ⟨common, rfl⟩
    exact
      ⟨_, isLongestCommonPrefix_of_two isFirst isLast common,
        by rw [List.append_nil]⟩

/-- Several names that are taken are completed where the word is completable. -/
theorem completeAt_several_iff
    {first second : CString}
    {rest : List CString}
    (shape : slash.buffer = before ++ (word ++ nul :: stale))
    (plainBefore : nul ∉ before)
    (plain : nul ∉ word)
    (noBlank : ' ' ∉ word)
    (taken : matched env word = beginningWith env word)
    (found : beginningWith env word = first :: second :: rest)
    (plainFirst : nul ∉ first) :
    Completed env before word suffix
        (completeAt env suffix terminates before.length slash).text ↔
      Completable env word stale terminates := by
  have noShorter := matched_eq_beginningWith_iff.mp taken
  obtain ⟨last, isLast⟩ :
      ∃ last, last ∈ (first :: second :: rest).getLast? :=
    ⟨_, List.getLast?_eq_some_getLast (List.cons_ne_nil _ _)⟩
  rw [found] at taken
  have text :=
    @completeAt_many env before word stale suffix first last
      terminates slash shape plainBefore plain noBlank
      (by rw [taken]; simp) (by rw [taken]; rfl)
      (by rw [taken]; exact isLast) plainFirst
  have shown_iff :=
    @exists_longest_iff before first last
      (if terminates then [] else
        readBehind word stale (commonPrefix first last).length)
      _ List.mem_cons_self (List.mem_of_getLast? isLast)
  rw [text]
  constructor
  · rintro ⟨_, shown⟩
    rw [found] at shown
    obtain ⟨common, nothing⟩ := shown_iff.mp shown
    refine ⟨noShorter, ?_, ?_⟩
    · rw [found]
      rintro _ ⟨⟩ other isOther
      obtain rfl := Option.some.inj (isLast.symm.trans isOther)
      exact common
    · rw [found]
      rintro rfl _ _ ⟨⟩ other isOther
      obtain rfl := Option.some.inj (isLast.symm.trans isOther)
      exact readBehind_eq_nil_iff.mp nothing
  · rintro ⟨_, agree, ended⟩
    rw [found] at agree ended
    refine ⟨by rw [taken, found], ?_⟩
    rw [found]
    refine shown_iff.mpr ⟨agree first rfl last isLast, ?_⟩
    cases terminates with
    | true =>
        rfl
    | false =>
        exact
          readBehind_eq_nil_iff.mpr
            (ended rfl (by simp) first rfl last isLast)

/-- The word is completed as it should be exactly where it is completable. -/
theorem completeAt_completed_iff
    (shape : slash.buffer = before ++ (word ++ nul :: stale))
    (plainBefore : nul ∉ before)
    (plain : nul ∉ word)
    (noBlank : ' ' ∉ word)
    (plainSuffix : nul ∉ suffix)
    (plainNames : ∀ name ∈ env.map CshEnvEntry.name, nul ∉ name) :
    Completed env before word suffix
        (completeAt env suffix terminates before.length slash).text ↔
      Completable env word stale terminates := by
  by_cases taken : matched env word = beginningWith env word
  · have noShorter := matched_eq_beginningWith_iff.mp taken
    have plainFound : ∀ name ∈ beginningWith env word, nul ∉ name :=
      fun name member => plainNames name (List.mem_of_mem_filter member)
    cases found : beginningWith env word with
    | nil =>
        rw [found] at taken
        rw [completeAt_none shape plain noBlank taken, SlashLine.text, shape,
          ← List.append_assoc, stringAt_zero (by simp [plainBefore, plain])]
        refine iff_of_true ⟨by rw [taken, found], ?_⟩ ⟨noShorter, ?_, ?_⟩
        · rw [found]
          rfl
        · simp [found]
        · simp [found]
    | cons first rest =>
        have plainFirst := plainFound first (by rw [found]; simp)
        cases rest with
        | nil =>
            rw [found] at taken
            rw [completeAt_one shape plainBefore plain noBlank plainSuffix
              taken plainFirst]
            refine iff_of_true ⟨by rw [taken, found], ?_⟩ ⟨noShorter, ?_, ?_⟩
            · rw [found]
              rfl
            · rw [found]
              rintro _ ⟨⟩ _ ⟨⟩ name isFirst
              rw [List.mem_singleton.mp isFirst]
              exact commonPrefix_prefix_left
            · simp [found]
        | cons second rest =>
            exact
              completeAt_several_iff shape plainBefore plain noBlank taken
                found plainFirst
  · refine iff_of_false (fun completed => taken completed.taken) ?_
    exact fun completable =>
      taken (matched_eq_beginningWith_iff.mpr completable.noShorter)

end Completed

section Tokens

variable {token : CString}
variable {i n : Nat}

theorem lastBlank_eq_some
    (blank : token[i]? = some ' ')
    (inside : i < n)
    (noneBehind : ∀ j, i < j → j < n → token[j]? ≠ some ' ') :
    lastBlank token n = some i := by
  induction n with
  | zero =>
      omega
  | succ n inductionHypothesis =>
      rw [lastBlank]
      rcases Nat.lt_or_ge i n with before | here
      · rw [if_neg (noneBehind n before (Nat.lt_succ_self n))]
        exact inductionHypothesis before fun j behind below =>
          noneBehind j behind (Nat.lt_succ_of_lt below)
      · obtain rfl : i = n := by omega
        rw [if_pos blank]

theorem lastBlank_eq_none
    (noBlank : ∀ j, j < n → token[j]? ≠ some ' ') :
    lastBlank token n = none := by
  induction n with
  | zero =>
      rfl
  | succ n inductionHypothesis =>
      rw [lastBlank, if_neg (noBlank n (Nat.lt_succ_self n))]
      exact inductionHypothesis fun j below =>
        noBlank j (Nat.lt_succ_of_lt below)

theorem openReference_eq_some
    (dollar : token[i]? = some '$')
    (bracket : token[i + 1]? = some '(')
    (inside : i < n)
    (noneBehind :
      ∀ j, i < j → j < n →
        token[j]? ≠ some ')' ∧
          ¬ (token[j]? = some '$' ∧ token[j + 1]? = some '(')) :
    openReference token false n = some i := by
  induction n with
  | zero =>
      omega
  | succ n inductionHypothesis =>
      rw [openReference]
      rcases Nat.lt_or_ge i n with before | here
      · obtain ⟨open_, noReference⟩ :=
          noneBehind n before (Nat.lt_succ_self n)
        rw [if_neg open_, if_neg noReference]
        exact inductionHypothesis before fun j behind below =>
          noneBehind j behind (Nat.lt_succ_of_lt below)
      · obtain rfl : i = n := by omega
        rw [if_neg (by simp [dollar]), if_pos ⟨dollar, bracket⟩, if_pos rfl]

variable {front word : CString}

/-- The word stands behind the last blank of the token. -/
theorem lastBlank_append
    (noBlank : ' ' ∉ word) :
    lastBlank (front ++ ' ' :: word) (front ++ ' ' :: word).length =
      some front.length := by
  refine lastBlank_eq_some (by simp) (by simp) fun j behind _ found => ?_
  obtain ⟨k, rfl⟩ := Nat.exists_eq_add_of_lt behind
  rw [List.getElem?_append_right (by omega),
    show front.length + k + 1 - front.length = k + 1 by omega,
    List.getElem?_cons_succ] at found
  exact noBlank (List.mem_of_getElem? found)

theorem lastBlank_of_not_mem
    (noBlank : ' ' ∉ word) :
    lastBlank word word.length = none :=
  lastBlank_eq_none fun _ _ found => noBlank (List.mem_of_getElem? found)

/-- The word stands behind the last reference, which is open. -/
theorem openReference_append
    (noBracket : ')' ∉ word)
    (noReference : ¬ "$(".toList <:+: word) :
    openReference (front ++ '$' :: '(' :: word) false
        (front ++ '$' :: '(' :: word).length =
      some front.length := by
  refine
    openReference_eq_some (by simp) (by simp) (by simp)
      fun j behind _ => ?_
  obtain ⟨k, rfl⟩ := Nat.exists_eq_add_of_lt behind
  have shift :
      ∀ m, (front ++ '$' :: '(' :: word)[front.length + m + 1]? =
        ('(' :: word)[m]? := by
    intro m
    rw [List.getElem?_append_right (by omega),
      show front.length + m + 1 - front.length = m + 1 by omega,
      List.getElem?_cons_succ]
  rw [shift, Nat.add_assoc front.length k 1, shift]
  cases k with
  | zero =>
      simp
  | succ k =>
      rw [List.getElem?_cons_succ, List.getElem?_cons_succ]
      refine ⟨fun found => noBracket (List.mem_of_getElem? found), ?_⟩
      rintro ⟨dollar, bracket⟩
      obtain ⟨dollarInside, isDollar⟩ := List.getElem?_eq_some_iff.mp dollar
      obtain ⟨bracketInside, isBracket⟩ :=
        List.getElem?_eq_some_iff.mp bracket
      have fromDollar : word.drop k = '$' :: word.drop (k + 1) := by
        rw [List.drop_eq_getElem_cons dollarInside, isDollar]
      have fromBracket : word.drop (k + 1) = '(' :: word.drop (k + 2) := by
        rw [List.drop_eq_getElem_cons bracketInside, isBracket]
      refine noReference ⟨word.take k, word.drop (k + 2), ?_⟩
      rw [List.append_assoc]
      change word.take k ++ '$' :: '(' :: word.drop (k + 2) = word
      rw [← fromBracket, ← fromDollar, List.take_append_drop]

end Tokens

section Completers

variable {env : CshEnv}
variable {command front word stale : CString}
variable {slash : SlashLine}

/-- A word behind a blank or at the start of the token is completed. -/
theorem envVarCompleter_completed_iff
    (plainBefore : nul ∉ command ++ front)
    (plain : nul ∉ word)
    (plainNames : ∀ name ∈ env.map CshEnvEntry.name, nul ∉ name)
    (nonempty : word ≠ [])
    (noBlank : ' ' ∉ word)
    (wordStart : front = [] ∨ ∃ earlier, front = earlier ++ [' '])
    (shape : slash.buffer = command ++ front ++ (word ++ nul :: stale)) :
    Completed env (command ++ front) word " ".toList
        (envVarCompleter env command.length slash).text ↔
      Completable env word stale (decide (front = [])) := by
  have token :
      stringAt slash.buffer command.length = front ++ word := by
    rw [shape, List.append_assoc, ← List.append_assoc front]
    refine stringAt_append ?_
    rw [List.mem_append, not_or] at plainBefore ⊢
    exact ⟨plainBefore.2, plain⟩
  rcases wordStart with rfl | ⟨earlier, rfl⟩
  · rw [List.append_nil] at shape plainBefore ⊢
    rw [envVarCompleter, token, List.nil_append,
      lastBlank_of_not_mem noBlank]
    simp only [nonempty, ↓reduceIte, decide_true]
    exact
      completeAt_completed_iff shape plainBefore plain noBlank (by decide)
        plainNames
  · rw [List.append_assoc, List.singleton_append] at token
    rw [envVarCompleter, token, lastBlank_append noBlank]
    have start :
        command.length + (earlier.length + 1) =
          (command ++ (earlier ++ [' '])).length := by
      simp
    simp only [start]
    have behind : decide (earlier ++ [' '] = []) = false := by
      simp
    rw [behind]
    exact
      completeAt_completed_iff shape plainBefore plain noBlank (by decide)
        plainNames

/-- A word behind the last `$(` is completed. -/
theorem envVarRefCompleter_completed_iff
    (plainBefore : nul ∉ command ++ front)
    (plain : nul ∉ word)
    (plainNames : ∀ name ∈ env.map CshEnvEntry.name, nul ∉ name)
    (noBlank : ' ' ∉ word)
    (noBracket : ')' ∉ word)
    (noReference : ¬ "$(".toList <:+: word)
    (shape :
      slash.buffer =
        command ++ front ++ "$(".toList ++ (word ++ nul :: stale)) :
    Completed env (command ++ front ++ "$(".toList) word ") ".toList
        (envVarRefCompleter env command.length slash).text ↔
      Completable env word stale true := by
  have plainReference : nul ∉ command ++ front ++ "$(".toList := by
    rw [List.mem_append, not_or]
    exact ⟨plainBefore, by decide⟩
  have token :
      stringAt slash.buffer command.length = front ++ '$' :: '(' :: word := by
    have same :
        slash.buffer =
          command ++ ((front ++ '$' :: '(' :: word) ++ nul :: stale) := by
      rw [shape]
      simp
    rw [same]
    refine stringAt_append ?_
    rw [List.mem_append, not_or] at plainBefore
    simp only [List.mem_append, List.mem_cons, not_or]
    exact ⟨plainBefore.2, by decide, by decide, plain⟩
  have start :
      command.length + (front.length + 2) =
        (command ++ front ++ "$(".toList).length := by
    simp
  rw [envVarRefCompleter, token, openReference_append noBracket noReference,
    if_pos (by simp; omega)]
  simp only [start]
  exact
    completeAt_completed_iff shape plainReference plain noBlank (by decide)
      plainNames

end Completers

/--
A word at the end of the line, for `env_var_completer` behind a blank or at the
start of the token, for `env_var_ref_completer` behind the last `$(`.  It is
completed to the right name or start of names exactly when it is completable.
-/
theorem completers_completed_iff
    {env : CshEnv}
    {command front word stale : CString}
    {slash : SlashLine}
    (plainLine : nul ∉ command ++ front ++ word)
    (plainNames : ∀ name ∈ env.map CshEnvEntry.name, nul ∉ name)
    (nonempty : word ≠ [])
    (noBlank : ' ' ∉ word) :
    ((front = [] ∨ ∃ earlier, front = earlier ++ [' ']) →
        slash.buffer = command ++ front ++ (word ++ nul :: stale) →
          (Completed env (command ++ front) word " ".toList
              (envVarCompleter env command.length slash).text ↔
            Completable env word stale (decide (front = [])))) ∧
      (')' ∉ word →
        ¬ "$(".toList <:+: word →
          slash.buffer =
              command ++ front ++ "$(".toList ++ (word ++ nul :: stale) →
            (Completed env (command ++ front ++ "$(".toList) word
                ") ".toList
                (envVarRefCompleter env command.length slash).text ↔
              Completable env word stale true)) := by
  rw [List.mem_append, not_or] at plainLine
  obtain ⟨plainBefore, plain⟩ := plainLine
  refine ⟨fun wordStart shape => ?_, fun noBracket noReference shape => ?_⟩
  · exact
      envVarCompleter_completed_iff plainBefore plain plainNames nonempty
        noBlank wordStart shape
  · exact
      envVarRefCompleter_completed_iff plainBefore plain plainNames noBlank
        noBracket noReference shape

/-- Two variables that begin with the word, in an argument of their own. -/
theorem completed_to_common_start :
    Completed [⟨"FOOBAR".toList, []⟩, ⟨"FOOZ".toList, []⟩] "var get ".toList
      "FO".toList " ".toList
      (envVarCompleter [⟨"FOOBAR".toList, []⟩, ⟨"FOOZ".toList, []⟩] 8
        ⟨"var get FO".toList ++ [nul], 10, 10⟩).text := by
  refine
    ((@completers_completed_iff
      [⟨"FOOBAR".toList, []⟩, ⟨"FOOZ".toList, []⟩] "var get ".toList []
      "FO".toList [] ⟨"var get FO".toList ++ [nul], 10, 10⟩ (by decide)
      (by decide) (by decide) (by decide)).1 (.inl rfl) rfl).mpr
      ⟨by decide, ?_, by simp⟩
  rintro _ ⟨⟩ _ ⟨⟩
  decide

/--
A name that is a proper start of the word, a start that only the first and the
last match share, and a copied start without a NUL.
-/
theorem completers_go_wrong :
    (envVarCompleter [⟨"FOO".toList, []⟩] 8
        ⟨"var get FOOBAR".toList ++ [nul], 14, 14⟩).text =
        "var get FOO ".toList ∧
      ¬ Completed [⟨"FOO".toList, []⟩] "var get ".toList "FOOBAR".toList
        " ".toList "var get FOO ".toList ∧
    (envVarRefCompleter
        [⟨"FOOX".toList, []⟩, ⟨"FO".toList, []⟩, ⟨"FOOY".toList, []⟩] 5
        ⟨"ping $(F".toList ++ [nul], 8, 8⟩).text =
        "ping $(FOO".toList ∧
      ¬ Completed
        [⟨"FOOX".toList, []⟩, ⟨"FO".toList, []⟩, ⟨"FOOY".toList, []⟩]
        "ping $(".toList "F".toList ") ".toList "ping $(FOO".toList ∧
    (envVarCompleter [⟨"FOOX".toList, []⟩, ⟨"FOOY".toList, []⟩] 8
        ⟨"var set A F".toList ++ nul :: "XYZ".toList ++ [nul], 11, 11⟩).text =
        "var set A FOOYZ".toList ∧
      ¬ Completed [⟨"FOOX".toList, []⟩, ⟨"FOOY".toList, []⟩]
        "var set A ".toList "F".toList " ".toList
        "var set A FOOYZ".toList := by
  refine ⟨by decide, ?_, by decide, ?_, by decide, ?_⟩
  · rintro ⟨taken, _⟩
    exact absurd taken (by decide)
  · rintro ⟨_, front, isLongest, same⟩
    have short := isLongest.common "FO".toList (by decide)
    have split : "ping $(".toList ++ "FOO".toList = _ := same
    obtain rfl := List.append_cancel_left split
    exact absurd short (by decide)
  · rintro ⟨_, front, isLongest, same⟩
    have short := isLongest.common "FOOX".toList (by decide)
    have split : "var set A ".toList ++ "FOOYZ".toList = _ := same
    obtain rfl := List.append_cancel_left split
    exact absurd short (by decide)

end Csh.Completion
