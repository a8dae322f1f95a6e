import Mathlib.Data.List.Basic

namespace Csh.Json

/-!
# JSON documents of strings

Documents made of strings, arrays and objects, as they are read: the characters
give tokens, and the tokens those of a value.  Numbers and literal names are
left out, so that a document that has any is not one here.  Strings are kept as
they are written, with their escapes.
-/

/-- The tokens of a document. -/
inductive Token where
  | openBrace
  | closeBrace
  | openBracket
  | closeBracket
  | colon
  | comma
  | string (body : List Char)
  deriving Repr, DecidableEq

/-- A place in a string: behind a backslash, or with hexadecimal digits due. -/
inductive Place where
  | plain
  | escaped
  | hex (due : Nat)
  deriving Repr, DecidableEq

/-- Read a character of a string that does not end it. -/
def Place.step (place : Place) (c : Char) : Option Place :=
  match place with
  | .plain =>
      if c = '"' ∨ c.toNat < 32 then
        none
      else if c = '\\' then
        some .escaped
      else
        some .plain
  | .escaped =>
      if c = 'u' then
        some (.hex 3)
      else if "\"\\/bfnrt".toList.contains c then
        some .plain
      else
        none
  | .hex due =>
      if c.isDigit || "abcdefABCDEF".toList.contains c then
        some (match due with
          | 0 => .plain
          | due + 1 => .hex due)
      else
        none

/-- Read a part of a string. -/
def scan (place : Place) (text : List Char) : Option Place :=
  text.foldlM Place.step place

/-- What may stand between the quotes of a string. -/
def IsStringBody (text : List Char) : Prop :=
  scan .plain text = some .plain

instance (text : List Char) : Decidable (IsStringBody text) :=
  inferInstanceAs (Decidable (_ = _))

/-- The white space between tokens. -/
def isBlank (c : Char) : Bool :=
  c == ' ' || c == '\t' || c == '\n' || c == '\r'

/-- The tokens of one character. -/
def punctuation? : Char → Option Token
  | '\x7b' => some .openBrace
  | '\x7d' => some .closeBrace
  | '[' => some .openBracket
  | ']' => some .closeBracket
  | ':' => some .colon
  | ',' => some .comma
  | _ => none

/-- Outside of strings, or inside one of which a part has been read. -/
inductive LexState where
  | outside
  | inString (place : Place) (body : List Char)
  deriving Repr, DecidableEq

/-- The tokens of a text. -/
def lex : LexState → List Char → Option (List Token)
  | .outside, [] => some []
  | .outside, c :: rest =>
      if c = '"' then
        lex (.inString .plain []) rest
      else if isBlank c then
        lex .outside rest
      else
        (punctuation? c).bind fun token =>
          (lex .outside rest).map fun tokens => token :: tokens
  | .inString _ _, [] => none
  | .inString place body, c :: rest =>
      if place = .plain ∧ c = '"' then
        (lex .outside rest).map fun tokens => .string body :: tokens
      else
        (place.step c).bind fun next =>
          lex (.inString next (body ++ [c])) rest

/-- Read a part of a document: its tokens, and the state behind it. -/
def feed : LexState → List Char → Option (List Token × LexState)
  | state, [] => some ([], state)
  | .outside, c :: rest =>
      if c = '"' then
        feed (.inString .plain []) rest
      else if isBlank c then
        feed .outside rest
      else
        (punctuation? c).bind fun token =>
          (feed .outside rest).map fun fed => (token :: fed.1, fed.2)
  | .inString place body, c :: rest =>
      if place = .plain ∧ c = '"' then
        (feed .outside rest).map fun fed => (.string body :: fed.1, fed.2)
      else
        (place.step c).bind fun next =>
          feed (.inString next (body ++ [c])) rest

/-- A value. -/
inductive Value where
  | string (body : List Char)
  | array (elements : List Value)
  | object (members : List (List Char × Value))

mutual

/-- The tokens of a value. -/
def Value.tokens : Value → List Token
  | .string body => [.string body]
  | .array elements =>
      .openBracket :: (elementTokens elements ++ [.closeBracket])
  | .object members => .openBrace :: (memberTokens members ++ [.closeBrace])

/-- The tokens of the elements of an array. -/
def elementTokens : List Value → List Token
  | [] => []
  | value :: rest => value.tokens ++ moreElementTokens rest

def moreElementTokens : List Value → List Token
  | [] => []
  | value :: rest => .comma :: (value.tokens ++ moreElementTokens rest)

/-- The tokens of the members of an object. -/
def memberTokens : List (List Char × Value) → List Token
  | [] => []
  | (name, value) :: rest =>
      .string name :: .colon :: (value.tokens ++ moreMemberTokens rest)

def moreMemberTokens : List (List Char × Value) → List Token
  | [] => []
  | (name, value) :: rest =>
      .comma :: .string name :: .colon ::
        (value.tokens ++ moreMemberTokens rest)

end

/-- A part of a document gives the first tokens. -/
theorem lex_of_feed
    {state behind : LexState}
    {part : List Char}
    {tokens : List Token}
    (fed : feed state part = some (tokens, behind))
    (rest : List Char) :
    lex state (part ++ rest) =
      (lex behind rest).map fun later => tokens ++ later := by
  induction part generalizing state tokens with
  | nil =>
      cases fed
      simp
  | cons c later inductionHypothesis =>
      cases state with
      | outside =>
          simp only [feed, List.cons_append, lex] at fed ⊢
          split
          · rename_i quote
            rw [if_pos quote] at fed
            exact inductionHypothesis fed
          rename_i noQuote
          rw [if_neg noQuote] at fed
          split
          · rename_i blank
            rw [if_pos blank] at fed
            exact inductionHypothesis fed
          · rename_i noBlank
            rw [if_neg noBlank] at fed
            obtain ⟨token, punctuation, fed⟩ := Option.bind_eq_some_iff.mp fed
            obtain ⟨⟨more, state⟩, fedLater, same⟩ :=
              Option.map_eq_some_iff.mp fed
            cases same
            rw [punctuation, Option.bind_some, inductionHypothesis fedLater,
              Option.map_map]
            rfl
      | inString place body =>
          simp only [feed, List.cons_append, lex] at fed ⊢
          split
          · rename_i ends
            rw [if_pos ends] at fed
            obtain ⟨⟨more, state⟩, fedLater, same⟩ :=
              Option.map_eq_some_iff.mp fed
            cases same
            rw [inductionHypothesis fedLater, Option.map_map]
            rfl
          · rename_i goesOn
            rw [if_neg goesOn] at fed
            obtain ⟨next, step, fed⟩ := Option.bind_eq_some_iff.mp fed
            rw [step, Option.bind_some, inductionHypothesis fed]

section Strings

variable {place next : Place}
variable {text : List Char}

/-- A character that stands for itself in a string. -/
def IsOrdinary (c : Char) : Prop :=
  c ≠ '"' ∧ c ≠ '\\' ∧ 32 ≤ c.toNat

theorem isStringBody_of_ordinary
    (ordinary : ∀ c ∈ text, IsOrdinary c) :
    IsStringBody text := by
  induction text with
  | nil =>
      rfl
  | cons c rest inductionHypothesis =>
      obtain ⟨⟨noQuote, noBackslash, printable⟩, later⟩ :=
        List.forall_mem_cons.mp ordinary
      have step : Place.plain.step c = some .plain := by
        have goesOn : ¬ (c = '"' ∨ c.toNat < 32) := by
          rintro (quote | control)
          · exact noQuote quote
          · omega
        rw [Place.step, if_neg goesOn, if_neg noBackslash]
      have scanned := inductionHypothesis later
      unfold IsStringBody scan at scanned ⊢
      rw [List.foldlM_cons, step]
      exact scanned

/-- A part of a string is read as the string it is in. -/
theorem lex_of_scan
    (scanned : scan place text = some next)
    (body rest : List Char) :
    lex (.inString place body) (text ++ rest) =
      lex (.inString next (body ++ text)) rest := by
  induction text generalizing place body with
  | nil =>
      cases scanned
      simp
  | cons c later inductionHypothesis =>
      obtain ⟨behind, step, scanned⟩ := Option.bind_eq_some_iff.mp scanned
      have goesOn : ¬ (place = .plain ∧ c = '"') := by
        rintro ⟨rfl, rfl⟩
        cases step
      rw [List.cons_append, lex, if_neg goesOn, step]
      change lex (.inString behind (body ++ [c])) (later ++ rest) = _
      rw [inductionHypothesis scanned, List.append_assoc]
      rfl

/-- A part without a quote that is not in order spoils the document. -/
theorem lex_of_scan_eq_none
    (unquoted : '"' ∉ text)
    (scanned : scan place text = none)
    (body rest : List Char) :
    lex (.inString place body) (text ++ rest) = none := by
  induction text generalizing place body with
  | nil =>
      cases scanned
  | cons c later inductionHypothesis =>
      simp only [List.mem_cons, not_or] at unquoted
      have goesOn : ¬ (place = .plain ∧ c = '"') := fun both =>
        unquoted.1 both.2.symm
      rw [List.cons_append, lex, if_neg goesOn]
      cases step : place.step c with
      | none =>
          rfl
      | some behind =>
          have scanned : scan behind later = none := by
            simpa [scan, step] using scanned
          exact inductionHypothesis unquoted.2 scanned (body ++ [c])

/-- A string that is not closed spoils the document. -/
theorem lex_of_unquoted
    (unquoted : '"' ∉ text)
    (body : List Char) :
    lex (.inString place body) text = none := by
  induction text generalizing place body with
  | nil =>
      rfl
  | cons c later inductionHypothesis =>
      simp only [List.mem_cons, not_or] at unquoted
      have goesOn : ¬ (place = .plain ∧ c = '"') := fun both =>
        unquoted.1 both.2.symm
      rw [lex, if_neg goesOn]
      cases step : place.step c with
      | none => rfl
      | some behind => exact inductionHypothesis unquoted.2 (body ++ [c])

/-- A body in order, and the quote behind it. -/
theorem lex_of_isStringBody
    (isBody : IsStringBody text)
    (body rest : List Char) :
    lex (.inString .plain body) (text ++ '"' :: rest) =
      (lex .outside rest).map fun tokens =>
        .string (body ++ text) :: tokens := by
  rw [lex_of_scan isBody]
  rfl

/--
A body that is not in order spoils the document, or its last backslash takes
the quote behind it into the string.
-/
theorem lex_of_not_isStringBody
    (unquoted : '"' ∉ text)
    (notBody : ¬ IsStringBody text)
    (body rest : List Char) :
    lex (.inString .plain body) (text ++ '"' :: rest) = none ∨
      ∃ longer,
        lex (.inString .plain body) (text ++ '"' :: rest) =
          lex (.inString .plain longer) rest := by
  cases scanned : scan .plain text with
  | none =>
      exact .inl (lex_of_scan_eq_none unquoted scanned body _)
  | some behind =>
      rw [lex_of_scan scanned]
      cases behind with
      | plain => exact absurd scanned notBody
      | escaped => exact .inr ⟨_, rfl⟩
      | hex due => exact .inl rfl

/-- A bracket and a quote in a string end it, if it is in order up to there. -/
theorem lex_of_bracket_quote
    (unquoted : '"' ∉ text)
    (body : List Char)
    {rest : List Char}
    (stuck : lex .outside rest = none) :
    lex (.inString place body) (text ++ '[' :: '"' :: rest) = none := by
  cases scanned : scan place text with
  | none =>
      exact lex_of_scan_eq_none unquoted scanned body _
  | some behind =>
      rw [lex_of_scan scanned]
      cases behind with
      | plain =>
          change (lex .outside rest).map _ = none
          rw [stuck]
          rfl
      | escaped => rfl
      | hex due => rfl

end Strings

/-- A character that no document has. -/
def IsBarred (c : Char) : Prop :=
  c ≠ '"' ∧ isBlank c = false ∧ punctuation? c = none ∧
    ∀ place : Place, place.step c = none

theorem lex_of_isBarred
    {c : Char}
    (barred : IsBarred c)
    {text : List Char}
    (member : c ∈ text)
    (state : LexState) :
    lex state text = none := by
  obtain ⟨noQuote, noBlank, noToken, noStep⟩ := barred
  induction text generalizing state with
  | nil =>
      cases member
  | cons first rest inductionHypothesis =>
      rcases List.mem_cons.mp member with rfl | later
      · cases state with
        | outside => simp [lex, noQuote, noBlank, noToken]
        | inString place body => simp [lex, noQuote, noStep]
      · have none := inductionHypothesis later
        cases state with
        | outside =>
            simp only [lex, none]
            split
            · rfl
            split
            · rfl
            · cases punctuation? first <;> rfl
        | inString place body =>
            simp only [lex, none]
            split
            · rfl
            · cases place.step first <;> rfl

/--
How far a document has been read: whether a value or a bracket has just been
completed, and how many arrays are open.
-/
structure Progress where
  complete : Bool
  depth : Int
  deriving Repr, DecidableEq

/-- A value does not begin directly behind another one. -/
def Progress.step (progress : Progress) : Token → Option Progress
  | .string _ =>
      if progress.complete then none else some ⟨true, progress.depth⟩
  | .openBracket =>
      if progress.complete then none else some ⟨false, progress.depth + 1⟩
  | .openBrace =>
      if progress.complete then none else some ⟨false, progress.depth⟩
  | .closeBracket => some ⟨true, progress.depth - 1⟩
  | .closeBrace => some ⟨true, progress.depth⟩
  | .colon => some ⟨false, progress.depth⟩
  | .comma => some ⟨false, progress.depth⟩

/-- The progress by some tokens. -/
def follow (progress : Progress) (tokens : List Token) : Option Progress :=
  tokens.foldlM Progress.step progress

theorem follow_append
    (progress : Progress)
    (first second : List Token) :
    follow progress (first ++ second) =
      (follow progress first).bind fun behind => follow behind second :=
  List.foldlM_append

mutual

/-- The tokens of a value complete it and leave no array open. -/
theorem follow_tokens
    (depth : Int) :
    (value : Value) → follow ⟨false, depth⟩ value.tokens = some ⟨true, depth⟩
  | .string body => rfl
  | .array elements => by
      obtain ⟨complete, elements⟩ := follow_elementTokens (depth + 1) elements
      change follow ⟨false, depth + 1⟩ (_ ++ _) = _
      rw [follow_append, elements]
      simp [follow, Progress.step]
  | .object members => by
      obtain ⟨complete, members⟩ := follow_memberTokens depth members
      change follow ⟨false, depth⟩ (_ ++ _) = _
      rw [follow_append, members]
      rfl

theorem follow_elementTokens
    (depth : Int) :
    (elements : List Value) →
      ∃ complete,
        follow ⟨false, depth⟩ (elementTokens elements) = some ⟨complete, depth⟩
  | [] => ⟨false, rfl⟩
  | value :: rest => by
      refine ⟨true, ?_⟩
      rw [elementTokens, follow_append, follow_tokens depth value]
      exact follow_moreElementTokens depth rest

theorem follow_moreElementTokens
    (depth : Int) :
    (elements : List Value) →
      follow ⟨true, depth⟩ (moreElementTokens elements) = some ⟨true, depth⟩
  | [] => rfl
  | value :: rest => by
      change follow ⟨false, depth⟩ (_ ++ _) = _
      rw [follow_append, follow_tokens depth value]
      exact follow_moreElementTokens depth rest

theorem follow_memberTokens
    (depth : Int) :
    (members : List (List Char × Value)) →
      ∃ complete,
        follow ⟨false, depth⟩ (memberTokens members) = some ⟨complete, depth⟩
  | [] => ⟨false, rfl⟩
  | (name, value) :: rest => by
      refine ⟨true, ?_⟩
      change follow ⟨false, depth⟩ (_ ++ _) = _
      rw [follow_append, follow_tokens depth value]
      exact follow_moreMemberTokens depth rest

theorem follow_moreMemberTokens
    (depth : Int) :
    (members : List (List Char × Value)) →
      follow ⟨true, depth⟩ (moreMemberTokens members) = some ⟨true, depth⟩
  | [] => rfl
  | (name, value) :: rest => by
      change follow ⟨false, depth⟩ (_ ++ _) = _
      rw [follow_append, follow_tokens depth value]
      exact follow_moreMemberTokens depth rest

end

/-- What is left of a document completes it. -/
def Completes
    (state : LexState)
    (progress : Progress)
    (text : List Char) :
    Prop :=
  ∃ tokens,
    lex state text = some tokens ∧ follow progress tokens = some ⟨true, 0⟩

section Completes

variable {state behind : LexState}
variable {progress : Progress}
variable {text rest : List Char}
variable {tokens : List Token}

/-- A document is complete at its end. -/
theorem completes_of_value
    {value : Value}
    (document : lex .outside text = some value.tokens) :
    Completes .outside ⟨false, 0⟩ text :=
  ⟨value.tokens, document, follow_tokens 0 value⟩

/-- The first tokens of a document only count by the progress they make. -/
theorem completes_iff_of_lex
    (parts :
      lex state text = (lex behind rest).map fun later => tokens ++ later)
    {next : Progress}
    (followed : follow progress tokens = some next) :
    Completes state progress text ↔ Completes behind next rest := by
  unfold Completes
  rw [parts]
  constructor
  · rintro ⟨all, lexed, completed⟩
    obtain ⟨later, lexedLater, rfl⟩ := Option.map_eq_some_iff.mp lexed
    rw [follow_append, followed] at completed
    exact ⟨later, lexedLater, completed⟩
  · rintro ⟨later, lexed, completed⟩
    refine ⟨tokens ++ later, by rw [lexed]; rfl, ?_⟩
    rw [follow_append, followed]
    exact completed

/-- Tokens that do not follow each other complete nothing. -/
theorem not_completes_of_follow
    (parts :
      lex state text = (lex behind rest).map fun later => tokens ++ later)
    (stuck : follow progress tokens = none) :
    ¬ Completes state progress text := by
  rintro ⟨all, lexed, completed⟩
  rw [parts] at lexed
  obtain ⟨later, _, rfl⟩ := Option.map_eq_some_iff.mp lexed
  rw [follow_append, stuck] at completed
  cases completed

/-- A string in order only counts as one token. -/
theorem completes_iff_of_isStringBody
    (isBody : IsStringBody text)
    {body : List Char}
    {next : Progress}
    (followed : progress.step (.string (body ++ text)) = some next) :
    Completes (.inString .plain body) progress (text ++ '"' :: rest) ↔
      Completes .outside next rest := by
  have parts :
      lex (.inString .plain body) (text ++ '"' :: rest) =
        (lex .outside rest).map fun later =>
          [.string (body ++ text)] ++ later :=
    lex_of_isStringBody isBody body rest
  exact completes_iff_of_lex parts (by simp [follow, followed])

theorem not_completes_of_lex
    (spoilt : lex state text = none) :
    ¬ Completes state progress text := by
  rintro ⟨tokens, lexed, _⟩
  rw [spoilt] at lexed
  cases lexed

/--
A string is in order if the document is, and what follows its quote is not in
order inside a string.
-/
theorem isStringBody_of_completes
    (unquoted : '"' ∉ text)
    (spoilt : ∀ longer, lex (.inString .plain longer) rest = none)
    {body : List Char}
    (completes :
      Completes (.inString .plain body) progress (text ++ '"' :: rest)) :
    IsStringBody text := by
  by_contra notBody
  refine not_completes_of_lex ?_ completes
  rcases lex_of_not_isStringBody unquoted notBody body rest with
    none | ⟨longer, same⟩
  · exact none
  · rw [same, spoilt]

end Completes

end Csh.Json
