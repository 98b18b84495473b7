import ImportCensus.Proofs.Scan.Declaration
import ImportCensus.Proofs.Sequence
import Mathlib.Tactic.IntervalCases

/-!
# Steps

`Step` lists everything that a step of the scanner can do, each with the segment that it passes.
The list is exact: the scanner takes a step precisely where the relation holds, so what is said of
a scanned source can be shown for one kind of token after the other.
-/

namespace ImportCensus.Scan

open Segment (of)

namespace Segment

/-- A chunk of a template literal with what ends it. -/
def chunk (contents : Text) (stop : ChunkEnd) : Segment :=
  of .chunk contents ++ of .code stop.text

/-- A regular expression with its flags. -/
def pattern (body flags : Text) : Segment :=
  ('/', .code) :: (of .pattern body ++ of .code ('/' :: flags))

@[simp]
theorem text_chunk (contents : Text) (stop : ChunkEnd) :
  text (chunk contents stop) = contents ++ stop.text
  := by
  simp [chunk]

@[simp]
theorem text_pattern (body flags : Text) :
  text (pattern body flags) = '/' :: (body ++ '/' :: flags)
  := by
  simp [pattern]

end Segment

namespace State

/-- The state behind a segment, at the same levels of nesting. -/
def moved (s : State) (segment : Segment) (rest : Text) (expects : Expectation) : State :=
  s.goto (s.cursor.before.pass segment) rest expects

/-- The state around the innermost level of nesting, with all that was found in it. -/
def leave (s : State) (frame : Frame) (frames : List Frame) (found : List Occurrence) : State :=
  { s with frames, found := frame.outer ++ found ++ s.found }

/-- The state behind a declaration that passes a segment. -/
def declared (s : State) (segment : Segment) (rest : Text) (specifier : Option Text)
    (expects : Expectation) : State :=
  s.declare (.behind s.cursor.before.length (s.cursor.before.pass segment) rest specifier expects)

section

variable (s : State) (segment : Segment) (before : Trail) (rest : Text) (expects : Expectation)

@[simp]
theorem cursor_moved :
  (s.moved segment rest expects).cursor = ⟨s.cursor.before.pass segment, rest⟩
  := rfl

@[simp]
theorem frames_moved :
  (s.moved segment rest expects).frames = s.frames
  := rfl

@[simp]
theorem found_moved :
  (s.moved segment rest expects).found = s.found
  := rfl

@[simp]
theorem expects_moved :
  (s.moved segment rest expects).expects = expects
  := rfl

@[simp]
theorem moved_nil :
  s.moved [] s.cursor.rest s.expects = s
  := by
  simp [moved, goto]

@[simp]
theorem moved_moved (segment' : Segment) (rest' : Text) (expects' : Expectation) :
  (s.moved segment rest expects).moved segment' rest' expects'
    = s.moved (segment ++ segment') rest' expects'
  := by
  simp [moved, goto]

@[simp]
theorem cursor_leave (frame : Frame) (frames : List Frame) (found : List Occurrence) :
  (s.leave frame frames found).cursor = s.cursor
  := rfl

@[simp]
theorem frames_leave (frame : Frame) (frames : List Frame) (found : List Occurrence) :
  (s.leave frame frames found).frames = frames
  := rfl

@[simp]
theorem found_leave (frame : Frame) (frames : List Frame) (found : List Occurrence) :
  (s.leave frame frames found).found = frame.outer ++ found ++ s.found
  := rfl

@[simp]
theorem cursor_enter (opener : Opener) (importAt : Option Nat) :
  (s.enter opener importAt before rest).cursor = ⟨before.pass (of .code opener.text), rest⟩
  := by
  simp [enter]

@[simp]
theorem frames_enter (opener : Opener) (importAt : Option Nat) :
  (s.enter opener importAt before rest).frames
    = ⟨opener, before.length, importAt, s.found⟩ :: s.frames
  := rfl

@[simp]
theorem found_enter (opener : Opener) (importAt : Option Nat) :
  (s.enter opener importAt before rest).found = []
  := rfl

@[simp]
theorem cursor_declared (specifier : Option Text) :
  (s.declared segment rest specifier expects).cursor = ⟨s.cursor.before.pass segment, rest⟩
  := rfl

@[simp]
theorem frames_declared (specifier : Option Text) :
  (s.declared segment rest specifier expects).frames = s.frames
  := rfl

@[simp]
theorem found_declared (specifier : Option Text) :
  (s.declared segment rest specifier expects).found
    = s.found ++ (specifier.map (Occurrence.ofSpecifier s.cursor.before.length
        (segment.length + s.cursor.before.length))).toList
  := rfl

end

end State

/-- A character that is a token by itself and neither a bracket nor a slash. -/
structure IsMark (c : Char) (rest : Text) : Prop where
  not_space : isSpace c = false
  ne_slash : c ≠ '/'
  not_quote : isQuote c = false
  ne_backtick : c ≠ '\x60'
  not_opening : Bracket.ofOpening? c = none
  not_closing : Bracket.ofClosing? c = none
  not_identifier : isIdentifierStart c = false
  not_number : State.beginsNumber c rest = false

/-- A comma is a mark, whatever comes behind it. -/
theorem isMark_comma (rest : Text) :
  IsMark ',' rest
  where
  not_space := by decide
  ne_slash := by decide
  not_quote := by decide
  ne_backtick := by decide
  not_opening := by decide
  not_closing := by decide
  not_identifier := by decide
  not_number := by simp [State.beginsNumber]

/-- A step of the scanner and the segment that it passes. -/
inductive Step (s : State) : Segment → State → Prop where
  | space {c : Char} {rest : Text} (hc : isSpace c = true) :
    Step s [(c, .code)] (s.moved [(c, .code)] rest s.expects)
  | comment {comment rest : Text} (hc : IsComment comment rest) :
    Step s (of .comment comment) (s.moved (of .comment comment) rest s.expects)
  | division {rest : Text} (he : s.expects = .operator)
      (hc : beginsComment ('/' :: rest) = false) :
    Step s [('/', .code)] (s.moved [('/', .code)] rest .operator)
  | pattern {body flags rest : Text} (he : s.expects = .operand)
      (hc : beginsComment ('/' :: (body ++ '/' :: (flags ++ rest))) = false)
      (hb : IsPatternBody body) (hf : flags.all isIdentifierPart = true)
      (hr : stops isIdentifierPart rest = true) :
    Step s (Segment.pattern body flags) (s.moved (Segment.pattern body flags) rest .operator)
  | string {quote : Char} {body rest : Text} (hq : isQuote quote = true)
      (hb : IsStringBody quote body) :
    Step s (Segment.string quote body) (s.moved (Segment.string quote body) rest .operator)
  | literal {chunk rest : Text} (hc : IsChunk .literal chunk) :
    Step s (('\x60', .code) :: Segment.chunk chunk .literal)
      (s.moved (('\x60', .code) :: Segment.chunk chunk .literal) rest .operator)
  | substitution {chunk rest : Text} (hc : IsChunk .substitution chunk) :
    Step s (('\x60', .code) :: Segment.chunk chunk .substitution)
      (s.enter .substitution none (s.cursor.before.pass (('\x60', .code) :: of .chunk chunk)) rest)
  | opening (b : Bracket) {rest : Text} :
    Step s [(b.opening, .code)] (s.enter (.bracket b) none s.cursor.before rest)
  | closing {b : Bracket} {frame : Frame} {frames : List Frame} {rest : Text}
      (hf : s.frames = frame :: frames) (ho : frame.opener = .bracket b) :
    Step s [(b.closing, .code)]
      ((s.leave frame frames (frame.occurrence? s.cursor.before.length).toList).moved
        [(b.closing, .code)] rest (expectsBehindClosing b))
  | resumeLiteral {frame : Frame} {frames : List Frame} {chunk rest : Text}
      (hf : s.frames = frame :: frames) (ho : frame.opener = .substitution)
      (hc : IsChunk .literal chunk) :
    Step s (('}', .code) :: Segment.chunk chunk .literal)
      ((s.leave frame frames []).moved (('}', .code) :: Segment.chunk chunk .literal) rest
        .operator)
  | resumeSubstitution {frame : Frame} {frames : List Frame} {chunk rest : Text}
      (hf : s.frames = frame :: frames) (ho : frame.opener = .substitution)
      (hc : IsChunk .substitution chunk) :
    Step s (('}', .code) :: Segment.chunk chunk .substitution)
      ((s.leave frame frames []).enter .substitution none
        (s.cursor.before.pass (('}', .code) :: of .chunk chunk)) rest)
  | name {name rest : Text} (hw : IsWord name rest) (hs : stops isSpace name = true)
      (hi : name = importWord → afterDot s.cursor.before = true)
      (he : name = exportWord → s.frames = [] → afterDot s.cursor.before = true) :
    Step s (of .code name) (s.moved (of .code name) rest (expectsBehindWord name))
  | dynamic {gap : Segment} {rest : Text} (hd : afterDot s.cursor.before = false)
      (hw : IsWord importWord (gap.text ++ '(' :: rest)) (hg : Trivia gap ('(' :: rest)) :
    Step s (of .code importWord ++ (gap ++ [('(', .code)]))
      (s.enter (.bracket .round) (some s.cursor.before.length)
        (s.cursor.before.pass (of .code importWord ++ gap)) rest)
  | property {gap : Segment} {rest : Text} (hd : afterDot s.cursor.before = false)
      (hw : IsWord importWord (gap.text ++ rest)) (hg : Trivia gap rest)
      (hr : rest.head? = some '.' ∨ s.frames ≠ [] ∧ rest.head? ≠ some '(') :
    Step s (of .code importWord ++ gap) (s.moved (of .code importWord ++ gap) rest .operator)
  | bare {gap : Segment} {quote : Char} {body rest : Text} (hd : afterDot s.cursor.before = false)
      (hf : s.frames = [])
      (hw : IsWord importWord (gap.text ++ ((Segment.string quote body).text ++ rest)))
      (hg : Trivia gap ((Segment.string quote body).text ++ rest)) (hq : isQuote quote = true)
      (hb : IsStringBody quote body) :
    Step s (of .code importWord ++ (gap ++ Segment.string quote body))
      (s.declared (of .code importWord ++ (gap ++ Segment.string quote body)) rest (some body)
        .operator)
  | importClause {gap segment : Segment} {specifier : Option Text} {rest : Text}
      (hd : afterDot s.cursor.before = false) (hf : s.frames = [])
      (hw : IsWord importWord (gap.text ++ (segment.text ++ rest)))
      (hg : Trivia gap (segment.text ++ rest)) (hq : beginsQuote (segment.text ++ rest) = false)
      (hr : (segment.text ++ rest).head? ≠ some '(' ∧ (segment.text ++ rest).head? ≠ some '.')
      (hc : ImportClause segment specifier rest) :
    Step s (of .code importWord ++ (gap ++ segment))
      (s.declared (of .code importWord ++ (gap ++ segment)) rest specifier .operator)
  | exportClause {segment : Segment} {specifier : Option Text} {rest : Text}
      (hd : afterDot s.cursor.before = false) (hf : s.frames = [])
      (hw : IsWord exportWord (segment.text ++ rest)) (hc : ExportClause segment specifier rest) :
    Step s (of .code exportWord ++ segment)
      (s.declared (of .code exportWord ++ segment) rest specifier (expectsBehindExport specifier))
  | number {c : Char} {tail rest : Text} (hc : State.beginsNumber c (tail ++ rest) = true)
      (ht : tail.all State.isNumberPart = true) (hr : stops State.isNumberPart rest = true) :
    Step s (of .code (c :: tail)) (s.moved (of .code (c :: tail)) rest .operator)
  | mark {c : Char} {rest : Text} (hc : IsMark c rest) :
    Step s [(c, .code)] (s.moved [(c, .code)] rest (expectsBehindMark c))

/-! ### Steps by their first character -/

namespace State

variable (s : State) (rest : Text)

/-- A space is passed, and the same is expected behind it. -/
theorem step_space {c : Char} (hc : isSpace c = true) :
  s.step c rest = .ok (s.moved [(c, .code)] rest s.expects)
  := by
  simp [step, hc, moved, goto]

/-- A slash begins a comment, a regular expression or a division. -/
theorem step_slash :
  s.step '/' rest = s.slash s.cursor.before rest
  := by
  rw [step, if_neg (by decide), if_pos rfl]

/-- A quotation mark is neither a space nor a slash. -/
theorem ne_of_isQuote {c : Char} (hc : isQuote c = true) :
  isSpace c = false ∧ c ≠ '/'
  := by
  simp only [isQuote, Bool.or_eq_true, beq_iff_eq] at hc
  rcases hc with rfl | rfl
  · decide
  · decide

/-- A quotation mark begins a string. -/
theorem step_quote {c : Char} (hc : isQuote c = true) :
  s.step c rest
    = (readString s.cursor.before c rest).map fun cursor =>
        { s with cursor, expects := .operator }
  := by
  obtain ⟨hspace, hslash⟩ := ne_of_isQuote hc
  rw [step, if_neg (by simp [hspace]), if_neg hslash, if_pos hc]

/-- A backtick begins a template literal. -/
theorem step_backtick :
  s.step '\x60' rest
    = s.template s.cursor.before.length (s.cursor.before.add .code ['\x60']) rest
  := by
  rw [step, if_neg (by decide), if_neg (by decide), if_neg (by decide), if_pos rfl]

/-- An opening bracket opens a level. -/
theorem step_opening (b : Bracket) :
  s.step b.opening rest = .ok (s.enter (.bracket b) none s.cursor.before rest)
  := by
  cases b <;> rfl

/-- A closing bracket closes the innermost level. -/
theorem step_closing (b : Bracket) :
  s.step b.closing rest = s.close b s.cursor.before rest
  := by
  cases b <;> rfl

/-- The characters that begin a word begin nothing else, apart from the byte order mark. -/
theorem ne_of_isIdentifierStart {c : Char} (h : isIdentifierStart c = true) :
  c ≠ '/' ∧ isQuote c = false ∧ c ≠ '\x60' ∧ Bracket.ofOpening? c = none
    ∧ Bracket.ofClosing? c = none
  := by
  refine ⟨?_, ?_, ?_, ?_, ?_⟩
  · rintro rfl
    exact absurd h (by decide)
  · rw [← Bool.not_eq_true]
    intro hq
    simp only [isQuote, Bool.or_eq_true, beq_iff_eq] at hq
    rcases hq with rfl | rfl
    · exact absurd h (by decide)
    · exact absurd h (by decide)
  · rintro rfl
    exact absurd h (by decide)
  · rw [Option.eq_none_iff_forall_ne_some]
    intro b hb
    rw [Bracket.ofOpening?_eq_some_iff] at hb
    subst hb
    revert h
    cases b <;> decide
  · rw [Option.eq_none_iff_forall_ne_some]
    intro b hb
    rw [Bracket.ofClosing?_eq_some_iff] at hb
    subst hb
    revert h
    cases b <;> decide

/-- A character that may begin a word begins one. -/
theorem step_word {c : Char} (hc : isIdentifierStart c = true) (hs : isSpace c = false) :
  s.step c rest = s.word s.cursor.before c rest
  := by
  obtain ⟨hslash, hquote, hbacktick, hopening, hclosing⟩ := ne_of_isIdentifierStart hc
  simp [step, hs, hslash, hquote, hbacktick, hopening, hclosing, hc]

/-- The characters that begin a number begin nothing else. -/
theorem ne_of_beginsNumber {c : Char} {rest : Text} (h : beginsNumber c rest = true) :
  isSpace c = false ∧ c ≠ '/' ∧ isQuote c = false ∧ c ≠ '\x60'
    ∧ Bracket.ofOpening? c = none ∧ Bracket.ofClosing? c = none ∧ isIdentifierStart c = false
  := by
  simp only [beginsNumber, Bool.or_eq_true, Bool.and_eq_true, beq_iff_eq] at h
  obtain h | ⟨rfl, -⟩ := h
  · have hrange : 48 ≤ c.toNat ∧ c.toNat ≤ 57 := by
      simp only [Char.isDigit, ge_iff_le, Bool.and_eq_true, decide_eq_true_eq] at h
      exact h
    have hc : c = Char.ofNat c.toNat := c.ofNat_toNat.symm
    generalize c.toNat = n at hrange hc
    subst hc
    obtain ⟨hlow, hhigh⟩ := hrange
    interval_cases n <;> decide
  · decide

/-- A digit begins a number, and so does a dot with a digit behind it. -/
theorem step_number {c : Char} {rest : Text} (hc : beginsNumber c rest = true) :
  s.step c rest
    = .ok (s.goto (s.cursor.before.add .code (c :: rest.takeWhile isNumberPart))
        (rest.dropWhile isNumberPart) .operator)
  := by
  obtain ⟨hspace, hslash, hquote, hbacktick, hopening, hclosing, hword⟩ := ne_of_beginsNumber hc
  simp [step, hspace, hslash, hquote, hbacktick, hopening, hclosing, hword, hc]

/-- Any other character is passed alone. -/
theorem step_mark {c : Char} {rest : Text} (hc : IsMark c rest) :
  s.step c rest = .ok (s.moved [(c, .code)] rest (expectsBehindMark c))
  := by
  simp [step, hc.not_space, hc.ne_slash, hc.not_quote, hc.ne_backtick, hc.not_opening,
    hc.not_closing, hc.not_identifier, hc.not_number, moved]

end State

/-! ### Steps are exact -/

section

variable {s n : State} {before : Trail} {c : Char} {rest : Text}

/-- A template literal goes on up to its end or its next substitution. -/
theorem template_eq_ok_iff {opened : Nat} :
  s.template opened before rest = .ok n
    ↔ ∃ chunk behind, (IsChunk .literal chunk ∧ rest = chunk ++ '\x60' :: behind
        ∧ n = s.goto (before.pass (Segment.chunk chunk .literal)) behind .operator)
      ∨ (IsChunk .substitution chunk ∧ rest = chunk ++ '$' :: '{' :: behind
        ∧ n = s.enter .substitution none (before.pass (of .chunk chunk)) behind)
  := by
  unfold State.template
  constructor
  · intro h
    split at h
    · cases h
    · rename_i chunk behind hc
      obtain ⟨hchunk, rfl⟩ := templateChunk?_eq_some_iff.mp hc
      cases h
      exact ⟨chunk, behind, .inl ⟨hchunk, rfl, by simp [Segment.chunk]⟩⟩
    · rename_i chunk behind hc
      obtain ⟨hchunk, rfl⟩ := templateChunk?_eq_some_iff.mp hc
      cases h
      exact ⟨chunk, behind, .inr ⟨hchunk, rfl, by simp⟩⟩
  · rintro ⟨chunk, behind, ⟨hc, rfl, rfl⟩ | ⟨hc, rfl, rfl⟩⟩
    · have hread : templateChunk? (chunk ++ '\x60' :: behind) = some (chunk, .literal, behind) :=
        templateChunk?_eq_some_iff.mpr ⟨hc, rfl⟩
      simp [hread, Segment.chunk]
    · have hread : templateChunk? (chunk ++ '$' :: '{' :: behind)
          = some (chunk, .substitution, behind) :=
        templateChunk?_eq_some_iff.mpr ⟨hc, rfl⟩
      simp [hread]

/-- The bracket that closes a substitution takes up its template literal again. -/
theorem step_resume {frame : Frame} {frames : List Frame} (hf : s.frames = frame :: frames)
    (ho : frame.opener = .substitution) :
  s.step '}' rest
    = (s.leave frame frames []).template frame.position (s.cursor.before.pass [('}', .code)]) rest
  := by
  have hstep := s.step_closing rest .curly
  rw [Bracket.closing] at hstep
  simp [hstep, State.close, hf, ho, State.leave, Bracket.closing]

/-- A word is an import, an export or a name. -/
theorem word_eq {tail : Text} (hw : IsWord (c :: tail) rest) :
  s.word before c (tail ++ rest)
    = if c :: tail = importWord ∧ afterDot before = false then
        s.importStatement before.length (before.pass (of .code (c :: tail))) rest
      else if c :: tail = exportWord ∧ s.frames = [] ∧ afterDot before = false then
        (exportClause before.length (before.pass (of .code (c :: tail))) rest).map s.declare
      else .ok (s.goto (before.pass (of .code (c :: tail))) rest (expectsBehindWord (c :: tail)))
  := by
  unfold State.word
  simp only [wordOf_append hw, behindWord_append hw, Trail.add_eq_pass]

/-- A step that begins with the word `import` where a declaration may stand. -/
theorem step_import (hw : IsWord importWord rest) (hd : afterDot s.cursor.before = false) :
  s.step 'i' (['m', 'p', 'o', 'r', 't'] ++ rest)
    = s.importStatement s.cursor.before.length (s.cursor.before.pass (of .code importWord)) rest
  := by
  rw [State.step_word s _ (by decide) (by decide), word_eq hw, if_pos ⟨rfl, hd⟩]
  rfl

section

variable {statementStart : Nat} {gap : Segment}

/-- Behind the word `import` a round bracket opens a dynamic import. -/
theorem importStatement_dynamic (hg : Trivia gap ('(' :: rest)) :
  s.importStatement statementStart before (gap.text ++ '(' :: rest)
    = .ok (s.enter (.bracket .round) (some statementStart) (before.pass gap) rest)
  := by
  simp [State.importStatement, hg.skipTrivia_eq]

/-- Behind the word `import` a dot makes it a name, and inside of brackets so does all but a round bracket. -/
theorem importStatement_property (hg : Trivia gap rest)
    (hr : rest.head? = some '.' ∨ s.frames ≠ [] ∧ rest.head? ≠ some '(') :
  s.importStatement statementStart before (gap.text ++ rest)
    = .ok (s.goto (before.pass gap) rest .operator)
  := by
  unfold State.importStatement
  rw [hg.skipTrivia_eq]
  obtain hdot | ⟨hframes, hround⟩ := hr
  · cases rest with
    | nil => cases hdot
    | cons c tail =>
      cases hdot
      rfl
  · simp only
    split
    · exact absurd rfl hround
    · rfl
    · rw [if_neg (by simpa using hframes)]

/-- Behind the word `import` a string is the specifier. -/
theorem importStatement_bare {quote : Char} (hf : s.frames = []) (hg : Trivia gap (quote :: rest))
    (hq : isQuote quote = true) :
  s.importStatement statementStart before (gap.text ++ quote :: rest)
    = (readSpecifier statementStart (before.pass gap) quote rest).map s.declare
  := by
  unfold State.importStatement
  rw [hg.skipTrivia_eq]
  simp only
  split
  · rename_i h
    cases h
    exact absurd hq (by decide)
  · rename_i h
    cases h
    exact absurd hq (by decide)
  · simp [hf, hq]

/-- Behind the word `import` anything else is a clause. -/
theorem importStatement_clause (hf : s.frames = []) (hg : Trivia gap rest) (hn : rest ≠ [])
    (hq : beginsQuote rest = false) (hr : rest.head? ≠ some '(' ∧ rest.head? ≠ some '.') :
  s.importStatement statementStart before (gap.text ++ rest)
    = (importClause statementStart (before.pass gap) rest).map s.declare
  := by
  unfold State.importStatement
  rw [hg.skipTrivia_eq]
  simp only
  split
  · exact absurd rfl hr.1
  · exact absurd rfl hr.2
  · cases rest with
    | nil => exact absurd rfl hn
    | cons c tail =>
      have hq : isQuote c = false := by simpa [beginsQuote] using hq
      simp [hf, hq]

end

/-- The clause of an import passes something or stands before something. -/
theorem ImportClause.ne_nil {segment : Segment} {specifier : Option Text}
    (h : ImportClause segment specifier rest) :
  segment.text ++ rest ≠ []
  := by
  cases h with
  | stop => simp
  | braces => simp
  | mark => simp
  | word ht hw =>
    cases hw
    simp
  | loneFrom => simp [fromWord]
  | specifier => simp [fromWord]

/-- Every step of the relation is one that the scanner takes. -/
theorem Step.step_eq {segment : Segment} (h : Step s segment n) :
  ∃ c tail, segment.text ++ n.cursor.rest = c :: tail ∧ s.step c tail = .ok n
  := by
  cases h with
  | @space c rest hc => exact ⟨c, rest, rfl, s.step_space rest hc⟩
  | @comment comment rest hc =>
    obtain ⟨tail, ht⟩ := exists_of_beginsComment hc.beginsComment
    have hread := readComment?_of_isComment hc s.cursor.before
    rw [ht] at hread
    refine ⟨'/', tail, by simpa [State.moved, State.goto] using ht, ?_⟩
    simp [State.step_slash, State.slash, hread, State.moved, State.goto]
  | @division rest he hc =>
    refine ⟨'/', rest, rfl, ?_⟩
    simp [State.step_slash, State.slash, readComment?_eq_none_iff.mpr hc, he, State.moved]
  | @pattern body flags rest he hc hb hf hr =>
    have hread : patternBody? false (body ++ '/' :: (flags ++ rest)) = some (body, flags ++ rest) :=
      patternBody?_eq_some_iff.mpr ⟨hb, rfl⟩
    refine ⟨'/', body ++ '/' :: (flags ++ rest), by simp [State.moved, State.goto], ?_⟩
    simp [State.step_slash, State.slash, readComment?_eq_none_iff.mpr hc, he, hread,
      takeWhile_append_of_stops hf hr, behindWord, dropWhile_append_of_stops hf hr, State.moved,
      Segment.pattern]
  | @string quote body rest hq hb =>
    have hread : readString s.cursor.before quote (body ++ quote :: rest)
        = .ok ⟨s.cursor.before.pass (Segment.string quote body), rest⟩ :=
      readString_eq_ok_iff.mpr ⟨body, rest, hb, rfl, rfl⟩
    refine ⟨quote, body ++ quote :: rest, by simp [State.moved, State.goto], ?_⟩
    simp [State.step_quote s _ hq, hread, State.moved, State.goto, Except.map]
  | @literal chunk rest hc =>
    refine ⟨'\x60', chunk ++ '\x60' :: rest, by simp [State.moved, State.goto, ChunkEnd.text], ?_⟩
    rw [State.step_backtick, template_eq_ok_iff]
    exact ⟨chunk, rest, .inl ⟨hc, rfl, by simp [State.moved]⟩⟩
  | @substitution chunk rest hc =>
    refine ⟨'\x60', chunk ++ '$' :: '{' :: rest, by simp [State.enter, ChunkEnd.text], ?_⟩
    rw [State.step_backtick, template_eq_ok_iff]
    exact ⟨chunk, rest, .inr ⟨hc, rfl, by simp⟩⟩
  | @opening b rest => exact ⟨b.opening, rest, rfl, s.step_opening rest b⟩
  | @closing b frame frames rest hf ho =>
    refine ⟨b.closing, rest, rfl, ?_⟩
    simp [State.step_closing, State.close, hf, ho, State.leave, State.moved, State.goto]
  | @resumeLiteral frame frames chunk rest hf ho hc =>
    refine ⟨'}', chunk ++ '\x60' :: rest, by simp [State.moved, State.goto, ChunkEnd.text], ?_⟩
    rw [step_resume hf ho, template_eq_ok_iff]
    exact ⟨chunk, rest, .inl ⟨hc, rfl, by simp [State.moved, State.leave]⟩⟩
  | @resumeSubstitution frame frames chunk rest hf ho hc =>
    refine ⟨'}', chunk ++ '$' :: '{' :: rest, by simp [State.enter, ChunkEnd.text], ?_⟩
    rw [step_resume hf ho, template_eq_ok_iff]
    exact ⟨chunk, rest, .inr ⟨hc, rfl, by simp⟩⟩
  | @name name rest hw hs hi he =>
    cases hw with
    | @mk c tail _ hc ht hr =>
      have hs : isSpace c = false := by simpa [stops] using hs
      refine ⟨c, tail ++ rest, by simp [State.moved, State.goto], ?_⟩
      rw [State.step_word s _ hc hs, word_eq (.mk hc ht hr), if_neg, if_neg]
      · rfl
      · rintro ⟨hname, hframes, hdot⟩
        rw [he hname hframes] at hdot
        cases hdot
      · rintro ⟨hname, hdot⟩
        rw [hi hname] at hdot
        cases hdot
  | @dynamic gap rest hd hw hg =>
    refine ⟨'i', ['m', 'p', 'o', 'r', 't'] ++ (gap.text ++ '(' :: rest),
      by simp [State.enter, importWord], ?_⟩
    rw [step_import hw hd, importStatement_dynamic hg]
    simp
  | @property gap rest hd hw hg hr =>
    refine ⟨'i', ['m', 'p', 'o', 'r', 't'] ++ (gap.text ++ rest),
      by simp [State.moved, State.goto, importWord], ?_⟩
    rw [step_import hw hd, importStatement_property hg hr]
    simp [State.moved]
  | @bare gap quote body rest hd hf hw hg hq hb =>
    refine ⟨'i', ['m', 'p', 'o', 'r', 't'] ++ (gap.text ++ ((Segment.string quote body).text ++ rest)),
      by simp [State.declared, State.declare, Declaration.behind, importWord], ?_⟩
    rw [step_import hw hd]
    simp only [Segment.text_string, List.cons_append, List.append_assoc, List.nil_append] at hg ⊢
    rw [importStatement_bare hf hg hq, readSpecifier_eq_ok_iff.mpr ⟨body, rest, hb, rfl, rfl⟩]
    simp [State.declared, Except.map]
  | @importClause gap segment specifier rest hd hf hw hg hq hr hc =>
    refine ⟨'i', ['m', 'p', 'o', 'r', 't'] ++ (gap.text ++ (segment.text ++ rest)),
      by simp [State.declared, State.declare, Declaration.behind, importWord], ?_⟩
    rw [step_import hw hd, importStatement_clause hf hg hc.ne_nil hq hr, hc.importClause_eq]
    simp [State.declared, Except.map]
  | @exportClause segment specifier rest hd hf hw hc =>
    refine ⟨'e', ['x', 'p', 'o', 'r', 't'] ++ (segment.text ++ rest),
      by simp [State.declared, State.declare, Declaration.behind, exportWord], ?_⟩
    rw [State.step_word s _ (by decide) (by decide), word_eq hw,
      if_neg (fun h => absurd h.1 (by decide)), if_pos ⟨rfl, hf, hd⟩, hc.exportClause_eq]
    simp [State.declared, Except.map, exportWord]
  | @number c tail rest hc ht hr =>
    refine ⟨c, tail ++ rest, by simp [State.moved, State.goto], ?_⟩
    rw [State.step_number s hc, takeWhile_append_of_stops ht hr, dropWhile_append_of_stops ht hr]
    simp [State.moved]
  | @mark c rest hc => exact ⟨c, rest, rfl, s.step_mark hc⟩

/-- What the scanner does at a slash is a step of the relation. -/
theorem exists_of_slash (h : s.slash s.cursor.before rest = .ok n) :
  ∃ segment, Step s segment n ∧ '/' :: rest = segment.text ++ n.cursor.rest
  := by
  unfold State.slash at h
  split at h
  · cases h
  · rename_i cursor hc
    obtain ⟨comment, behind, hcomment, he, rfl⟩ := exists_of_readComment? hc
    cases h
    exact ⟨_, .comment hcomment, by simpa [State.moved, State.goto] using he⟩
  · rename_i hn
    have hc := readComment?_eq_none_iff.mp hn
    split at h
    · rename_i he
      cases h
      refine ⟨[('/', .code)], ?_, rfl⟩
      have hstep := Step.division he hc
      simpa [State.moved] using hstep
    · rename_i he
      split at h
      · cases h
      · rename_i body behind hb
        obtain ⟨hbody, rfl⟩ := patternBody?_eq_some_iff.mp hb
        have hparts : behind.takeWhile isIdentifierPart ++ behindWord behind = behind :=
          List.takeWhile_append_dropWhile
        cases h
        refine ⟨Segment.pattern body (behind.takeWhile isIdentifierPart), ?_, ?_⟩
        · rw [← hparts] at hc
          have hstep := Step.pattern he hc hbody List.all_takeWhile (stops_dropWhile _ _)
          simpa [State.moved, Segment.pattern] using hstep
        · simp [State.goto, hparts]

/-- What the scanner does at a closing bracket is a step of the relation. -/
theorem exists_of_close {b : Bracket} (h : s.close b s.cursor.before rest = .ok n) :
  ∃ segment, Step s segment n ∧ b.closing :: rest = segment.text ++ n.cursor.rest
  := by
  unfold State.close at h
  split at h
  · cases h
  · rename_i frame frames hf
    simp only at h
    split at h
    · rename_i ho
      cases h
      refine ⟨[(b.closing, .code)], ?_, rfl⟩
      have hstep := @Step.closing s _ _ _ rest hf ho
      simpa [State.moved, State.leave, State.goto] using hstep
    · split at h
      · rename_i ho
        obtain ⟨ho, rfl⟩ := ho
        obtain ⟨chunk, behind, ⟨hc, rfl, rfl⟩ | ⟨hc, rfl, rfl⟩⟩ := template_eq_ok_iff.mp h
        · have hstep := @Step.resumeLiteral s _ _ _ behind hf ho hc
          refine ⟨('}', .code) :: Segment.chunk chunk .literal, ?_, ?_⟩
          · simpa [State.moved, State.leave, State.goto, Bracket.closing] using hstep
          · simp [State.goto, ChunkEnd.text, Bracket.closing]
        · have hstep := @Step.resumeSubstitution s _ _ _ behind hf ho hc
          refine ⟨('}', .code) :: Segment.chunk chunk .substitution, ?_, ?_⟩
          · simpa [State.leave, State.enter, Bracket.closing] using hstep
          · simp [State.enter, ChunkEnd.text, Bracket.closing]
      · cases h

/-- What the scanner does behind the word `import` is a step of the relation. -/
theorem exists_of_importStatement (hd : afterDot s.cursor.before = false)
    (hw : IsWord importWord rest)
    (h : s.importStatement s.cursor.before.length (s.cursor.before.pass (of .code importWord)) rest
      = .ok n) :
  ∃ segment, Step s segment n ∧ importWord ++ rest = segment.text ++ n.cursor.rest
  := by
  cases ht : skipTrivia (s.cursor.before.pass (of .code importWord)) rest with
  | error e => simp [State.importStatement, ht] at h
  | ok cursor =>
    obtain ⟨gap, next, hg, rfl, -⟩ := exists_of_skipTrivia ht
    by_cases hround : next.head? = some '('
    · obtain ⟨behind, rfl⟩ := List.head?_eq_some_iff.mp hround
      rw [importStatement_dynamic hg, Trail.pass_pass] at h
      cases h
      exact ⟨_, .dynamic hd hw hg, by simp [State.enter]⟩
    by_cases hproperty : next.head? = some '.' ∨ s.frames ≠ [] ∧ next.head? ≠ some '('
    · rw [importStatement_property hg hproperty, Trail.pass_pass] at h
      cases h
      exact ⟨_, .property hd hw hg hproperty, by simp [State.goto]⟩
    have hf : s.frames = [] := by
      by_contra hframes
      apply hproperty (.inr ⟨hframes, hround⟩)
    by_cases hq : beginsQuote next = true
    · obtain ⟨quote, tail, rfl, hq⟩ := exists_of_beginsQuote hq
      rw [importStatement_bare hf hg hq] at h
      obtain ⟨d, hr, rfl⟩ := exists_of_map_eq_ok h
      obtain ⟨body, behind, hb, rfl, rfl⟩ := readSpecifier_eq_ok_iff.mp hr
      have hs : quote :: (body ++ quote :: behind)
          = (Segment.string quote body).text ++ behind := by simp
      rw [hs] at hw hg
      refine ⟨of .code importWord ++ (gap ++ Segment.string quote body), ?_, ?_⟩
      · have hstep := Step.bare hd hf hw hg hq hb
        simpa [State.declared] using hstep
      · simp [State.declare, Declaration.behind]
    · rw [Bool.not_eq_true] at hq
      have hn : next ≠ [] := by
        rintro rfl
        unfold State.importStatement at h
        rw [hg.skipTrivia_eq] at h
        simp [hf] at h
      rw [importStatement_clause hf hg hn hq ⟨hround, fun hdot => hproperty (.inl hdot)⟩] at h
      obtain ⟨d, hr, rfl⟩ := exists_of_map_eq_ok h
      obtain ⟨segment, specifier, behind, hc, rfl, rfl⟩ := exists_of_importClause hr
      refine ⟨of .code importWord ++ (gap ++ segment), ?_, ?_⟩
      · have hstep :=
          Step.importClause hd hf hw hg hq ⟨hround, fun hdot => hproperty (.inl hdot)⟩ hc
        simpa [State.declared] using hstep
      · simp [State.declare, Declaration.behind]

/-- What the scanner does at a word is a step of the relation. -/
theorem exists_of_word (hc : isIdentifierStart c = true) (hs : isSpace c = false)
    (h : s.word s.cursor.before c rest = .ok n) :
  ∃ segment, Step s segment n ∧ c :: rest = segment.text ++ n.cursor.rest
  := by
  have hw := isWord_wordOf hc rest
  have hparts := wordOf_append_behindWord c rest
  have hstops : stops isSpace (wordOf c rest) = true := by simpa [stops, wordOf] using hs
  unfold State.word at h
  simp only [Trail.add_eq_pass] at h
  split at h
  · rename_i himport
    obtain ⟨hname, hdot⟩ := himport
    rw [hname] at h hw hparts
    obtain ⟨segment, hstep, he⟩ := exists_of_importStatement hdot hw h
    exact ⟨segment, hstep, hparts.symm.trans he⟩
  · rename_i hi
    split at h
    · rename_i hexport
      obtain ⟨hname, hf, hdot⟩ := hexport
      rw [hname] at h hw hparts
      obtain ⟨d, hd, rfl⟩ := exists_of_map_eq_ok h
      obtain ⟨segment, specifier, behind, hclause, he, rfl⟩ := exists_of_exportClause hd
      rw [he] at hw hparts
      refine ⟨of .code exportWord ++ segment, ?_, ?_⟩
      · have hstep := Step.exportClause hdot hf hw hclause
        simpa [State.declared] using hstep
      · simpa [State.declare, Declaration.behind] using hparts.symm
    · rename_i he
      cases h
      refine ⟨_, .name hw hstops ?_ ?_, by simpa [State.goto] using hparts.symm⟩
      · intro hname
        simpa [hname] using hi
      · intro hname hf
        simpa [hname, hf] using he

/-- Every step of the scanner is one of those that `Step` lists. -/
theorem exists_of_step (h : s.step c rest = .ok n) :
  ∃ segment, Step s segment n ∧ c :: rest = segment.text ++ n.cursor.rest
  := by
  unfold State.step at h
  simp only at h
  split at h
  · rename_i hspace
    cases h
    refine ⟨[(c, .code)], ?_, rfl⟩
    have hstep := @Step.space s _ rest hspace
    simpa [State.moved, State.goto] using hstep
  rename_i hspace
  split at h
  · rename_i hslash
    subst hslash
    apply exists_of_slash h
  rename_i hslash
  split at h
  · rename_i hquote
    obtain ⟨cursor, hr, rfl⟩ := exists_of_map_eq_ok h
    obtain ⟨body, behind, hb, rfl, rfl⟩ := readString_eq_ok_iff.mp hr
    exact ⟨_, .string hquote hb, by simp⟩
  rename_i hquote
  split at h
  · rename_i hbacktick
    subst hbacktick
    rw [Trail.add_eq_pass] at h
    obtain ⟨chunk, behind, ⟨hc, rfl, rfl⟩ | ⟨hc, rfl, rfl⟩⟩ := template_eq_ok_iff.mp h
    · have hstep := @Step.literal s _ behind hc
      refine ⟨('\x60', .code) :: Segment.chunk chunk .literal, ?_, ?_⟩
      · simpa [State.moved] using hstep
      · simp [State.goto, ChunkEnd.text]
    · have hstep := @Step.substitution s _ behind hc
      refine ⟨('\x60', .code) :: Segment.chunk chunk .substitution, ?_, ?_⟩
      · simpa using hstep
      · simp [ChunkEnd.text]
  rename_i hbacktick
  split at h
  · rename_i b hb
    obtain rfl := Bracket.ofOpening?_eq_some_iff.mp hb
    cases h
    exact ⟨_, .opening b, rfl⟩
  rename_i hopening
  split at h
  · rename_i b hb
    obtain rfl := Bracket.ofClosing?_eq_some_iff.mp hb
    apply exists_of_close h
  rename_i hclosing
  split at h
  · rename_i hstart
    apply exists_of_word hstart (by simpa using hspace) h
  rename_i hstart
  split at h
  · rename_i hnumber
    cases h
    have hparts : rest.takeWhile State.isNumberPart ++ rest.dropWhile State.isNumberPart = rest :=
      List.takeWhile_append_dropWhile
    rw [← hparts] at hnumber
    have hstep := @Step.number s _ _ _ hnumber List.all_takeWhile (stops_dropWhile _ _)
    refine ⟨of .code (c :: rest.takeWhile State.isNumberPart), ?_, ?_⟩
    · simpa [State.moved] using hstep
    · simp [State.goto]
  · rename_i hnumber
    cases h
    have hmark : IsMark c rest := by
      constructor <;> simp_all
    have hstep := @Step.mark s _ _ hmark
    exact ⟨[(c, .code)], by simpa [State.moved] using hstep, rfl⟩

end

end ImportCensus.Scan
