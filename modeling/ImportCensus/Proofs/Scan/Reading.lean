import ImportCensus.Proofs.Scan.Segment

/-!
# What the readers accept

For every reader of cursors there is a relation between the segment that it passes and the text
behind the segment.  The relations speak of characters and their parts only, neither of offsets nor
of errors, and they are exact: a reader answers a place precisely where its relation holds.
-/

namespace ImportCensus.Scan

open Segment (of)

/-! ### Spaces and comments -/

/-- Whether a text begins neither with a space nor with a comment. -/
def isSettled (text : Text) : Bool :=
  stops isSpace text && !beginsComment text

/-- Spaces and comments, given what stands behind them. -/
inductive Trivia : Segment → Text → Prop where
  | settled {rest : Text} (h : isSettled rest = true) :
    Trivia [] rest
  | space {c : Char} {segment : Segment} {rest : Text} (hc : isSpace c = true)
      (h : Trivia segment rest) :
    Trivia ((c, .code) :: segment) rest
  | comment {comment : Text} {segment : Segment} {rest : Text}
      (hc : IsComment comment (segment.text ++ rest)) (h : Trivia segment rest) :
    Trivia (of .comment comment ++ segment) rest

/-- A comment begins as one. -/
theorem IsComment.beginsComment {comment rest : Text} (h : IsComment comment rest) :
  beginsComment (comment ++ rest) = true
  := by
  cases h with
  | line => rfl
  | block => rfl

/-- Spaces in front of a settled text are passed as they are. -/
theorem trivia_of_isSpace {spaces rest : Text} (hs : ∀ c ∈ spaces, isSpace c = true)
    (hr : isSettled rest = true) :
  Trivia (of .code spaces) rest
  := by
  induction spaces with
  | nil => exact .settled hr
  | cons c spaces ih =>
    rw [List.forall_mem_cons] at hs
    exact .space hs.1 (ih hs.2)

/-- What begins with a comment begins with a slash. -/
theorem exists_of_beginsComment {text : Text} (h : beginsComment text = true) :
  ∃ rest, text = '/' :: rest
  := by
  unfold beginsComment at h
  split at h
  · exact ⟨_, rfl⟩
  · exact ⟨_, rfl⟩
  · cases h

/-- Spaces and comments are skipped one at a time. -/
theorem skipTrivia_cons (before : Trail) (c : Char) (rest : Text) :
  skipTrivia before (c :: rest)
    = if isSpace c then skipTrivia (before.add .code [c]) rest
      else match readComment? before (c :: rest) with
        | none => .ok ⟨before, c :: rest⟩
        | some (.error e) => .error e
        | some (.ok cursor) => skipTrivia cursor.before cursor.rest
  := by
  rw [skipTrivia.eq_def]
  simp only
  split
  · rfl
  · split <;> simp_all

/-- A comment in front is skipped as a whole. -/
theorem skipTrivia_of_isComment {comment rest : Text} (h : IsComment comment rest)
    (before : Trail) :
  skipTrivia before (comment ++ rest) = skipTrivia (before.pass (of .comment comment)) rest
  := by
  have hread := readComment?_of_isComment h before
  obtain ⟨tail, ht⟩ := exists_of_beginsComment h.beginsComment
  rw [ht] at hread ⊢
  rw [skipTrivia_cons, if_neg (by decide), hread]

/-- Nothing is skipped where neither a space nor a comment stands in front. -/
theorem skipTrivia_of_isSettled {text : Text} (h : isSettled text = true) (before : Trail) :
  skipTrivia before text = .ok ⟨before, text⟩
  := by
  cases text with
  | nil => rw [skipTrivia.eq_def]
  | cons c rest =>
    simp only [isSettled, stops, List.head?_cons, Option.all_some, Bool.and_eq_true,
      Bool.not_eq_true'] at h
    rw [skipTrivia_cons, if_neg (by simp [h.1]), readComment?_eq_none_iff.mpr h.2]

/-- The relation `Trivia` gives what is skipped, wherever it stands. -/
theorem Trivia.skipTrivia_eq {segment : Segment} {rest : Text} (h : Trivia segment rest)
    (before : Trail) :
  skipTrivia before (segment.text ++ rest) = .ok ⟨before.pass segment, rest⟩
  := by
  induction h generalizing before with
  | @settled rest h =>
    rw [Segment.text_nil, List.nil_append, Trail.pass_nil, skipTrivia_of_isSettled h]
  | @space c segment rest hc h ih =>
    rw [Segment.text_cons, List.cons_append, skipTrivia_cons, if_pos hc, ih]
    simp
  | @comment comment segment rest hc h ih =>
    rw [Segment.text_append, Segment.text_of, List.append_assoc, skipTrivia_of_isComment hc, ih,
      Trail.pass_pass]

/-- What is skipped is a segment for which `Trivia` holds. -/
theorem exists_of_skipTrivia {before : Trail} {text : Text} {c : Cursor}
    (h : skipTrivia before text = .ok c) :
  ∃ segment rest, Trivia segment rest ∧ text = segment.text ++ rest
    ∧ c = ⟨before.pass segment, rest⟩
  := by
  fun_induction skipTrivia before text with
  | case1 before =>
    cases h
    exact ⟨[], [], .settled rfl, rfl, by simp⟩
  | case2 before c rest hc ih =>
    obtain ⟨segment, behind, ht, rfl, rfl⟩ := ih h
    exact ⟨_, _, .space hc ht, rfl, by simp⟩
  | case3 before c rest hc hn =>
    cases h
    refine ⟨[], _, .settled ?_, rfl, by simp⟩
    simpa [isSettled, stops, readComment?_eq_none_iff.mp hn] using hc
  | case4 => cases h
  | case5 before c rest _ cursor hc ih =>
    obtain ⟨comment, middle, hcomment, he, rfl⟩ := exists_of_readComment? hc
    obtain ⟨segment, behind, ht, rfl, rfl⟩ := ih h
    exact ⟨_, _, .comment hcomment ht, by simp [he], by simp⟩

/-- Spaces and comments stop at a settled text. -/
theorem Trivia.isSettled {segment : Segment} {rest : Text} (h : Trivia segment rest) :
  isSettled rest = true
  := by
  induction h with
  | settled h => exact h
  | space _ _ ih => exact ih
  | comment _ _ ih => exact ih

/-! ### Strings -/

/-- A string is read exactly where one stands, up to its closing quotation mark. -/
theorem readString_eq_ok_iff {before : Trail} {quote : Char} {text : Text} {c : Cursor} :
  readString before quote text = .ok c
    ↔ ∃ body rest, IsStringBody quote body ∧ text = body ++ quote :: rest
        ∧ c = ⟨before.pass (Segment.string quote body), rest⟩
  := by
  unfold readString
  constructor
  · intro h
    split at h
    · cases h
    · rename_i body rest hb
      cases h
      obtain ⟨hbody, rfl⟩ := stringBody?_eq_some_iff.mp hb
      exact ⟨body, rest, hbody, rfl, by simp [Segment.string]⟩
  · rintro ⟨body, rest, hb, rfl, rfl⟩
    rw [stringBody?_eq_some_iff.mpr ⟨hb, rfl⟩]
    simp [Segment.string]

/-- Whether a text begins with a quotation mark. -/
def beginsQuote (text : Text) : Bool :=
  text.head?.any isQuote

/-- What begins with a quotation mark has one in front. -/
theorem exists_of_beginsQuote {text : Text} (h : beginsQuote text = true) :
  ∃ quote rest, text = quote :: rest ∧ isQuote quote = true
  := by
  cases text with
  | nil => cases h
  | cons quote rest => exact ⟨quote, rest, rfl, by simpa [beginsQuote] using h⟩

/-! ### Curly brackets -/

/-- The inside of a clause's curly brackets, up to and with the closing one. -/
inductive Braces : Segment → Text → Prop where
  | close {rest : Text} :
    Braces [('}', .code)] rest
  | string {quote : Char} {body : Text} {segment : Segment} {rest : Text}
      (hq : isQuote quote = true) (hb : IsStringBody quote body) (h : Braces segment rest) :
    Braces (Segment.string quote body ++ segment) rest
  | comment {comment : Text} {segment : Segment} {rest : Text}
      (hc : IsComment comment (segment.text ++ rest)) (h : Braces segment rest) :
    Braces (of .comment comment ++ segment) rest
  | other {c : Char} {segment : Segment} {rest : Text} (hq : isQuote c = false) (hb : c ≠ '}')
      (hc : beginsComment (c :: (segment.text ++ rest)) = false) (h : Braces segment rest) :
    Braces ((c, .code) :: segment) rest

section

variable {p : Char → Bool} {braces : Segment} {rest : Text}

/-- A character of a class without quotation marks, slashes and closing brackets stands between curly
brackets by itself. -/
theorem Braces.of_class {c : Char} (hc : p c = true)
    (hp : p '\'' = false ∧ p '"' = false ∧ p '}' = false ∧ p '/' = false)
    (h : Braces braces rest) :
  Braces ((c, .code) :: braces) rest
  := by
  have hne : ∀ d : Char, p d = false → c ≠ d := by
    rintro d hd rfl
    rw [hc] at hd
    cases hd
  obtain ⟨hsingle, hdouble, hbrace, hslash⟩ := hp
  have hquote : isQuote c = false := by simp [isQuote, hne _ hsingle, hne _ hdouble]
  exact .other hquote (hne _ hbrace) (beginsComment_of_ne (hne _ hslash) _) h

/-- Characters of a class without quotation marks, slashes and closing brackets stand between curly
brackets. -/
theorem Braces.of_forall {text : Text} (ht : ∀ c ∈ text, p c = true)
    (hp : p '\'' = false ∧ p '"' = false ∧ p '}' = false ∧ p '/' = false)
    (h : Braces braces rest) :
  Braces (of .code text ++ braces) rest
  := by
  induction text with
  | nil => exact h
  | cons c text ih =>
    rw [List.forall_mem_cons] at ht
    exact .of_class ht.1 hp (ih ht.2)

end

/-- What stands between curly brackets is skipped by strings, comments and single characters. -/
theorem skipClause_cons (opened : Nat) (before : Trail) (c : Char) (rest : Text) :
  skipClause opened before (c :: rest)
    = if isQuote c then
        match readString before c rest with
        | .error e => .error e
        | .ok cursor => skipClause opened cursor.before cursor.rest
      else if c = '}' then .ok ⟨before.add .code [c], rest⟩
      else
        match readComment? before (c :: rest) with
        | none => skipClause opened (before.add .code [c]) rest
        | some (.error e) => .error e
        | some (.ok cursor) => skipClause opened cursor.before cursor.rest
  := by
  rw [skipClause]
  split
  · split <;> simp_all
  · split
    · rfl
    · split <;> simp_all

/-- The relation `Braces` gives what is skipped up to the closing bracket, wherever it stands. -/
theorem Braces.skipClause_eq {segment : Segment} {rest : Text} (h : Braces segment rest)
    (opened : Nat) (before : Trail) :
  skipClause opened before (segment.text ++ rest) = .ok ⟨before.pass segment, rest⟩
  := by
  induction h generalizing before with
  | close =>
    rw [Segment.text_cons, List.cons_append, skipClause_cons, if_neg (by decide), if_pos rfl]
    simp
  | @string quote body segment rest hq hb h ih =>
    have hread : readString before quote (body ++ quote :: (segment.text ++ rest))
        = .ok ⟨before.pass (Segment.string quote body), segment.text ++ rest⟩ :=
      readString_eq_ok_iff.mpr ⟨_, _, hb, rfl, rfl⟩
    simp only [Segment.text_append, Segment.text_string, List.cons_append, List.append_assoc,
      List.nil_append]
    rw [skipClause_cons, if_pos hq, hread]
    simp only [ih, Trail.pass_pass]
  | @comment comment segment rest hc h ih =>
    have hread := readComment?_of_isComment hc before
    obtain ⟨tail, ht⟩ := exists_of_beginsComment hc.beginsComment
    rw [Segment.text_append, Segment.text_of, List.append_assoc]
    rw [ht] at hread ⊢
    rw [skipClause_cons, if_neg (by decide), if_neg (by decide), hread]
    simp only [ih, Trail.pass_pass]
  | @other c segment rest hq hb hc h ih =>
    rw [Segment.text_cons, List.cons_append, skipClause_cons, if_neg (by simp [hq]), if_neg hb,
      readComment?_eq_none_iff.mpr hc]
    simp [ih]

/-- What is skipped up to the closing bracket is a segment for which `Braces` holds. -/
theorem exists_of_skipClause {opened : Nat} {before : Trail} {text : Text} {c : Cursor}
    (h : skipClause opened before text = .ok c) :
  ∃ segment rest, Braces segment rest ∧ text = segment.text ++ rest
    ∧ c = ⟨before.pass segment, rest⟩
  := by
  fun_induction skipClause opened before text with
  | case1 => cases h
  | case2 => cases h
  | case3 before c rest hq cursor hs ih =>
    obtain ⟨body, middle, hb, rfl, rfl⟩ := readString_eq_ok_iff.mp hs
    obtain ⟨segment, behind, hc, rfl, rfl⟩ := ih h
    exact ⟨_, _, .string hq hb hc, by simp, by simp⟩
  | case4 =>
    cases h
    exact ⟨_, _, .close, rfl, by simp⟩
  | case5 before c rest hq hb hn ih =>
    obtain ⟨segment, behind, hc, rfl, rfl⟩ := ih h
    exact ⟨_, _, .other (by simpa using hq) hb (readComment?_eq_none_iff.mp hn) hc, rfl, by simp⟩
  | case6 => cases h
  | case7 before c rest _ _ cursor hc ih =>
    obtain ⟨comment, middle, hcomment, he, rfl⟩ := exists_of_readComment? hc
    obtain ⟨segment, behind, hbraces, rfl, rfl⟩ := ih h
    exact ⟨_, _, .comment hcomment hbraces, by simp [he], by simp⟩

/-! ### What is left of a source -/

section

variable {before : Trail} {text : Text} {c : Cursor}

/-- Reading a string leaves the source as it is. -/
theorem source_of_readString {quote : Char} (h : readString before quote text = .ok c) :
  c.source = before.text ++ quote :: text
  := by
  obtain ⟨body, rest, -, rfl, rfl⟩ := readString_eq_ok_iff.mp h
  simp [Cursor.source]

/-- Reading a comment leaves the source as it is. -/
theorem source_of_readComment? (h : readComment? before text = some (.ok c)) :
  c.source = before.text ++ text
  := by
  obtain ⟨comment, rest, -, rfl, rfl⟩ := exists_of_readComment? h
  simp [Cursor.source]

/-- Skipping spaces and comments leaves the source as it is. -/
theorem source_of_skipTrivia (h : skipTrivia before text = .ok c) :
  c.source = before.text ++ text
  := by
  obtain ⟨gap, rest, -, rfl, rfl⟩ := exists_of_skipTrivia h
  simp [Cursor.source]

/-- Skipping what stands between curly brackets leaves the source as it is. -/
theorem source_of_skipClause {opened : Nat} (h : skipClause opened before text = .ok c) :
  c.source = before.text ++ text
  := by
  obtain ⟨braces, rest, -, rfl, rfl⟩ := exists_of_skipClause h
  simp [Cursor.source]

end

/-! ### Words -/

/-- A word, given what stands behind it. -/
inductive IsWord : Text → Text → Prop where
  | mk {c : Char} {tail rest : Text} (hc : isIdentifierStart c = true)
      (ht : tail.all isIdentifierPart = true) (hr : stops isIdentifierPart rest = true) :
    IsWord (c :: tail) rest

/-- Every character of a word may stand in one. -/
theorem IsWord.all_isIdentifierPart {name rest : Text} (h : IsWord name rest) :
  name.all isIdentifierPart = true
  := by
  cases h with
  | mk hc ht hr => rw [List.all_cons, isIdentifierPart_of_start hc, ht, Bool.and_self]

/-- The word in front of a text that does not go on with it is read back. -/
theorem wordOf_append {c : Char} {tail rest : Text} (h : IsWord (c :: tail) rest) :
  wordOf c (tail ++ rest) = c :: tail
  := by
  cases h with
  | mk hc ht hr => rw [wordOf, takeWhile_append_of_stops ht hr]

/-- Behind a word stands what does not go on with it. -/
theorem behindWord_append {c : Char} {tail rest : Text} (h : IsWord (c :: tail) rest) :
  behindWord (tail ++ rest) = rest
  := by
  cases h with
  | mk hc ht hr => rw [behindWord, dropWhile_append_of_stops ht hr]

/-- What is read as a word is one, as far as its characters go. -/
theorem isWord_wordOf {c : Char} (hc : isIdentifierStart c = true) (rest : Text) :
  IsWord (wordOf c rest) (behindWord rest)
  := .mk hc List.all_takeWhile (stops_dropWhile _ _)

/-- Whether a text begins with a whole word. -/
def beginsWord (word text : Text) : Bool :=
  match Text.after? word text with
  | none => false
  | some rest => stops isIdentifierPart rest

/-- A text begins with a word where the word stands in front and does not go on. -/
theorem beginsWord_iff {word text : Text} :
  beginsWord word text = true
    ↔ ∃ rest, text = word ++ rest ∧ stops isIdentifierPart rest = true
  := by
  unfold beginsWord
  constructor
  · intro h
    split at h
    · cases h
    · rename_i rest hr
      exact ⟨rest, Text.after?_eq_some_iff.mp hr, h⟩
  · rintro ⟨rest, rfl, h⟩
    simpa using h

@[simp]
theorem beginsWord_append (word rest : Text) :
  beginsWord word (word ++ rest) = stops isIdentifierPart rest
  := by
  simp [beginsWord]

/-- Whether a text begins with a word is told character by character. -/
theorem beginsWord_cons (c d : Char) (word text : Text) :
  beginsWord (c :: word) (d :: text) = (decide (c = d) && beginsWord word text)
  := by
  by_cases h : c = d
  · simp [beginsWord, Text.after?, h]
  · simp [beginsWord, Text.after?, h]

end ImportCensus.Scan
