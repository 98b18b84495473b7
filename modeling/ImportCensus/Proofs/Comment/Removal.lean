import ImportCensus.Comment

/-!
# Removal character by character

What is removed from a text is told of each of its characters: a character is taken for one of a comment, or it
stays, and what is left of it depends on nothing else.  Inside of a literal every character stays.
-/

namespace ImportCensus.Comment

open Text

/-- Which characters of a text are taken for those of comments, read from inside a context. -/
def skipped : Context → Text → List Bool
  | _, [] => []
  | .code, '/' :: '/' :: rest => true :: true :: skipped .line rest
  | .code, '/' :: '*' :: rest => true :: true :: skipped .block rest
  | .code, c :: rest => false :: skipped (if isDelimiter c then .literal c else .code) rest
  | .literal delimiter, '\\' :: _ :: rest => false :: false :: skipped (.literal delimiter) rest
  | .literal delimiter, c :: rest =>
    if c = delimiter ∨ c = '\n' ∧ delimiter ≠ '\x60' then false :: skipped .code rest
    else false :: skipped (.literal delimiter) rest
  | .line, c :: rest => if c = '\n' then false :: skipped .code rest else true :: skipped .line rest
  | .block, '*' :: '/' :: rest => true :: true :: skipped .code rest
  | .block, _ :: rest => true :: skipped .block rest

/-- What is left of a character when it is taken for one of a comment, or is not. -/
def left? (c : Char) (hidden : Bool) : Option Char :=
  if hidden then (if c = '\n' then some '\n' else none) else some c

/-- A text without its comments is what is left of its characters. -/
theorem removeFrom_eq (context : Context) (text : Text) :
  removeFrom context text = (List.zipWith left? text (skipped context text)).filterMap id
  := by
  fun_induction skipped context text with
  | case1 => simp [removeFrom]
  | case2 rest ih => simp [removeFrom, ih, left?]
  | case3 rest ih => simp [removeFrom, ih, left?]
  | case4 c rest hline hblock ih =>
    rw [removeFrom, ih]
    · simp [left?]
    · exact hline
    · exact hblock
  | case5 delimiter c rest ih => simp [removeFrom, ih, left?]
  | case6 delimiter c rest hescape h ih =>
    rw [removeFrom, if_pos h, ih]
    · simp [left?]
    · exact hescape
  | case7 delimiter c rest hescape h ih =>
    rw [removeFrom, if_neg h, ih]
    · simp [left?]
    · exact hescape
  | case8 rest ih => simp [removeFrom, ih, left?]
  | case9 c rest h ih => simp [removeFrom, ih, left?, h]
  | case10 rest ih => simp [removeFrom, ih, left?]
  | case11 c rest hend ih =>
    rw [removeFrom, ih]
    · by_cases h : c = '\n'
      · simp [left?, h]
      · simp [left?, h]
    · exact hend

section

variable {delimiter c : Char} {rest : Text}

/-- Whether a context is no comment. -/
def Context.isOutside : Context → Bool
  | code => true
  | literal delimiter => isDelimiter delimiter
  | line => false
  | block => false

/-- Behind a character of the code no comment has begun yet. -/
theorem isOutside_behind (c : Char) :
  Context.isOutside (if isDelimiter c then .literal c else .code) = true
  := by
  by_cases hc : isDelimiter c = true
  · rw [if_pos hc]
    exact hc
  · rw [if_neg hc]
    rfl

/-- Inside of a literal a character stays. -/
theorem removeFrom_literal (hc : c ≠ '\\') :
  ∃ context, (isDelimiter delimiter = true → context.isOutside = true)
    ∧ removeFrom (.literal delimiter) (c :: rest) = c :: removeFrom context rest
    ∧ skipped (.literal delimiter) (c :: rest) = false :: skipped context rest
  := by
  have hescape : ∀ (d : Char) (tail : Text), c = '\\' → rest = d :: tail → False := fun _ _ h => absurd h hc
  by_cases hend : c = delimiter ∨ c = '\n' ∧ delimiter ≠ '\x60'
  · refine ⟨.code, fun _ => rfl, ?_, ?_⟩
    · rw [removeFrom, if_pos hend]
      exact hescape
    · rw [skipped, if_pos hend]
      exact hescape
  · refine ⟨.literal delimiter, id, ?_, ?_⟩
    · rw [removeFrom, if_neg hend]
      exact hescape
    · rw [skipped, if_neg hend]
      exact hescape

/-- A character of a literal is kept, and ends the literal where it delimits it or breaks the line. -/
theorem removeFrom_literal_of_ne (hc : c ≠ '\\') (rest : Text) :
  removeFrom (.literal delimiter) (c :: rest)
    = if c = delimiter ∨ c = '\n' ∧ delimiter ≠ '\x60' then c :: removeFrom .code rest
      else c :: removeFrom (.literal delimiter) rest
  := by
  rw [removeFrom]
  exact fun _ _ h => absurd h hc

end

/-- What is left behind the slashes of a line comment does not begin with a slash. -/
theorem head?_removeFrom_line (text : Text) :
  (removeFrom .line text).head? ≠ some '/'
  := by
  induction text with
  | nil => simp [removeFrom]
  | cons c text ih =>
    rw [removeFrom]
    by_cases hc : c = '\n'
    · simp [hc]
    · rwa [if_neg hc]

end ImportCensus.Comment
