import ImportCensus.Scan.Character

/-!
# Literals and comments

Readers for what a source holds without code: strings, the chunks of template literals, the
bodies of regular expressions, and comments.  A reader is given the text behind the opening
delimiter and answers the contents and what stands behind the closing one.  A backslash takes
the next character with it, whatever that is, and nothing closes a literal at the end of the
text.
-/

namespace ImportCensus.Scan

/-- A reader's answer with one more text in front of the contents. -/
def withFront {α : Type} (front : Text) : Option (Text × α) → Option (Text × α)
  | none => none
  | some (contents, answer) => some (front ++ contents, answer)

theorem withFront_eq_some {α : Type} {front : Text} {read : Option (Text × α)}
    {contents : Text} {answer : α} (h : withFront front read = some (contents, answer)) :
  ∃ inner, read = some (inner, answer) ∧ contents = front ++ inner
  := by
  match read, h with
  | some (inner, _), h =>
    simp only [withFront, Option.some.injEq, Prod.mk.injEq] at h
    exact ⟨inner, by simp [h.2], h.1.symm⟩

/-- The contents of a string up to `quote`.  A line break ends the search. -/
def stringBody? (quote : Char) : Text → Option (Text × Text)
  | [] => none
  | ['\\'] => none
  | '\\' :: c :: rest => withFront ['\\', c] (stringBody? quote rest)
  | c :: rest =>
    if c = quote then some ([], rest)
    else if isLineBreak c then none
    else withFront [c] (stringBody? quote rest)

/-- How a chunk of a template literal ends. -/
inductive ChunkEnd where
  | literal
  | substitution
  deriving DecidableEq, Repr

/-- The characters that end a chunk. -/
def ChunkEnd.text : ChunkEnd → Text
  | literal => ['\x60']
  | substitution => ['$', '{']

/-- A chunk of a template literal. -/
def templateChunk? : Text → Option (Text × ChunkEnd × Text)
  | [] => none
  | ['\\'] => none
  | '\\' :: c :: rest => withFront ['\\', c] (templateChunk? rest)
  | '$' :: '{' :: rest => some ([], .substitution, rest)
  | c :: rest =>
    if c = '\x60' then some ([], .literal, rest)
    else withFront [c] (templateChunk? rest)

/-- The body of a regular expression.  A slash between square brackets does not end it, and a
line break ends the search. -/
def patternBody? (bracketed : Bool) : Text → Option (Text × Text)
  | [] => none
  | ['\\'] => none
  | '\\' :: c :: rest => withFront ['\\', c] (patternBody? bracketed rest)
  | c :: rest =>
    if isLineBreak c then none
    else if c = '/' && !bracketed then some ([], rest)
    else withFront [c] (patternBody? (c == '[' || (bracketed && c != ']')) rest)

/-- A block comment behind its opening, with its closing. -/
def blockComment? : Text → Option (Text × Text)
  | [] => none
  | '*' :: '/' :: rest => some (['*', '/'], rest)
  | c :: rest => withFront [c] (blockComment? rest)

/-- A line comment behind its opening. -/
def lineComment (text : Text) : Text :=
  text.takeWhile (· != '\n')

/-- What stands behind a line comment. -/
def behindLine (text : Text) : Text :=
  text.dropWhile (· != '\n')

theorem stringBody?_eq {quote : Char} {text body rest : Text}
    (h : stringBody? quote text = some (body, rest)) :
  text = body ++ quote :: rest
  := by
  fun_induction stringBody? quote text generalizing body with
  | case1 => simp at h
  | case2 => simp at h
  | case3 c tail ih =>
    obtain ⟨inner, hi, rfl⟩ := withFront_eq_some h
    simp [ih hi]
  | case4 c tail _ =>
    simp_all
  | case5 => simp at h
  | case6 c tail _ _ _ _ ih =>
    obtain ⟨inner, hi, rfl⟩ := withFront_eq_some h
    simp [ih hi]

theorem templateChunk?_eq {text chunk rest : Text} {stop : ChunkEnd}
    (h : templateChunk? text = some (chunk, stop, rest)) :
  text = chunk ++ stop.text ++ rest
  := by
  fun_induction templateChunk? text generalizing chunk with
  | case1 => simp at h
  | case2 => simp at h
  | case3 c tail ih =>
    obtain ⟨inner, hi, rfl⟩ := withFront_eq_some h
    simp [ih hi]
  | case4 tail =>
    simp only [Option.some.injEq, Prod.mk.injEq] at h
    obtain ⟨rfl, rfl, rfl⟩ := h
    rfl
  | case5 tail _ =>
    simp only [Option.some.injEq, Prod.mk.injEq] at h
    obtain ⟨rfl, rfl, rfl⟩ := h
    rfl
  | case6 c tail _ _ _ _ ih =>
    obtain ⟨inner, hi, rfl⟩ := withFront_eq_some h
    simp [ih hi]

theorem patternBody?_eq {bracketed : Bool} {text body rest : Text}
    (h : patternBody? bracketed text = some (body, rest)) :
  text = body ++ '/' :: rest
  := by
  fun_induction patternBody? bracketed text generalizing body with
  | case1 => simp at h
  | case2 => simp at h
  | case3 _ c tail ih =>
    obtain ⟨inner, hi, rfl⟩ := withFront_eq_some h
    simp [ih hi]
  | case4 => simp at h
  | case5 _ c tail _ _ hc =>
    simp_all
  | case6 _ c tail _ _ _ _ ih =>
    obtain ⟨inner, hi, rfl⟩ := withFront_eq_some h
    simp [ih hi]

theorem blockComment?_eq {text body rest : Text} (h : blockComment? text = some (body, rest)) :
  text = body ++ rest
  := by
  fun_induction blockComment? text generalizing body with
  | case1 => simp at h
  | case2 tail =>
    simp only [Option.some.injEq, Prod.mk.injEq] at h
    obtain ⟨rfl, rfl⟩ := h
    rfl
  | case3 c tail _ ih =>
    obtain ⟨inner, hi, rfl⟩ := withFront_eq_some h
    simp [ih hi]

theorem lineComment_append_behindLine (text : Text) :
  lineComment text ++ behindLine text = text
  := List.takeWhile_append_dropWhile

end ImportCensus.Scan
