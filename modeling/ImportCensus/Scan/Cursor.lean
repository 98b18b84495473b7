import ImportCensus.Scan.Error
import ImportCensus.Scan.Literal

/-!
# Cursors

A place in a source that is being scanned.  What has been passed is kept character by
character, last first, each with the part it plays; what is left is a text.  The offset of a
place is the number of characters passed.  The readers of this module take the characters
before them and the text in front of them, and answer the place behind what they have read.
-/

namespace ImportCensus.Scan

/-- The part that a character plays in a source: it belongs to a comment, to the contents of a
string with the given quotation mark, of a template chunk or of a regular expression, or else
to the code. -/
inductive Part where
  | code
  | comment
  | quoted (quote : Char)
  | chunk
  | pattern
  deriving DecidableEq, Repr

/-- The characters passed, last first, with their parts, and how many they are. -/
structure Trail where
  characters : List (Char × Part)
  length : Nat
  length_eq : length = characters.length
  deriving Repr

namespace Trail

/-- Two trails of the same characters are equal. -/
@[ext]
theorem ext {s t : Trail} (h : s.characters = t.characters) :
  s = t
  := by
  obtain ⟨cs, m, hm⟩ := s
  obtain ⟨ds, n, hn⟩ := t
  cases h
  cases hm
  cases hn
  rfl

/-- The trail in front of a source. -/
def empty : Trail := ⟨[], 0, rfl⟩

/-- A trail that goes on with the characters of a text, all of one part. -/
def add (before : Trail) (part : Part) (text : Text) : Trail where
  characters := (text.map (·, part)).reverse ++ before.characters
  length := text.length + before.length
  length_eq := by simp [before.length_eq]

/-- The characters of a trail, in order. -/
def text (before : Trail) : Text :=
  (before.characters.map Prod.fst).reverse

@[simp]
theorem length_add (before : Trail) (part : Part) (text : Text) :
  (before.add part text).length = text.length + before.length
  := rfl

@[simp]
theorem length_text (before : Trail) :
  before.text.length = before.length
  := by
  simp [text, before.length_eq]

@[simp]
theorem text_add (before : Trail) (part : Part) (text : Text) :
  (before.add part text).text = before.text ++ text
  := by
  simp [add, Trail.text, Function.comp_def]

end Trail

/-- A place in a source. -/
structure Cursor where
  before : Trail
  rest : Text
  deriving Repr

namespace Cursor

/-- The offset of a place. -/
def position (c : Cursor) : Nat :=
  c.before.length

/-- The whole source around a place. -/
def source (c : Cursor) : Text :=
  c.before.text ++ c.rest

end Cursor

/-- The place behind a string, given the text behind its opening quotation mark. -/
def readString (before : Trail) (quote : Char) (text : Text) : Except ScanError Cursor :=
  match stringBody? quote text with
  | none => .error (.unterminatedString before.length)
  | some (body, rest) =>
    .ok ⟨((before.add .code [quote]).add (.quoted quote) body).add .code [quote], rest⟩

theorem length_readString {before : Trail} {quote : Char} {text : Text} {c : Cursor}
    (h : readString before quote text = .ok c) :
  c.rest.length < text.length
  := by
  unfold readString at h
  split at h
  · cases h
  · rename_i body rest hb
    cases h
    simp [stringBody?_eq hb]
    omega

/-- The place behind the comment that a text begins with, if it begins with one. -/
def readComment? (before : Trail) : Text → Option (Except ScanError Cursor)
  | '/' :: '/' :: rest =>
    some (.ok ⟨before.add .comment ('/' :: '/' :: lineComment rest), behindLine rest⟩)
  | '/' :: '*' :: rest =>
    match blockComment? rest with
    | none => some (.error (.unterminatedComment before.length))
    | some (body, behind) => some (.ok ⟨before.add .comment ('/' :: '*' :: body), behind⟩)
  | _ => none

theorem length_readComment? {before : Trail} {text : Text} {c : Cursor}
    (h : readComment? before text = some (.ok c)) :
  c.rest.length < text.length
  := by
  unfold readComment? at h
  split at h
  · rename_i rest
    cases h
    have := (List.dropWhile_suffix (l := rest) (· != '\n')).length_le
    simp [behindLine]
    omega
  · rename_i rest
    split at h
    · cases h
    · rename_i body behind hb
      cases h
      simp [blockComment?_eq hb]
      omega
  · cases h

/-- The place behind the spaces and comments that a text begins with. -/
def skipTrivia (before : Trail) (text : Text) : Except ScanError Cursor :=
  match text with
  | [] => .ok ⟨before, []⟩
  | c :: rest =>
    if isSpace c then skipTrivia (before.add .code [c]) rest
    else
      match _h : readComment? before (c :: rest) with
      | none => .ok ⟨before, c :: rest⟩
      | some (.error e) => .error e
      | some (.ok cursor) => skipTrivia cursor.before cursor.rest
termination_by text.length
decreasing_by
  · simp
  · exact length_readComment? _h

theorem length_skipTrivia {before : Trail} {text : Text} {c : Cursor}
    (h : skipTrivia before text = .ok c) :
  c.rest.length ≤ text.length
  := by
  fun_induction skipTrivia before text with
  | case1 => cases h; simp
  | case2 before c rest _ ih =>
    have := ih h
    simp
    omega
  | case3 => cases h; simp
  | case4 => cases h
  | case5 before c rest _ cursor hc ih =>
    have := ih h
    have := length_readComment? hc
    omega

/-- Whether the last character passed that is not a space is a dot which does not end the three
dots of a spread. -/
def afterDot (before : Trail) : Bool :=
  match before.characters.dropWhile fun passed => isSpace passed.1 with
  | ('.', _) :: ('.', _) :: ('.', _) :: _ => false
  | ('.', _) :: _ => true
  | _ => false

end ImportCensus.Scan
