import ImportCensus.Text.Blank
import ImportCensus.Text.Digit

/-!
# Characters of a module source

The classes of characters that the scanner tells apart.  Beyond ASCII every character that is
not blank may stand in an identifier, the byte order mark included, although between words the
byte order mark is space.
-/

namespace ImportCensus.Scan

/-- A character that separates words: a blank or the byte order mark. -/
def isSpace (c : Char) : Bool :=
  Text.isBlank c || c == '\uFEFF'

/-- A character beyond ASCII that is not blank. -/
def isForeign (c : Char) : Bool :=
  127 < c.toNat && !Text.isBlank c

/-- A character that an identifier may begin with. -/
def isIdentifierStart (c : Char) : Bool :=
  c.isAlpha || c == '$' || c == '_' || isForeign c

/-- A character that an identifier may go on with. -/
def isIdentifierPart (c : Char) : Bool :=
  c.isAlphanum || c == '$' || c == '_' || isForeign c

/-- Whether a text does not go on with an identifier character. -/
def identifierEnds : Text → Bool
  | [] => true
  | c :: _ => !isIdentifierPart c

/-- A quotation mark that a string begins and ends with. -/
def isQuote (c : Char) : Bool :=
  c == '\'' || c == '"'

/-- A character that breaks a line of source. -/
def isLineBreak (c : Char) : Bool :=
  c == '\r' || c == '\n'

theorem isIdentifierPart_of_start {c : Char} (h : isIdentifierStart c = true) :
  isIdentifierPart c = true
  := by
  simp only [isIdentifierStart, isIdentifierPart, Char.isAlphanum, Bool.or_eq_true] at h ⊢
  rcases h with ((h | h) | h) | h <;> simp [h]

/-- A word in front of a text: its first character and those an identifier may go on with. -/
def wordOf (c : Char) (rest : Text) : Text :=
  c :: rest.takeWhile isIdentifierPart

/-- What stands behind the word that `wordOf` reads. -/
def behindWord (rest : Text) : Text :=
  rest.dropWhile isIdentifierPart

theorem wordOf_append_behindWord (c : Char) (rest : Text) :
  wordOf c rest ++ behindWord rest = c :: rest
  := by
  simp [wordOf, behindWord, List.takeWhile_append_dropWhile]

theorem length_behindWord_le (rest : Text) :
  (behindWord rest).length ≤ rest.length
  := (List.dropWhile_suffix _).length_le

end ImportCensus.Scan
