import ImportCensus.Text

/-!
# Blank characters

The characters that separate words without showing, over the whole of Unicode: the ASCII
controls from tab to carriage return and from the file separator to the unit separator, the
next-line control, and the space, line and paragraph separators.  The byte order mark and the
zero-width space are not among them.
-/

namespace ImportCensus.Text

/-- A blank character. -/
def isBlank (c : Char) : Bool :=
  let n := c.toNat
  (9 ≤ n && n ≤ 13) || (28 ≤ n && n ≤ 32) || n == 0x85 || n == 0xA0 || n == 0x1680
    || (0x2000 ≤ n && n ≤ 0x200A) || n == 0x2028 || n == 0x2029 || n == 0x202F || n == 0x205F
    || n == 0x3000

/-- A text without the blanks at its start. -/
def skipBlanks (text : Text) : Text :=
  text.dropWhile isBlank

/-- A text without the blanks at its start, provided there is one. -/
def skipBlanks₁? : Text → Option Text
  | [] => none
  | c :: rest => if isBlank c then some (skipBlanks rest) else none

/-- A text without the blanks at its two ends. -/
def trim (text : Text) : Text :=
  strip isBlank text

end ImportCensus.Text
