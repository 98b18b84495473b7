import ImportCensus.Text

/-!
# Comments

Removing comments from a text that need not be a whole module.  The text is read once, without
regard to nesting or to regular expressions: quotation marks and backticks hold literals, two
slashes begin a comment that runs to the end of the line, and a slash with a star begins one that
runs to a star with a slash.  Line feeds stay, so that lines keep their numbers.
-/

namespace ImportCensus.Comment

/-- What a reader of comments is inside of. -/
inductive Context where
  | code
  | literal (delimiter : Char)
  | line
  | block
  deriving DecidableEq, Repr

/-- A character that a literal begins and ends with. -/
def isDelimiter (c : Char) : Bool :=
  c == '\'' || c == '"' || c == '\x60'

/-- A text without its comments, read from inside a context.  A literal other than a template
ends with its line at the latest, and a backslash in it takes the next character along. -/
def removeFrom : Context → Text → Text
  | _, [] => []
  | .code, '/' :: '/' :: rest => removeFrom .line rest
  | .code, '/' :: '*' :: rest => removeFrom .block rest
  | .code, c :: rest => c :: removeFrom (if isDelimiter c then .literal c else .code) rest
  | .literal delimiter, '\\' :: c :: rest => '\\' :: c :: removeFrom (.literal delimiter) rest
  | .literal delimiter, c :: rest =>
    if c = delimiter ∨ c = '\n' ∧ delimiter ≠ '\x60' then c :: removeFrom .code rest
    else c :: removeFrom (.literal delimiter) rest
  | .line, c :: rest => if c = '\n' then c :: removeFrom .code rest else removeFrom .line rest
  | .block, '*' :: '/' :: rest => removeFrom .code rest
  | .block, c :: rest => if c = '\n' then c :: removeFrom .block rest else removeFrom .block rest

/-- A text without its comments. -/
def remove (text : Text) : Text :=
  removeFrom .code text

end ImportCensus.Comment
