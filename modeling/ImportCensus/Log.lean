/-!
# Log lines

What is told on the way, apart from the answer.  A line has a level, the part of the library that
speaks, and a wording.
-/

namespace ImportCensus

/-- How much a line matters. -/
inductive Level where
  | debug
  | info
  | warning
  | error
  deriving DecidableEq, Repr

namespace Level

/-- The name of a level. -/
def name : Level → String
  | debug => "DEBUG"
  | info => "INFO"
  | warning => "WARNING"
  | error => "ERROR"

/-- The place of a level among the others. -/
def rank : Level → Nat
  | debug => 0
  | info => 1
  | warning => 2
  | error => 3

end Level

/-- A line of the log. -/
structure LogLine where
  level : Level
  speaker : String
  message : String
  deriving DecidableEq, Repr

namespace LogLine

/-- A line as it is written. -/
def render (line : LogLine) : String :=
  line.level.name ++ " " ++ line.speaker ++ ": " ++ line.message

/-- The lines that matter at least as much as a level. -/
def atLeast (level : Level) (lines : List LogLine) : List LogLine :=
  lines.filter fun line => level.rank ≤ line.level.rank

end LogLine

end ImportCensus
