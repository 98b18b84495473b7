import ImportCensus.Path

/-!
# Refused patterns

Why a pattern is not carried out.
-/

namespace ImportCensus.Glob

/-- Why a pattern is refused. -/
inductive Error where
  | tooManyPatterns
  /-- The path of the directory to be searched holds a NUL. -/
  | nulInRoot
  deriving DecidableEq, Repr

/-- The largest number of patterns that one pattern may stand for. -/
def patternLimit : Nat := 1000

/-- The wording of an error. -/
def Error.message : Error → String
  | tooManyPatterns => "Pattern limit exceeded the limit of " ++ toString patternLimit
  | nulInRoot => Path.nulMessage

end ImportCensus.Glob
