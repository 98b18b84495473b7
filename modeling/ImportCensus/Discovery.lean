import ImportCensus.Glob.Search

/-!
# Discovery of files

The files that a list of patterns chooses.  A pattern behind an exclamation mark takes files away,
wherever it stands in the list, and so does one more pattern that may be given apart.  The others
add their files, each pattern in the order of the paths, and a path that is already there is not
added again.
-/

namespace ImportCensus.Discovery

/-- What a discovery asks about: the paths that a pattern finds, whether a path leads to a file,
and whether a pattern means a path.  Patterns may be refused. -/
structure Surroundings (ε : Type) where
  find : Text → Except ε (List Text)
  isFile : Text → Bool
  isMeant : Text → Text → Except ε Bool

/-- The patterns that add files. -/
def includes (patterns : List Text) : List Text :=
  patterns.filter fun pattern => !(pattern.head? == some '!')

/-- The patterns among `patterns` that take files away, without their marks. -/
def exclusions (patterns : List Text) : List Text :=
  (patterns.filter fun pattern => pattern.head? == some '!').map fun pattern =>
    Path.withoutDotSlash (pattern.drop 1)

/-- The pattern that is given apart; the empty one takes nothing away. -/
def exclusion? : Option Text → Option Text
  | none => none
  | some [] => none
  | some pattern => some (Path.withoutDotSlash (pattern.dropWhile (· == '!')))

/-- All patterns that take files away. -/
def allExclusions (patterns : List Text) (exclude : Option Text) : List Text :=
  exclusions patterns ++ (exclusion? exclude).toList

variable {ε : Type}

/-- Whether one of the exclusions means a path. -/
def isExcluded (s : Surroundings ε) (exclusions : List Text) (path : Text) : Except ε Bool :=
  exclusions.anyM fun exclusion => s.isMeant exclusion path

/-- The path under which something that has been found is listed, unless it is no file or is
excluded. -/
def listed? (s : Surroundings ε) (exclusions : List Text) (found : Text) :
    Except ε (Option Text) := do
  if s.isFile found then
    let path := Path.withoutDotSlash found
    return if ← isExcluded s exclusions path then none else some path
  else return none

/-- The files that one pattern adds, in the order of the paths found. -/
def added (s : Surroundings ε) (exclusions : List Text) (pattern : Text) :
    Except ε (List Text) := do
  let paths ← (Text.sorted (← s.find pattern)).mapM (listed? s exclusions)
  return paths.reduceOption

/-- The files that a list of patterns chooses, each path once. -/
def resolve (s : Surroundings ε) (patterns : List Text) (exclude : Option Text) :
    Except ε (List Text) := do
  let files ← (includes patterns).mapM (added s (allExclusions patterns exclude))
  return files.flatten.eraseDups

/-- The surroundings of a discovery below `root` in a tree of files. -/
def inTree (here : Place) (root : Text) : Surroundings Glob.Error where
  find := Glob.search? here root
  isFile path := here.hasFile (Path.join root path)
  isMeant := Glob.matches?

/-- The files below `root` in a tree that a list of patterns chooses. -/
def resolveIn (here : Place) (root : Text) (patterns : List Text) (exclude : Option Text) :
    Except Glob.Error (List Text) :=
  resolve (inTree here root) patterns exclude

end ImportCensus.Discovery
