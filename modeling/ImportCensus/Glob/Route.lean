import ImportCensus.Glob.Pattern

/-!
# Routes

The way that a pattern leads through a tree: where it starts, the segments between its slashes, and
whether it asks for directories.  Empty segments lead nowhere else and are left out.
-/

namespace ImportCensus.Glob

/-- A way through a tree. -/
structure Route where
  rooted : Bool
  steps : List Segment
  directories : Bool
  deriving DecidableEq, Repr

namespace Route

/-- The parts of a pattern around its slashes, escaped or not. -/
def parts : Text → List Text
  | [] => [[]]
  | '/' :: rest => [] :: parts rest
  | '\\' :: '/' :: rest => [] :: parts rest
  | '\\' :: c :: rest =>
    match parts rest with
    | [] => [['\\', c]]
    | part :: others => ('\\' :: c :: part) :: others
  | c :: rest =>
    match parts rest with
    | [] => [[c]]
    | part :: others => (c :: part) :: others

/-- The segment that a part of a pattern is. -/
def step (part : Text) : Segment :=
  if part = ['*', '*'] then .anyDepth else .atoms (Symbol.atoms (symbols true part))

/-- The route of a pattern without choices.  A pattern that begins with an escaped slash has
none. -/
def ofText? (pattern : Text) : Option Route :=
  match pattern with
  | '\\' :: '/' :: _ => none
  | _ =>
    some {
      rooted := pattern.head? == some '/'
      steps := Text.withoutRepeats .anyDepth
        (((parts pattern).filter fun part => !part.isEmpty).map step)
      directories := (parts pattern).getLast? == some [] }

end Route

/-- The text that atoms spell, if they leave nothing open. -/
def spelled? : List Atom → Option Text
  | [] => some []
  | .literal c :: rest => (spelled? rest).map (c :: ·)
  | _ :: _ => none

/-- Whether a segment is `.` or `..`, spelled out. -/
def Segment.isDots : Segment → Bool
  | .anyDepth => false
  | .atoms list => spelled? list == some ['.'] || spelled? list == some ['.', '.']

/-- Whether something has to be looked for in the directory that a search starts from. -/
def Route.looksAround (r : Route) : Bool :=
  !r.rooted && r.steps.any fun step => !step.isDots

end ImportCensus.Glob
