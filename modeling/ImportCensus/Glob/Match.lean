import ImportCensus.Glob.Brace
import ImportCensus.Glob.Pattern

/-!
# Matching

Which paths a pattern means.  The segments of a pattern become pieces, each of which takes a part of
the path.  For every position in the path it is said whether the pieces from one on mean the rest
of the path from there.  These answers make a row, and each piece makes its row from the row of the
pieces behind it, so that no part of a path is looked at twice for the same piece.

The segments `.` and `..` of a path are meant only by segments that spell them, at least in their
first place.
-/

namespace ImportCensus.Glob

/-- What a pattern asks of a path, piece by piece. -/
inductive Piece where
  /-- One slash or more. -/
  | slash
  /-- Nothing, with a slash to follow. -/
  | ahead
  /-- Any characters, but never the beginning of a segment that is `.` or `..`. -/
  | depth
  /-- One slash or more, or nothing at either end of the path. -/
  | border
  | segment (atoms : List Atom)
  deriving DecidableEq, Repr

namespace Segment

/-- What a segment asks of a path. -/
def pieces : Segment → List Piece
  | .anyDepth => [.depth]
  | .atoms [] => []
  | .atoms list => [.segment list]

/-- What is asked between a segment and those behind it. -/
def between : Segment → List Segment → List Piece
  | .anyDepth, [.atoms []] => [.slash]
  | .anyDepth, _ => [.border]
  | .atoms _, [] => []
  | .atoms _, .anyDepth :: _ => [.ahead]
  | .atoms _, _ => [.slash]

/-- What segments ask of a path. -/
def allPieces : List Segment → List Piece
  | [] => []
  | segment :: rest => segment.pieces ++ between segment rest ++ allPieces rest

end Segment

/-- A position in a path: whether it is the first one, and the rest of the path from there. -/
structure Position where
  first : Bool
  rest : Text

namespace Position

/-- The positions from one on. -/
def allFrom (first : Bool) : Text → List Position
  | [] => [⟨first, []⟩]
  | c :: rest => ⟨first, c :: rest⟩ :: allFrom false rest

/-- Whether the next character is one that `p` holds of. -/
def next (p : Char → Bool) (q : Position) : Bool :=
  q.rest.head?.any p

/-- Whether a path ends here, perhaps with a line feed. -/
def ends (rest : Text) : Bool :=
  rest.isEmpty || rest == ['\n']

/-- Whether a segment ends here. -/
def endsSegment (rest : Text) : Bool :=
  ends rest || rest.head? == some '/'

/-- Whether a text begins with a segment that is `.` or `..`. -/
def beginsDots : Text → Bool
  | '.' :: '.' :: rest => endsSegment rest
  | '.' :: rest => endsSegment rest
  | _ => false

/-- Whether the next character begins a segment that is `.` or `..`, or is the slash before it. -/
def entersDots (q : Position) : Bool :=
  match q.rest with
  | '/' :: rest => beginsDots rest
  | rest => q.first && beginsDots rest

end Position

/-- Whether each position of a path is followed by what is asked for. -/
abbrev Row := List Bool

namespace Row

/-- The row of nothing before the pieces of a row, where `p` holds. -/
def guarded (p : Position → Bool) (path : List Position) (row : Row) : Row :=
  List.zipWith (fun q b => p q && b) path row

/-- The row of one character before the pieces of a row. -/
def consumed (p : Position → Bool) (path : List Position) (row : Row) : Row :=
  guarded p path (row.tail ++ [false])

/-- The row of any number of characters before the pieces of a row. -/
def repeated (p : Position → Bool) (path : List Position) (row : Row) : Row :=
  (path.zip row).foldr (fun (q, b) behind => (b || p q && behind.headD false) :: behind) []

/-- The row of one slash or more before the pieces of a row. -/
def slashes (path : List Position) (row : Row) : Row :=
  consumed (·.next (· == '/')) path (repeated (·.next (· == '/')) path row)

/-- The row of the end of a path, perhaps with slashes before it that are `trailing`. -/
def ending (trailing : Bool) (path : List Position) : Row :=
  path.map fun q => if trailing then q.rest.all (· == '/') else q.rest.isEmpty

end Row

/-- The row of an atom before the pieces of a row. -/
def Atom.row (atom : Atom) (path : List Position) (row : Row) : Row :=
  match atom with
  | run => Row.repeated (·.next run.holds) path row
  | atom => Row.consumed (·.next atom.holds) path row

/-- Whether the first place of a segment is left open. -/
def startsOpen : List Atom → Bool
  | [] => false
  | .literal _ :: _ => false
  | _ :: _ => true

/-- Whether a segment with these atoms may begin at a position. -/
def mayBegin (atoms : List Atom) (q : Position) : Bool :=
  !startsOpen atoms
    || !Position.beginsDots q.rest && (atoms.head? != some .run || q.next (· != '/'))

/-- The row of a piece before the pieces of a row. -/
def Piece.row (piece : Piece) (path : List Position) (row : Row) : Row :=
  match piece with
  | slash => Row.slashes path row
  | ahead => Row.guarded (·.next (· == '/')) path row
  | depth => Row.repeated (fun q => q.next (fun _ => true) && !q.entersDots) path row
  | border =>
    List.zipWith or (Row.guarded (fun q => q.first || Position.ends q.rest) path row)
      (Row.slashes path row)
  | segment atoms =>
    Row.guarded (mayBegin atoms) path (atoms.foldr (fun atom row => atom.row path row) row)

/-- Whether pieces mean a path, which may end with more slashes where it is `trailing`. -/
def acceptsPieces (trailing : Bool) (pieces : List Piece) (path : Text) : Bool :=
  let positions := Position.allFrom true path
  let row :=
    pieces.foldr (fun piece row => piece.row positions row) (Row.ending trailing positions)
  row.headD false

/-- Whether the atoms of a segment mean a name. -/
def acceptsName (atoms : List Atom) (name : Text) : Bool :=
  acceptsPieces false [.segment atoms] name

/-- Whether a pattern without choices means a path.  The path may end with more slashes than the
pattern, unless the pattern is empty. -/
def acceptsPath (pattern path : Text) : Bool :=
  acceptsPieces (!pattern.isEmpty)
    (Segment.allPieces (Text.withoutRepeats .anyDepth (segments pattern))) path

example : acceptsPath "**/a/**".toList "b/a/".toList = true := by decide +kernel

example : acceptsPath "**/a/**".toList "b/a".toList = false := by decide +kernel

/-- Whether one of the patterns that `pattern` stands for means a path. -/
def matches? (pattern path : Text) : Except Error Bool := do
  let texts ← expand pattern
  return texts.any fun text => acceptsPath text path

/-- Whether one of these patterns means a path.  Patterns behind it are not looked at. -/
def matchesAny? (patterns : List Text) (path : Text) : Except Error Bool :=
  patterns.anyM fun pattern => matches? pattern path

end ImportCensus.Glob
