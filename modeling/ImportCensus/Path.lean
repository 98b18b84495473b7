import ImportCensus.Text

/-!
# Paths

Slash-separated paths as texts.  `join` puts one path behind another, `normalize` removes what
leaves the place a path names unchanged, and `extension` is the ending that tells the kind of a
file.
-/

namespace ImportCensus.Path

/-- A path from the root. -/
def isAbsolute : Text → Bool
  | '/' :: _ => true
  | _ => false

/-- Whether a path ends with a slash. -/
def endsWithSlash (path : Text) : Bool :=
  path.getLast? == some '/'

/-- Whether a path holds a NUL.  Such a path cannot be asked for. -/
def holdsNul (path : Text) : Bool :=
  path.contains '\x00'

/-- The wording of the refusal of a path that holds a NUL. -/
def nulMessage : String := "embedded null byte"

/-- What stands between the slashes of a path; nothing does not count. -/
def segments (path : Text) : List Text :=
  (Text.splitOn '/' path).filter fun segment => !segment.isEmpty

/-- The path `child` as seen from `parent`. -/
def join (parent child : Text) : Text :=
  if isAbsolute child then child
  else if parent.isEmpty || endsWithSlash parent then parent ++ child
  else parent ++ '/' :: child

/-- The number of slashes a normal path begins with: two stay two, and three or more are one. -/
def rootSlashes : Text → Nat
  | '/' :: '/' :: '/' :: _ => 1
  | '/' :: '/' :: _ => 2
  | '/' :: _ => 1
  | _ => 0

/-- One more segment behind the segments of a normal path, last segment first.  Empty segments
and single dots go.  Two dots take back the segment before them; at the root they go, and at
the start of a path that does not begin at the root they stay. -/
def push (rooted : Bool) (segments : List Text) (segment : Text) : List Text :=
  if segment == [] || segment == ['.'] then segments
  else if segment == ['.', '.'] then
    match segments with
    | [] => if rooted then [] else [segment]
    | last :: before => if last == ['.', '.'] then segment :: segments else before
  else segment :: segments

/-- The segments of a normal path, in order. -/
def normalSegments (path : Text) : List Text :=
  ((Text.splitOn '/' path).foldl (push (isAbsolute path)) []).reverse

/-- The shortest path that names the same place, read without looking at any file. -/
def normalize (path : Text) : Text :=
  let text := List.replicate (rootSlashes path) '/' ++ Text.join ['/'] (normalSegments path)
  if text.isEmpty then ['.'] else text

example : normalize "//a/./../../b".toList = "//b".toList := by decide +kernel

example : normalize "../a/..".toList = "..".toList := by decide +kernel

/-- The last segment of a path. -/
def baseName (path : Text) : Text :=
  ((Text.splitOn '/' path).getLast?).getD []

/-- A text from its last dot on. -/
def fromLastDot? : Text → Option Text
  | [] => none
  | c :: rest => (fromLastDot? rest).or (if c = '.' then some (c :: rest) else none)

/-- The extension of a path with its dot, or the empty text.  The dots that a base name begins
with belong to the name. -/
def extension (path : Text) : Text :=
  (fromLastDot? ((baseName path).dropWhile (· == '.'))).getD []

example : extension "src/.hidden".toList = [] := by decide +kernel

example : extension "src/a.d.ts".toList = ".ts".toList := by decide +kernel

/-- A path without the `./` it begins with, however often. -/
def withoutDotSlash : Text → Text
  | '.' :: '/' :: rest => withoutDotSlash rest
  | path => path

end ImportCensus.Path
