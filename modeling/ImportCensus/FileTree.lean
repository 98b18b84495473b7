import ImportCensus.Path
import ImportCensus.Table

/-!
# File trees

A tree of directories and files.  A place in a tree is a node with the way up to the root, so that
a path can be followed from it in any direction.  Trees have no links: a place is reached from the
root in one way only.
-/

namespace ImportCensus

/-- A file with its bytes, or a directory with what it holds by name. -/
inductive Node where
  | file (bytes : List UInt8)
  | directory (children : List (Text × Node))
  deriving Inhabited

namespace Node

/-- Whether a node is a directory. -/
def isDirectory : Node → Bool
  | file _ => false
  | directory _ => true

/-- The nodes of a directory with their names; a file has none. -/
def children : Node → List (Text × Node)
  | file _ => []
  | directory children => children

/-- A node with another one put at the end of a path of names.  Directories are made on the way. -/
def insert (node : Node) : List Text → Node → Node
  | [], _ => node
  | name :: names, tree =>
    directory (Table.upsertEntries name
      (fun old => insert node names (old.getD (directory []))) tree.children)

end Node

/-- Why a path leads nowhere. -/
inductive PathError where
  | missing
  | notDirectory
  | isDirectory
  | nameTooLong
  deriving DecidableEq, Repr

namespace PathError

/-- The number of an error. -/
def number : PathError → Nat
  | missing => 2
  | notDirectory => 20
  | isDirectory => 21
  | nameTooLong => 36

/-- The wording of an error. -/
def message : PathError → String
  | missing => "No such file or directory"
  | notDirectory => "Not a directory"
  | isDirectory => "Is a directory"
  | nameTooLong => "File name too long"

end PathError

/-- The largest number of octets in a name. -/
def nameLimit : Nat := 255

/-- The number of octets from which on a path is refused. -/
def pathLimit : Nat := 4096

/-- A node of a tree, and above it its name and its parent, up to the root. -/
structure Place where
  node : Node
  above : List (Text × Node) := []
  deriving Inhabited

namespace Place

/-- The names on the way from the root to a place. -/
def names (p : Place) : List Text :=
  (p.above.map Prod.fst).reverse

/-- The path of a place from the root. -/
def path (p : Place) : Text :=
  '/' :: Text.join ['/'] p.names

/-- The root of the tree that a place belongs to. -/
def root (p : Place) : Place :=
  ⟨(p.above.getLast?.map Prod.snd).getD p.node, []⟩

/-- The parent of a place; the root is its own. -/
def parent : Place → Place
  | ⟨node, []⟩ => ⟨node, []⟩
  | ⟨_, (_, node) :: above⟩ => ⟨node, above⟩

/-- The places directly below a place, with their names. -/
def below (p : Place) : List (Text × Place) :=
  p.node.children.map fun child => (child.1, ⟨child.2, (child.1, p.node) :: p.above⟩)

/-- The place that one segment of a path leads to. -/
def step (p : Place) (segment : Text) : Except PathError Place :=
  if !p.node.isDirectory then .error .notDirectory
  else if nameLimit < Text.octetCount segment then .error .nameTooLong
  else if segment = ['.'] then .ok p
  else if segment = ['.', '.'] then .ok p.parent
  else
    match Table.lookup segment p.below with
    | some child => .ok child
    | none => .error .missing

/-- The place that a path leads to, as seen from a place.  A slash at the end asks for a
directory. -/
def follow (p : Place) (path : Text) : Except PathError Place := do
  if path.isEmpty then .error .missing
  else if pathLimit ≤ Text.octetCount path then .error .nameTooLong
  else
    let start := if Path.isAbsolute path then p.root else p
    let place ← (Path.segments path).foldlM step start
    if Path.endsWithSlash path && !place.node.isDirectory then .error .notDirectory
    else .ok place

/-- Whether a path leads to a directory. -/
def hasDirectory (p : Place) (path : Text) : Bool :=
  match p.follow path with
  | .ok place => place.node.isDirectory
  | .error _ => false

/-- Whether a path leads to a file. -/
def hasFile (p : Place) (path : Text) : Bool :=
  match p.follow path with
  | .ok place => !place.node.isDirectory
  | .error _ => false

/-- The bytes of the file that a path leads to. -/
def bytesAt (p : Place) (path : Text) : Except PathError (List UInt8) :=
  match p.follow path with
  | .error e => .error e
  | .ok ⟨.directory _, _⟩ => .error .isDirectory
  | .ok ⟨.file bytes, _⟩ => .ok bytes

end Place

end ImportCensus
