import ImportCensus.FileTree
import ImportCensus.Glob.Match
import ImportCensus.Glob.Route

/-!
# Searching a tree

The paths of a tree that a pattern means, found by going down the tree segment by segment.  What
is found is spelled after the pattern.  A name that begins with a dot is hidden: it is found only
where the pattern spells the dot, and a pair of asterisks neither finds it nor goes into it.
-/

namespace ImportCensus.Glob

/-- A place with the path that it was found under. -/
structure Found where
  path : Text
  place : Place

namespace Found

/-- Whether a directory has been found. -/
def isDirectory (f : Found) : Bool :=
  f.place.node.isDirectory

/-- Whether a name is hidden. -/
def isHidden (name : Text) : Bool :=
  name.head? == some '.'

/-- What stands directly below a place that has been found. -/
def below (f : Found) : List (Text × Found) :=
  f.place.below.map fun child => (child.1, ⟨Path.join f.path child.1, child.2⟩)

mutual

/-- All that stands below a node at any depth and is not hidden. -/
def allBelow (path : Text) (above : List (Text × Node)) : Node → List Found
  | .file _ => []
  | .directory children => allAmong path (.directory children) above children

/-- Those of the nodes of a directory that are not hidden, and all that stands below them. -/
def allAmong (path : Text) (parent : Node) (above : List (Text × Node)) :
    List (Text × Node) → List Found
  | [] => []
  | (name, node) :: rest =>
    let others := allAmong path parent above rest
    if isHidden name then others
    else
      let way := (name, parent) :: above
      ⟨Path.join path name, ⟨node, way⟩⟩ :: allBelow (Path.join path name) way node ++ others

end

/-- What has been found, and all that stands below it and is not hidden. -/
def withAllBelow (f : Found) : List Found :=
  f :: allBelow f.path f.place.above f.place.node

/-- What has been found, each path once, in the order of the paths. -/
def distinct (found : List Found) : List Found :=
  (found.mergeSort fun f g => Text.isAtOrBefore f.path g.path).foldr
    (fun f rest => if rest.head?.map path == some f.path then rest else f :: rest) []

end Found

/-- What the atoms of a segment mean directly below a place.  Only a segment that is spelled out
leads to the place itself or to its parent. -/
def foundBelow (atoms : List Atom) (f : Found) : List Found :=
  match spelled? atoms with
  | some name =>
    match f.place.step name with
    | .ok place => [⟨Path.join f.path name, place⟩]
    | .error _ => []
  | none =>
    (f.below.filter fun child =>
      acceptsName atoms child.1 && !(startsOpen atoms && Found.isHidden child.1)).map Prod.snd

/-- What one segment means below places that have been found.  What stands below several of them
is found once. -/
def advance (found : List Found) : Segment → List Found
  | .anyDepth => Found.distinct (found.flatMap Found.withAllBelow)
  | .atoms atoms => found.flatMap (foundBelow atoms)

/-- What the steps of a route mean below places that have been found.  All but the last lead to
directories, and the last one does where `directories` asks for them. -/
def search (directories : Bool) : List Segment → List Found → List Found
  | [], found => found
  | step :: rest, found =>
    search directories rest
      ((advance found step).filter fun f => f.isDirectory || rest.isEmpty && !directories)

/-- The directory that a route starts from, with the path that it is found under.  A route from the
root does not ask for the directory that `root` leads to. -/
def Route.start? (r : Route) (here : Place) (root : Text) : Option Found :=
  if r.rooted then some ⟨['/'], here.root⟩
  else
    match here.follow (if root.isEmpty then ['.'] else root) with
    | .error _ => none
    | .ok directory => if directory.node.isDirectory then some ⟨[], directory⟩ else none

/-- The paths that a route leads to in a tree, as seen from the directory that `root` leads to.  The
empty path leads nowhere else. -/
def Route.find? (r : Route) (here : Place) (root : Text) : Except Error (List Text) :=
  if r.looksAround && Path.holdsNul root then .error .nulInRoot
  else
    let found := search r.directories r.steps (r.start? here root).toList
    .ok ((found.map Found.path).filter fun path => !path.isEmpty)

/-- The paths that one of the patterns which `pattern` stands for means in a tree, as seen from
the directory that `root` leads to. -/
def search? (here : Place) (root pattern : Text) : Except Error (List Text) := do
  let texts ← expand pattern
  let found ← (texts.filterMap Route.ofText?).mapM fun route => route.find? here root
  return found.flatten

end ImportCensus.Glob
