import ImportCensus.CommandLine

/-!
# The program

The command line over the files of the machine.  The directories that a command speaks of are
taken into a tree first, without the contents of files; then the files that the patterns choose
are read into it, and the command is carried out on the tree.
-/

namespace ImportCensus.Snapshot

/-- A directory of the machine, with files that hold nothing.  Links and what cannot be read are
passed over. -/
partial def shape (directory : String) : IO Node := do
  let path := (← IO.currentDir) / directory
  let mut children : List (Text × Node) := []
  for entry in (← try path.readDir catch _ => pure #[]) do
    let inner := directory ++ "/" ++ entry.fileName
    match (← try some <$> entry.path.symlinkMetadata catch _ => pure none) with
    | none => pure ()
    | some metadata =>
      match metadata.type with
      | .dir => children := (entry.fileName.toList, ← shape inner) :: children
      | .file => children := (entry.fileName.toList, .file []) :: children
      | _ => pure ()
  return .directory children

/-- The segments of a pattern before the last one and the first one that leaves something open. -/
def fixedSegments (pattern : Text) : List Text :=
  let isFixed := fun c => !("*?[]\x7b\x7d\\!".toList.contains c)
  (Path.segments pattern).dropLast.takeWhile fun segment => segment.all isFixed

/-- The directory that a pattern is about, as a path from the root of the machine. -/
def base (here root pattern : Text) : Text :=
  let fixed := Text.join ['/'] (fixedSegments pattern)
  let start := if Path.isAbsolute pattern then '/' :: fixed else Path.join root fixed
  Path.normalize (Path.join here start)

/-- The files of the machine that a command needs, in a tree seen from the working directory. -/
def take (a : ReportArguments) : IO Place := do
  let here := (← IO.currentDir).toString.toList
  let placeIn := fun (tree : Node) =>
    match Place.follow { node := tree } here with
    | .ok place => place
    | .error _ => { node := tree }
  let mut tree := Node.insert (.directory []) (Path.segments here) (.directory [])
  for directory in (a.patterns.map (base here a.root)).eraseDups do
    tree := Node.insert (← shape directory.toString) (Path.segments directory) tree
  match Discovery.resolveIn (placeIn tree) a.root a.patterns a.exclude with
  | .error _ => return placeIn tree
  | .ok files =>
    for file in files do
      let path := Path.normalize (Path.join here (Path.join a.root file))
      match (← try some <$> IO.FS.readBinFile path.toString catch _ => pure none) with
      | none => pure ()
      | some bytes => tree := Node.insert (.file bytes.toList) (Path.segments path) tree
    return placeIn tree

end ImportCensus.Snapshot

/-- Carries out the command line. -/
def main (arguments : List String) : IO UInt32 := do
  let arguments := arguments.map String.toList
  let place ← match ImportCensus.Invocation.read arguments with
    | .ok ⟨_, .report a⟩ => ImportCensus.Snapshot.take a
    | _ => pure { node := .directory [] }
  match ImportCensus.CommandLine.run place arguments with
  | .error e =>
    IO.eprintln e.message
    return 1
  | .ok outcome =>
    for line in outcome.log do
      IO.eprintln line.render
    IO.print outcome.output.toString
    return outcome.exit.toUInt32
