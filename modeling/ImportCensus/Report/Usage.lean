import ImportCensus.Table
import ImportCensus.Text

/-!
# Usages

How often something is used, and from which files.  A file that uses it several times is listed
as often, so that the count is the number of the files listed.
-/

namespace ImportCensus

/-- A count of uses with the file of each. -/
structure Usage where
  usage : Nat := 0
  filepaths : List Text := []
  deriving DecidableEq, Repr

/-- One more use, in a file. -/
def Usage.record (u : Usage) (filepath : Text) : Usage :=
  { usage := u.usage + 1, filepaths := u.filepaths ++ [filepath] }

/-- A package with the files that import it and the use they make of what it exports. -/
structure Package where
  name : Text
  filepaths : List Text := []
  usedExports : Table Text Usage := .empty
  deriving DecidableEq, Repr

namespace Package

/-- A package that a file imports; a file is listed once. -/
def addFilepath (p : Package) (filepath : Text) : Package :=
  if filepath ∈ p.filepaths then p else { p with filepaths := p.filepaths ++ [filepath] }

/-- A package of which a file uses one more name. -/
def addExport (filepath : Text) (p : Package) (name : Text) : Package :=
  { p with usedExports := p.usedExports.upsert name fun u => (u.getD {}).record filepath }

/-- A package of which a file uses these names. -/
def addExports (p : Package) (names : List Text) (filepath : Text) : Package :=
  names.foldl (addExport filepath) p

end Package

/-- An exported name with the packages that it is used from. -/
structure ExportEntry where
  name : Text
  packages : Table Text Usage := .empty
  deriving DecidableEq, Repr

/-- A name that a file uses once more, from the package under a key. -/
def ExportEntry.record (e : ExportEntry) (key filepath : Text) : ExportEntry :=
  { e with packages := e.packages.upsert key fun u => (u.getD {}).record filepath }

end ImportCensus
