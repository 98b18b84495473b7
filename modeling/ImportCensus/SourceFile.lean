import ImportCensus.Extraction
import ImportCensus.Path

/-!
# Source files

The result of reading one file: what it imports, or why it could not be read.
-/

namespace ImportCensus

/-- The names that one statement of a file uses from a package. -/
structure PackageImport where
  name : Text
  exportNames : List Text := []
  deriving DecidableEq, Repr

/-- A file that could be read. -/
structure ParsedFile where
  filepath : Text
  imports : List ImportRecord := []
  packages : List PackageImport := []
  exportNames : List Text := []
  deriving DecidableEq, Repr

/-- A file that could not be read, with the reason. -/
structure ParseFailure where
  filepath : Text
  error : String
  deriving DecidableEq, Repr

/-- The result of reading a file. -/
inductive FileResult where
  | parsed (file : ParsedFile)
  | failed (failure : ParseFailure)
  deriving DecidableEq, Repr

namespace SourceFile

/-- The names that a statement uses.  A label, unless empty, stands for the local name of a default
export. -/
def exportNames (label : Option Text) (record : ImportRecord) : List Text :=
  record.named ++ (record.defaultName.map fun name =>
    match label with
    | none => name
    | some label => if label.isEmpty then name else label).toList

/-- A file from the imports found in it. -/
def ofRecords (filepath : Text) (label : Option Text) (imports : List ImportRecord) : ParsedFile :=
  {
    filepath
    imports
    packages := imports.map fun record => {
      name := record.specifier
      exportNames := exportNames label record }
    exportNames := imports.flatMap (exportNames label) }

/-- The result of an extraction from a file. -/
def ofExtraction (filepath : Text) (label : Option Text) (extraction : Extraction) : FileResult :=
  match extraction.outcome with
  | .ok imports => .parsed (ofRecords filepath label imports)
  | .error e => .failed { filepath, error := e.message }

/-- The result of reading a file with these contents.  Its extension, unless given, is that of its
path. -/
def parse (filepath contents : Text) (extension label : Option Text) : FileResult :=
  ofExtraction filepath label (extract contents (extension.getD (Path.extension filepath)))

end SourceFile

end ImportCensus
