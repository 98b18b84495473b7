import ImportCensus.Path
import ImportCensus.Report.Usage
import ImportCensus.SourceFile
import ImportCensus.Specifier

/-!
# Building reports

A report has two indexes, by package and by exported name.  The builder takes the results of the
files one after the other and enters every import into both.
-/

namespace ImportCensus

/-- The key of a package.  A relative specifier means something only next to the file it stands
in, and is resolved from that file's path. -/
def packageKey (filepath specifier : Text) : Text :=
  if Specifier.isRelative specifier then Path.normalize (Path.join filepath specifier)
  else specifier

/-- What a set of files imports: the patterns that chose the files, and the two indexes. -/
structure Report where
  files : List Text := []
  excludeGlob : Option Text := none
  packages : Table Text Package := .empty
  exportNames : Table Text ExportEntry := .empty
  deriving DecidableEq, Repr

/-- The two indexes while they grow. -/
structure ReportBuilder where
  packages : Table Text Package := .empty
  exportNames : Table Text ExportEntry := .empty
  deriving DecidableEq, Repr

namespace ReportBuilder

/-- The package index with one more import, of a package under a key by a file. -/
def indexPackage (filepath key : Text) (names : List Text) (packages : Table Text Package) :
  Table Text Package
  :=
  packages.upsert key fun package =>
    ((package.getD { name := key }).addFilepath filepath).addExports names filepath

/-- The index of names with one more use of a name. -/
def indexExport (filepath key : Text) (exportNames : Table Text ExportEntry) (name : Text) :
  Table Text ExportEntry
  :=
  exportNames.upsert name fun entry => (entry.getD { name }).record key filepath

/-- The builder with one more import of a file. -/
def addImport (filepath : Text) (b : ReportBuilder) (p : PackageImport) : ReportBuilder :=
  let key := packageKey filepath p.name
  {
    packages := indexPackage filepath key p.exportNames b.packages
    exportNames := p.exportNames.foldl (indexExport filepath key) b.exportNames }

/-- The builder with one more file. -/
def add (b : ReportBuilder) (file : ParsedFile) : ReportBuilder :=
  file.packages.foldl (addImport file.filepath) b

/-- The report of what has been entered so far. -/
def build (b : ReportBuilder) (files : List Text) (excludeGlob : Option Text) : Report :=
  { files, excludeGlob, packages := b.packages, exportNames := b.exportNames }

end ReportBuilder

end ImportCensus
