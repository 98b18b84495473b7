import ImportCensus.Document
import ImportCensus.Report.Builder
import ImportCensus.Validation.Reader

/-!
# The plain form of reports

Reports and the results of files as documents, and back.  Writing keeps every list and every
table in its order.  Reading accepts the names of fields in both spellings, and checks that every
usage count is the number of the files listed with it.
-/

namespace ImportCensus

open Document Checked

namespace Usage

/-- A usage as a document. -/
def toDocument (u : Usage) : Document :=
  object [("usage".toList, ofNat u.usage), ("filepaths".toList, ofTexts u.filepaths)]

/-- A usage with the count read; it must be the number of files. -/
def checkCount (usage : Int) (filepaths : List Text) : Checked Usage :=
  if usage = filepaths.length then .ok { usage := filepaths.length, filepaths }
  else fault (.usageMismatch usage filepaths.length)

/-- A usage from a document. -/
def read : Reader Usage := fun d => do
  let fields ← Reader.fields "ExportUsage" d
  let (usage, filepaths) ←
    (Reader.withDefault fields ["usage"] Reader.integer 0).both
      (Reader.withDefault fields ["filepaths"] (Reader.list Reader.text) [])
  checkCount usage filepaths

end Usage

/-- A table as a document. -/
def Table.toDocument {β : Type} (write : β → Document) (t : Table Text β) : Document :=
  object (t.entries.map fun entry => (entry.1, write entry.2))

namespace Package

/-- A package as a document. -/
def toDocument (p : Package) : Document :=
  object [("name".toList, text p.name), ("filepaths".toList, ofTexts p.filepaths),
    ("usedExports".toList, p.usedExports.toDocument Usage.toDocument)]

/-- A package from a document. -/
def read : Reader Package := fun d => do
  let fields ← Reader.fields "Package" d
  let (name, filepaths, usedExports) ←
    (Reader.required fields ["name"] Reader.text).both <|
      (Reader.withDefault fields ["filepaths"] (Reader.list Reader.text) []).both
        (Reader.withDefault fields ["usedExports", "used_exports"] (Reader.table Usage.read) .empty)
  return { name, filepaths, usedExports }

end Package

namespace ExportEntry

/-- An exported name as a document. -/
def toDocument (e : ExportEntry) : Document :=
  object [("name".toList, text e.name), ("packages".toList, e.packages.toDocument Usage.toDocument)]

/-- An exported name from a document. -/
def read : Reader ExportEntry := fun d => do
  let fields ← Reader.fields "ExportIndexEntry" d
  let (name, packages) ←
    (Reader.required fields ["name"] Reader.text).both
      (Reader.withDefault fields ["packages"] (Reader.table Usage.read) .empty)
  return { name, packages }

end ExportEntry

namespace Report

/-- A report as a document. -/
def toDocument (r : Report) : Document :=
  object [("files".toList, ofTexts r.files), ("excludeGlob".toList, ofText? r.excludeGlob),
    ("packages".toList, r.packages.toDocument Package.toDocument),
    ("exportNames".toList, r.exportNames.toDocument ExportEntry.toDocument)]

/-- A report from a document. -/
def read : Reader Report := fun d => do
  let fields ← Reader.fields "Report" d
  let (files, excludeGlob, packages, exportNames) ←
    (Reader.withDefault fields ["files"] (Reader.list Reader.text) []).both <|
      (Reader.withDefault fields ["excludeGlob", "exclude_glob"] (Reader.optional Reader.text)
        none).both <|
        (Reader.withDefault fields ["packages"] (Reader.table Package.read) .empty).both
          (Reader.withDefault fields ["exportNames", "export_names"]
            (Reader.table ExportEntry.read) .empty)
  return { files, excludeGlob, packages, exportNames }

end Report

/-- A record of an import from a document. -/
def ImportRecord.read : Reader ImportRecord := fun d => do
  let fields ← Reader.fields "ImportRecord" d
  let (specifier, importAll, defaultName, whole, named) ←
    (Reader.required fields ["specifier"] Reader.text).both <|
      (Reader.withDefault fields ["importAll", "import_all"] Reader.boolean false).both <|
        (Reader.withDefault fields ["default"] (Reader.optional Reader.text) none).both <|
          (Reader.withDefault fields ["namespace"] Reader.boolean false).both
            (Reader.withDefault fields ["named"] (Reader.list Reader.text) [])
  return { specifier, importAll, defaultName, whole, named }

/-- The names that a statement uses from a document. -/
def PackageImport.read : Reader PackageImport := fun d => do
  let fields ← Reader.fields "PackageImport" d
  let (name, exportNames) ←
    (Reader.required fields ["name"] Reader.text).both
      (Reader.withDefault fields ["exportNames", "export_names"] (Reader.list Reader.text) [])
  return { name, exportNames }

/-- The name of the shape of a file that could be read. -/
def ParsedFile.shape : String := "ParsedFile"

/-- A file that could be read, from a document. -/
def ParsedFile.read : Reader ParsedFile := fun d => do
  let fields ← Reader.fields shape d
  let (filepath, imports, packages, exportNames) ←
    (Reader.required fields ["filepath"] Reader.text).both <|
      (Reader.withDefault fields ["imports"] (Reader.list ImportRecord.read) []).both <|
        (Reader.withDefault fields ["packages"] (Reader.list PackageImport.read) []).both
          (Reader.withDefault fields ["exportNames", "export_names"] (Reader.list Reader.text) [])
  return { filepath, imports, packages, exportNames }

namespace ReportBuilder

/-- The builder with one more file, given as a document. -/
def addDocument (b : ReportBuilder) (d : Document) : Checked ReportBuilder :=
  (ParsedFile.read d).map b.add

/-- The builder with one more file, if it could be read. -/
def addResult (b : ReportBuilder) : FileResult → Checked ReportBuilder
  | .parsed file => .ok (b.add file)
  | .failed _ => fault (.notObject ParsedFile.shape)

end ReportBuilder

end ImportCensus
