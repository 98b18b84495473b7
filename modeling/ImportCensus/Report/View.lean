import ImportCensus.Report.PlainForm
import ImportCensus.Report.Query

/-!
# Views of reports

The part of a report that is shown: the packages that patterns mean, the exported names of a list,
or all of it.
-/

namespace ImportCensus

/-- What is asked of a report. -/
inductive Selection where
  | packages (patterns : List Text)
  | exportNames (names : List Text)
  | everything
  deriving DecidableEq, Repr

/-- What is asked by lists of patterns and of names, of which the first that is not empty
counts. -/
def Selection.ofLists (patterns names : List Text) : Selection :=
  if !patterns.isEmpty then packages patterns
  else if !names.isEmpty then exportNames names
  else everything

/-- The part of a report that is shown. -/
inductive View where
  | packages (packages : List Package)
  | exportNames (entries : List ExportEntry)
  | whole (report : Report)
  deriving DecidableEq, Repr

/-- The part of a report that a selection asks for. -/
def Report.view (r : Report) : Selection → Except Glob.Error View
  | .packages patterns => (r.packagesMatching patterns).map .packages
  | .exportNames names => .ok (.exportNames (r.exportsNamed names))
  | .everything => .ok (.whole r)

/-- A view as a document.  The whole of a report is its plain form. -/
def View.toDocument : View → Document
  | packages shown =>
    .object [("packages".toList, .array (shown.map Package.toDocument))]
  | exportNames shown =>
    .object [("exportNames".toList, .array (shown.map ExportEntry.toDocument))]
  | whole report => report.toDocument

end ImportCensus
