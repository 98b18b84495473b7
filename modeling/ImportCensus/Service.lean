import ImportCensus.Report.View
import ImportCensus.Run

/-!
# Reports by request

A request names a directory, patterns for files, and what is asked of the report.  The answer is
the part of the report asked for with the files that could not be read, or a refusal with the
status that tells its kind.
-/

namespace ImportCensus.Service

/-- A request for a report. -/
structure Request where
  root : Text := ['.']
  files : List Text
  excludeGlob : Option Text := none
  defaultImportLabel : Option Text := none
  packages : Option (List Text) := none
  exportNames : Option (List Text) := none
  deriving DecidableEq, Repr

/-- A request from a document. -/
def Request.read : Reader Request := fun d => do
  let fields ← Reader.fields "ReportRequest" d
  let optionalText := Reader.optional Reader.text
  let optionalTexts := Reader.optional (Reader.list Reader.text)
  let (root, files, excludeGlob, defaultImportLabel, packages, exportNames) ←
    (Reader.withDefault fields ["root"] Reader.text ['.']).both <|
      (Reader.required fields ["files"] (Reader.list Reader.text)).both <|
        (Reader.withDefault fields ["exclude_glob"] optionalText none).both <|
          (Reader.withDefault fields ["default_import_label"] optionalText none).both <|
            (Reader.withDefault fields ["packages"] optionalTexts none).both
              (Reader.withDefault fields ["export_names"] optionalTexts none)
  return { root, files, excludeGlob, defaultImportLabel, packages, exportNames }

/-- What is asked of the report. -/
def Request.selection (r : Request) : Selection :=
  .ofLists (r.packages.getD []) (r.exportNames.getD [])

/-- An answer to a request. -/
inductive Response where
  /-- The request has not the shape of one. -/
  | malformed (faults : List Fault)
  | refused (status : Nat) (detail : String)
  | shown (view : View) (failures : List ParseFailure)
  deriving DecidableEq, Repr

/-- The status of an answer. -/
def Response.status : Response → Nat
  | malformed _ => 422
  | refused status _ => status
  | shown _ _ => 200

/-- A failure as a document. -/
def failureDocument (failure : ParseFailure) : Document :=
  .object [
    ("filepath".toList, .text failure.filepath),
    ("error".toList, .text failure.error.toList)]

/-- The field of a body that shows a view. -/
def viewField : View → Text × Document
  | .packages shown => ("packages".toList, .array (shown.map Package.toDocument))
  | .exportNames shown => ("exportNames".toList, .array (shown.map ExportEntry.toDocument))
  | .whole report => ("report".toList, report.toDocument)

/-- The body of an answer that shows something. -/
def Response.body? : Response → Option Document
  | malformed _ | refused _ _ => none
  | shown view failures =>
    some (.object [viewField view, ("failures".toList, .array (failures.map failureDocument))])

/-- The directory that a request names, as a path from the root of the tree. -/
def Request.directory (here : Place) (r : Request) : Text :=
  Path.normalize (Path.join here.path r.root)

/-- The answer to a request whose directory is there.  A pattern that is refused gives no
answer. -/
def answerFrom (here : Place) (directory : Text) (r : Request) : Except Glob.Error Response :=
  match ReportOptions.ofParts r.files r.excludeGlob directory none r.defaultImportLabel with
  | .error faults => .ok (.refused 400 (ConfigurationError.invalid faults).message)
  | .ok options =>
    match Run.inTree here options with
    | .error (.pattern e) => .error e
    | .error .noMatch => .ok (.refused 404 RunError.noMatch.message)
    | .error (.configuration e) => .ok (.refused 400 e.message)
    | .ok run => (run.report.view r.selection).map fun view => .shown view run.failures

/-- The answer to a request. -/
def answer (here : Place) (r : Request) : Except Glob.Error Response :=
  let directory := r.directory here
  if here.hasDirectory directory then answerFrom here directory r
  else .ok (.refused 400 ("Invalid root: " ++ directory.toString))

/-- The answer to a document that should be a request. -/
def answerDocument (here : Place) (d : Document) : Except Glob.Error Response :=
  match Request.read d with
  | .error faults => .ok (.malformed faults)
  | .ok r => answer here r

end ImportCensus.Service
