import ImportCensus.Validation.Reader

/-!
# Options of a report

What a report is made of: the patterns that choose files, and where and how to look for them.
There is at least one pattern, and a number of workers is not below one.
-/

namespace ImportCensus

/-- The options of a report. -/
structure ReportOptions where
  files : List Text
  excludeGlob : Option Text := none
  root : Text := ['.']
  workers : Option Int := none
  defaultImportLabel : Option Text := none
  files_ne_nil : files ≠ [] := by decide
  one_le_workers : ∀ n ∈ workers, 1 ≤ n := by simp

/-- Why there are no options to make a report with. -/
inductive ConfigurationError where
  | noOptions
  | noFiles
  | invalid (faults : List Fault)
  deriving DecidableEq, Repr

/-- The wording of an error, without the faults. -/
def ConfigurationError.message : ConfigurationError → String
  | noOptions => "No options passed to DependencyReport."
  | noFiles => "No files passed to DependencyReport."
  | invalid _ => "Invalid DependencyReport options"

namespace ReportOptions

/-- The pattern for files that are left out unless another one is given. -/
def defaultExcludeGlob : Text := "**/node_modules/**".toList

/-- The pattern for files that are left out.  The empty pattern is none. -/
def resolvedExcludeGlob (o : ReportOptions) : Text :=
  match o.excludeGlob with
  | none => defaultExcludeGlob
  | some pattern => if pattern.isEmpty then defaultExcludeGlob else pattern

/-- A list that must not be empty. -/
def checkFiles (files : List Text) : Checked { files : List Text // files ≠ [] } :=
  if h : files = [] then Checked.fault .emptyList else .ok ⟨files, h⟩

/-- A number of workers, which must not be below one. -/
def checkWorkers : Option Int → Checked { workers : Option Int // ∀ n ∈ workers, 1 ≤ n }
  | none => .ok ⟨none, by simp⟩
  | some n => if h : 1 ≤ n then .ok ⟨some n, by simpa using h⟩ else Checked.fault .belowOne

/-- Options from their parts. -/
def ofParts (files : List Text) (excludeGlob : Option Text) (root : Text) (workers : Option Int)
    (defaultImportLabel : Option Text) : Checked ReportOptions := do
  let (files, workers) ←
    ((checkFiles files).within (.field "files".toList)).both
      ((checkWorkers workers).within (.field "workers".toList))
  return {
    files := files.val
    excludeGlob
    root
    workers := workers.val
    defaultImportLabel
    files_ne_nil := files.property
    one_le_workers := workers.property }

/-- The patterns for files; a text is the only one. -/
def readFiles : Reader { files : List Text // files ≠ [] }
  | .text pattern => .ok ⟨[pattern], by simp⟩
  | d => Reader.list Reader.text d >>= checkFiles

/-- The options of a report from a document. -/
def read : Reader ReportOptions := fun d => do
  let fields ← Reader.fields "ReportOptions" d
  let optionalText := Reader.optional Reader.text
  let (files, excludeGlob, root, workers, defaultImportLabel) ←
    (Reader.required fields ["files"] readFiles).both <|
      (Reader.withDefault fields ["excludeGlob", "exclude_glob"] optionalText none).both <|
        (Reader.withDefault fields ["root"] Reader.text ['.']).both <|
          (Reader.withDefault fields ["workers"]
            (fun d => Reader.optional Reader.integer d >>= checkWorkers) ⟨none, by simp⟩).both
            (Reader.withDefault fields ["defaultImportLabel", "default_import_label"]
              optionalText none)
  return {
    files := files.val
    excludeGlob
    root
    workers := workers.val
    defaultImportLabel
    files_ne_nil := files.property
    one_le_workers := workers.property }

/-- The options of a report from a document, which may be missing. -/
def ofDocument : Document → Except ConfigurationError ReportOptions
  | .null => .error .noOptions
  | .object fields =>
    if (Table.lookup "files".toList fields).isNone then .error .noFiles
    else (read (.object fields)).mapError .invalid
  | d => (read d).mapError .invalid

end ReportOptions

end ImportCensus
