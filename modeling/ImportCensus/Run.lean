import ImportCensus.Discovery
import ImportCensus.Log
import ImportCensus.Report.Builder
import ImportCensus.Report.Options
import ImportCensus.SourceFile.Reading

/-!
# Runs

A run discovers files, reads each of them as a task of its own, and builds a report of the
results.  The tasks may be completed in any order.  The results are taken in the order in which
the files were discovered, so that the order of completion does not show.
-/

namespace ImportCensus

/-- Why a run gives no report. -/
inductive RunError where
  | configuration (error : ConfigurationError)
  | noMatch
  | pattern (error : Glob.Error)
  deriving DecidableEq, Repr

/-- The wording of an error. -/
def RunError.message : RunError → String
  | configuration e => e.message
  | noMatch => "No matching files found."
  | pattern e => e.message

/-- A task that has been completed: the file it was for, and what it came to. -/
abbrev Completion := Text × TaskOutcome

/-- What a run has come to. -/
structure Run where
  report : Report
  failures : List ParseFailure
  log : List LogLine
  deriving DecidableEq, Repr

namespace Run

/-- The results of completed tasks by file. -/
def results (completed : List Completion) : Table Text FileResult :=
  Table.ofList (completed.map fun completion =>
    (completion.1, completion.2.result completion.1))

/-- What the results taken so far have come to. -/
structure Progress where
  builder : ReportBuilder := {}
  failures : List ParseFailure := []
  warnings : List LogLine := []
  deriving DecidableEq, Repr

/-- The part of the library that tells of runs. -/
def speaker : String := "depreport.report"

/-- The warning about a file that could not be read. -/
def warning (filepath : Text) (failure : ParseFailure) : LogLine :=
  {
    level := .warning
    speaker
    message := "Failed to parse " ++ filepath.toString ++ ": " ++ failure.error }

/-- One more result.  A file that could not be read goes to the failures and nowhere else. -/
def Progress.take (progress : Progress) (filepath : Text) : FileResult → Progress
  | .parsed file => { progress with builder := progress.builder.add file }
  | .failed failure =>
    { progress with
      failures := progress.failures ++ [failure]
      warnings := progress.warnings ++ [warning filepath failure] }

/-- The results of the files, taken one after the other. -/
def gather (files : List Text) (results : Table Text FileResult) : Progress :=
  files.foldl (fun progress filepath =>
    match results.get? filepath with
    | some result => progress.take filepath result
    | none => progress) {}

/-- The line that says how much a run has found. -/
def countLine (files : List Text) (report : Report) (failures : List ParseFailure) : LogLine :=
  {
    level := .info
    speaker
    message :=
      "Analyzed " ++ toString files.length ++ " files: " ++ toString report.packages.size
        ++ " packages, " ++ toString report.exportNames.size ++ " export names, "
        ++ toString failures.length ++ " failures" }

/-- The run over discovered files whose tasks have been completed in some order. -/
def ofCompletions (options : ReportOptions) (files : List Text) (completed : List Completion) :
    Run :=
  let progress := gather files (results completed)
  let report := progress.builder.build options.files (some options.resolvedExcludeGlob)
  {
    report
    failures := progress.failures
    log := progress.warnings ++ [countLine files report progress.failures] }

/-- The run over discovered files whose tasks have been completed in some order.  There is none
over no files. -/
def overFiles (options : ReportOptions) (files : List Text) (completed : List Completion) :
    Except RunError Run :=
  if files.isEmpty then .error .noMatch else .ok (ofCompletions options files completed)

/-- The line that says that a file had to be scanned a second time. -/
def fallbackLine (e : ScanError) : LogLine :=
  {
    level := .debug
    speaker := "depreport.extract"
    message := "Lexer failed (" ++ e.message ++ "), retrying on extracted import statements" }

/-- What the task for a file comes to, and what it tells on the way. -/
abbrev Task := Text → TaskOutcome × List LogLine

/-- The task that reads a file of a tree. -/
def readingTask (here : Place) (options : ReportOptions) : Task := fun filepath =>
  let attempt := SourceFile.attemptAt here options.root filepath options.defaultImportLabel
  (attempt.1, (attempt.2.map fallbackLine).toList)

/-- The run with these options over the files of a tree, each read by a task. -/
def withTask (here : Place) (options : ReportOptions) (task : Task) : Except RunError Run := do
  let files ←
    (Discovery.resolveIn here options.root options.files options.resolvedExcludeGlob).mapError
      .pattern
  let completed := files.map fun filepath => (filepath, task filepath)
  let run ← overFiles options files (completed.map fun c => (c.1, c.2.1))
  return { run with log := (completed.flatMap fun c => c.2.2) ++ run.log }

/-- The run with these options over the files of a tree. -/
def inTree (here : Place) (options : ReportOptions) : Except RunError Run :=
  withTask here options (readingTask here options)

end Run

end ImportCensus
