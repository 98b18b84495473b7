import ImportCensus.CommandLine.Command
import ImportCensus.Report.Summary
import ImportCensus.Report.View
import ImportCensus.Run

/-!
# The command line

What a command writes, and the status it ends with: zero where it has done its work, one where no
file has been found, and two where it has not been understood.
-/

namespace ImportCensus.CommandLine

/-- What a command has come to. -/
structure Outcome where
  exit : Nat
  output : Text := []
  log : List LogLine := []
  deriving DecidableEq, Repr

/-- The end of a command that is not carried out. -/
def stopped : Stop → Outcome
  | .usage => { exit := 2 }
  | .help => { exit := 0 }

/-- The end of a command with an error that is told. -/
def failed (exit : Nat) (message : String) : Outcome :=
  { exit, log := [{ level := .error, speaker := "depreport", message }] }

/-- What is asked of the report. -/
def selection (a : ReportArguments) : Selection :=
  .ofLists a.packages a.exportNames

/-- The text that shows a run. -/
def shown (a : ReportArguments) (run : Run) : Except Glob.Error Text :=
  if a.summary then
    .ok (Summary.ofReport run.report run.failures Summary.defaultLimit).toList
  else (run.report.view (selection a)).map fun view => view.toDocument.render

/-- The command that reports.  A pattern that is refused gives no outcome. -/
def report (here : Place) (verbose : Bool) (a : ReportArguments) : Except Glob.Error Outcome :=
  match ReportOptions.ofParts a.patterns a.exclude a.root a.workers a.defaultLabel with
  | .error faults => .ok (failed 2 (ConfigurationError.invalid faults).message)
  | .ok options =>
    match Run.inTree here options with
    | .error (.pattern e) => .error e
    | .error .noMatch => .ok (failed 1 RunError.noMatch.message)
    | .error (.configuration e) => .ok (failed 2 e.message)
    | .ok run => (shown a run).map fun text =>
      {
        exit := 0
        output := text ++ ['\n']
        log := LogLine.atLeast (if verbose then .debug else .warning) run.log }

/-- The command line.  Requests over a network are left to whoever has one. -/
def run (here : Place) (arguments : List Text) : Except Glob.Error Outcome :=
  match Invocation.read arguments with
  | .error stop => .ok (stopped stop)
  | .ok ⟨verbose, .report a⟩ => report here verbose a
  | .ok ⟨_, .serve _⟩ => .ok { exit := 0 }

end ImportCensus.CommandLine
