import ImportCensus.CommandLine.Argument
import ImportCensus.Text.Blank
import ImportCensus.Text.Numeral

/-!
# Commands

The commands that the command line understands, and how they are read from its arguments.
-/

namespace ImportCensus

/-- The arguments of the command that reports. -/
structure ReportArguments where
  patterns : List Text
  exclude : Option Text := none
  root : Text := ['.']
  workers : Option Int := none
  packages : List Text := []
  exportNames : List Text := []
  defaultLabel : Option Text := none
  summary : Bool := false
  deriving DecidableEq, Repr

/-- The arguments of the command that answers requests. -/
structure ServeArguments where
  host : Text := "127.0.0.1".toList
  port : Int := 8000
  reload : Bool := false
  deriving DecidableEq, Repr

/-- A command. -/
inductive Command where
  | report (arguments : ReportArguments)
  | serve (arguments : ServeArguments)
  deriving DecidableEq, Repr

/-- A command with what is said before it. -/
structure Invocation where
  verbose : Bool
  command : Command
  deriving DecidableEq, Repr

namespace Command

/-- The whole number that a value writes. -/
def integerValue (text : Text) : Except Stop Int :=
  match Text.integer? Text.decimalValue? (Text.strip Text.isBlank text) with
  | some n => .ok n
  | none => .error .usage

/-- The last of the values of an option, if there is one. -/
def lastValue (values : List Text) : Option Text :=
  values.getLast?

/-- The names of the option that asks for help. -/
def helpNames : List Text := ["-h".toList, "--help".toList]

/-- The options of the command that reports. -/
inductive ReportOption where
  | help | exclude | root | workers | packages | exportNames | defaultLabel | summary
  deriving DecidableEq, Repr

/-- The names of the options of the command that reports. -/
def reportOptions : List (OptionSpec ReportOption) :=
  [⟨.help, helpNames, .flag⟩, ⟨.exclude, ["--exclude".toList], .one⟩,
   ⟨.root, ["--root".toList], .one⟩, ⟨.workers, ["--workers".toList], .one⟩,
   ⟨.packages, ["--packages".toList], .many⟩, ⟨.exportNames, ["--export-names".toList], .many⟩,
   ⟨.defaultLabel, ["--default-label".toList], .one⟩, ⟨.summary, ["--summary".toList], .flag⟩]

/-- Arguments while they are read: those read so far, and whether any has had no use.  There are
patterns only behind the operands. -/
structure Draft (α : Type) where
  arguments : α
  stray : Bool := false

/-- One option of the command that reports.  The last one of a name counts. -/
def setReportOption (a : ReportArguments) (values : List Text) :
    ReportOption → Except Stop ReportArguments
  | .help => .error .help
  | .exclude => .ok { a with exclude := lastValue values }
  | .root => .ok { a with root := (lastValue values).getD a.root }
  | .workers => do
    let n ← integerValue ((lastValue values).getD [])
    return { a with workers := some n }
  | .packages => .ok { a with packages := values }
  | .exportNames => .ok { a with exportNames := values }
  | .defaultLabel => .ok { a with defaultLabel := lastValue values }
  | .summary => .ok { a with summary := true }

/-- One thing that the arguments of the command that reports ask for.  Its operands stand
together. -/
def reportStep (d : Draft ReportArguments) : Step ReportOption → Except Stop (Draft ReportArguments)
  | .set key values => do
    let arguments ← setReportOption d.arguments values key
    return { d with arguments }
  | .operands texts =>
    if d.arguments.patterns.isEmpty then
      .ok { d with arguments := { d.arguments with patterns := texts } }
    else .ok { d with stray := true }
  | .stray => .ok { d with stray := true }
  | .bad => .error .usage

/-- The command that reports from its arguments. -/
def readReport (arguments : List Text) : Except Stop ReportArguments := do
  let steps := Step.ofArguments reportOptions (← Argument.classifyAll reportOptions arguments)
  let draft ← steps.foldlM reportStep { arguments := { patterns := [] } }
  if draft.stray || draft.arguments.patterns.isEmpty then .error .usage
  else .ok draft.arguments

/-- The options of the command that answers requests. -/
inductive ServeOption where
  | help | host | port | reload
  deriving DecidableEq, Repr

/-- The names of the options of the command that answers requests. -/
def serveOptions : List (OptionSpec ServeOption) :=
  [⟨.help, helpNames, .flag⟩, ⟨.host, ["--host".toList], .one⟩, ⟨.port, ["--port".toList], .one⟩,
   ⟨.reload, ["--reload".toList], .flag⟩]

/-- One thing that the arguments of the command that answers requests ask for.  It has no
operands. -/
def serveStep (d : Draft ServeArguments) : Step ServeOption → Except Stop (Draft ServeArguments)
  | .set .help _ => .error .help
  | .set .host values =>
    .ok { d with
      arguments := { d.arguments with host := (lastValue values).getD d.arguments.host } }
  | .set .port values => do
    let port ← integerValue ((lastValue values).getD [])
    return { d with arguments := { d.arguments with port } }
  | .set .reload _ => .ok { d with arguments := { d.arguments with reload := true } }
  | .operands _ | .stray => .ok { d with stray := true }
  | .bad => .error .usage

/-- The command that answers requests from its arguments. -/
def readServe (arguments : List Text) : Except Stop ServeArguments := do
  let steps := Step.ofArguments serveOptions (← Argument.classifyAll serveOptions arguments)
  let draft ← steps.foldlM serveStep { arguments := {} }
  if draft.stray then .error .usage else .ok draft.arguments

/-- A command from its name and its arguments. -/
def read (name : Text) (arguments : List Text) : Except Stop Command :=
  if name = "report".toList then (readReport arguments).map report
  else if name = "serve".toList then (readServe arguments).map serve
  else .error .usage

end Command

namespace Invocation

/-- The options that stand before a command. -/
inductive GeneralOption where
  | help | verbose
  deriving DecidableEq, Repr

/-- The names of the options that stand before a command. -/
def generalOptions : List (OptionSpec GeneralOption) :=
  [⟨.help, Command.helpNames, .flag⟩, ⟨.verbose, ["-v".toList, "--verbose".toList], .flag⟩]

/-- One thing that is asked for before a command. -/
def generalStep (d : Command.Draft Bool) :
    Step GeneralOption → Except Stop (Command.Draft Bool)
  | .set .help _ => .error .help
  | .set .verbose _ => .ok { d with arguments := true }
  | .operands _ | .stray => .ok { d with stray := true }
  | .bad => .error .usage

/-- A command from the arguments of the command line.  Its name is the first operand, and all that
follows belongs to it. -/
def read (arguments : List Text) : Except Stop Invocation := do
  let all ← Argument.classifyAll generalOptions arguments
  let before := all.takeWhile Argument.isOption
  let draft ← (Step.ofArguments generalOptions before).foldlM generalStep { arguments := false }
  match all.drop before.length, arguments.drop before.length with
  | .operand name :: _, _ :: rest =>
    let command ← Command.read name rest
    if draft.stray then .error .usage else return { verbose := draft.arguments, command }
  | _, _ => .error .usage

end Invocation

end ImportCensus
