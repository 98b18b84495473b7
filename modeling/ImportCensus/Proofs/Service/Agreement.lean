import ImportCensus.CommandLine
import ImportCensus.Proofs.Run.Roots
import ImportCensus.Service

/-!
# The command line and the service

The command line looks below the root as it is written, the service below the directory that the root
names from the root of the tree.  Both lead to one place, so the command line does its work exactly
where the service shows something, and finds no file exactly where the service refuses with the status
for that; and what it writes is the body of the answer without the failures.  The system refuses long
paths, though, and a file may have a path that is long behind one of the two roots only.
-/

namespace ImportCensus

/-- Parts that can make options do. -/
theorem ReportOptions.ofParts_eq_ok {files : List Text} (hfiles : files ≠ []) {workers : Option Int}
    (hworkers : ∀ n ∈ workers, 1 ≤ n) (excludeGlob : Option Text) (root : Text)
    (defaultImportLabel : Option Text) :
  ofParts files excludeGlob root workers defaultImportLabel
    = .ok {
      files
      excludeGlob
      root
      workers
      defaultImportLabel
      files_ne_nil := hfiles
      one_le_workers := hworkers }
  := by
  have hcheck : checkWorkers workers = .ok ⟨workers, hworkers⟩ := by
    cases workers with
    | none => rfl
    | some n => rw [checkWorkers, dif_pos (hworkers n rfl)]
  rw [ofParts, checkFiles, dif_neg hfiles, hcheck]
  rfl

namespace Service

open Place (IsAlikeBehind)

/-- The arguments of the command line that ask for what a request asks for. -/
def Request.toArguments (r : Request) (workers : Option Int) : ReportArguments where
  patterns := r.files
  exclude := r.excludeGlob
  root := r.root
  workers := workers
  packages := r.packages.getD []
  exportNames := r.exportNames.getD []
  defaultLabel := r.defaultImportLabel

/-- Fields without those of a name. -/
def without (name : Text) (fields : List (Text × Document)) : List (Text × Document) :=
  fields.filter fun field => field.1 ≠ name

/-- Fields as a document, or what stands in the one of a name if there is one. -/
def unwrapped (name : Text) (fields : List (Text × Document)) : Document :=
  (Table.lookup name fields).getD (.object fields)

/-- A body without the failures.  A report that stands in a field of its own is taken out of it. -/
def withoutFailures : Document → Document
  | .object fields => unwrapped "report".toList (without "failures".toList fields)
  | d => d

/-- Requests whose directory can be asked for, and of which the files that the patterns find can be
asked for behind the root and behind the directory, or behind neither. -/
structure Request.FitsLimits (here : Place) (r : Request) : Prop where
  octetCount_directory : Text.octetCount (r.directory here) < pathLimit
  isAlikeBehind : ∀ pattern ∈ Discovery.includes r.files, ∀ paths,
    Glob.search? here r.root pattern = .ok paths → ∀ path ∈ paths,
      here.hasFile (Path.join r.root path) ∨ here.hasFile (Path.join (r.directory here) path) →
        IsAlikeBehind r.root (r.directory here) path

variable {here : Place} {r : Request}

/-- Leaving the last field out unwraps the other one, if it is the wrapper. -/
theorem unwrapped_without {name last : Text} (h : name ≠ last) (wrapper : Text) (shown d : Document) :
  unwrapped wrapper (without last [(name, shown), (last, d)])
    = if name = wrapper then shown else .object [(name, shown)]
  := by
  have hwithout : without last [(name, shown), (last, d)] = [(name, shown)] := by simp [without, h]
  rw [hwithout, unwrapped, Table.lookup]
  split
  · rfl
  · rfl

/-- What is left of the body of a view is the view as a document. -/
theorem withoutFailures_body (view : View) (failures : List ParseFailure) :
  (Response.shown view failures).body?.map withoutFailures = some view.toDocument
  := by
  have hpackages : "packages".toList ≠ "failures".toList ∧ "packages".toList ≠ "report".toList := by
    decide +kernel
  have hnames : "exportNames".toList ≠ "failures".toList ∧ "exportNames".toList ≠ "report".toList := by
    decide +kernel
  have hreport : "report".toList ≠ "failures".toList := by decide +kernel
  apply congrArg some
  cases view with
  | packages shown =>
    exact (unwrapped_without hpackages.1 "report".toList _ _).trans (if_neg hpackages.2)
  | exportNames shown =>
    exact (unwrapped_without hnames.1 "report".toList _ _).trans (if_neg hnames.2)
  | whole report => exact (unwrapped_without hreport "report".toList _ _).trans (if_pos rfl)

/-- A run of the command line and an answer of the service that say the same: the command line does its
work where the service shows something, and finds no file where the service says so.  What is written
is the body without the failures. -/
structure Agrees (outcome : CommandLine.Outcome) (response : Response) : Prop where
  exit_zero : outcome.exit = 0 ↔ response.body?.isSome = true
  exit_one : outcome.exit = 1 ↔ response.status = 404
  exit_eq : outcome.exit = 0 ∨ outcome.exit = 1
  output_eq : ∀ body ∈ response.body?, outcome.output = (withoutFailures body).render ++ ['\n']

theorem agrees_noMatch (message detail : String) :
  Agrees (CommandLine.failed 1 message) (.refused 404 detail)
  where
  exit_zero := by simp [CommandLine.failed, Response.body?]
  exit_one := by simp [CommandLine.failed, Response.status]
  exit_eq := .inr rfl
  output_eq _ h := nomatch h

theorem agrees_shown (view : View) (failures : List ParseFailure) (log : List LogLine) :
  Agrees { exit := 0, output := view.toDocument.render ++ ['\n'], log } (.shown view failures)
  where
  exit_zero := by simp [Response.body?]
  exit_one := by simp [Response.status]
  exit_eq := .inl rfl
  output_eq body h := by
    have hview := withoutFailures_body view failures
    rw [h, Option.map_some, Option.some_inj] at hview
    rw [hview]

/-- Where both have found the same, the command line and the service agree. -/
theorem exists_agreeing_answer {o o' : ReportOptions} {a : ReportArguments} {verbose : Bool}
    {outcome : CommandLine.Outcome}
    (ho : ReportOptions.ofParts a.patterns a.exclude a.root a.workers a.defaultLabel = .ok o)
    (ho' : ReportOptions.ofParts r.files r.excludeGlob (r.directory here) none r.defaultImportLabel
      = .ok o')
    (hdirectory : here.hasDirectory (r.directory here) = true)
    (hselection : CommandLine.selection a = r.selection) (hsummary : a.summary = false)
    (hreport : (Run.inTree here o').map Run.report = (Run.inTree here o).map Run.report)
    (hrun : CommandLine.report here verbose a = .ok outcome) :
  ∃ response, answer here r = .ok response ∧ Agrees outcome response
  := by
  simp only [CommandLine.report, ho] at hrun
  simp only [answer, hdirectory, if_true, answerFrom, ho']
  cases hfound : Run.inTree here o with
  | error e =>
    rw [hfound] at hrun hreport
    rw [eq_error_of_map_eq_error hreport]
    cases e with
    | pattern e => cases hrun
    | configuration e => exact absurd hfound (Run.inTree_ne_configuration here o e)
    | noMatch =>
      cases hrun
      exact ⟨_, rfl, agrees_noMatch _ _⟩
  | ok run =>
    rw [hfound] at hrun hreport
    obtain ⟨run', hfound', hsame⟩ := exists_of_map_eq_ok hreport
    rw [hfound']
    obtain ⟨text, htext, rfl⟩ := exists_of_map_eq_ok hrun
    rw [CommandLine.shown, if_neg (by simp [hsummary]), hselection, hsame] at htext
    obtain ⟨view, hview, rfl⟩ := exists_of_map_eq_ok htext
    simp only [hview]
    exact ⟨_, rfl, agrees_shown _ _ _⟩

/-- A root that begins with a dot is taken for one as it is written. -/
theorem read_report_root (rest : Text) :
  Invocation.read ["report".toList, "--root".toList, '.' :: rest, "*.js".toList]
    = .ok ⟨false, .report { patterns := ["*.js".toList], root := '.' :: rest }⟩
  := by
  have hsteps : Step.ofArguments Command.reportOptions
      [.option ⟨.root, ["--root".toList], .one⟩ none, .operand ('.' :: rest), .operand "*.js".toList]
      = [.set .root ['.' :: rest], .operands ["*.js".toList]] := by
    simp [Step.ofArguments, Step.leadingOperands, Step.ofOperands, Argument.operand?,
      List.reduceOption]
  have hbefore : Step.ofArguments Invocation.generalOptions [] = [] := by
    rw [Step.ofArguments]
  have hclassified : Argument.classifyAll Command.reportOptions
      ["--root".toList, '.' :: rest, "*.js".toList]
      = .ok [.option ⟨.root, ["--root".toList], .one⟩ none, .operand ('.' :: rest),
        .operand "*.js".toList] := rfl
  have hreport : Command.readReport ["--root".toList, '.' :: rest, "*.js".toList]
      = .ok { patterns := ["*.js".toList], root := '.' :: rest } := by
    rw [Command.readReport, hclassified]
    simp only [bind, Except.bind, hsteps]
    rfl
  have hgeneral : Argument.classifyAll Invocation.generalOptions
      ["report".toList, "--root".toList, '.' :: rest, "*.js".toList]
      = .ok [.operand "report".toList, .unknown "--root".toList, .operand ('.' :: rest),
        .operand "*.js".toList] := rfl
  have hcommand : Command.read "report".toList ["--root".toList, '.' :: rest, "*.js".toList]
      = .ok (.report { patterns := ["*.js".toList], root := '.' :: rest }) := by
    rw [Command.read, if_pos rfl, hreport]
    rfl
  rw [Invocation.read, hgeneral]
  simp only [bind, Except.bind, List.takeWhile, Argument.isOption, hbefore, List.foldlM_nil]
  simp only [List.length_nil, List.drop_zero, pure, Except.pure, hcommand]
  rfl

/-- The command line and the service answer alike.  For every tree and every working directory in it,
every root that leads to a directory and takes nothing back, and arguments that ask for what a request
asks for, a command line that is answered gets the answer of the service, as far as the paths are
refused behind the root as they are behind its normal form. -/
theorem exists_answer_of_run {node : Node} {cwd : Text} {workers : Option Int} {arguments : List Text}
    {verbose : Bool} {outcome : CommandLine.Outcome}
    (hhere : Place.follow ⟨node, []⟩ cwd = .ok here) (hnul : Path.holdsNul cwd = false)
    (hroot : here.hasDirectory r.root = true) (hup : Path.dotDot ∉ Path.segments r.root)
    (hfiles : r.files ≠ []) (hworkers : ∀ n ∈ workers, 1 ≤ n) (hlimits : r.FitsLimits here)
    (hread : Invocation.read arguments = .ok ⟨verbose, .report (r.toArguments workers)⟩)
    (hrun : CommandLine.run here arguments = .ok outcome) :
  ∃ response, answer here r = .ok response ∧ Agrees outcome response
  := by
  obtain ⟨directory, hfollow, hdirectory⟩ := Place.exists_of_hasDirectory hroot
  have hmeet := (Place.isAnchored_of_follow hhere hnul).meet_normalize hfollow hdirectory hup
    hlimits.octetCount_directory
  have hnone : ∀ n ∈ (none : Option Int), 1 ≤ n := fun _ h => nomatch h
  apply exists_agreeing_answer (a := r.toArguments workers)
    (ReportOptions.ofParts_eq_ok hfiles hworkers _ _ _)
    (ReportOptions.ofParts_eq_ok hfiles hnone _ _ _)
  · rw [Place.hasDirectory, Request.directory, hmeet.follow_right]
    exact hdirectory
  · rfl
  · rfl
  · exact Run.map_report_inTree_eq hmeet rfl rfl rfl hlimits.isAlikeBehind
  · simpa [CommandLine.run, hread] using hrun

/-- Of two files one cannot be read, and the other uses a package that is asked for. -/
theorem exists_answer_of_run_source :
  let work : Node := .directory [("src".toList, .directory [
    ("a.js".toList, .file ("import 'x'".toList.map fun c => c.toNat.toUInt8)),
    ("b.js".toList, .file [255])])]
  let here : Place := ⟨work, [("work".toList, .directory [("work".toList, work)])]⟩
  let r : Request := {
    root := "./src".toList
    files := ["a*".toList, "b*".toList]
    packages := some ["x".toList] }
  let arguments :=
    ["report".toList, "--root".toList, "./src".toList, "a*".toList, "b*".toList, "--packages".toList,
      "x".toList]
  let outcome : CommandLine.Outcome := {
    exit := 0
    output := (View.packages [⟨"x".toList, ["a.js".toList], .empty⟩]).toDocument.render ++ ['\n']
    log := [Run.warning "b.js".toList ⟨"b.js".toList, (Utf8.Error.mk 0 255 1 .invalidStart).message⟩] }
  Place.follow ⟨.directory [("work".toList, work)], []⟩ "/work".toList = .ok here
    ∧ Path.holdsNul "/work".toList = false ∧ here.hasDirectory r.root = true
    ∧ Path.dotDot ∉ Path.segments r.root ∧ r.files ≠ [] ∧ r.FitsLimits here
    ∧ Invocation.read arguments = .ok ⟨false, .report (r.toArguments none)⟩
    ∧ CommandLine.run here arguments = .ok outcome
    ∧ ∃ response, answer here r = .ok response ∧ Agrees outcome response
  := by
  intro work here r arguments outcome
  have hhere : Place.follow ⟨.directory [("work".toList, work)], []⟩ "/work".toList = .ok here := rfl
  have hnul : Path.holdsNul "/work".toList = false := by decide +kernel
  have hroot : here.hasDirectory r.root = true := by decide +kernel
  have hup : Path.dotDot ∉ Path.segments r.root := by decide +kernel
  have hfiles : r.files ≠ [] := by decide +kernel
  have hlimits : r.FitsLimits here := by
    have hfound : Glob.search? here r.root "a*".toList = .ok ["a.js".toList]
        ∧ Glob.search? here r.root "b*".toList = .ok ["b.js".toList] := by decide +kernel
    have halike : ∀ path ∈ ["a.js".toList, "b.js".toList],
        IsAlikeBehind r.root (r.directory here) path := by decide +kernel
    rw [List.forall_mem_cons, List.forall_mem_singleton] at halike
    refine ⟨by decide +kernel, ?_⟩
    intro pattern hpattern paths hpaths
    have hincludes : Discovery.includes r.files = ["a*".toList, "b*".toList] := by decide +kernel
    rw [hincludes, List.mem_cons, List.mem_singleton] at hpattern
    obtain rfl | rfl := hpattern
    · rw [hfound.1] at hpaths
      cases hpaths
      exact List.forall_mem_singleton.mpr fun _ => halike.1
    · rw [hfound.2] at hpaths
      cases hpaths
      exact List.forall_mem_singleton.mpr fun _ => halike.2
  have hread : Invocation.read arguments = .ok ⟨false, .report (r.toArguments none)⟩ := by
    decide +kernel
  have hrun : CommandLine.run here arguments = .ok outcome := by decide +kernel
  exact ⟨hhere, hnul, hroot, hup, hfiles, hlimits, hread, hrun,
    exists_answer_of_run hhere hnul hroot hup hfiles (by simp) hlimits hread hrun⟩

/-- A root that is written with so many dots that no file below it can be asked for.  The service, which
asks below the directory that the root names, finds the file. -/
theorem not_agrees_dots :
  let work : Node := .directory [
    ("entry.js".toList, .file ("import 'x'\n".toList.map fun c => c.toNat.toUInt8))]
  let here : Place := ⟨work, [("work".toList, .directory [("work".toList, work)])]⟩
  let r : Request := { root := (List.replicate 2045 ['.', '/']).flatten, files := ["*.js".toList] }
  let arguments := ["report".toList, "--root".toList, r.root, "*.js".toList]
  let outcome := CommandLine.failed 1 RunError.noMatch.message
  Place.follow ⟨.directory [("work".toList, work)], []⟩ "/work".toList = .ok here
    ∧ here.hasDirectory r.root = true ∧ Path.dotDot ∉ Path.segments r.root
    ∧ Invocation.read arguments = .ok ⟨false, .report (r.toArguments none)⟩
    ∧ CommandLine.run here arguments = .ok outcome
    ∧ (answer here r).map Response.status = .ok 200
    ∧ ¬ ∃ response, answer here r = .ok response ∧ Agrees outcome response
  := by
  intro work here r arguments outcome
  have hstatus : (answer here r).map Response.status = .ok 200 := by decide +kernel
  refine ⟨rfl, by decide +kernel, by decide +kernel, read_report_root _, by decide +kernel, hstatus, ?_⟩
  rintro ⟨response, hanswer, hagrees⟩
  rw [hanswer] at hstatus
  have hrefused : response.status = 404 := hagrees.exit_one.mp rfl
  rw [Except.map, hrefused] at hstatus
  cases hstatus

end Service

end ImportCensus
