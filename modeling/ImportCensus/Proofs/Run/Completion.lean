import Mathlib.Data.List.Basic
import ImportCensus.Run

/-!
# The order of completion

The tasks of a run may be completed in any order.  A result is looked up by its file, and the results
are taken in the order in which the files were discovered; so a run is told from what the task of each
file comes to.  A file that cannot be read adds a failure and a warning, and leaves no trace in the
report.
-/

namespace ImportCensus

namespace FileResult

/-- The file that could be read. -/
def file? : FileResult → Option ParsedFile
  | parsed file => some file
  | failed _ => none

/-- Why a file could not be read. -/
def failure? : FileResult → Option ParseFailure
  | parsed _ => none
  | failed failure => some failure

end FileResult

namespace Run

section

variable (outcome : Text → TaskOutcome)

/-- The result of a file whose task comes to `outcome`. -/
def settled (filepath : Text) : FileResult :=
  (outcome filepath).result filepath

/-- Whether a file can be read. -/
def succeeds (filepath : Text) : Bool :=
  (settled outcome filepath).file?.isSome

/-- The files that can be read, in order. -/
def successes (files : List Text) : List ParsedFile :=
  files.filterMap fun filepath => (settled outcome filepath).file?

/-- The files that cannot be read, in order, each with the reason. -/
def breakdowns (files : List Text) : List (Text × ParseFailure) :=
  files.filterMap fun filepath => (settled outcome filepath).failure?.map (filepath, ·)

/-- The run over files whose tasks come to `outcome`, told without regard to their completion. -/
def ofOutcomes (options : ReportOptions) (files : List Text) : Run :=
  let report := ((successes outcome files).foldl ReportBuilder.add {}).build options.files
    (some options.resolvedExcludeGlob)
  let failures := (breakdowns outcome files).map Prod.snd
  {
    report
    failures
    log := (breakdowns outcome files).map (fun breakdown => warning breakdown.1 breakdown.2)
      ++ [countLine files report failures] }

variable {outcome} {files : List Text}

/-- A result is found under its file in whatever order the tasks have been completed. -/
theorem get?_results (hn : files.Nodup) {completed : List Completion}
    (hc : completed.Perm (files.map fun filepath => (filepath, outcome filepath)))
    {filepath : Text} (h : filepath ∈ files) :
  (results completed).get? filepath = some (settled outcome filepath)
  := by
  apply Table.get?_ofList_of_mem
  · have hfiles : (completed.map Prod.fst).Perm files := by
      simpa [Function.comp_def] using hc.map Prod.fst
    rw [List.map_map]
    exact hfiles.nodup_iff.mpr hn
  · have hmem : (filepath, outcome filepath) ∈ completed := by
      rw [hc.mem_iff]
      exact List.mem_map.mpr ⟨filepath, h, rfl⟩
    exact List.mem_map.mpr ⟨_, hmem, rfl⟩

/-- Taking the results one after the other enters the files that can be read and lists the others. -/
theorem foldl_take (files : List Text) (progress : Progress) :
  files.foldl (fun progress filepath => progress.take filepath (settled outcome filepath)) progress
    = {
      builder := (successes outcome files).foldl ReportBuilder.add progress.builder
      failures := progress.failures ++ (breakdowns outcome files).map Prod.snd
      warnings := progress.warnings
        ++ (breakdowns outcome files).map fun breakdown => warning breakdown.1 breakdown.2 }
  := by
  induction files generalizing progress with
  | nil => simp [successes, breakdowns]
  | cons filepath files ih =>
    rw [List.foldl_cons, ih]
    cases h : settled outcome filepath with
    | parsed file =>
      simp [Progress.take, successes, breakdowns, h, FileResult.file?, FileResult.failure?]
    | failed failure =>
      simp [Progress.take, successes, breakdowns, h, FileResult.file?, FileResult.failure?]

/-- The order of completion does not show in a run. -/
theorem ofCompletions_eq (hn : files.Nodup) {completed : List Completion}
    (hc : completed.Perm (files.map fun filepath => (filepath, outcome filepath)))
    (options : ReportOptions) :
  ofCompletions options files completed = ofOutcomes outcome options files
  := by
  have hgather : gather files (results completed)
      = files.foldl (fun progress filepath => progress.take filepath (settled outcome filepath)) {} := by
    apply List.foldl_ext
    intro progress filepath hfile
    rw [get?_results hn hc hfile]
  rw [ofCompletions, hgather, foldl_take]
  rfl

/-- The files that break down are the ones that cannot be read. -/
theorem map_fst_breakdowns (files : List Text) :
  (breakdowns outcome files).map Prod.fst = files.filter fun filepath => !succeeds outcome filepath
  := by
  rw [breakdowns, List.map_filterMap, ← List.filterMap_eq_filter]
  apply List.filterMap_congr
  intro filepath _
  cases h : settled outcome filepath with
  | parsed file => simp [succeeds, Option.guard, h, FileResult.file?, FileResult.failure?]
  | failed failure => simp [succeeds, Option.guard, h, FileResult.file?, FileResult.failure?]

/-- A failure that names the file of its own task is about that file. -/
theorem filepath_of_mem_breakdowns
    (ho : ∀ filepath ∈ files, ∀ failure, outcome filepath = .finished (.failed failure) →
      failure.filepath = filepath)
    {breakdown : Text × ParseFailure} (h : breakdown ∈ breakdowns outcome files) :
  breakdown.2.filepath = breakdown.1
  := by
  obtain ⟨filepath, hfile, hbreakdown⟩ := List.mem_filterMap.mp h
  obtain ⟨failure, hfailure, rfl⟩ := Option.map_eq_some_iff.mp hbreakdown
  cases houtcome : outcome filepath with
  | finished result =>
    cases result with
    | parsed file => simp [settled, houtcome, TaskOutcome.result, FileResult.failure?] at hfailure
    | failed failure' =>
      obtain rfl : failure' = failure := by
        simpa [settled, houtcome, TaskOutcome.result, FileResult.failure?] using hfailure
      exact ho filepath hfile _ houtcome
  | crashed kind message =>
    simp only [settled, houtcome, TaskOutcome.result, FileResult.failure?, Option.some.injEq]
      at hfailure
    rw [← hfailure]

/-- A file that cannot be read gives a failure that names it. -/
theorem filepath_of_readingTask {here : Place} {options : ReportOptions} {filepath : Text}
    {failure : ParseFailure}
    (h : (readingTask here options filepath).1 = .finished (.failed failure)) :
  failure.filepath = filepath
  := by
  simp only [readingTask, SourceFile.attemptAt] at h
  split at h
  · cases h
  · cases h
    rfl
  · simp only [SourceFile.ofExtraction] at h
    split at h
    · cases h
    · cases h
      rfl

/-- Leaving out the files that cannot be read leaves the others as they are. -/
theorem successes_filter (files : List Text) :
  successes outcome (files.filter (succeeds outcome)) = successes outcome files
  := by
  rw [successes, List.filterMap_filter]
  apply List.filterMap_congr
  intro filepath _
  rw [succeeds]
  cases settled outcome filepath with
  | parsed file => rfl
  | failed failure => rfl

end

/-- A run does not depend on the order in which its tasks are completed, and a file that cannot be read
touches nothing else.  The failures are about the files that cannot be read, once each and in order,
and the report is that of a run over the other files.  The comparison with that run needs a file that can be
read: without one there is no run over the others, since a run over no files is refused; what becomes of the
run itself the first part says of these files too. -/
theorem overFiles_eq {files : List Text} (hn : files.Nodup) (outcome : Text → TaskOutcome)
    {completed : List Completion}
    (hc : completed.Perm (files.map fun filepath => (filepath, outcome filepath)))
    (options : ReportOptions) :
  overFiles options files completed
      = (if files.isEmpty then .error .noMatch else .ok (ofOutcomes outcome options files))
    ∧ (breakdowns outcome files).map Prod.fst
      = files.filter (fun filepath => !succeeds outcome filepath)
    ∧ ((∀ filepath ∈ files, ∀ failure, outcome filepath = .finished (.failed failure) →
          failure.filepath = filepath) →
        (ofOutcomes outcome options files).failures.map ParseFailure.filepath
          = files.filter fun filepath => !succeeds outcome filepath)
    ∧ ∀ {others : List Completion}, files.filter (succeeds outcome) ≠ [] →
        others.Perm ((files.filter (succeeds outcome)).map
          fun filepath => (filepath, outcome filepath)) →
        ∃ run, overFiles options (files.filter (succeeds outcome)) others = .ok run
          ∧ run.report = (ofOutcomes outcome options files).report
          ∧ run.failures = []
  := by
  refine ⟨?_, map_fst_breakdowns files, ?_, ?_⟩
  · rw [overFiles, ofCompletions_eq hn hc]
  · intro ho
    rw [← map_fst_breakdowns, ofOutcomes, List.map_map]
    apply List.map_congr_left
    intro breakdown hbreakdown
    apply filepath_of_mem_breakdowns ho hbreakdown
  · intro others hne hothers
    refine ⟨ofOutcomes outcome options (files.filter (succeeds outcome)), ?_, ?_, ?_⟩
    · have hfilter := hn.filter (succeeds outcome)
      rw [overFiles, ofCompletions_eq hfilter hothers, List.isEmpty_eq_false_iff.mpr hne]
      rfl
    · simp only [ofOutcomes, successes_filter]
    · have hnone : breakdowns outcome (files.filter (succeeds outcome)) = [] := by
        rw [← List.map_eq_nil_iff, map_fst_breakdowns, List.filter_filter, List.filter_eq_nil_iff]
        simp
      simp only [ofOutcomes, hnone, List.map_nil]

/-- Three tasks that are completed in another order, of which the second breaks down without a message
and the third fails, and the run over the first file alone. -/
theorem overFiles_eq_crash_failure :
  let parsed : TaskOutcome :=
    .finished (.parsed { filepath := ['a'], packages := [⟨['p'], [['x'], ['x']]⟩] })
  let failed : TaskOutcome := .finished (.failed { filepath := ['c'], error := "no" })
  let report : Report := {
    files := [['*']]
    excludeGlob := some "**/node_modules/**".toList
    packages := ⟨[(['p'], ⟨['p'], [['a']], ⟨[(['x'], ⟨2, [['a'], ['a']]⟩)], by decide⟩⟩)], by decide⟩
    exportNames := ⟨[(['x'], ⟨['x'], ⟨[(['p'], ⟨2, [['a'], ['a']]⟩)], by decide⟩⟩)], by decide⟩ }
  [['a'], ['b'], ['c']].Nodup
    ∧ overFiles { files := [['*']] } [['a'], ['b'], ['c']]
        [(['c'], failed), (['a'], parsed), (['b'], .crashed "RuntimeError" "")]
      = .ok {
          report
          failures := [⟨['b'], "RuntimeError"⟩, ⟨['c'], "no"⟩]
          log := [
            ⟨.warning, "depreport.report", "Failed to parse b: RuntimeError"⟩,
            ⟨.warning, "depreport.report", "Failed to parse c: no"⟩,
            ⟨.info, "depreport.report",
              "Analyzed 3 files: 1 packages, 1 export names, 2 failures"⟩] }
    ∧ ∃ run, overFiles { files := [['*']] } [['a']] [(['a'], parsed)] = .ok run
        ∧ run.report = report ∧ run.failures = []
  := by
  intro parsed failed report
  have hn : [['a'], ['b'], ['c']].Nodup := by decide
  let outcome : Text → TaskOutcome := fun filepath =>
    if filepath = ['a'] then parsed else if filepath = ['b'] then .crashed "RuntimeError" "" else failed
  have hc : List.Perm [(['c'], failed), (['a'], parsed), (['b'], .crashed "RuntimeError" "")]
      ([['a'], ['b'], ['c']].map fun filepath : Text => (filepath, outcome filepath)) := by decide
  obtain ⟨hall, -, -, hothers⟩ := overFiles_eq hn outcome hc { files := [['*']] }
  have hsucceeds : [['a'], ['b'], ['c']].filter (succeeds outcome) = [['a']] := rfl
  rw [hsucceeds] at hothers
  refine ⟨hn, hall.trans ?_, hothers (by decide) (List.Perm.refl _)⟩
  simp only [outcome, parsed, failed, report]
  rfl

end Run

end ImportCensus
