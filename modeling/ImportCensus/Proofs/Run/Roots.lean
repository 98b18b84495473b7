import Mathlib.Data.List.ReduceOption
import ImportCensus.Proofs.Path.Following
import ImportCensus.Proofs.Run.Completion

/-!
# Roots of runs

A run asks for the directory that its root leads to, and for the files below it.  So the report is the
same for two roots that lead to one directory, as long as the system takes the paths of the files that
the patterns find behind both roots, or behind none.
-/

namespace ImportCensus

open Place (Meet IsAlikeBehind)

/-! ### Searches -/

namespace Glob

variable {here directory : Place} {root root' : Text}

/-- A route starts at the root of the tree, or at the directory that it is looked for in. -/
theorem Route.start?_of_follow (h : here.follow root = .ok directory) (r : Route) :
  r.start? here root = if r.rooted then some ⟨['/'], here.root⟩
    else if directory.node.isDirectory then some ⟨[], directory⟩ else none
  := by
  have hne : root ≠ [] := (Place.follow_eq_ok_iff.mp h).1
  simp only [start?, List.isEmpty_iff, hne, if_false, h]

/-- Two roots that meet find the same along a route. -/
theorem Route.find?_eq (h : Meet here root root' directory) (r : Route) :
  r.find? here root = r.find? here root'
  := by
  rw [find?, find?, h.holdsNul_eq, start?_of_follow h.follow_left, start?_of_follow h.follow_right]

/-- A search asks for nothing but the directory that its root leads to. -/
theorem search?_eq (h : Meet here root root' directory) (pattern : Text) :
  search? here root pattern = search? here root' pattern
  := by
  simp only [search?, Route.find?_eq h]

end Glob

/-! ### Discoveries -/

namespace Discovery

variable {ε : Type} {s t : Surroundings ε} {patterns : List Text} {exclude : Option Text}

/-- Two surroundings in which the same is found and is a file, and exclusions mean the same. -/
structure Alike (s t : Surroundings ε) (patterns : List Text) : Prop where
  find_eq : ∀ pattern ∈ includes patterns, s.find pattern = t.find pattern
  isFile_eq : ∀ pattern ∈ includes patterns, ∀ paths, s.find pattern = .ok paths →
    ∀ path ∈ paths, s.isFile path = t.isFile path
  isMeant_eq : s.isMeant = t.isMeant

/-- What is listed depends on which files are there and on what the exclusions mean. -/
theorem listed?_eq {exclusions : List Text} {found : Text} (hfile : s.isFile found = t.isFile found)
    (hmeant : s.isMeant = t.isMeant) :
  listed? s exclusions found = listed? t exclusions found
  := by
  simp only [listed?, isExcluded, hfile, hmeant]

/-- Alike services resolve patterns alike. -/
theorem resolve_eq (h : Alike s t patterns) :
  resolve s patterns exclude = resolve t patterns exclude
  := by
  have hadded : ∀ pattern ∈ includes patterns,
      added s (allExclusions patterns exclude) pattern
        = added t (allExclusions patterns exclude) pattern := by
    intro pattern hpattern
    rw [added, added, ← h.find_eq pattern hpattern]
    cases hfound : s.find pattern with
    | error e => rfl
    | ok paths =>
      have hlisted : ∀ path ∈ Text.sorted paths, listed? s (allExclusions patterns exclude) path
          = listed? t (allExclusions patterns exclude) path := by
        intro path hpath
        have hmem : path ∈ paths := List.mem_mergeSort.mp hpath
        apply listed?_eq (h.isFile_eq pattern hpattern paths hfound path hmem) h.isMeant_eq
      simp only [Except.bind, bind]
      rw [mapM_congr hlisted]
  rw [resolve, resolve, mapM_congr hadded]

/-- No file is chosen twice. -/
theorem nodup_of_resolve {files : List Text} (h : resolve s patterns exclude = .ok files) :
  files.Nodup
  := by
  obtain ⟨all, -, h⟩ := exists_of_bind_eq_ok h
  cases h
  apply nodup_eraseDups

/-- A path that is listed is that of a file, without its leading dots. -/
theorem listed?_eq_ok_some {exclusions : List Text} {found path : Text}
    (h : listed? s exclusions found = .ok (some path)) :
  s.isFile found = true ∧ path = Path.withoutDotSlash found
  := by
  rw [listed?] at h
  split at h
  · rename_i hfile
    obtain ⟨excluded, -, h⟩ := exists_of_bind_eq_ok h
    cases excluded with
    | true => cases h
    | false =>
      cases h
      exact ⟨hfile, rfl⟩
  · cases h

/-- A file that is chosen has been found, perhaps behind dots. -/
theorem exists_found_of_mem_resolve {files : List Text} (h : resolve s patterns exclude = .ok files)
    {file : Text} (hfile : file ∈ files) :
  ∃ pattern ∈ includes patterns, ∃ paths, s.find pattern = .ok paths
    ∧ ∃ found ∈ paths, s.isFile found = true ∧ file = Path.withoutDotSlash found
  := by
  obtain ⟨all, hall, h⟩ := exists_of_bind_eq_ok h
  cases h
  obtain ⟨ofPattern, hmem, hfile⟩ := List.mem_flatten.mp (List.mem_eraseDups.mp hfile)
  obtain ⟨pattern, hpattern, hadded⟩ := exists_of_mem_mapM hall hmem
  obtain ⟨paths, hpaths, hadded⟩ := exists_of_bind_eq_ok hadded
  obtain ⟨listed, hlisted, hadded⟩ := exists_of_bind_eq_ok hadded
  cases hadded
  obtain ⟨found, hfound, hpath⟩ := exists_of_mem_mapM hlisted (List.reduceOption_mem_iff.mp hfile)
  rw [Text.sorted, List.mem_mergeSort] at hfound
  exact ⟨pattern, hpattern, paths, hpaths, found, hfound, listed?_eq_ok_some hpath⟩

end Discovery

/-! ### Readings -/

section

variable {here directory : Place} {root root' file : Text}

/-- A text is the same behind two roots, but for the wording of a failure. -/
theorem Place.toOption_textAt_eq (h : Meet here root root' directory)
    (hlimit : IsAlikeBehind root root' file) :
  (here.textAt (Path.join root file)).toOption = (here.textAt (Path.join root' file)).toOption
  := by
  rw [textAt, textAt, h.holdsNul_join_eq, h.bytesAt_join_eq hlimit]
  split
  · rfl
  · cases here.bytesAt (Path.join root' file) with
    | error e => rfl
    | ok bytes => rfl

/-- A file that could be read is told by its text. -/
theorem SourceFile.file?_parseAt (here : Place) (root file : Text) (label : Option Text) :
  ((parseAt here root file label).result file).file?
    = (here.textAt (Path.join root file)).toOption.bind fun contents =>
        (ofExtraction file label (extract contents (Path.extension file))).file?
  := by
  rw [parseAt, attemptAt]
  cases here.textAt (Path.join root file) with
  | ok contents => rfl
  | error e =>
    cases e with
    | embeddedNul => rfl
    | unreachable path error => rfl
    | encoding error => rfl

/-- Behind two roots that meet a source file is parsed alike. -/
theorem SourceFile.file?_parseAt_eq (h : Meet here root root' directory)
    (hlimit : IsAlikeBehind root root' file) (label : Option Text) :
  ((parseAt here root' file label).result file).file?
    = ((parseAt here root file label).result file).file?
  := by
  rw [file?_parseAt, file?_parseAt, Place.toOption_textAt_eq h hlimit]

end

/-! ### Runs -/

namespace Run

/-- The report of a run, told without regard to its tasks. -/
theorem map_report_inTree (here : Place) (o : ReportOptions) :
  (inTree here o).map report
    = ((Discovery.resolveIn here o.root o.files o.resolvedExcludeGlob).mapError .pattern).bind
      fun files =>
        if files.isEmpty then .error .noMatch
        else .ok (ofOutcomes (fun file => (readingTask here o file).1) o files).report
  := by
  rw [inTree, withTask]
  cases hfiles : Discovery.resolveIn here o.root o.files o.resolvedExcludeGlob with
  | error e => rfl
  | ok files =>
    have hn : files.Nodup := Discovery.nodup_of_resolve hfiles
    have hperm : ((files.map fun file => (file, readingTask here o file)).map
        fun c => (c.1, c.2.1)).Perm (files.map fun file => (file, (readingTask here o file).1)) := by
      rw [List.map_map]
      exact List.Perm.refl _
    simp only [overFiles, ofCompletions_eq hn hperm, Except.mapError, bind, Except.bind]
    cases files.isEmpty with
    | true => rfl
    | false => rfl

/-- A run over a tree raises no error of the configuration. -/
theorem inTree_ne_configuration (here : Place) (o : ReportOptions) (e : ConfigurationError) :
  inTree here o ≠ .error (.configuration e)
  := by
  intro h
  have hreport := map_report_inTree here o
  rw [h] at hreport
  cases hfiles : Discovery.resolveIn here o.root o.files o.resolvedExcludeGlob with
  | error e =>
    rw [hfiles] at hreport
    cases hreport
  | ok files =>
    simp only [hfiles, Except.map, Except.mapError, Except.bind] at hreport
    split at hreport
    · cases hreport
    · cases hreport

/-- Runs at two roots that lead to one directory come to the same report, as long as the files that the
patterns find can be asked for behind both roots, or behind neither. -/
theorem map_report_inTree_eq {here directory : Place} {o o' : ReportOptions}
    (h : Meet here o.root o'.root directory) (hfiles : o'.files = o.files)
    (hexclude : o'.excludeGlob = o.excludeGlob) (hlabel : o'.defaultImportLabel = o.defaultImportLabel)
    (hlimit : ∀ pattern ∈ Discovery.includes o.files, ∀ paths,
      Glob.search? here o.root pattern = .ok paths → ∀ path ∈ paths,
        here.hasFile (Path.join o.root path) ∨ here.hasFile (Path.join o'.root path) →
          IsAlikeBehind o.root o'.root path) :
  (inTree here o').map report = (inTree here o).map report
  := by
  have hresolved : o'.resolvedExcludeGlob = o.resolvedExcludeGlob := by
    rw [ReportOptions.resolvedExcludeGlob, hexclude]
    rfl
  have halike : Discovery.Alike (Discovery.inTree here o.root) (Discovery.inTree here o'.root)
      o.files := by
    refine ⟨fun pattern _ => Glob.search?_eq h pattern, ?_, rfl⟩
    intro pattern hpattern paths hpaths path hpath
    by_cases hfile : here.hasFile (Path.join o.root path) ∨ here.hasFile (Path.join o'.root path)
    · apply h.hasFile_join_eq (hlimit pattern hpattern paths hpaths path hpath hfile)
    · rw [not_or, Bool.not_eq_true, Bool.not_eq_true] at hfile
      exact hfile.1.trans hfile.2.symm
  have hresolve : Discovery.resolveIn here o'.root o'.files o'.resolvedExcludeGlob
      = Discovery.resolveIn here o.root o.files o.resolvedExcludeGlob := by
    rw [hfiles, hresolved]
    exact (Discovery.resolve_eq halike).symm
  rw [map_report_inTree, map_report_inTree, hresolve]
  cases hchosen : Discovery.resolveIn here o.root o.files o.resolvedExcludeGlob with
  | error e => rfl
  | ok files =>
    have hsuccesses : successes (fun file => (readingTask here o' file).1) files
        = successes (fun file => (readingTask here o file).1) files := by
      apply List.filterMap_congr
      intro file hfile
      obtain ⟨pattern, hpattern, paths, hpaths, found, hfound, hisFile, rfl⟩ :=
        Discovery.exists_found_of_mem_resolve hchosen hfile
      have hbehind := (hlimit pattern hpattern paths hpaths found hfound (.inl hisFile)).withoutDotSlash
        (Place.octetCount_lt_of_hasFile hisFile)
      have hfile := SourceFile.file?_parseAt_eq h hbehind o.defaultImportLabel
      simpa only [settled, readingTask, SourceFile.parseAt, hlabel] using hfile
    simp only [Except.mapError, Except.bind, ofOutcomes, hsuccesses, hfiles, hresolved]

end Run

end ImportCensus
