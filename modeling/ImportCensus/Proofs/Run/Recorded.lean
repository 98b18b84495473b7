import Mathlib.Data.List.Nodup
import ImportCensus.Proofs.Discovery.Denotation
import ImportCensus.Proofs.Report.PackageIndex
import ImportCensus.Proofs.Report.Transposition

/-!
# What a run records

A run reads a file for every entry of the list that it discovers, and counts every import statement that it
reads.  So an import statement is counted twice where two entries lead to its file, and this is where they
have one address.
-/

namespace ImportCensus

open Discovery (addressOf)

namespace Run

/-- The imports of the file that an entry leads to, in order.  A file that cannot be read has none. -/
def mentionsOf (here : Place) (o : ReportOptions) (entry : Text) : List Mention :=
  (settled (fun file => (readingTask here o file).1) entry).file?.toList.flatMap Mention.ofFile

/-- The import statements that a run over some entries records, one after the other: the file where each of
them stands, its position among the imports of this file, and what it is recorded as. -/
def records (here : Place) (o : ReportOptions) (files : List Text) :
  List ((Except PathError Place × Nat) × Mention)
  :=
  files.flatMap fun entry => (mentionsOf here o entry).zipIdx.map fun item =>
    ((here.follow (Path.join o.root entry), item.2), item.1)

variable {here : Place} {o : ReportOptions} {files : List Text}

/-- Statements are recorded as what the files that can be read mention. -/
theorem map_snd_records (here : Place) (o : ReportOptions) (files : List Text) :
  (records here o files).map Prod.snd
    = (successes (fun file => (readingTask here o file).1) files).flatMap Mention.ofFile
  := by
  have hentry (entry : Text) :
      ((mentionsOf here o entry).zipIdx.map fun item =>
        ((here.follow (Path.join o.root entry), item.2), item.1)).map Prod.snd
        = mentionsOf here o entry := by
    rw [List.map_map]
    apply List.zipIdx_map_fst
  rw [records, List.map_flatMap, funext hentry, successes, List.filterMap_eq_flatMap_toList,
    List.flatMap_assoc]
  rfl

/-- Statements stand at the positions in the files that the entries lead to. -/
theorem map_fst_records (here : Place) (o : ReportOptions) (files : List Text) :
  (records here o files).map Prod.fst
    = files.flatMap fun entry =>
        (List.range' 0 (mentionsOf here o entry).length).map
          (Prod.mk (here.follow (Path.join o.root entry)))
  := by
  rw [records, List.map_flatMap]
  congr 1
  funext entry
  rw [← List.zipIdx_map_snd, List.map_map, List.map_map]
  rfl

/-- The positions in two files are different unless the files are one, or one of them has none. -/
theorem disjoint_positions_iff {α : Type} (a b : α) (m n : Nat) :
  ((List.range' 0 m).map (Prod.mk a)).Disjoint ((List.range' 0 n).map (Prod.mk b))
    ↔ m ≠ 0 → n ≠ 0 → a ≠ b
  := by
  constructor
  · rintro hdisjoint hm hn rfl
    have hfirst (k : Nat) (hk : k ≠ 0) : (a, 0) ∈ (List.range' 0 k).map (Prod.mk a) :=
      List.mem_map.mpr ⟨0, List.mem_range'_1.mpr ⟨Nat.le_refl _, by omega⟩, rfl⟩
    exact hdisjoint (hfirst m hm) (hfirst n hn)
  · intro hne item ha hb
    obtain ⟨i, hi, rfl⟩ := List.mem_map.mp ha
    obtain ⟨j, hj, he⟩ := List.mem_map.mp hb
    cases he
    rw [List.mem_range'_1] at hi hj
    exact hne (by omega) (by omega) rfl

/-- No statement is recorded twice exactly where no two entries lead to one file with imports. -/
theorem nodup_map_fst_records_iff (here : Place) (o : ReportOptions) (files : List Text) :
  ((records here o files).map Prod.fst).Nodup
    ↔ ((files.filter fun entry => !(mentionsOf here o entry).isEmpty).map fun entry =>
        here.follow (Path.join o.root entry)).Nodup
  := by
  have hinner (entry : Text) : ((List.range' 0 (mentionsOf here o entry).length).map
      (Prod.mk (here.follow (Path.join o.root entry)))).Nodup :=
    (List.nodup_range' 1).map fun i j h => (Prod.mk.inj h).2
  rw [map_fst_records, List.nodup_flatMap, and_iff_right fun entry _ => hinner entry, List.Nodup,
    List.pairwise_map, List.pairwise_filter]
  apply List.Pairwise.iff_of_mem
  intro entry other _ _
  refine (disjoint_positions_iff _ _ _ _).trans ?_
  simp

/-- A run over some files comes to a report.  The package index is that of the statements that it records,
and the index of names is its transpose. -/
theorem exists_run (hfiles : Discovery.resolveIn here o.root o.files o.resolvedExcludeGlob = .ok files)
    (hne : files ≠ []) :
  ∃ run, inTree here o = .ok run
    ∧ run.report.packages = Package.table ((records here o files).map Prod.snd)
    ∧ ReportBuilder.Transposed ⟨run.report.packages, run.report.exportNames⟩
  := by
  have hreport := map_report_inTree here o
  rw [hfiles] at hreport
  simp only [Except.mapError, Except.bind, List.isEmpty_iff, if_neg hne] at hreport
  cases hrun : inTree here o with
  | error e =>
    rw [hrun] at hreport
    cases hreport
  | ok run =>
    rw [hrun, Except.map, Except.ok.injEq] at hreport
    refine ⟨run, rfl, ?_⟩
    rw [hreport, map_snd_records, ← List.nil_append (List.flatMap _ _)]
    refine ⟨ReportBuilder.packages_foldl_add rfl _, ?_⟩
    exact List.foldlRecOn _ ReportBuilder.add ReportBuilder.transposed_empty
      fun b hb file _ => ReportBuilder.transposed_add hb file

/-- Where a run counts an import statement twice.

Every entry of the list that a discovery in a proper tree comes to leads to a file, and two of them lead to
one file exactly where they have one address.  So all lead to different files exactly where no two have one
address; this is so if all patterns that add files begin at the root, or all do not, and none of them spells
out dots but those at its start.  The indexes of the run are counted from the statements that it records,
and no statement is recorded twice exactly where all entries with imports have different addresses. -/
theorem nodup_follow_iff {node : Node} {cwd root : Text} {patterns : List Text} {exclude : Option Text}
    (hnode : node.IsProper) (hhere : Place.follow ⟨node, []⟩ cwd = .ok here)
    (hfiles : Discovery.resolveIn here root patterns exclude = .ok files) :
  (∀ entry ∈ files, here.hasFile (Path.join root entry) = true)
    ∧ (∀ entry ∈ files, ∀ other ∈ files,
        here.follow (Path.join root entry) = here.follow (Path.join root other)
          ↔ addressOf here root entry = addressOf here root other)
    ∧ ((files.map fun entry => here.follow (Path.join root entry)).Nodup
        ↔ (files.map (addressOf here root)).Nodup)
    ∧ (∀ rooted, Discovery.isDirect rooted patterns = true →
        (files.map fun entry => here.follow (Path.join root entry)).Nodup)
    ∧ ∀ o : ReportOptions, o.root = root → o.files = patterns →
        some o.resolvedExcludeGlob = exclude → files ≠ [] → ∃ run, inTree here o = .ok run
          ∧ run.report.packages = Package.table ((records here o files).map Prod.snd)
          ∧ ReportBuilder.Transposed ⟨run.report.packages, run.report.exportNames⟩
          ∧ (((records here o files).map Prod.fst).Nodup
            ↔ ((files.filter fun entry => !(mentionsOf here o entry).isEmpty).map
                (addressOf here root)).Nodup)
  := by
  have hroot := Place.isProper_root hnode
  have ha := (Place.arrives_of_follow (Place.isAnchored_root node) hroot hhere).1
  have hp := Place.isProper_of_follow hroot hhere
  have hiff : ∀ entry ∈ files, ∀ other ∈ files,
      here.follow (Path.join root entry) = here.follow (Path.join root other)
        ↔ addressOf here root entry = addressOf here root other :=
    fun entry hentry other hother => Discovery.follow_join_eq_iff ha hp hfiles hentry hother
  have hnodup : ∀ entries : List Text, entries ⊆ files →
      ((entries.map fun entry => here.follow (Path.join root entry)).Nodup
        ↔ (entries.map (addressOf here root)).Nodup) := by
    intro entries hsub
    rw [List.Nodup, List.Nodup, List.pairwise_map, List.pairwise_map]
    apply List.Pairwise.iff_of_mem
    intro entry other hentry hother
    exact not_congr (hiff entry (hsub hentry) other (hsub hother))
  refine ⟨fun entry hentry => (Discovery.exists_spelled_of_mem hp hfiles hentry).1, hiff,
    hnodup files (List.Subset.refl _), ?_, ?_⟩
  · intro rooted hdirect
    rw [hnodup files (List.Subset.refl _)]
    exact Discovery.nodup_map_addressOf hp hfiles hdirect
  · rintro o rfl rfl rfl hne
    obtain ⟨run, hrun, hpackages, htransposed⟩ := exists_run hfiles hne
    refine ⟨run, hrun, hpackages, htransposed, ?_⟩
    rw [nodup_map_fst_records_iff]
    exact hnodup _ (List.filter_subset_self _)

/-- Patterns that begin with dots and overlap list the two files below a directory once each, and a run
over them records one statement of one of them. -/
theorem nodup_follow_iff_overlapping :
  let source := "import\x7bx\x7dfrom'p'".toUTF8.toList
  let sources : Node := .directory [("a.js".toList, .file source), ("b.js".toList, .file [])]
  let work : Node := .directory [("src".toList, sources)]
  let node : Node := .directory [("work".toList, work)]
  let here : Place := ⟨work, [("work".toList, node)]⟩
  let o : ReportOptions :=
    { root := "src/..".toList, files := ["./src/a.js".toList, "src/a*".toList, "src/b.?s".toList] }
  let files := ["src/a.js".toList, "src/b.js".toList]
  node.IsProper ∧ Place.follow ⟨node, []⟩ "/work".toList = .ok here
    ∧ Discovery.resolveIn here o.root o.files (some o.resolvedExcludeGlob) = .ok files
    ∧ Discovery.isDirect false o.files = true
    ∧ (files.map fun entry => here.follow (Path.join o.root entry)).Nodup
    ∧ ∃ run, inTree here o = .ok run
      ∧ run.report.packages = Package.table ((records here o files).map Prod.snd)
      ∧ (records here o files).length = 1 ∧ ((records here o files).map Prod.fst).Nodup
  := by
  intro source sources work node here o files
  have hsources : sources.IsProper := by
    apply Node.IsProper.directory (by decide)
    rw [List.forall_mem_cons, List.forall_mem_singleton]
    exact ⟨.file source, .file []⟩
  have hwork : work.IsProper :=
    .directory (by decide) (List.forall_mem_singleton.mpr hsources)
  have hnode : node.IsProper :=
    .directory (by decide) (List.forall_mem_singleton.mpr hwork)
  have hhere : Place.follow ⟨node, []⟩ "/work".toList = .ok here := rfl
  have hfiles : Discovery.resolveIn here o.root o.files (some o.resolvedExcludeGlob) = .ok files := by
    decide +kernel
  have hdirect : Discovery.isDirect false o.files = true := by decide +kernel
  obtain ⟨-, -, -, hnodup, hrecords⟩ := nodup_follow_iff hnode hhere hfiles
  obtain ⟨run, hrun, hpackages, -, hiff⟩ := hrecords o rfl rfl rfl (List.cons_ne_nil _ _)
  refine ⟨hnode, hhere, hfiles, hdirect, hnodup false hdirect, run, hrun, hpackages, ?_, hiff.mpr ?_⟩
  · decide +kernel
  · decide +kernel

/-- A file with two spellings is listed twice, and what it uses is counted twice. -/
theorem usage_eq_two_of_dots :
  let source := "import\x7bx\x7dfrom'p'".toUTF8.toList
  let here : Place := ⟨.directory [("src".toList, .directory [("a.js".toList, .file source)])], []⟩
  let o : ReportOptions := { files := ["src/a.js".toList, "src/./a.js".toList] }
  let files := ["src/a.js".toList, "src/./a.js".toList]
  Discovery.resolveIn here o.root o.files (some o.resolvedExcludeGlob) = .ok files
    ∧ here.follow (Path.join o.root "src/a.js".toList)
      = here.follow (Path.join o.root "src/./a.js".toList)
    ∧ ¬ (files.map fun entry => here.follow (Path.join o.root entry)).Nodup
    ∧ (inTree here o).map (fun run => (run.report.packages.get? "p".toList).map fun package =>
        package.usedExports.entries) = .ok (some [("x".toList, ⟨2, files⟩)])
  := by
  intro source here o files
  have hsame : here.follow (Path.join o.root "src/a.js".toList)
      = here.follow (Path.join o.root "src/./a.js".toList) := rfl
  refine ⟨by decide +kernel, hsame, ?_, by decide +kernel⟩
  intro hnodup
  exact (List.nodup_cons.mp hnodup).1 (List.mem_singleton.mpr hsame)

end Run

end ImportCensus
