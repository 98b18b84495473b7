import ImportCensus.Language
import ImportCensus.Report.Builder

/-!
# Summaries

A report as a text for people to read.  Packages stand in the order of how many files import
them, and used names in the order of how often they are used, most first; equals stand in the
order of their names.
-/

namespace ImportCensus.Summary

/-- Whether one count and name stand at or before another: larger counts first, then by name. -/
def rankLe (m : Nat) (a : Text) (n : Nat) (b : Text) : Bool :=
  n < m || (m == n && Text.isAtOrBefore a b)

theorem rankLe_iff {m n : Nat} {a b : Text} :
  rankLe m a n b ↔ n < m ∨ m = n ∧ Text.isAtOrBefore a b
  := by
  simp [rankLe]

theorem rankLe_total (m : Nat) (a : Text) (n : Nat) (b : Text) :
  rankLe m a n b ∨ rankLe n b m a
  := by
  rw [rankLe_iff, rankLe_iff]
  obtain h | rfl | h := Nat.lt_trichotomy m n
  · exact .inr (.inl h)
  · obtain hab | hba := Text.isAtOrBefore_total a b
    · exact .inl (.inr ⟨rfl, hab⟩)
    · exact .inr (.inr ⟨rfl, hba⟩)
  · exact .inl (.inl h)

theorem rankLe_trans {l m n : Nat} {a b c : Text} (hab : rankLe l a m b) (hbc : rankLe m b n c) :
  rankLe l a n c
  := by
  rw [rankLe_iff] at hab hbc ⊢
  obtain hlm | ⟨rfl, hab⟩ := hab
  · obtain hmn | ⟨rfl, -⟩ := hbc
    · exact .inl (Nat.lt_trans hmn hlm)
    · exact .inl hlm
  · obtain hmn | ⟨rfl, hbc⟩ := hbc
    · exact .inl hmn
    · exact .inr ⟨rfl, Text.isAtOrBefore_trans hab hbc⟩

/-- What stands at or before something that stands at or before it has the same count and name. -/
theorem eq_of_rankLe {m n : Nat} {a b : Text} (hab : rankLe m a n b) (hba : rankLe n b m a) :
  m = n ∧ a = b
  := by
  rw [rankLe_iff] at hab hba
  obtain hmn | ⟨rfl, hab⟩ := hab
  · obtain hnm | ⟨rfl, -⟩ := hba
    · exact absurd hmn (Nat.not_lt.mpr (Nat.le_of_lt hnm))
    · exact absurd hmn (Nat.lt_irrefl _)
  · obtain hlt | ⟨-, hba⟩ := hba
    · exact absurd hlt (Nat.lt_irrefl _)
    · exact ⟨rfl, Text.eq_of_isAtOrBefore hab hba⟩

/-- Parts with commas between them. -/
def commaSeparated (parts : List String) : String :=
  ", ".intercalate parts

/-- The number of names that the line of a package shows. -/
def shownExports : Nat := 10

/-- The names used from a package, most used first. -/
def rankedExports (p : Package) : List (Text × Usage) :=
  p.usedExports.entries.mergeSort fun a b => rankLe a.2.usage a.1 b.2.usage b.1

/-- The lines of a package. -/
def packageLines (p : Package) : List String :=
  ("Package " ++ p.name.toString ++ ": imported by " ++ toString p.filepaths.length ++ " files")
    :: match (rankedExports p).take shownExports with
      | [] => []
      | shown =>
        ["  Exports: " ++ commaSeparated (shown.map fun entry =>
          entry.1.toString ++ " (" ++ toString entry.2.usage ++ ")")]

/-- The text for one package. -/
def ofPackage (p : Package) : String :=
  "\n".intercalate (packageLines p)

/-- The files that import something, each once. -/
def importingFiles (r : Report) : List Text :=
  (r.packages.values.flatMap Package.filepaths).eraseDups

/-- The number of files in each language that occurs, in the order of the languages' names. -/
def languageCounts (files : List Text) : List (Language × Nat) :=
  (Language.all.map fun l => (l, files.countP fun file => Language.ofPath file == l)).filter
    fun entry => 0 < entry.2

/-- The packages, most imported first. -/
def rankedPackages (r : Report) : List Package :=
  r.packages.values.mergeSort fun a b =>
    rankLe a.filepaths.length a.name b.filepaths.length b.name

/-- As many items from the front as a limit tells.  A negative limit tells how many to leave out
at the end. -/
def limited {α : Type} (limit : Int) (items : List α) : List α :=
  if 0 ≤ limit then items.take limit.toNat else items.take (items.length - (-limit).toNat)

/-- The line that says what the report is about. -/
def headLine (r : Report) : String :=
  let exclude := (r.excludeGlob.map Text.toString).getD "None"
  "Report for " ++ commaSeparated (r.files.map Text.toString) ++ " (excluding " ++ exclude ++ "): "
    ++ toString r.packages.size ++ " packages, " ++ toString r.exportNames.size
    ++ " export names, " ++ toString (importingFiles r).length ++ " importing files"

/-- The line with the languages, if any file imports something. -/
def languageLines (r : Report) : List String :=
  match languageCounts (importingFiles r) with
  | [] => []
  | counts =>
    ["Languages: " ++ commaSeparated (counts.map fun entry =>
      entry.1.name ++ " " ++ toString entry.2)]

/-- The lines with the files that could not be read, if there are any. -/
def failureLines : List ParseFailure → List String
  | [] => []
  | failures =>
    ("Failed to parse " ++ toString failures.length ++ " files:")
      :: failures.map fun failure => "  " ++ failure.filepath.toString ++ ": " ++ failure.error

/-- The number of packages a summary shows unless told otherwise. -/
def defaultLimit : Int := 20

/-- The text for a report and the files that could not be read, with so many packages shown. -/
def ofReport (r : Report) (failures : List ParseFailure) (limit : Int) : String :=
  "\n".intercalate <|
    headLine r :: languageLines r ++ (limited limit (rankedPackages r)).flatMap packageLines
      ++ failureLines failures

end ImportCensus.Summary
