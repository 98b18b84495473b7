import ImportCensus.Proofs.Report.Permutation
import ImportCensus.Report.Summary

/-!
# Summaries of permuted files

A summary shows counts and ranked lists, and no two packages have the same rank, since each is named by
the key it stands under.  So builders that are alike give reports with the same summary, whatever its
limit; and the order in which a builder is given its files does not show.
-/

namespace ImportCensus

/-! ### Alike tables as lists -/

/-- Tables that are alike look the same in some order, to a view that does not tell related values
apart. -/
theorem Table.Alike.map_entries_perm {κ β γ : Type} [DecidableEq κ] {R : β → β → Prop}
    {s t : Table κ β} (h : Alike R s t) {view : κ × β → γ}
    (hview : ∀ k a b, R a b → view (k, a) = view (k, b)) :
  (s.entries.map view).Perm (t.entries.map view)
  := by
  have hkeys : ∀ u : Table κ β, u.entries.map view
      = u.keys.filterMap fun k => (u.get? k).map fun b => view (k, b) := by
    intro u
    rw [keys, List.filterMap_map, ← List.filterMap_eq_map]
    apply List.filterMap_congr
    rintro ⟨k, b⟩ hentry
    simp only [Function.comp_apply, get?_eq_some_iff.mpr hentry, Option.map_some]
  have hsame : ∀ k, (s.get? k).map (fun b => view (k, b)) = (t.get? k).map fun b => view (k, b) :=
    fun k => map_eq_of_rel (h k) (hview k)
  rw [hkeys, hkeys]
  simp only [hsame]
  exact h.keys_perm.filterMap _

namespace Summary

/-! ### Ranked lists -/

section

variable {α γ : Type} {items others : List α}

/-- Lists that look the same in some order look the same once they are ranked, if what has the same
rank looks the same. -/
theorem map_mergeSort_eq (rank : α → Nat × Text) (view : α → γ)
    (h : (items.map fun a => (rank a, view a)).Perm (others.map fun a => (rank a, view a)))
    (hview : ∀ a ∈ items, ∀ b ∈ others, rank a = rank b → view a = view b) :
  (items.mergeSort fun a b => rankLe (rank a).1 (rank a).2 (rank b).1 (rank b).2).map view
    = (others.mergeSort fun a b => rankLe (rank a).1 (rank a).2 (rank b).1 (rank b).2).map view
  := by
  let le (a b : (Nat × Text) × γ) : Bool := rankLe a.1.1 a.1.2 b.1.1 b.1.2
  have hsort : ∀ list : List α,
      (list.mergeSort fun a b => rankLe (rank a).1 (rank a).2 (rank b).1 (rank b).2).map view
        = ((list.map fun a => (rank a, view a)).mergeSort le).map Prod.snd := by
    intro list
    have hpairs := @List.map_mergeSort _ _ (fun a b => rankLe (rank a).1 (rank a).2 (rank b).1 (rank b).2)
      le (fun a => (rank a, view a)) list (fun _ _ _ _ => rfl)
    rw [← hpairs, List.map_map]
    rfl
  have hsorted : ∀ list : List ((Nat × Text) × γ), (list.mergeSort le).Pairwise fun a b => le a b := by
    intro list
    apply List.pairwise_mergeSort
    · intro a b c hab hbc
      exact rankLe_trans hab hbc
    · intro a b
      rw [Bool.or_eq_true]
      exact rankLe_total _ _ _ _
  rw [hsort, hsort]
  congr 1
  apply List.Perm.eq_of_pairwise _ (hsorted _) (hsorted _)
  · exact ((List.mergeSort_perm _ _).trans h).trans (List.mergeSort_perm _ _).symm
  · intro a b ha hb hab hba
    obtain ⟨a, hmem, rfl⟩ := List.mem_map.mp (List.mem_mergeSort.mp ha)
    obtain ⟨b, hother, rfl⟩ := List.mem_map.mp (List.mem_mergeSort.mp hb)
    obtain ⟨hcount, hname⟩ := eq_of_rankLe hab hba
    have hrank : rank a = rank b := Prod.ext hcount hname
    rw [hrank, hview a hmem b hother hrank]

theorem limited_map (limit : Int) (items : List α) (f : α → γ) :
  limited limit (items.map f) = (limited limit items).map f
  := by
  unfold limited
  rw [List.length_map, ← List.map_take, ← List.map_take]
  split
  · rfl
  · rfl

end

/-! ### Lines -/

/-- The lines of packages that are alike are the same. -/
theorem packageLines_eq {p q : Package} (h : p.Alike q) :
  packageLines p = packageLines q
  := by
  let view (entry : Text × Usage) : String :=
    entry.1.toString ++ " (" ++ toString entry.2.usage ++ ")"
  have hranked : (rankedExports p).map view = (rankedExports q).map view := by
    apply map_mergeSort_eq (fun entry => (entry.2.usage, entry.1)) view
    · apply h.usedExports.map_entries_perm
      intro name u v huv
      simp only [view, huv.usage_eq]
    · rintro ⟨name, u⟩ - ⟨other, v⟩ - hrank
      simp only [Prod.mk.injEq] at hrank
      simp only [view, hrank]
  have hshown : ((rankedExports p).take shownExports).map view
      = ((rankedExports q).take shownExports).map view := by
    rw [List.map_take, List.map_take, hranked]
  rw [packageLines, packageLines, h.name_eq, h.filepaths_perm.length_eq]
  cases hp : (rankedExports p).take shownExports with
  | nil =>
    rw [hp] at hshown
    rw [List.map_eq_nil_iff.mp hshown.symm]
  | cons first shown =>
    cases hq : (rankedExports q).take shownExports with
    | nil =>
      rw [hp, hq] at hshown
      cases hshown
    | cons other others =>
      rw [hp, hq] at hshown
      change _ :: [_ ++ commaSeparated ((first :: shown).map view)] = _
      rw [hshown]

/-- The head line shows of a report what chose its files and how much it holds. -/
theorem headLine_eq {r s : Report} (hfiles : r.files = s.files)
    (hexclude : r.excludeGlob = s.excludeGlob) (hpackages : r.packages.size = s.packages.size)
    (hnames : r.exportNames.size = s.exportNames.size)
    (himporting : (importingFiles r).length = (importingFiles s).length) :
  headLine r = headLine s
  := by
  unfold headLine
  rw [hfiles, hexclude, hpackages, hnames, himporting]

/-! ### Reports -/

section

variable {b c : ReportBuilder} (h : b.Alike c) (files : List Text) (excludeGlob : Option Text)
include h

/-- Where two builders are alike, the same files import something. -/
theorem importingFiles_perm :
  (importingFiles (b.build files excludeGlob)).Perm (importingFiles (c.build files excludeGlob))
  := by
  have hmem : ∀ (t : Table Text Package) (f : Text), f ∈ t.values.flatMap Package.filepaths
      ↔ ∃ lists ∈ t.entries.map fun entry => (· ∈ entry.2.filepaths), lists f := by
    intro t f
    simp only [Table.values, List.flatMap_map, List.mem_flatMap, List.mem_map, exists_exists_and_eq_and]
  have hlists : ((b.build files excludeGlob).packages.entries.map fun entry =>
      (· ∈ entry.2.filepaths)).Perm
        ((c.build files excludeGlob).packages.entries.map fun entry => (· ∈ entry.2.filepaths)) := by
    apply h.packages.map_entries_perm
    intro key p q hpq
    ext f
    exact hpq.filepaths_perm.mem_iff
  apply eraseDups_perm
  intro f
  simp only [hmem, hlists.mem_iff]

/-- Where two builders are alike and name each package by its key, the packages are ranked the same. -/
theorem map_rankedPackages_eq
    (hb : ∀ {key p}, b.packages.get? key = some p → p.name = key)
    (hc : ∀ {key p}, c.packages.get? key = some p → p.name = key) :
  (rankedPackages (b.build files excludeGlob)).map packageLines
    = (rankedPackages (c.build files excludeGlob)).map packageLines
  := by
  apply map_mergeSort_eq (fun p => (p.filepaths.length, p.name)) packageLines
  · simp only [Table.values, List.map_map]
    apply h.packages.map_entries_perm
    intro key p q hpq
    simp only [Function.comp_apply, hpq.filepaths_perm.length_eq, hpq.name_eq, packageLines_eq hpq]
  · intro p hp q hq hrank
    obtain ⟨⟨key, p⟩, hentry, rfl⟩ := List.mem_map.mp hp
    obtain ⟨⟨other, q⟩, hother, rfl⟩ := List.mem_map.mp hq
    have hpkey : b.packages.get? key = some p := Table.get?_eq_some_iff.mpr hentry
    have hqkey : c.packages.get? other = some q := Table.get?_eq_some_iff.mpr hother
    have hname : p.name = q.name := congrArg Prod.snd hrank
    rw [hb hpkey, hc hqkey] at hname
    have hrel := h.packages key
    rw [hpkey, hname, hqkey] at hrel
    cases hrel with
    | some hpq => exact packageLines_eq hpq

end

/-- The reports of builders that are alike have the same summary. -/
theorem ofReport_eq {b c : ReportBuilder} (h : b.Alike c) (hb : b.Transposed) (hc : c.Transposed)
    (files : List Text) (excludeGlob : Option Text) (failures : List ParseFailure) (limit : Int) :
  ofReport (b.build files excludeGlob) failures limit
    = ofReport (c.build files excludeGlob) failures limit
  := by
  have hfiles := importingFiles_perm h files excludeGlob
  have hcounts : languageCounts (importingFiles (b.build files excludeGlob))
      = languageCounts (importingFiles (c.build files excludeGlob)) := by
    simp only [languageCounts, hfiles.countP_eq]
  have hhead : headLine (b.build files excludeGlob) = headLine (c.build files excludeGlob) := by
    apply headLine_eq
    · rfl
    · rfl
    · rw [← Table.length_keys, ← Table.length_keys]
      exact h.packages.keys_perm.length_eq
    · rw [← Table.length_keys, ← Table.length_keys]
      exact h.exportNames.keys_perm.length_eq
    · exact hfiles.length_eq
  have hlines := map_rankedPackages_eq h files excludeGlob
    (fun hkey => (hb.package_fits hkey).name_eq) (fun hkey => (hc.package_fits hkey).name_eq)
  simp only [ofReport, hhead, languageLines, hcounts, List.flatMap_def, ← limited_map, hlines]

end Summary

namespace ReportBuilder

/-- A builder that is given the same submissions in another order holds the same in both indexes, in
some order, and what is built has the same summary. -/
theorem ofReport_build_of_perm {submissions others : List Submission} (h : submissions.Perm others) :
  Alike (submissions.foldl next {}) (others.foldl next {})
    ∧ ∀ files excludeGlob failures limit,
      Summary.ofReport ((submissions.foldl next {}).build files excludeGlob) failures limit
        = Summary.ofReport ((others.foldl next {}).build files excludeGlob) failures limit
  := ⟨alike_foldl_next h, Summary.ofReport_eq (alike_foldl_next h)
    (transposed_empty.foldl_next submissions) (transposed_empty.foldl_next others)⟩

/-- Two files that use the same name of a package leave different builders behind in the two orders. -/
theorem ofReport_build_of_perm_swap :
  let first : Submission := .result (.parsed {
    filepath := "a.js".toList
    packages := [{ name := "p".toList, exportNames := ["f".toList] }] })
  let second : Submission := .data (.object [("filepath".toList, .text "b.ts".toList),
    ("packages".toList, .array [.object [("name".toList, .text "p".toList),
      ("export_names".toList, .ofTexts ["g".toList, "f".toList])]])])
  [first, second].foldl next {} ≠ [second, first].foldl next {}
    ∧ Alike ([first, second].foldl next {}) ([second, first].foldl next {})
    ∧ ∀ files excludeGlob failures limit,
      Summary.ofReport (([first, second].foldl next {}).build files excludeGlob) failures limit
        = Summary.ofReport (([second, first].foldl next {}).build files excludeGlob) failures limit
  := by
  intro first second
  exact ⟨by decide +kernel, ofReport_build_of_perm (List.Perm.swap second first [])⟩

end ReportBuilder

end ImportCensus
