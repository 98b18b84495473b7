import Mathlib.Data.List.Perm.Basic
import Mathlib.Data.Option.Basic
import ImportCensus.Proofs.Report.PackageIndex
import ImportCensus.Proofs.Report.Transposition

/-!
# Permuted files

Builders that are given the same files in different orders hold the same keys and names, and under
them the same files with the same counts; only the order of keys and files depends on the order of the
files.  We tell this by a relation that compares two tables key by key.  The package index is compared
through the mentions of the files, which the two orders permute; the index of exported names follows,
since it is the transposed one.
-/

namespace ImportCensus

/-! ### Tables compared key by key -/

section

variable {β γ : Type} {R : β → β → Prop} {S : γ → γ → Prop} {x y : Option β}

theorem isSome_eq_of_rel (h : Option.Rel R x y) :
  x.isSome = y.isSome
  := by
  cases h with
  | some h => rfl
  | none => rfl

theorem map_eq_of_rel (h : Option.Rel R x y) {f : β → γ} (hf : ∀ a b, R a b → f a = f b) :
  x.map f = y.map f
  := by
  cases h with
  | some h => rw [Option.map_some, Option.map_some, hf _ _ h]
  | none => rfl

theorem rel_bind (h : Option.Rel R x y) {f g : β → Option γ}
    (hfg : ∀ a b, R a b → Option.Rel S (f a) (g b)) :
  Option.Rel S (x.bind f) (y.bind g)
  := by
  cases h with
  | some h => exact hfg _ _ h
  | none => exact .none

end

namespace Table

variable {κ β : Type} [DecidableEq κ]

/-- Two tables with the same keys, in any order, and with related values under each. -/
def Alike (R : β → β → Prop) (s t : Table κ β) : Prop :=
  ∀ k, Option.Rel R (s.get? k) (t.get? k)

variable {R : β → β → Prop} {s t : Table κ β}

/-- Tables that are alike have the same keys, in some order. -/
theorem Alike.keys_perm (h : Alike R s t) :
  s.keys.Perm t.keys
  := by
  apply (List.perm_ext_iff_of_nodup s.nodup t.nodup).mpr
  intro k
  rw [← keys, ← keys, ← isSome_get?, ← isSome_get?, isSome_eq_of_rel (h k)]

/-- Tables of two functions over the same keys are alike where the functions are. -/
theorem alike_tabulate {keys others : List κ} (h : keys.Perm others) {f g : κ → β}
    (hfg : ∀ k, R (f k) (g k)) :
  Alike R (tabulate keys f) (tabulate others g)
  := by
  intro k
  rw [get?_tabulate, get?_tabulate]
  by_cases hk : k ∈ keys
  · rw [if_pos hk, if_pos (h.mem_iff.mp hk)]
    exact .some (hfg k)
  · rw [if_neg hk, if_neg (fun hother => hk (h.mem_iff.mpr hother))]
    exact .none

end Table

/-- Two usages with the same count, of the same files in some order. -/
structure Usage.Alike (u v : Usage) : Prop where
  usage_eq : u.usage = v.usage
  filepaths_perm : u.filepaths.Perm v.filepaths

/-- Two packages of the same name, imported by the same files and with the same usages. -/
structure Package.Alike (p q : Package) : Prop where
  name_eq : p.name = q.name
  filepaths_perm : p.filepaths.Perm q.filepaths
  usedExports : Table.Alike Usage.Alike p.usedExports q.usedExports

/-- Two entries for the same name, with the same usages. -/
structure ExportEntry.Alike (e d : ExportEntry) : Prop where
  name_eq : e.name = d.name
  packages : Table.Alike Usage.Alike e.packages d.packages

/-- Two builders that hold the same in both indexes, in any order. -/
structure ReportBuilder.Alike (b c : ReportBuilder) : Prop where
  packages : Table.Alike Package.Alike b.packages c.packages
  exportNames : Table.Alike ExportEntry.Alike b.exportNames c.exportNames

/-! ### Permuted mentions -/

section

variable {α : Type} [BEq α] [LawfulBEq α]

/-- Lists with the same items, each once, are the same in some order. -/
theorem eraseDups_perm {list other : List α} (h : ∀ a, a ∈ list ↔ a ∈ other) :
  list.eraseDups.Perm other.eraseDups
  := by
  apply (List.perm_ext_iff_of_nodup (nodup_eraseDups list) (nodup_eraseDups other)).mpr
  intro a
  rw [List.mem_eraseDups, List.mem_eraseDups, h]

end

/-- Permuted positions give the same usages. -/
theorem Usage.alike_table {uses others : List (Text × Text)} (h : uses.Perm others) :
  Table.Alike Alike (table uses) (table others)
  := by
  apply Table.alike_tabulate (h.map Prod.fst)
  intro name
  have hfiles := (h.filter fun use => use.1 = name).map Prod.snd
  exact ⟨hfiles.length_eq, hfiles⟩

/-- Permuted mentions give the same packages. -/
theorem Package.alike_table {mentions others : List Mention} (h : mentions.Perm others) :
  Table.Alike Alike (table mentions) (table others)
  := by
  apply Table.alike_tabulate (h.map Mention.key)
  intro key
  have hown := h.filter fun m => m.key = key
  constructor
  · rfl
  · exact eraseDups_perm fun _ => (hown.map Mention.filepath).mem_iff
  · exact Usage.alike_table (hown.flatMap_right _)

namespace ReportBuilder

/-- Builders with packages that are alike read the same usages off them. -/
theorem rel_usedIn {b c : ReportBuilder} (h : Table.Alike Package.Alike b.packages c.packages)
    (key name : Text) :
  Option.Rel Usage.Alike (b.usedIn key name) (c.usedIn key name)
  := rel_bind (h key) fun _ _ hpq => hpq.usedExports name

/-- The index of names lists a name where the package index lists a use of it. -/
theorem Transposed.isSome_iff {b : ReportBuilder} (h : b.Transposed) (name : Text) :
  (b.exportNames.get? name).isSome ↔ ∃ key, (b.usedIn key name).isSome
  := by
  constructor
  · intro hname
    obtain ⟨e, he⟩ := Option.isSome_iff_exists.mp hname
    obtain ⟨key, hkey⟩ := List.exists_mem_of_ne_nil _ (h.entry_fits he).packages_ne_nil
    refine ⟨key, ?_⟩
    rw [h.usedIn_eq, usedFrom, he]
    exact Table.isSome_get?.mpr hkey
  · rintro ⟨key, hkey⟩
    rw [h.usedIn_eq, usedFrom] at hkey
    exact Option.isSome_of_isSome_bind hkey

/-- Where the packages of two builders are alike, so are their exported names. -/
theorem Transposed.alike_exportNames {b c : ReportBuilder} (hb : b.Transposed) (hc : c.Transposed)
    (h : Table.Alike Package.Alike b.packages c.packages) :
  Table.Alike ExportEntry.Alike b.exportNames c.exportNames
  := by
  intro name
  have hsome : (b.exportNames.get? name).isSome ↔ (c.exportNames.get? name).isSome := by
    rw [hb.isSome_iff, hc.isSome_iff]
    apply exists_congr
    intro key
    rw [isSome_eq_of_rel (rel_usedIn h key name)]
  cases hbn : b.exportNames.get? name with
  | none =>
    cases hcn : c.exportNames.get? name with
    | none => exact .none
    | some d => simp [hbn, hcn] at hsome
  | some e =>
    cases hcn : c.exportNames.get? name with
    | none => simp [hbn, hcn] at hsome
    | some d =>
      apply Option.Rel.some
      constructor
      · rw [(hb.entry_fits hbn).name_eq, (hc.entry_fits hcn).name_eq]
      · intro key
        have hused := rel_usedIn h key name
        rw [hb.usedIn_eq, hc.usedIn_eq, usedFrom, usedFrom, hbn, hcn] at hused
        exact hused

/-! ### Permuted submissions -/

/-- The file that a submission is accepted for. -/
def Submission.file? : Submission → Option ParsedFile
  | .result (.parsed file) => some file
  | .result (.failed _) => none
  | .data d => (ParsedFile.read d).toOption

/-- A builder enters the file of a submission, if there is one. -/
theorem next_eq (b : ReportBuilder) (submission : Submission) :
  b.next submission = (submission.file?.map b.add).getD b
  := by
  cases submission with
  | result r =>
    cases r with
    | parsed file => rfl
    | failed failure => rfl
  | data d =>
    simp only [next, submit, addDocument, Submission.file?]
    cases ParsedFile.read d with
    | ok file => rfl
    | error faults => rfl

/-- Only the submissions that hold a file count. -/
theorem foldl_next_eq (b : ReportBuilder) (submissions : List Submission) :
  submissions.foldl next b = (submissions.filterMap Submission.file?).foldl add b
  := by
  induction submissions generalizing b with
  | nil => rfl
  | cons submission submissions ih =>
    rw [List.foldl_cons, ih, next_eq]
    cases h : submission.file? with
    | none => rw [List.filterMap_cons_none h, Option.map_none, Option.getD_none]
    | some file => rw [List.filterMap_cons_some h, Option.map_some, Option.getD_some, List.foldl_cons]

/-- Builders that are given the same files in two orders are alike. -/
theorem alike_foldl_next {submissions others : List Submission} (h : submissions.Perm others) :
  Alike (submissions.foldl next {}) (others.foldl next {})
  := by
  have hpackages : Table.Alike Package.Alike (submissions.foldl next {}).packages
      (others.foldl next {}).packages := by
    have hnone : ({} : ReportBuilder).packages = Package.table [] := rfl
    rw [foldl_next_eq, foldl_next_eq, packages_foldl_add hnone, packages_foldl_add hnone]
    exact Package.alike_table ((h.filterMap _).flatMap_right _)
  constructor
  · exact hpackages
  · exact (transposed_empty.foldl_next submissions).alike_exportNames
      (transposed_empty.foldl_next others) hpackages

end ReportBuilder

end ImportCensus
