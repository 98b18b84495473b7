import ImportCensus.Report.PlainForm

/-!
# Transposed indexes

The package index and the index of exported names hold the same uses, once by package and once by
name.  `usedIn` and `usedFrom` read the use of a name from a package off the two indexes.  With
every package that a file imports the two readings change in the same way, so they agree in every
state that a builder reaches, whatever it is given.
-/

namespace ImportCensus

/-! ### Uses while they are recorded -/

namespace Usage

/-- A use with further uses, in the files of a list. -/
def addFiles (u : Usage) (files : List Text) : Usage :=
  { usage := u.usage + files.length, filepaths := u.filepaths ++ files }

@[simp]
theorem addFiles_addFiles (u : Usage) (files others : List Text) :
  (u.addFiles files).addFiles others = u.addFiles (files ++ others)
  := by
  simp [addFiles, Nat.add_assoc]

/-- Recording a file adds it. -/
theorem record_eq_addFiles (u : Usage) (filepath : Text) :
  u.record filepath = u.addFiles [filepath]
  := rfl

/-- A use, or none so far, with one more for every time a name occurs in a list of names. -/
def recordAll (filepath name : Text) (names : List Text) (used : Option Usage) : Option Usage :=
  names.foldl (fun u n => if n = name then some ((u.getD {}).record filepath) else u) used

/-- A name that occurs in the list is used as often as it occurs, and any other as before. -/
theorem recordAll_eq (filepath name : Text) (names : List Text) (used : Option Usage) :
  recordAll filepath name names used
    = if name ∈ names then
        some ((used.getD {}).addFiles (List.replicate (names.count name) filepath))
      else used
  := by
  unfold recordAll
  induction names generalizing used with
  | nil => rfl
  | cons n names ih =>
    rw [List.foldl_cons, ih]
    by_cases hn : n = name
    · subst hn
      simp only [if_true, List.mem_cons, true_or, List.count_cons_self, Option.getD_some,
        record_eq_addFiles, addFiles_addFiles, List.replicate_succ, List.singleton_append]
      split
      · rfl
      · rename_i hmem
        rw [List.count_eq_zero_of_not_mem hmem, List.replicate_zero]
    · simp only [if_neg hn, List.mem_cons, Ne.symm hn, false_or, List.count_cons_of_ne hn]

/-- A use that counts its files, of which there is at least one. -/
structure Counted (u : Usage) : Prop where
  usage_eq : u.usage = u.filepaths.length
  one_le : 1 ≤ u.usage

/-- Recording keeps uses counted. -/
theorem counted_of_recordAll {filepath name : Text} {names : List Text} {used : Option Usage}
    (h : ∀ u ∈ used, u.Counted) {u : Usage} (hu : recordAll filepath name names used = some u) :
  u.Counted
  := by
  rw [recordAll_eq] at hu
  split at hu
  · rename_i hmem
    have hold : (used.getD {}).usage = (used.getD {}).filepaths.length := by
      cases used with
      | none => rfl
      | some v => exact (h v rfl).usage_eq
    have hcount := List.count_pos_iff.mpr hmem
    cases hu
    constructor
    · simp [addFiles, hold]
    · simp only [addFiles, List.length_replicate]
      omega
  · apply h u hu

/-- Recording adds no file but the given one. -/
theorem mem_filepaths_of_recordAll {filepath name : Text} {names : List Text}
    {used : Option Usage} {u : Usage} (hu : recordAll filepath name names used = some u)
    {f : Text} (hf : f ∈ u.filepaths) :
  f = filepath ∨ ∃ v, used = some v ∧ f ∈ v.filepaths
  := by
  rw [recordAll_eq] at hu
  split at hu
  · cases hu
    obtain hold | hnew := List.mem_append.mp hf
    · cases used with
      | none => cases hold
      | some v => exact .inr ⟨v, rfl, hold⟩
    · exact .inl (List.eq_of_mem_replicate hnew)
  · exact .inr ⟨u, hu, hf⟩

end Usage

namespace Package

@[simp]
theorem name_addFilepath (p : Package) (filepath : Text) :
  (p.addFilepath filepath).name = p.name
  := by
  unfold addFilepath
  split
  · rfl
  · rfl

@[simp]
theorem usedExports_addFilepath (p : Package) (filepath : Text) :
  (p.addFilepath filepath).usedExports = p.usedExports
  := by
  unfold addFilepath
  split
  · rfl
  · rfl

/-- A package is found in the files where it was, and in the one that is added. -/
theorem mem_filepaths_addFilepath (p : Package) (filepath f : Text) :
  f ∈ (p.addFilepath filepath).filepaths ↔ f ∈ p.filepaths ∨ f = filepath
  := by
  unfold addFilepath
  split
  · rename_i h
    constructor
    · exact Or.inl
    · rintro (hf | rfl)
      · exact hf
      · exact h
  · simp

/-- No file is added twice to a package. -/
theorem nodup_filepaths_addFilepath {p : Package} (h : p.filepaths.Nodup) (filepath : Text) :
  (p.addFilepath filepath).filepaths.Nodup
  := by
  unfold addFilepath
  split
  · exact h
  · rename_i hf
    apply List.nodup_append.mpr
    refine ⟨h, by simp, ?_⟩
    rintro a ha b hb rfl
    rw [List.mem_singleton] at hb
    apply hf (hb ▸ ha)

@[simp]
theorem name_addExports (p : Package) (names : List Text) (filepath : Text) :
  (p.addExports names filepath).name = p.name
  := by
  unfold addExports
  induction names generalizing p with
  | nil => rfl
  | cons n names ih => rw [List.foldl_cons, ih, addExport]

@[simp]
theorem filepaths_addExports (p : Package) (names : List Text) (filepath : Text) :
  (p.addExports names filepath).filepaths = p.filepaths
  := by
  unfold addExports
  induction names generalizing p with
  | nil => rfl
  | cons n names ih => rw [List.foldl_cons, ih, addExport]

/-- Adding names records the file for each of them. -/
theorem get?_usedExports_addExports (p : Package) (names : List Text) (filepath name : Text) :
  (p.addExports names filepath).usedExports.get? name
    = Usage.recordAll filepath name names (p.usedExports.get? name)
  := by
  unfold addExports Usage.recordAll
  induction names generalizing p with
  | nil => rfl
  | cons n names ih =>
    rw [List.foldl_cons, List.foldl_cons, ih, addExport, Table.get?_upsert]
    congr 1
    by_cases h : n = name
    · rw [if_pos h, if_pos h.symm, h]
    · rw [if_neg h, if_neg (Ne.symm h)]

end Package

/-! ### The two readings of an index -/

namespace ReportBuilder

/-- The use of a name that the package index lists under a key. -/
def usedIn (b : ReportBuilder) (key name : Text) : Option Usage :=
  (b.packages.get? key).bind fun p => p.usedExports.get? name

/-- The use from a package that the index of names lists under a name. -/
def usedFrom (b : ReportBuilder) (name key : Text) : Option Usage :=
  (b.exportNames.get? name).bind fun e => e.packages.get? key

/-- An import records its names under its own key in the package index. -/
theorem usedIn_addImport (filepath : Text) (b : ReportBuilder) (p : PackageImport)
    (key name : Text) :
  (addImport filepath b p).usedIn key name
    = if key = packageKey filepath p.name then
        Usage.recordAll filepath name p.exportNames (b.usedIn key name)
      else b.usedIn key name
  := by
  simp only [usedIn, addImport, indexPackage, Table.get?_upsert]
  split
  · rename_i h
    rw [Option.bind_some, Package.get?_usedExports_addExports, Package.usedExports_addFilepath, h]
    cases b.packages.get? (packageKey filepath p.name) with
    | none => rfl
    | some q => rfl
  · rfl

/-- One use of a name changes the index of names under that name and key only. -/
theorem get?_indexExport (filepath key : Text) (t : Table Text ExportEntry)
    (n name k : Text) :
  ((indexExport filepath key t n).get? name).bind (fun e => e.packages.get? k)
    = if n = name ∧ k = key then
        some ((((t.get? name).bind fun e => e.packages.get? k).getD {}).record filepath)
      else (t.get? name).bind fun e => e.packages.get? k
  := by
  rw [indexExport, Table.get?_upsert]
  by_cases hn : name = n
  · subst hn
    rw [if_pos rfl, Option.bind_some, ExportEntry.record, Table.get?_upsert]
    by_cases hk : k = key
    · subst hk
      simp only [if_true, and_self]
      cases t.get? name with
      | none => rfl
      | some e => rfl
    · simp only [hk, and_false, if_false]
      cases t.get? name with
      | none => rfl
      | some e => rfl
  · rw [if_neg hn, if_neg (fun h => hn h.1.symm)]

/-- An import records its names under its own key in the index of names. -/
theorem usedFrom_addImport (filepath : Text) (b : ReportBuilder) (p : PackageImport)
    (key name : Text) :
  (addImport filepath b p).usedFrom name key
    = if key = packageKey filepath p.name then
        Usage.recordAll filepath name p.exportNames (b.usedFrom name key)
      else b.usedFrom name key
  := by
  simp only [usedFrom, addImport]
  generalize packageKey filepath p.name = own
  generalize b.exportNames = t
  induction p.exportNames generalizing t with
  | nil => simp [Usage.recordAll]
  | cons n names ih =>
    rw [List.foldl_cons, ih, get?_indexExport]
    by_cases hk : key = own
    · simp only [hk, if_true, and_true, Usage.recordAll, List.foldl_cons]
    · simp only [hk, if_false, and_false]

end ReportBuilder

/-! ### Transposition -/

/-- A package fits the key it is listed under: it is named by it, lists every file that imports it
once and at least one, and knows of no use in any other file. -/
structure Package.Fits (key : Text) (p : Package) : Prop where
  name_eq : p.name = key
  filepaths_ne_nil : p.filepaths ≠ []
  filepaths_nodup : p.filepaths.Nodup
  mem_filepaths : ∀ {name u}, p.usedExports.get? name = some u → ∀ f ∈ u.filepaths, f ∈ p.filepaths

/-- An entry fits the name it is listed under: it holds that name and at least one package. -/
structure ExportEntry.Fits (name : Text) (e : ExportEntry) : Prop where
  name_eq : e.name = name
  packages_ne_nil : e.packages.keys ≠ []

namespace ReportBuilder

/-- The two indexes of a builder are transposes of each other: the package index lists a use of a
name by a package exactly where the index of names lists it, and it is the same use, which counts
its files.  Moreover everything in the two indexes fits its place. -/
structure Transposed (b : ReportBuilder) : Prop where
  usedIn_eq : ∀ key name, b.usedIn key name = b.usedFrom name key
  counted : ∀ {key name u}, b.usedIn key name = some u → u.Counted
  package_fits : ∀ {key p}, b.packages.get? key = some p → p.Fits key
  entry_fits : ∀ {name e}, b.exportNames.get? name = some e → e.Fits name

/-- The empty report is transposed. -/
theorem transposed_empty :
  Transposed {}
  := by
  constructor
  · intro key name
    rfl
  · rintro key name u ⟨⟩
  · rintro key p ⟨⟩
  · rintro name e ⟨⟩

/-- A package that a file imports with some names fits its key, if it did before. -/
theorem fits_addExports {key : Text} {old : Option Package} (h : ∀ p ∈ old, p.Fits key)
    (filepath : Text) (names : List Text) :
  (((old.getD { name := key }).addFilepath filepath).addExports names filepath).Fits key
  := by
  constructor
  · rw [Package.name_addExports, Package.name_addFilepath]
    cases old with
    | none => rfl
    | some p => exact (h p rfl).name_eq
  · rw [Package.filepaths_addExports]
    apply List.ne_nil_of_mem ((Package.mem_filepaths_addFilepath _ _ _).mpr (.inr rfl))
  · rw [Package.filepaths_addExports]
    apply Package.nodup_filepaths_addFilepath
    cases old with
    | none => exact List.nodup_nil
    | some p => exact (h p rfl).filepaths_nodup
  · intro name u hu f hf
    rw [Package.get?_usedExports_addExports, Package.usedExports_addFilepath] at hu
    rw [Package.filepaths_addExports, Package.mem_filepaths_addFilepath]
    obtain rfl | ⟨v, hv, hmem⟩ := Usage.mem_filepaths_of_recordAll hu hf
    · exact .inr rfl
    · cases old with
      | none => cases hv
      | some p => exact .inl ((h p rfl).mem_filepaths hv f hmem)

/-- The entries of an index of names fit after any number of uses, if they did before. -/
theorem fits_indexExport {filepath key : Text} {names : List Text} {t : Table Text ExportEntry}
    (h : ∀ {name e}, t.get? name = some e → e.Fits name) {name : Text} {e : ExportEntry}
    (he : (names.foldl (indexExport filepath key) t).get? name = some e) :
  e.Fits name
  := by
  induction names generalizing t with
  | nil => apply h he
  | cons n names ih =>
    apply ih _ he
    intro m d hd
    rw [indexExport, Table.get?_upsert] at hd
    split at hd
    · rename_i hm
      subst hm
      cases hd
      constructor
      · cases ht : t.get? m with
        | none => rfl
        | some old => exact (h ht).name_eq
      · rw [ExportEntry.record, Table.keys_upsert]
        split
        · rename_i hk
          apply List.ne_nil_of_mem hk
        · simp
    · apply h hd

/-- One more import keeps the indexes transposed. -/
theorem transposed_addImport {b : ReportBuilder} (h : b.Transposed) (filepath : Text)
    (p : PackageImport) :
  (addImport filepath b p).Transposed
  := by
  constructor
  · intro key name
    rw [usedIn_addImport, usedFrom_addImport, h.usedIn_eq]
  · intro key name u hu
    rw [usedIn_addImport] at hu
    split at hu
    · apply Usage.counted_of_recordAll (fun v hv => h.counted hv) hu
    · apply h.counted hu
  · intro key q hq
    rw [addImport, indexPackage, Table.get?_upsert] at hq
    split at hq
    · rename_i hk
      subst hk
      cases hq
      apply fits_addExports (fun p hp => h.package_fits hp) filepath p.exportNames
    · apply h.package_fits hq
  · intro name e he
    apply fits_indexExport h.entry_fits he

/-- One more file keeps the indexes transposed. -/
theorem transposed_add {b : ReportBuilder} (h : b.Transposed) (file : ParsedFile) :
  (b.add file).Transposed
  := by
  unfold add
  induction file.packages generalizing b with
  | nil => exact h
  | cons p packages ih => apply ih (transposed_addImport h file.filepath p)

/-! ### Reachable builders -/

/-- What a builder may be given: the result of reading a file, or data that should be one. -/
inductive Submission where
  | result (result : FileResult)
  | data (data : Document)

/-- The answer of a builder to a submission. -/
def submit (b : ReportBuilder) : Submission → Checked ReportBuilder
  | .result r => b.addResult r
  | .data d => b.addDocument d

/-- The builder behind a submission; a refused one leaves it as it was. -/
def next (b : ReportBuilder) (submission : Submission) : ReportBuilder :=
  match b.submit submission with
  | .ok b' => b'
  | .error _ => b

/-- A submission keeps the indexes transposed, accepted or not. -/
theorem transposed_next {b : ReportBuilder} (h : b.Transposed) (submission : Submission) :
  (b.next submission).Transposed
  := by
  unfold next
  split
  · rename_i b' hb
    cases submission with
    | result r =>
      cases r with
      | parsed file =>
        cases hb
        apply transposed_add h file
      | failed failure => cases hb
    | data d =>
      simp only [submit, addDocument] at hb
      cases hd : ParsedFile.read d with
      | error faults => simp [hd, Except.map] at hb
      | ok file =>
        simp only [hd, Except.map, Except.ok.injEq] at hb
        subst hb
        apply transposed_add h file
  · exact h

/-- Any number of submissions keeps the indexes transposed. -/
theorem Transposed.foldl_next {b : ReportBuilder} (h : b.Transposed)
    (submissions : List Submission) :
  (submissions.foldl next b).Transposed
  := by
  induction submissions generalizing b with
  | nil => exact h
  | cons submission submissions ih => exact ih (transposed_next h submission)

/-- Whatever an empty builder is given, in any order, its two indexes are transposes of each
other. -/
theorem transposed_foldl_next (submissions : List Submission) :
  (submissions.foldl next {}).Transposed
  := transposed_empty.foldl_next submissions

end ReportBuilder

end ImportCensus
