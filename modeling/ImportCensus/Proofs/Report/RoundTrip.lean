import ImportCensus.Proofs.Report.Transposition
import ImportCensus.Proofs.Sequence

/-!
# Reports written and read again

Every reader of the plain form reads back what its writer has written, the order of lists and tables
included.  For usages this needs that the count is the number of the files, since the reader refuses any
other count.  A builder keeps its usages counted, and so does a reader, in whatever spelling it has
been given them; so every report that has been built or read survives being written and read again.
-/

namespace ImportCensus

open Document

/-! ### What readers read back -/

namespace Reader

variable {α : Type}

/-- Whether a reader reads back what has been written of a value. -/
def ReadsBack (read : Reader α) (write : α → Document) (a : α) : Prop :=
  read (write a) = .ok a

variable {read : Reader α} {write : α → Document}

/-- Written items are read back one by one. -/
theorem itemsFrom_map {items : List α} (h : ∀ a ∈ items, ReadsBack read write a) (index : Nat) :
  itemsFrom read index (items.map write) = .ok items
  := by
  induction items generalizing index with
  | nil => rfl
  | cons a items ih =>
    rw [List.forall_mem_cons] at h
    have hfirst : read (write a) = .ok a := h.1
    rw [List.map_cons, itemsFrom, hfirst, ih h.2]
    rfl

/-- Written entries are read back one by one. -/
theorem entries_map {entries : List (Text × α)}
    (h : ∀ entry ∈ entries, ReadsBack read write entry.2) :
  Reader.entries read (entries.map fun entry => (entry.1, write entry.2)) = .ok entries
  := by
  induction entries with
  | nil => rfl
  | cons entry entries ih =>
    rw [List.forall_mem_cons] at h
    have hfirst : read (write entry.2) = .ok entry.2 := h.1
    rw [List.map_cons, Reader.entries, hfirst, ih h.2]
    rfl

@[simp]
theorem list_ofTexts (texts : List Text) :
  list text (ofTexts texts) = .ok texts
  := by
  apply itemsFrom_map
  intro t _
  rfl

@[simp]
theorem optional_ofText? (t : Option Text) :
  optional text (ofText? t) = .ok t
  := by
  cases t with
  | none => rfl
  | some t => rfl

@[simp]
theorem integer_ofNat (n : Nat) :
  integer (ofNat n) = .ok n
  := by
  simp [integer, ofNat, Int.pow]

/-- A table is read back, in its order, if its values are. -/
theorem table_toDocument {t : Table Text α} (h : ∀ b ∈ t.values, ReadsBack read write b) :
  table read (t.toDocument write) = .ok t
  := by
  have hentries : Reader.entries read (t.entries.map fun entry => (entry.1, write entry.2))
      = .ok t.entries := by
    apply entries_map
    intro entry hentry
    apply h
    apply List.mem_map_of_mem hentry
  rw [Table.toDocument, table, hentries]
  simp only [Except.map, Table.ofList_entries]

end Reader

/-! ### What readers ensure -/

/-- What is read within a step has been read. -/
theorem Checked.eq_ok_of_within {α : Type} {step : PathStep} {x : Checked α} {a : α}
    (h : x.within step = .ok a) :
  x = .ok a
  := by
  cases x with
  | error faults => cases h
  | ok b => exact h

namespace Reader

variable {α : Type} {read : Reader α} {P : α → Prop}

/-- Whether a property holds of all that a reader accepts. -/
def Ensures (read : Reader α) (P : α → Prop) : Prop :=
  ∀ d a, read d = .ok a → P a

/-- What a field or its default ensures is ensured. -/
theorem ensures_withDefault (h : Ensures read P) {default : α} (hd : P default)
    {fields : List (Text × Document)} {name : FieldName} {a : α}
    (ha : withDefault fields name read default = .ok a) :
  P a
  := by
  unfold withDefault at ha
  split at ha
  · apply h _ _ (Checked.eq_ok_of_within ha)
  · cases ha
    exact hd

/-- What is ensured of a value is ensured of each entry. -/
theorem ensures_entries (h : Ensures read P) {fields : List (Text × Document)}
    {entries : List (Text × α)} (he : Reader.entries read fields = .ok entries) :
  ∀ entry ∈ entries, P entry.2
  := by
  induction fields generalizing entries with
  | nil =>
    cases he
    simp
  | cons field fields ih =>
    obtain ⟨⟨a, others⟩, hboth, rfl⟩ := exists_of_map_eq_ok he
    obtain ⟨ha, hothers⟩ := Checked.both_eq_ok_iff.mp hboth
    rw [List.forall_mem_cons]
    exact ⟨h _ _ (Checked.eq_ok_of_within ha), ih hothers⟩

/-- A table holds what the reader of its values ensures. -/
theorem ensures_table (h : Ensures read P) :
  Ensures (table read) fun t => ∀ b ∈ t.values, P b
  := by
  intro d t ht
  unfold table at ht
  split at ht
  · obtain ⟨entries, hentries, rfl⟩ := exists_of_map_eq_ok ht
    intro b hb
    obtain ⟨⟨k, b⟩, hentry, rfl⟩ := List.mem_map.mp hb
    apply ensures_entries h hentries _ (Table.mem_of_mem_ofList hentry)
  · cases ht

end Reader

/-! ### Counted usages -/

/-- Whether the counts of a table of usages are the numbers of the files listed with them. -/
def Usage.AllCounted (usages : Table Text Usage) : Prop :=
  ∀ u ∈ usages.values, u.usage = u.filepaths.length

theorem Usage.allCounted_empty :
  AllCounted .empty
  := by
  intro u hu
  cases hu

/-- Whether every usage in the two indexes of a report counts its files. -/
structure Report.Counted (r : Report) : Prop where
  packages : ∀ p ∈ r.packages.values, Usage.AllCounted p.usedExports
  exportNames : ∀ e ∈ r.exportNames.values, Usage.AllCounted e.packages

/-- The files that a reader accepts with a usage are counted. -/
theorem Usage.ensures_read :
  Reader.Ensures read fun u => u.usage = u.filepaths.length
  := by
  intro d u h
  obtain ⟨fields, -, h⟩ := exists_of_bind_eq_ok h
  obtain ⟨⟨usage, filepaths⟩, -, h⟩ := exists_of_bind_eq_ok h
  simp only [checkCount] at h
  split at h
  · cases h
    rfl
  · cases h

/-- The usages of a package that is read are counted. -/
theorem Package.ensures_read :
  Reader.Ensures read fun p => Usage.AllCounted p.usedExports
  := by
  intro d p h
  obtain ⟨fields, -, h⟩ := exists_of_bind_eq_ok h
  obtain ⟨⟨name, filepaths, usedExports⟩, hboth, h⟩ := exists_of_bind_eq_ok h
  obtain ⟨-, hboth⟩ := Checked.both_eq_ok_iff.mp hboth
  obtain ⟨-, hused⟩ := Checked.both_eq_ok_iff.mp hboth
  cases h
  apply Reader.ensures_withDefault (Reader.ensures_table Usage.ensures_read)
    Usage.allCounted_empty hused

/-- The usages of an export that is read are counted. -/
theorem ExportEntry.ensures_read :
  Reader.Ensures read fun e => Usage.AllCounted e.packages
  := by
  intro d e h
  obtain ⟨fields, -, h⟩ := exists_of_bind_eq_ok h
  obtain ⟨⟨name, packages⟩, hboth, h⟩ := exists_of_bind_eq_ok h
  obtain ⟨-, hpackages⟩ := Checked.both_eq_ok_iff.mp hboth
  cases h
  apply Reader.ensures_withDefault (Reader.ensures_table Usage.ensures_read)
    Usage.allCounted_empty hpackages

/-- Usages are counted in every report that is read. -/
theorem Report.ensures_read :
  Reader.Ensures read Counted
  := by
  intro d r h
  obtain ⟨fields, -, h⟩ := exists_of_bind_eq_ok h
  obtain ⟨⟨files, excludeGlob, packages, exportNames⟩, hboth, h⟩ := exists_of_bind_eq_ok h
  obtain ⟨-, hboth⟩ := Checked.both_eq_ok_iff.mp hboth
  obtain ⟨-, hboth⟩ := Checked.both_eq_ok_iff.mp hboth
  obtain ⟨hpackages, hnames⟩ := Checked.both_eq_ok_iff.mp hboth
  cases h
  constructor
  · apply Reader.ensures_withDefault (Reader.ensures_table Package.ensures_read) _ hpackages
    intro p hp
    cases hp
  · apply Reader.ensures_withDefault (Reader.ensures_table ExportEntry.ensures_read) _ hnames
    intro e he
    cases he

/-- Usages are counted in every report that is built from transposed indexes. -/
theorem ReportBuilder.Transposed.counted_build {b : ReportBuilder} (h : b.Transposed)
    (files : List Text) (excludeGlob : Option Text) :
  (b.build files excludeGlob).Counted
  := by
  constructor
  · intro p hp u hu
    obtain ⟨⟨key, p⟩, hentry, rfl⟩ := List.mem_map.mp hp
    obtain ⟨⟨name, u⟩, husage, rfl⟩ := List.mem_map.mp hu
    have hpackage : b.packages.get? key = some p := Table.get?_eq_some_iff.mpr hentry
    have hused : b.usedIn key name = some u := by
      rw [usedIn, hpackage]
      exact Table.get?_eq_some_iff.mpr husage
    exact (h.counted hused).usage_eq
  · intro e he u hu
    obtain ⟨⟨name, e⟩, hentry, rfl⟩ := List.mem_map.mp he
    obtain ⟨⟨key, u⟩, husage, rfl⟩ := List.mem_map.mp hu
    have hnamed : b.exportNames.get? name = some e := Table.get?_eq_some_iff.mpr hentry
    have hused : b.usedIn key name = some u := by
      rw [h.usedIn_eq, usedFrom, hnamed]
      exact Table.get?_eq_some_iff.mpr husage
    exact (h.counted hused).usage_eq

/-! ### Written and read again -/

section

attribute [local simp] Reader.ReadsBack Reader.fields Reader.withDefault Reader.required
  Reader.field? Reader.text Table.lookup Checked.both Checked.within bind Except.bind pure Except.pure

/-- A counted usage is read back. -/
theorem Usage.read_toDocument {u : Usage} (h : u.usage = u.filepaths.length) :
  Reader.ReadsBack Usage.read Usage.toDocument u
  := by
  obtain ⟨usage, filepaths⟩ := u
  obtain rfl : usage = filepaths.length := h
  simp [Usage.read, Usage.toDocument, Usage.checkCount]

/-- A table of counted usages is read back. -/
theorem Usage.table_toDocument {usages : Table Text Usage} (h : AllCounted usages) :
  Reader.table Usage.read (usages.toDocument Usage.toDocument) = .ok usages
  := Reader.table_toDocument fun u hu => Usage.read_toDocument (h u hu)

/-- A package with counted usages is read back. -/
theorem Package.read_toDocument {p : Package} (h : Usage.AllCounted p.usedExports) :
  Reader.ReadsBack Package.read Package.toDocument p
  := by
  simp [Package.read, Package.toDocument, Usage.table_toDocument h]

/-- An export with counted usages is read back. -/
theorem ExportEntry.read_toDocument {e : ExportEntry} (h : Usage.AllCounted e.packages) :
  Reader.ReadsBack ExportEntry.read ExportEntry.toDocument e
  := by
  simp [ExportEntry.read, ExportEntry.toDocument, Usage.table_toDocument h]

/-- A report in which usages are counted is read back as it was written. -/
theorem Report.read_toDocument {r : Report} (h : r.Counted) :
  Report.read r.toDocument = .ok r
  := by
  have hpackages : Reader.table Package.read (r.packages.toDocument Package.toDocument)
      = .ok r.packages :=
    Reader.table_toDocument fun p hp => Package.read_toDocument (h.packages p hp)
  have hnames : Reader.table ExportEntry.read (r.exportNames.toDocument ExportEntry.toDocument)
      = .ok r.exportNames :=
    Reader.table_toDocument fun e he => ExportEntry.read_toDocument (h.exportNames e he)
  simp [Report.read, Report.toDocument, hpackages, hnames]

end

/-- A report that has been built, in whatever state the builder was, or read from any data that was
accepted. -/
inductive Report.Obtained : Report → Prop where
  | built (submissions : List ReportBuilder.Submission) (files : List Text)
      (excludeGlob : Option Text) :
    Obtained ((submissions.foldl ReportBuilder.next {}).build files excludeGlob)
  | read {d : Document} {r : Report} (h : Report.read d = .ok r) : Obtained r

/-- The usages of a report are counted, however it has been obtained. -/
theorem Report.Obtained.counted {r : Report} (h : r.Obtained) :
  r.Counted
  := by
  cases h with
  | built submissions files excludeGlob =>
    exact (ReportBuilder.transposed_empty.foldl_next submissions).counted_build files excludeGlob
  | read h => exact Report.ensures_read _ _ h

/-- Writing a report that has been built or read loses nothing: it is read back as the same report,
lists and tables in the same order, which is written as the same document; and every usage in its
two indexes counts its files. -/
theorem Report.read_toDocument_of_obtained {r : Report} (h : r.Obtained) :
  Report.read r.toDocument = .ok r ∧ (Report.read r.toDocument).map toDocument = .ok r.toDocument
    ∧ r.Counted
  := by
  have hread : Report.read r.toDocument = .ok r := Report.read_toDocument h.counted
  refine ⟨hread, ?_, h.counted⟩
  rw [hread]
  rfl

/-- Data with some names in the other spelling, counts in place of which a text and a truth value
stand, and a field that reports do not have. -/
def looseReport : Document :=
  let files := ofTexts ["m.js".toList]
  object [("export_names".toList, object [("f".toList, object [("name".toList, text "f".toList),
      ("packages".toList, object [("p".toList, object [("usage".toList, text "1.0".toList),
        ("filepaths".toList, files)])])])]),
    ("packages".toList, object [("p".toList, object [("name".toList, text "p".toList),
      ("filepaths".toList, files), ("used_exports".toList, object [("f".toList,
        object [("usage".toList, bool true), ("filepaths".toList, files)])])])]),
    ("version".toList, null)]

/-- The report that the loose data stand for. -/
def looselyRead : Report :=
  let uses : Usage := { usage := 1, filepaths := ["m.js".toList] }
  let package : Package := {
    name := "p".toList
    filepaths := ["m.js".toList]
    usedExports := .ofList [("f".toList, uses)] }
  let entry : ExportEntry := { name := "f".toList, packages := .ofList [("p".toList, uses)] }
  {
    packages := .ofList [("p".toList, package)]
    exportNames := .ofList [("f".toList, entry)] }

/-- A report that has been read from loose data is written in full and read back. -/
theorem Report.read_toDocument_of_obtained_loose :
  looselyRead.Obtained ∧ Report.read looselyRead.toDocument = .ok looselyRead
    ∧ (Report.read looselyRead.toDocument).map toDocument = .ok looselyRead.toDocument
    ∧ looselyRead.Counted
  := by
  have hread : Report.read looseReport = .ok looselyRead := rfl
  exact ⟨.read hread, Report.read_toDocument_of_obtained (.read hread)⟩

end ImportCensus
