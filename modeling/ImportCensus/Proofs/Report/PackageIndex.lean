import ImportCensus.Proofs.Sequence
import ImportCensus.Report.Builder

/-!
# The package index

What the package index of some files holds, told from the files at once.  Every import of a file is a
mention of a key; the index lists the keys that are mentioned, and under each of them the files that
mention it and the names they use, in the order of their first appearance.  A use is listed once for
every position at which a name stands.  Entering the files one after the other gives this index and
nothing else.
-/

namespace ImportCensus

/-! ### Tables of a function -/

namespace Table

variable {κ β : Type} [DecidableEq κ]

/-- The table that holds `f k` under every `k` of a list, in the order of first appearance. -/
def tabulate (keys : List κ) (f : κ → β) : Table κ β where
  entries := keys.eraseDups.map fun k => (k, f k)
  nodup := by
    rw [List.map_map]
    apply (nodup_eraseDups keys).map
    intro k l h
    exact h

/-- A tabulated function is looked up at its keys. -/
theorem get?_tabulate (keys : List κ) (f : κ → β) (k : κ) :
  (tabulate keys f).get? k = if k ∈ keys then some (f k) else none
  := by
  split
  · rename_i h
    apply get?_eq_some_iff.mpr
    exact List.mem_map_of_mem (List.mem_eraseDups.mpr h)
  · rename_i h
    rw [Option.eq_none_iff_forall_ne_some]
    intro b hb
    obtain ⟨l, hl, heq⟩ := List.mem_map.mp (get?_eq_some_iff.mp hb)
    cases heq
    exact h (List.mem_eraseDups.mp hl)

/-- Updating a tabulated function at one of its keys tabulates the function updated there. -/
theorem upsertEntries_of_mem {keys : List κ} (hn : keys.Nodup) {k : κ} (h : k ∈ keys) {f g : κ → β}
    (u : Option β → β) (hold : ∀ l, l ≠ k → g l = f l) (hnew : g k = u (some (f k))) :
  upsertEntries k u (keys.map fun l => (l, f l)) = keys.map fun l => (l, g l)
  := by
  induction keys with
  | nil => cases h
  | cons l keys ih =>
    rw [List.nodup_cons] at hn
    by_cases hl : l = k
    · subst hl
      have hrest : (keys.map fun m => (m, f m)) = keys.map fun m => (m, g m) := by
        apply List.map_congr_left
        intro m hm
        rw [hold m (fun h => hn.1 (h ▸ hm))]
      simp [upsertEntries, hnew, hrest]
    · have hmem : k ∈ keys := by simpa [Ne.symm hl] using h
      simp [upsertEntries, hl, hold l hl, ih hn.2 hmem]

/-- A table of a function follows the function from one list to the next by a single update. -/
theorem tabulate_concat {keys : List κ} {k : κ} {f g : κ → β} (u : Option β → β)
    (hold : ∀ l, l ≠ k → g l = f l) (hnew : g k = u (if k ∈ keys then some (f k) else none)) :
  tabulate (keys ++ [k]) g = (tabulate keys f).upsert k u
  := by
  apply ext
  simp only [tabulate, upsert, eraseDups_concat]
  by_cases h : k ∈ keys
  · rw [if_pos h] at hnew ⊢
    rw [upsertEntries_of_mem (nodup_eraseDups keys) (List.mem_eraseDups.mpr h) u hold hnew]
  · rw [if_neg h] at hnew ⊢
    have hsame : (keys.eraseDups.map fun l => (l, g l)) = keys.eraseDups.map fun l => (l, f l) := by
      apply List.map_congr_left
      intro l hl
      rw [hold l (fun hk => h (hk ▸ List.mem_eraseDups.mp hl))]
    have hfresh : k ∉ (keys.eraseDups.map fun l => (l, f l)).map Prod.fst := by
      simpa [Function.comp_def] using h
    rw [upsertEntries_of_notMem u hfresh, List.map_append, hsame, List.map_singleton, hnew]

end Table

/-! ### Mentions -/

/-- An import as the index sees it: the file it stands in, the key it mentions, and the names it
uses. -/
structure Mention where
  filepath : Text
  key : Text
  names : List Text

namespace Mention

/-- The mentions of a file, in order. -/
def ofFile (file : ParsedFile) : List Mention :=
  file.packages.map fun p => ⟨file.filepath, packageKey file.filepath p.name, p.exportNames⟩

/-- The positions at which names stand in some mentions: the name at each, with the file. -/
def uses (mentions : List Mention) : List (Text × Text) :=
  mentions.flatMap fun m => m.names.map fun name => (name, m.filepath)

end Mention

/-- The use of a name, counted over all positions in files. -/
def Usage.ofUses (uses : List (Text × Text)) (name : Text) : Usage :=
  let filepaths := (uses.filter fun use => use.1 = name).map Prod.snd
  { usage := filepaths.length, filepaths }

/-- The uses of all names at some positions. -/
def Usage.table (uses : List (Text × Text)) : Table Text Usage :=
  .tabulate (uses.map Prod.fst) (ofUses uses)

/-- The package under a key that some mentions are of. -/
def Package.ofMentions (mentions : List Mention) (key : Text) : Package :=
  let own := mentions.filter fun m => m.key = key
  {
    name := key
    filepaths := (own.map Mention.filepath).eraseDups
    usedExports := Usage.table (Mention.uses own) }

/-- The packages that some mentions are of. -/
def Package.table (mentions : List Mention) : Table Text Package :=
  .tabulate (mentions.map Mention.key) (ofMentions mentions)

/-! ### Counting one after the other -/

/-- One more position is one more use of the name at it. -/
theorem Usage.table_concat (uses : List (Text × Text)) (name filepath : Text) :
  table (uses ++ [(name, filepath)])
    = (table uses).upsert name fun u => (u.getD {}).record filepath
  := by
  rw [table, List.map_append, List.map_singleton]
  apply Table.tabulate_concat
  · intro other h
    simp [ofUses, Ne.symm h]
  · by_cases h : name ∈ uses.map Prod.fst
    · simp [h, ofUses, record]
    · have hnone : uses.filter (fun use => use.1 = name) = [] := by
        rw [List.filter_eq_nil_iff]
        intro use huse hname
        apply h
        rw [← of_decide_eq_true hname]
        apply List.mem_map_of_mem huse
      simp [h, ofUses, record, hnone]

namespace Package

/-- A package that one more file imports lists the file once. -/
theorem filepaths_addFilepath (p : Package) {filepaths : List Text}
    (h : p.filepaths = filepaths.eraseDups) (filepath : Text) :
  p.addFilepath filepath = { p with filepaths := (filepaths ++ [filepath]).eraseDups }
  := by
  rw [addFilepath, eraseDups_concat]
  by_cases hmem : filepath ∈ filepaths
  · have hold : filepath ∈ p.filepaths := h ▸ List.mem_eraseDups.mpr hmem
    rw [if_pos hold, if_pos hmem, ← h]
  · have hnew : filepath ∉ p.filepaths := fun hf => hmem (List.mem_eraseDups.mp (h ▸ hf))
    rw [if_neg hnew, if_neg hmem, h]

/-- The names of one more import are used once for every position. -/
theorem addExports_eq (p : Package) {uses : List (Text × Text)}
    (h : p.usedExports = Usage.table uses) (names : List Text) (filepath : Text) :
  p.addExports names filepath
    = { p with usedExports := Usage.table (uses ++ names.map fun name => (name, filepath)) }
  := by
  unfold addExports
  induction names generalizing p uses with
  | nil => simp [← h]
  | cons name names ih =>
    have hname : (addExport filepath p name).usedExports
        = Usage.table (uses ++ [(name, filepath)]) := by
      rw [addExport, Usage.table_concat, h]
    rw [List.foldl_cons, ih _ hname, List.map_cons, List.append_assoc, List.singleton_append,
      addExport]

/-- One more mention changes the package under its own key. -/
theorem ofMentions_concat (mentions : List Mention) (m : Mention) :
  ofMentions (mentions ++ [m]) m.key
    = ((ofMentions mentions m.key).addFilepath m.filepath).addExports m.names m.filepath
  := by
  rw [filepaths_addFilepath _ rfl, addExports_eq _ rfl]
  simp [ofMentions, Mention.uses]

/-- A package without mentions has nothing but its name. -/
theorem ofMentions_of_not_mem {mentions : List Mention} {key : Text}
    (h : key ∉ mentions.map Mention.key) :
  ofMentions mentions key = { name := key }
  := by
  have hnone : mentions.filter (fun m => m.key = key) = [] := by
    rw [List.filter_eq_nil_iff]
    intro m hm hkey
    apply h
    rw [← of_decide_eq_true hkey]
    apply List.mem_map_of_mem hm
  rw [ofMentions, hnone]
  rfl

/-- One more mention is one more entry into the index. -/
theorem table_concat (mentions : List Mention) (m : Mention) :
  table (mentions ++ [m]) = ReportBuilder.indexPackage m.filepath m.key m.names (table mentions)
  := by
  rw [table, List.map_append, List.map_singleton]
  apply Table.tabulate_concat
  · intro key h
    simp [ofMentions, Ne.symm h]
  · rw [ofMentions_concat]
    split
    · rfl
    · rename_i h
      rw [ofMentions_of_not_mem h]
      rfl

end Package

namespace ReportBuilder

/-- One more file enters its mentions into the package index, one after the other. -/
theorem packages_add {b : ReportBuilder} {mentions : List Mention}
    (h : b.packages = Package.table mentions) (file : ParsedFile) :
  (b.add file).packages = Package.table (mentions ++ Mention.ofFile file)
  := by
  unfold add Mention.ofFile
  induction file.packages generalizing b mentions with
  | nil => simpa using h
  | cons p packages ih =>
    have hp : (addImport file.filepath b p).packages = Package.table
        (mentions ++ [⟨file.filepath, packageKey file.filepath p.name, p.exportNames⟩]) := by
      rw [Package.table_concat, ← h]
      rfl
    rw [List.foldl_cons, ih hp, List.map_cons, List.append_assoc, List.singleton_append]

/-- Files enter their mentions behind those that are in the package index already. -/
theorem packages_foldl_add {b : ReportBuilder} {mentions : List Mention}
    (h : b.packages = Package.table mentions) (files : List ParsedFile) :
  (files.foldl add b).packages = Package.table (mentions ++ files.flatMap Mention.ofFile)
  := by
  induction files generalizing b mentions with
  | nil => simpa using h
  | cons file files ih =>
    rw [List.foldl_cons, ih (packages_add h file), List.flatMap_cons, List.append_assoc]

/-- The package index of files that are entered into an empty builder holds the packages that they
mention, each with its files and its uses counted over all of them, and nothing else. -/
theorem packages_of_files (files : List ParsedFile) :
  (files.foldl add {}).packages = Package.table (files.flatMap Mention.ofFile)
  := by
  have hnone : ({} : ReportBuilder).packages = Package.table [] := rfl
  rw [packages_foldl_add hnone, List.nil_append]

end ReportBuilder

end ImportCensus
