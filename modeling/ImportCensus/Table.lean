/-!
# Tables

A table holds a value under each of its keys and keeps the keys in the order of their first
arrival.  `upsert` is the one operation that changes a table: it puts a value made from the old
one in its place, or adds a new key at the end.
-/

namespace ImportCensus

/-- A table from keys to values; no key occurs twice. -/
structure Table (κ β : Type) where
  entries : List (κ × β)
  nodup : (entries.map Prod.fst).Nodup

namespace Table

variable {κ β γ : Type}

/-- Two tables with the same entries are equal. -/
@[ext]
theorem ext {s t : Table κ β} (h : s.entries = t.entries) :
  s = t
  := by
  cases s
  cases t
  cases h
  rfl

/-- The table without keys. -/
def empty : Table κ β := ⟨[], List.nodup_nil⟩

instance : Inhabited (Table κ β) := ⟨empty⟩

instance [DecidableEq κ] [DecidableEq β] : DecidableEq (Table κ β) := fun s t =>
  if h : s.entries = t.entries then isTrue (ext h) else isFalse fun e => h (congrArg entries e)

instance [Repr κ] [Repr β] : Repr (Table κ β) := ⟨fun t n => reprPrec t.entries n⟩

/-- The keys, in the order of their first arrival. -/
def keys (t : Table κ β) : List κ := t.entries.map Prod.fst

/-- The values, in the order of their keys. -/
def values (t : Table κ β) : List β := t.entries.map Prod.snd

/-- The number of keys. -/
def size (t : Table κ β) : Nat := t.entries.length

theorem length_keys (t : Table κ β) :
  t.keys.length = t.size
  := List.length_map _

/-- The value that a list of entries holds under a key. -/
def lookup [DecidableEq κ] (k : κ) : List (κ × β) → Option β
  | [] => none
  | (l, b) :: rest => if l = k then some b else lookup k rest

/-- The value under a key. -/
def get? [DecidableEq κ] (t : Table κ β) (k : κ) : Option β := lookup k t.entries

/-- A list of entries with the value under a key replaced, or added at the end. -/
def upsertEntries [DecidableEq κ] (k : κ) (f : Option β → β) : List (κ × β) → List (κ × β)
  | [] => [(k, f none)]
  | (l, b) :: rest => if l = k then (l, f (some b)) :: rest else (l, b) :: upsertEntries k f rest

theorem keys_upsertEntries [DecidableEq κ] (k : κ) (f : Option β → β) (entries : List (κ × β)) :
  (upsertEntries k f entries).map Prod.fst
    = if k ∈ entries.map Prod.fst then entries.map Prod.fst else entries.map Prod.fst ++ [k]
  := by
  induction entries with
  | nil => simp [upsertEntries]
  | cons entry rest ih =>
    obtain ⟨l, b⟩ := entry
    by_cases h : l = k
    · simp [upsertEntries, h]
    · by_cases hk : k ∈ rest.map Prod.fst
      · rw [if_pos hk] at ih
        simp [upsertEntries, h, ih, hk]
      · rw [if_neg hk] at ih
        simp [upsertEntries, h, ih, hk, Ne.symm h]

theorem nodup_upsertEntries [DecidableEq κ] (k : κ) (f : Option β → β) {entries : List (κ × β)}
    (h : (entries.map Prod.fst).Nodup) :
  ((upsertEntries k f entries).map Prod.fst).Nodup
  := by
  rw [keys_upsertEntries]
  split
  · exact h
  · rename_i hk
    apply List.nodup_append.mpr
    refine ⟨h, by simp, ?_⟩
    rintro a ha b hb rfl
    rw [List.mem_singleton] at hb
    exact hk (hb ▸ ha)

/-- A table with the value under `k` made by `f` from the old one, if there is one. -/
def upsert [DecidableEq κ] (t : Table κ β) (k : κ) (f : Option β → β) : Table κ β :=
  ⟨upsertEntries k f t.entries, nodup_upsertEntries k f t.nodup⟩

/-- A table with `b` under `k`. -/
def insert [DecidableEq κ] (t : Table κ β) (k : κ) (b : β) : Table κ β :=
  t.upsert k fun _ => b

/-- The table of a list of entries.  A later value takes the place of an earlier one. -/
def ofList [DecidableEq κ] (entries : List (κ × β)) : Table κ β :=
  entries.foldl (fun t entry => t.insert entry.1 entry.2) empty

/-- The keys after `upsert`: a new key comes last. -/
theorem keys_upsert [DecidableEq κ] (t : Table κ β) (k : κ) (f : Option β → β) :
  (t.upsert k f).keys = if k ∈ t.keys then t.keys else t.keys ++ [k]
  := keys_upsertEntries k f t.entries

theorem lookup_upsertEntries [DecidableEq κ] (k l : κ) (f : Option β → β)
    (entries : List (κ × β)) :
  lookup l (upsertEntries k f entries)
    = if l = k then some (f (lookup k entries)) else lookup l entries
  := by
  induction entries with
  | nil =>
    by_cases h : l = k
    · simp [upsertEntries, lookup, h]
    · simp [upsertEntries, lookup, h, Ne.symm h]
  | cons entry rest ih =>
    obtain ⟨m, b⟩ := entry
    by_cases hm : m = k
    · subst hm
      by_cases h : l = m
      · simp [upsertEntries, lookup, h]
      · simp [upsertEntries, lookup, h, Ne.symm h]
    · by_cases hl : m = l
      · subst hl
        simp [upsertEntries, lookup, hm]
      · simp [upsertEntries, lookup, hm, hl, ih]

/-- The value under a key after `upsert`. -/
theorem get?_upsert [DecidableEq κ] (t : Table κ β) (k l : κ) (f : Option β → β) :
  (t.upsert k f).get? l = if l = k then some (f (t.get? k)) else t.get? l
  := lookup_upsertEntries k l f t.entries

/-- Entries under other keys leave the value under a key alone. -/
theorem get?_foldl_insert [DecidableEq κ] {k : κ} {entries : List (κ × β)}
    (h : k ∉ entries.map Prod.fst) (t : Table κ β) :
  (entries.foldl (fun t entry => t.insert entry.1 entry.2) t).get? k = t.get? k
  := by
  induction entries generalizing t with
  | nil => rfl
  | cons entry entries ih =>
    rw [List.map_cons, List.mem_cons, not_or] at h
    rw [List.foldl_cons, ih h.2, insert, get?_upsert, if_neg h.1]

/-- The table of a list with distinct keys holds every entry of the list. -/
theorem get?_ofList_of_mem [DecidableEq κ] {entries : List (κ × β)}
    (hn : (entries.map Prod.fst).Nodup) {k : κ} {b : β} (h : (k, b) ∈ entries) :
  (ofList entries).get? k = some b
  := by
  obtain ⟨front, behind, rfl⟩ := List.append_of_mem h
  have hk : k ∉ behind.map Prod.fst := by
    rw [List.map_append, List.map_cons, List.nodup_append, List.nodup_cons] at hn
    exact hn.2.1.1
  rw [ofList, List.foldl_append, List.foldl_cons, get?_foldl_insert hk, insert, get?_upsert,
    if_pos rfl]

theorem mem_of_lookup_eq_some [DecidableEq κ] {entries : List (κ × β)} {k : κ} {b : β}
    (h : lookup k entries = some b) :
  (k, b) ∈ entries
  := by
  induction entries with
  | nil => cases h
  | cons entry rest ih =>
    obtain ⟨l, a⟩ := entry
    rw [lookup] at h
    split at h
    · rename_i hl
      cases h
      rw [hl]
      exact List.mem_cons_self
    · exact List.mem_cons_of_mem _ (ih h)

theorem lookup_eq_some_iff [DecidableEq κ] {entries : List (κ × β)}
    (hn : (entries.map Prod.fst).Nodup) {k : κ} {b : β} :
  lookup k entries = some b ↔ (k, b) ∈ entries
  := by
  induction entries with
  | nil => simp [lookup]
  | cons entry rest ih =>
    obtain ⟨l, a⟩ := entry
    rw [List.map_cons, List.nodup_cons] at hn
    rw [lookup, List.mem_cons]
    split
    · rename_i h
      subst h
      constructor
      · intro h
        cases h
        exact .inl rfl
      · rintro (h | h)
        · cases h
          rfl
        · exact absurd (List.mem_map_of_mem h) hn.1
    · rename_i h
      rw [ih hn.2]
      constructor
      · exact .inr
      · rintro (h' | h')
        · cases h'
          exact absurd rfl h
        · exact h'

/-- What a table holds under a key is entered there. -/
theorem get?_eq_some_iff [DecidableEq κ] {t : Table κ β} {k : κ} {b : β} :
  t.get? k = some b ↔ (k, b) ∈ t.entries
  := lookup_eq_some_iff t.nodup

/-- A table holds something under its keys. -/
theorem isSome_get? [DecidableEq κ] {t : Table κ β} {k : κ} :
  (t.get? k).isSome ↔ k ∈ t.keys
  := by
  rw [Option.isSome_iff_exists, keys, List.mem_map]
  constructor
  · rintro ⟨b, hb⟩
    exact ⟨(k, b), get?_eq_some_iff.mp hb, rfl⟩
  · rintro ⟨⟨_, b⟩, hb, rfl⟩
    exact ⟨b, get?_eq_some_iff.mpr hb⟩

theorem upsertEntries_of_notMem [DecidableEq κ] {k : κ} (f : Option β → β)
    {entries : List (κ × β)} (h : k ∉ entries.map Prod.fst) :
  upsertEntries k f entries = entries ++ [(k, f none)]
  := by
  induction entries with
  | nil => rfl
  | cons entry rest ih =>
    rw [List.map_cons, List.mem_cons, not_or] at h
    rw [upsertEntries, if_neg (Ne.symm h.1), ih h.2, List.cons_append]

/-- New keys are added at the end of a table, each with its value. -/
theorem entries_foldl_insert [DecidableEq κ] {t : Table κ β} {entries : List (κ × β)}
    (h : ((t.entries ++ entries).map Prod.fst).Nodup) :
  (entries.foldl (fun t entry => t.insert entry.1 entry.2) t).entries = t.entries ++ entries
  := by
  induction entries generalizing t with
  | nil => simp
  | cons entry entries ih =>
    have hnew : entry.1 ∉ t.entries.map Prod.fst := by
      rw [List.map_append, List.nodup_append] at h
      intro hmem
      exact h.2.2 _ hmem _ (by simp) rfl
    have hentries : (t.insert entry.1 entry.2).entries = t.entries ++ [entry] :=
      upsertEntries_of_notMem _ hnew
    rw [List.append_cons, ← hentries] at h ⊢
    exact ih h

/-- A table is the table of its entries. -/
theorem ofList_entries [DecidableEq κ] (t : Table κ β) :
  ofList t.entries = t
  := by
  apply ext
  apply entries_foldl_insert (t := empty)
  exact t.nodup

/-- What stands in a table with `b` under `k` is that entry or has stood in the table before. -/
theorem mem_insert [DecidableEq κ] {t : Table κ β} {k : κ} {b : β} {entry : κ × β}
    (h : entry ∈ (t.insert k b).entries) :
  entry ∈ t.entries ∨ entry = (k, b)
  := by
  obtain ⟨l, a⟩ := entry
  rw [← get?_eq_some_iff, insert, get?_upsert] at h
  split at h
  · rename_i hk
    subst hk
    cases h
    exact .inr rfl
  · exact .inl (get?_eq_some_iff.mp h)

theorem mem_of_mem_foldl_insert [DecidableEq κ] {t : Table κ β} {entries : List (κ × β)}
    {entry : κ × β}
    (h : entry ∈ (entries.foldl (fun t entry => t.insert entry.1 entry.2) t).entries) :
  entry ∈ t.entries ∨ entry ∈ entries
  := by
  induction entries generalizing t with
  | nil => exact .inl h
  | cons first entries ih =>
    obtain hinsert | hmem := ih h
    · obtain hold | rfl := mem_insert hinsert
      · exact .inl hold
      · exact .inr List.mem_cons_self
    · exact .inr (List.mem_cons_of_mem _ hmem)

/-- What a table of a list of entries holds stands in the list. -/
theorem mem_of_mem_ofList [DecidableEq κ] {entries : List (κ × β)} {entry : κ × β}
    (h : entry ∈ (ofList entries).entries) :
  entry ∈ entries
  := by
  obtain hempty | hmem := mem_of_mem_foldl_insert h
  · cases hempty
  · exact hmem

end Table

end ImportCensus
