import ImportCensus.Proofs.PackageName.Grammar
import ImportCensus.Proofs.Path.Normal
import ImportCensus.Report.Builder

/-!
# Package keys

The paths of the files that relative specifiers name and the names of published packages are keys of
one table.  A relative specifier takes back segments of the path of the file it stands in, the file's
own name first, and so its key is a package name exactly if what is left of the path, with what the
specifier names below it, are the segments of that name.  A specifier that takes nothing back only adds
segments, and so its key tells the file and the segments, unless one file's path goes on from another's.
-/

namespace ImportCensus

namespace Specifier

/-- A relative specifier is no rooted path. -/
theorem isAbsolute_of_isRelative {specifier : Text} (h : isRelative specifier = true) :
  Path.isAbsolute specifier = false
  := by
  unfold isRelative at h
  split at h
  · rfl
  · rfl
  · rfl
  · rfl
  · cases h

/-- A specifier with a dot and a slash in front is relative. -/
theorem isRelative_of_prefix {specifier : Text} (h : ['.', '/'] <+: specifier) :
  isRelative specifier = true
  := by
  obtain ⟨rest, rfl⟩ := h
  rfl

end Specifier

namespace PackageName

variable {name : Text}

/-- The name of a package is not relative. -/
theorem isRelative_of_isValid (h : isValid name = true) :
  Specifier.isRelative name = false
  := by
  have hhidden := beginsHidden_of_isValid h
  unfold Specifier.isRelative
  split
  · cases hhidden
  · cases hhidden
  · cases hhidden
  · cases hhidden
  · rfl

end PackageName

open ImportCensus.Path

/-- A path all segments of which are normal is a package name exactly if they are its segments. -/
theorem normalize_eq_iff {path name : Text} (h : isAbsolute path = false)
    (hn : PackageName.isValid name = true) :
  normalize path = name ↔ normalSegments path = Text.splitOn '/' name
  := by
  rw [normalize_eq h]
  constructor
  · intro heq
    split at heq
    · rw [← heq] at hn
      cases PackageName.beginsHidden_of_isValid hn
    · rename_i hne
      rw [← heq, Text.splitOn_join (fun segment hs => (of_mem_normalSegments hs).1) hne]
  · intro heq
    have hne : normalSegments path ≠ [] := by
      intro hnil
      have hjoin := Text.join_splitOn '/' name
      rw [← heq, hnil] at hjoin
      exact PackageName.ne_nil_of_isValid hn hjoin.symm
    rw [if_neg hne, heq, Text.join_splitOn]

/-- The key of a relative specifier is its path in normal form. -/
theorem packageKey_of_isRelative {file specifier : Text} (h : Specifier.isRelative specifier = true) :
  packageKey file specifier = normalize (join file specifier)
  := by
  rw [packageKey, if_pos h]

/-- The key of a relative specifier is the key of a package name exactly if the specifier takes back no
more segments than the file has, and what it leaves of them and what it names below are the segments of
the name: the name itself, or its scope and its package. -/
theorem packageKey_eq_packageKey_iff {f g r n : Text} (hf : IsPlainPath f)
    (hr : Specifier.isRelative r = true) (hn : PackageName.isValid n = true) :
  (packageKey f r = packageKey g n
      ↔ climbs r ≤ depth f
        ∧ (Text.splitOn '/' f).take (depth f - climbs r) ++ descent r = Text.splitOn '/' n)
    ∧ (Text.splitOn '/' n = [n] ∨ ∃ scope package, Text.splitOn '/' n = ['@' :: scope, package])
  := by
  refine ⟨?_, PackageName.splitOn_of_isValid hn⟩
  have habsolute := Specifier.isAbsolute_of_isRelative hr
  have hname : packageKey g n = n := by
    rw [packageKey, PackageName.isRelative_of_isValid hn]
    rfl
  rw [hname, packageKey_of_isRelative hr, normalize_eq_iff (join_eq hf habsolute).2 hn, normalSegments_join hf habsolute]
  by_cases hclimbs : climbs r ≤ depth f
  · rw [Nat.sub_eq_zero_of_le hclimbs]
    simp [hclimbs]
  · -- a climb that stays would be the first segment of the name
    obtain ⟨k, hk⟩ := Nat.exists_eq_succ_of_ne_zero (Nat.sub_ne_zero_of_lt (Nat.lt_of_not_le hclimbs))
    rw [hk, List.replicate_succ, List.cons_append, List.cons_append]
    constructor
    · intro heq
      have hhead : n.head? = some '.' := Text.head?_of_splitOn heq.symm (List.cons_ne_nil _ _)
      obtain ⟨rest, rfl⟩ := List.head?_eq_some_iff.mp hhead
      cases PackageName.beginsHidden_of_isValid hn
    · intro heq
      exact absurd heq.1 hclimbs

/-- A file in a scope directory whose relative import has the key of a package in that scope. -/
theorem packageKey_eq_packageKey_scoped :
  IsPlainPath "@user/a.js".toList ∧ Specifier.isRelative "../pkg".toList = true
    ∧ PackageName.isValid "@user/pkg".toList = true
    ∧ packageKey "@user/a.js".toList "../pkg".toList = packageKey [] "@user/pkg".toList
  := by
  have hf : IsPlainPath "@user/a.js".toList := by decide
  have hr : Specifier.isRelative "../pkg".toList = true := by decide
  have hn : PackageName.isValid "@user/pkg".toList = true := by decide +kernel
  exact ⟨hf, hr, hn, (packageKey_eq_packageKey_iff hf hr hn).1.mpr (by decide +kernel)⟩

/-- A relative import of a file at the top and the import of a published package share their key. -/
theorem packageKey_index_lodash :
  ¬ ∀ f g r n : Text, IsPlainPath f → IsPlainPath g → Specifier.isRelative r = true →
    PackageName.isValid n = true → packageKey f r ≠ packageKey g n
  := by
  intro h
  apply h "index.js".toList "index.js".toList "../lodash".toList "lodash".toList
  · decide
  · decide
  · decide
  · decide +kernel
  · decide +kernel

/-! ### Specifiers that climb nowhere -/

/-- Below a file, the key of a specifier that climbs nowhere has the segments of the file's path and then
those that the specifier names. -/
theorem splitOn_packageKey {file specifier : Text} (hf : IsPlainPath file)
    (hr : Specifier.isRelative specifier = true) (h : dotDot ∉ segments specifier) :
  Text.splitOn '/' (packageKey file specifier)
    = Text.splitOn '/' file ++ (segments specifier).filter (· ≠ ['.'])
  := by
  have habsolute := Specifier.isAbsolute_of_isRelative hr
  obtain ⟨hclimbs, hdescent⟩ := climbs_eq_zero_and_descent_eq h
  have hnormal : normalSegments (join file specifier)
      = Text.splitOn '/' file ++ (segments specifier).filter (· ≠ ['.']) := by
    rw [normalSegments_join hf habsolute, hclimbs, hdescent, Nat.zero_sub, Nat.sub_zero, depth,
      List.take_length]
    rfl
  have hne : normalSegments (join file specifier) ≠ [] := by
    rw [hnormal]
    apply List.append_ne_nil_of_left_ne_nil (Text.splitOn_ne_nil '/' file)
  rw [packageKey_of_isRelative hr, normalize_eq (join_eq hf habsolute).2, if_neg hne,
    Text.splitOn_join (fun segment hs => (of_mem_normalSegments hs).1) hne, hnormal]

/-- Where neither of two files stands in a directory that is named as the other one, the keys of two
specifiers that climb nowhere are the same exactly if the files are and the specifiers name the same
segments. -/
theorem packageKey_eq_packageKey_iff_of_descending {f g s t : Text} (hf : IsPlainPath f)
    (hg : IsPlainPath g) (hfg : ¬f ++ ['/'] <+: g) (hgf : ¬g ++ ['/'] <+: f)
    (hs : ['.', '/'] <+: s) (ht : ['.', '/'] <+: t) (hsup : dotDot ∉ segments s)
    (htup : dotDot ∉ segments t) :
  packageKey f s = packageKey g t
    ↔ f = g ∧ (segments s).filter (· ≠ ['.']) = (segments t).filter (· ≠ ['.'])
  := by
  have hfs := splitOn_packageKey hf (Specifier.isRelative_of_prefix hs) hsup
  have hgt := splitOn_packageKey hg (Specifier.isRelative_of_prefix ht) htup
  constructor
  · intro hkey
    rw [hkey, hgt] at hfs
    -- one list of segments begins with those of both files, so those of the one begin those of the other
    have hprefix := List.prefix_append (Text.splitOn '/' f) ((segments s).filter (· ≠ ['.']))
    rw [← hfs] at hprefix
    have hfile : f = g := by
      obtain hle | hle := List.prefix_or_prefix_of_prefix hprefix (List.prefix_append _ _)
      · apply (Text.eq_or_append_prefix_of_splitOn_prefix hle).resolve_right hfg
      · apply ((Text.eq_or_append_prefix_of_splitOn_prefix hle).resolve_right hgf).symm
    subst hfile
    exact ⟨rfl, (List.append_cancel_left hfs).symm⟩
  · rintro ⟨rfl, hsame⟩
    apply Text.splitOn_injective '/'
    rw [hfs, hgt, hsame]

/-- Two spellings of one specifier, by dots and by slashes, share their key below a file. -/
theorem packageKey_eq_packageKey_respelt :
  IsPlainPath "a/b.js".toList ∧ (¬"a/b.js/".toList <+: "a/b.js".toList)
    ∧ ['.', '/'] <+: "./x//./y".toList ∧ ['.', '/'] <+: ".//x/y/.".toList
    ∧ dotDot ∉ segments "./x//./y".toList ∧ dotDot ∉ segments ".//x/y/.".toList
    ∧ packageKey "a/b.js".toList "./x//./y".toList = packageKey "a/b.js".toList ".//x/y/.".toList
  := by
  have hf : IsPlainPath "a/b.js".toList := by decide
  have hff : ¬"a/b.js/".toList <+: "a/b.js".toList := by decide
  have hs : ['.', '/'] <+: "./x//./y".toList := by decide
  have ht : ['.', '/'] <+: ".//x/y/.".toList := by decide
  have hsup : dotDot ∉ segments "./x//./y".toList := by decide
  have htup : dotDot ∉ segments ".//x/y/.".toList := by decide
  have hsame := packageKey_eq_packageKey_iff_of_descending hf hf hff hff hs ht hsup htup
  exact ⟨hf, hff, hs, ht, hsup, htup, hsame.mpr ⟨rfl, by decide⟩⟩

end ImportCensus
