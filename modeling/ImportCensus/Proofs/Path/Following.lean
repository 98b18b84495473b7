import ImportCensus.FileTree
import ImportCensus.Proofs.Path.Normal
import ImportCensus.Proofs.Sequence

/-!
# Following paths

A path behind another one is followed from the place that the other one leads to.  So two paths to one
directory lead to the same places below it, as long as none of the paths is too long to be asked for.
Every place that has been reached is led to by the names on the way to it, none of which is dots; so a
path that takes nothing back leads where its normal form from the root of the tree leads.
-/

namespace ImportCensus

namespace Path

variable {path parent child : Text}

/-! ### Segments -/

/-- The segments around a slash are those in front of it and those behind it. -/
theorem segments_append (before behind : Text) :
  segments (before ++ '/' :: behind) = segments before ++ segments behind
  := by
  rw [segments, Text.splitOn_append, List.filter_append]
  rfl

theorem segments_replicate_append (n : Nat) (path : Text) :
  segments (List.replicate n '/' ++ path) = segments path
  := by
  induction n with
  | zero => rfl
  | succ n ih =>
    rw [List.replicate_succ, List.cons_append, ← List.nil_append ('/' :: _), segments_append, ih]
    rfl

/-- Nothing but the empty segments is lost where segments are written with slashes between them. -/
theorem segments_join_slash {names : List Text} (h : ∀ name ∈ names, '/' ∉ name ∧ name ≠ []) :
  segments (Text.join ['/'] names) = names
  := by
  by_cases hnil : names = []
  · rw [hnil]
    rfl
  · rw [segments, Text.splitOn_join (fun name hname => (h name hname).1) hnil, List.filter_eq_self]
    intro name hname
    simpa using (h name hname).2

/-- A segment holds no slash, and some character. -/
theorem notMem_of_mem_segments {segment : Text} (h : segment ∈ segments path) :
  '/' ∉ segment ∧ segment ≠ []
  := by
  obtain ⟨hsplit, hne⟩ := List.mem_filter.mp h
  exact ⟨Text.notMem_of_mem_splitOn hsplit, by simpa using hne⟩

/-- A NUL stands in one of the segments. -/
theorem holdsNul_eq_any (path : Text) :
  holdsNul path = (segments path).any holdsNul
  := by
  rw [segments, List.any_filter]
  induction path with
  | nil => rfl
  | cons c rest ih =>
    have hcons (text : Text) : holdsNul (c :: text) = (decide ('\x00' = c) || holdsNul text) := by
      simp [holdsNul]
    rw [hcons, ih, Text.splitOn]
    split
    · rename_i hslash
      subst hslash
      rfl
    · split
      · rename_i hnone
        simp [hnone, holdsNul]
      · rename_i part parts hparts
        cases part <;> simp [hparts, holdsNul, Bool.or_assoc]

/-! ### One path behind another -/

/-- A path as it stands before another one. -/
def stem (parent : Text) : Text :=
  if parent.isEmpty || endsWithSlash parent then parent else parent ++ ['/']

/-- A rooted child is joined to no parent. -/
theorem join_of_isAbsolute (h : isAbsolute child = true) :
  join parent child = child
  := by
  rw [join, if_pos h]

/-- A relative child is joined behind the slash of its parent. -/
theorem join_eq_stem_append (h : isAbsolute child = false) :
  join parent child = stem parent ++ child
  := by
  rw [join, if_neg (by simp [h]), stem]
  split
  · rfl
  · simp

/-- The segments of a joined path are those of the parent and those of the child. -/
theorem segments_join (h : isAbsolute child = false) :
  segments (join parent child) = segments parent ++ segments child
  := by
  rw [join, if_neg (by simp [h])]
  split
  · rename_i hend
    rw [Bool.or_eq_true] at hend
    obtain hnil | hslash := hend
    · rw [List.isEmpty_iff.mp hnil]
      rfl
    · obtain ⟨before, rfl⟩ := List.getLast?_eq_some_iff.mp (by simpa [endsWithSlash] using hslash)
      rw [List.append_assoc, List.singleton_append, segments_append, segments_append]
      simp [segments, Text.splitOn]
  · apply segments_append

/-- A joined path holds a null character where one of its parts does. -/
theorem holdsNul_join (h : isAbsolute child = false) :
  holdsNul (join parent child) = (holdsNul parent || holdsNul child)
  := by
  rw [holdsNul_eq_any, segments_join h, List.any_append, ← holdsNul_eq_any, ← holdsNul_eq_any]

/-- A joined path is rooted where its parent is. -/
theorem isAbsolute_join (h : isAbsolute child = false) (hne : parent ≠ []) :
  isAbsolute (join parent child) = isAbsolute parent
  := by
  obtain ⟨c, rest, rfl⟩ := List.exists_cons_of_ne_nil hne
  rw [join_eq_stem_append h, stem]
  by_cases hc : c = '/'
  · subst hc
    split <;> rfl
  · split <;> simp [isAbsolute, hc]

/-- A joined path ends with a slash where the child does. -/
theorem endsWithSlash_join (h : isAbsolute child = false) (hne : child ≠ []) :
  endsWithSlash (join parent child) = endsWithSlash child
  := by
  rw [join_eq_stem_append h, endsWithSlash, endsWithSlash, List.getLast?_append_of_ne_nil _ hne]

theorem join_ne_nil (hne : child ≠ []) :
  join parent child ≠ []
  := by
  cases h : isAbsolute child with
  | true =>
    rw [join_of_isAbsolute h]
    exact hne
  | false =>
    rw [join_eq_stem_append h]
    exact fun he => hne (List.append_eq_nil_iff.mp he).2

/-- A path without the dots at its start is not longer, whatever it stands behind. -/
theorem octetCount_join_withoutDotSlash_le (parent child : Text) :
  Text.octetCount (join parent (withoutDotSlash child)) ≤ Text.octetCount (join parent child)
  := by
  induction child using withoutDotSlash.induct with
  | case1 rest ih =>
    have hdots : isAbsolute ('.' :: '/' :: rest) = false := rfl
    have hsplit : '.' :: '/' :: rest = ['.', '/'] ++ rest := rfl
    have hstep : Text.octetCount (join parent rest)
        ≤ Text.octetCount (join parent ('.' :: '/' :: rest)) := by
      rw [join_eq_stem_append hdots, hsplit, Text.octetCount_append, Text.octetCount_append]
      cases h : isAbsolute rest with
      | true =>
        rw [join_of_isAbsolute h]
        omega
      | false =>
        rw [join_eq_stem_append h, Text.octetCount_append]
        omega
    rw [withoutDotSlash]
    exact Nat.le_trans ih hstep
  | case2 path h =>
    have hsame : withoutDotSlash path = path := withoutDotSlash.eq_2 path h
    apply Nat.le_of_eq
    rw [hsame]

/-! ### Normal forms of paths from the root -/

theorem rootSlashes_ne_zero (h : isAbsolute path = true) :
  rootSlashes path ≠ 0
  := by
  obtain ⟨rest, rfl⟩ : ∃ rest, path = '/' :: rest := by
    unfold isAbsolute at h
    split at h
    · exact ⟨_, rfl⟩
    · cases h
  unfold rootSlashes
  split
  · decide
  · decide
  · decide
  · rename_i hnone
    exact absurd rfl (hnone rest)

/-- A rooted path in normal form has its slashes in front and its normal segments behind them. -/
theorem normalize_of_isAbsolute (h : isAbsolute path = true) :
  normalize path
    = List.replicate (rootSlashes path) '/' ++ Text.join ['/'] (normalSegments path)
  := by
  rw [normalize]
  simp [rootSlashes_ne_zero h]

/-- A rooted path stays rooted in normal form. -/
theorem isAbsolute_normalize (h : isAbsolute path = true) :
  isAbsolute (normalize path) = true
  := by
  obtain ⟨n, hn⟩ := Nat.exists_eq_succ_of_ne_zero (rootSlashes_ne_zero h)
  rw [normalize_of_isAbsolute h, hn]
  rfl

/-- The segments of a path in normal form are its normal segments. -/
theorem segments_normalize (h : isAbsolute path = true) :
  segments (normalize path) = normalSegments path
  := by
  rw [normalize_of_isAbsolute h, segments_replicate_append, segments_join_slash]
  exact fun name hname => of_mem_normalSegments hname

end Path

namespace Place

variable {p q here : Place} {root child segment : Text} {segments : List Text}

/-! ### Steps -/

/-- A place below another one is told by its way up. -/
theorem above_of_lookup {place : Place} (h : Table.lookup segment p.below = some place) :
  place.above = (segment, p.node) :: p.above
  := by
  obtain ⟨child, -, hchild⟩ := List.mem_map.mp (Table.mem_of_lookup_eq_some h)
  cases hchild
  rfl

/-- A step stays, goes up, or goes down to the place that it names. -/
theorem step_eq_ok (h : p.step segment = .ok q) :
  (segment = ['.'] ∧ q = p) ∨ (segment = Path.dotDot ∧ q = p.parent)
    ∨ (segment ≠ ['.'] ∧ segment ≠ Path.dotDot ∧ q.above = (segment, p.node) :: p.above)
  := by
  unfold step at h
  split at h
  · cases h
  split at h
  · cases h
  split at h
  · cases h
    exact .inl ⟨‹_›, rfl⟩
  split at h
  · cases h
    exact .inr (.inl ⟨‹_›, rfl⟩)
  split at h
  · rename_i hdot hup _ child hchild
    cases h
    exact .inr (.inr ⟨hdot, hup, above_of_lookup hchild⟩)
  · cases h

/-! ### Walks -/

/-- A walk takes its first step first. -/
theorem exists_of_walk_cons (h : (segment :: segments).foldlM step p = .ok q) :
  ∃ next, p.step segment = .ok next ∧ segments.foldlM step next = .ok q
  := by
  rw [List.foldlM_cons] at h
  apply exists_of_bind_eq_ok h

/-- A walk goes on where it has arrived. -/
theorem walk_append {behind : List Text} (h : segments.foldlM step p = .ok q) :
  (segments ++ behind).foldlM step p = behind.foldlM step q
  := by
  rw [List.foldlM_append, h]
  rfl

/-- The dots can be left out of a walk. -/
theorem walk_filter_dot (h : segments.foldlM step p = .ok q) :
  (segments.filter (· ≠ ['.'])).foldlM step p = .ok q
  := by
  induction segments generalizing p with
  | nil => exact h
  | cons segment segments ih =>
    obtain ⟨next, hstep, hrest⟩ := exists_of_walk_cons h
    by_cases hdot : segment = ['.']
    · obtain ⟨-, rfl⟩ | ⟨hup, -⟩ | ⟨hne, -, -⟩ := step_eq_ok hstep
      · rw [List.filter_cons_of_neg (by simpa using hdot)]
        exact ih hrest
      · cases hdot.symm.trans hup
      · exact absurd hdot hne
    · rw [List.filter_cons_of_pos (by simpa using hdot), List.foldlM_cons, hstep]
      exact ih hrest

/-! ### Paths -/

/-- The place that a path is followed from. -/
def startOf (p : Place) (path : Text) : Place :=
  if Path.isAbsolute path then p.root else p

/-- A path beyond the limit is too long to follow. -/
theorem follow_of_long {path : Text} (hne : path ≠ []) (h : pathLimit ≤ Text.octetCount path) :
  p.follow path = .error .nameTooLong
  := by
  simp [follow, hne, h]

/-- A path that can be asked for leads where its segments lead, which is a directory where the path
ends with a slash. -/
theorem follow_of_short {path : Text} (hne : path ≠ []) (h : Text.octetCount path < pathLimit) :
  p.follow path = ((Path.segments path).foldlM step (p.startOf path)).bind fun place =>
    if Path.endsWithSlash path && !place.node.isDirectory then .error .notDirectory else .ok place
  := by
  simp only [follow, List.isEmpty_iff, hne, Nat.not_le.mpr h, if_false]
  rfl

/-- What it takes to follow a path to a place. -/
theorem follow_eq_ok_iff {path : Text} :
  p.follow path = .ok q ↔ path ≠ [] ∧ Text.octetCount path < pathLimit
    ∧ (Path.segments path).foldlM step (p.startOf path) = .ok q
    ∧ (Path.endsWithSlash path = true → q.node.isDirectory = true)
  := by
  by_cases hne : path = []
  · simp [follow, hne]
  by_cases hshort : Text.octetCount path < pathLimit
  · rw [follow_of_short hne hshort]
    cases (Path.segments path).foldlM step (p.startOf path) with
    | error e => simp [Except.bind]
    | ok place =>
      simp only [Except.bind, hshort, Except.ok.injEq]
      constructor
      · intro h
        split at h
        · cases h
        · cases h
          simp_all
      · rintro ⟨-, -, rfl, hslash⟩
        rw [if_neg]
        simpa using hslash
  · rw [follow_of_long hne (Nat.not_lt.mp hshort)]
    simp [hshort]

/-- A directory stands at a path where the path leads to one. -/
theorem exists_of_hasDirectory {path : Text} (h : p.hasDirectory path = true) :
  ∃ q, p.follow path = .ok q ∧ q.node.isDirectory = true
  := by
  rw [hasDirectory] at h
  split at h
  · rename_i place hfollow
    exact ⟨place, hfollow, h⟩
  · cases h

/-- The path of a file is within the limit. -/
theorem octetCount_lt_of_hasFile {path : Text} (h : p.hasFile path = true) :
  Text.octetCount path < pathLimit
  := by
  rw [hasFile] at h
  split at h
  · rename_i place hfollow
    exact (follow_eq_ok_iff.mp hfollow).2.1
  · cases h

/-- A path behind one that leads to a place leads where it leads from there. -/
theorem follow_join (h : p.follow root = .ok q) (hrel : Path.isAbsolute child = false)
    (hne : child ≠ []) (hshort : Text.octetCount (Path.join root child) < pathLimit) :
  p.follow (Path.join root child) = q.follow child
  := by
  obtain ⟨hroot, -, hwalk, -⟩ := follow_eq_ok_iff.mp h
  have hchild : Text.octetCount child < pathLimit := by
    rw [Path.join_eq_stem_append hrel, Text.octetCount_append] at hshort
    omega
  have hstart : p.startOf (Path.join root child) = p.startOf root := by
    rw [startOf, startOf, Path.isAbsolute_join hrel hroot]
  have hrest : q.startOf child = q := by
    rw [startOf, if_neg (by simp [hrel])]
  rw [follow_of_short (Path.join_ne_nil hne) hshort, follow_of_short hne hchild, hstart, hrest,
    Path.segments_join hrel, walk_append hwalk, Path.endsWithSlash_join hrel hne]

/-- A directory can be asked for with a slash at the end. -/
theorem follow_join_nil (h : p.follow root = .ok q) (hdir : q.node.isDirectory = true)
    (hshort : Text.octetCount (Path.join root []) < pathLimit) :
  p.follow (Path.join root []) = .ok q
  := by
  obtain ⟨hroot, -, hwalk, -⟩ := follow_eq_ok_iff.mp h
  have hrel : Path.isAbsolute [] = false := rfl
  rw [follow_eq_ok_iff, Path.segments_join hrel, startOf, Path.isAbsolute_join hrel hroot]
  refine ⟨?_, hshort, (walk_append hwalk).trans rfl, fun _ => hdir⟩
  intro hnil
  rw [Path.join_eq_stem_append hrel, List.append_nil, Path.stem] at hnil
  split at hnil
  · exact hroot hnil
  · simp at hnil

/-! ### Two paths to one directory -/

/-- Two paths that lead to one directory.  They can be asked for alike, as far as NULs go. -/
structure Meet (here : Place) (root root' : Text) (directory : Place) : Prop where
  follow_left : here.follow root = .ok directory
  follow_right : here.follow root' = .ok directory
  isDirectory : directory.node.isDirectory = true
  holdsNul_eq : Path.holdsNul root = Path.holdsNul root'

/-- A path that can be asked for behind both of two paths, or behind neither. -/
def IsAlikeBehind (root root' child : Text) : Prop :=
  Text.octetCount (Path.join root child) < pathLimit
    ↔ Text.octetCount (Path.join root' child) < pathLimit

variable {root' : Text}

instance : Decidable (IsAlikeBehind root root' child) :=
  inferInstanceAs (Decidable (_ ↔ _))

/-- What can be asked for behind both paths still can be without the dots at its start. -/
theorem IsAlikeBehind.withoutDotSlash (h : IsAlikeBehind root root' child)
    (hshort : Text.octetCount (Path.join root child) < pathLimit) :
  IsAlikeBehind root root' (Path.withoutDotSlash child)
  := by
  have hleft := Path.octetCount_join_withoutDotSlash_le root child
  have hright := Path.octetCount_join_withoutDotSlash_le root' child
  constructor
  · exact fun _ => Nat.lt_of_le_of_lt hright (h.mp hshort)
  · exact fun _ => Nat.lt_of_le_of_lt hleft hshort

/-- What stands behind two paths to one directory leads to one place. -/
theorem Meet.follow_join_eq (h : Meet here root root' q) (hlimit : IsAlikeBehind root root' child) :
  here.follow (Path.join root child) = here.follow (Path.join root' child)
  := by
  cases habs : Path.isAbsolute child with
  | true => rw [Path.join_of_isAbsolute habs, Path.join_of_isAbsolute habs]
  | false =>
    by_cases hshort : Text.octetCount (Path.join root child) < pathLimit
    · have hshort' := hlimit.mp hshort
      by_cases hne : child = []
      · subst hne
        rw [follow_join_nil h.follow_left h.isDirectory hshort,
          follow_join_nil h.follow_right h.isDirectory hshort']
      · rw [follow_join h.follow_left habs hne hshort, follow_join h.follow_right habs hne hshort']
    · -- neither path is followed at all
      have hne (root : Text) (hlong : ¬Text.octetCount (Path.join root child) < pathLimit) :
          Path.join root child ≠ [] := by
        intro hnil
        rw [hnil] at hlong
        exact hlong (by decide)
      have hshort' := mt hlimit.mpr hshort
      rw [follow_of_long (hne root hshort) (Nat.not_lt.mp hshort),
        follow_of_long (hne root' hshort') (Nat.not_lt.mp hshort')]

/-- Behind two roots that meet, a path holds a null character alike. -/
theorem Meet.holdsNul_join_eq (h : Meet here root root' q) :
  Path.holdsNul (Path.join root child) = Path.holdsNul (Path.join root' child)
  := by
  cases habs : Path.isAbsolute child with
  | true => rw [Path.join_of_isAbsolute habs, Path.join_of_isAbsolute habs]
  | false => rw [Path.holdsNul_join habs, Path.holdsNul_join habs, h.holdsNul_eq]

/-- Behind two roots that meet, a path leads to a file alike. -/
theorem Meet.hasFile_join_eq (h : Meet here root root' q) (hlimit : IsAlikeBehind root root' child) :
  here.hasFile (Path.join root child) = here.hasFile (Path.join root' child)
  := by
  rw [hasFile, hasFile, h.follow_join_eq hlimit]

/-- Behind two roots that meet, a path leads to the same bytes. -/
theorem Meet.bytesAt_join_eq (h : Meet here root root' q) (hlimit : IsAlikeBehind root root' child) :
  here.bytesAt (Path.join root child) = here.bytesAt (Path.join root' child)
  := by
  rw [bytesAt, bytesAt, h.follow_join_eq hlimit]

/-! ### Places that have been reached -/

/-- The names of a child are those above it and its own. -/
theorem names_of_above (h : q.above = (segment, p.node) :: p.above) :
  q.names = p.names ++ [segment]
  := by
  rw [names, h, List.map_cons, List.reverse_cons]
  rfl

theorem root_of_above (h : q.above = (segment, p.node) :: p.above) :
  q.root = p.root
  := by
  rw [root, root, h]
  cases hp : p.above with
  | nil => rfl
  | cons entry above =>
    rw [List.getLast?_cons_cons, List.getLast?_eq_some_getLast (List.cons_ne_nil _ _)]
    rfl

theorem root_parent (p : Place) :
  p.parent.root = p.root
  := by
  obtain ⟨node, above⟩ := p
  cases above with
  | nil => rfl
  | cons entry above => exact (root_of_above rfl).symm

/-- A place that the names on the way to it lead to.  None of them is dots, and all can be asked for. -/
structure IsAnchored (here : Place) : Prop where
  walk_names : here.names.foldlM step here.root = .ok here
  isPlain_name : ∀ name ∈ here.names, Path.IsPlain name
  slash_notMem : ∀ name ∈ here.names, '/' ∉ name
  holdsNul_name : ∀ name ∈ here.names, Path.holdsNul name = false

/-- The root of a tree is anchored. -/
theorem isAnchored_root (node : Node) :
  IsAnchored ⟨node, []⟩
  where
  walk_names := rfl
  isPlain_name _ h := nomatch h
  slash_notMem _ h := nomatch h
  holdsNul_name _ h := nomatch h

/-- The place above an anchored one is the last but one on the way. -/
theorem isAnchored_parent (h : here.IsAnchored) :
  here.parent.IsAnchored
  := by
  obtain ⟨node, above⟩ := here
  cases above with
  | nil => exact h
  | cons entry above =>
    have hnames : names ⟨node, entry :: above⟩ = names ⟨entry.2, above⟩ ++ [entry.1] :=
      names_of_above rfl
    obtain ⟨hwalk, hplain, hslash, hnul⟩ := h
    rw [hnames] at hwalk hplain hslash hnul
    refine ⟨?_, fun name hname => hplain name (List.mem_append_left _ hname),
      fun name hname => hslash name (List.mem_append_left _ hname),
      fun name hname => hnul name (List.mem_append_left _ hname)⟩
    rw [List.foldlM_append] at hwalk
    obtain ⟨last, hlast, hstep⟩ := exists_of_bind_eq_ok hwalk
    obtain ⟨place, hstep, hdone⟩ := exists_of_walk_cons hstep
    cases hdone
    have hname : Path.IsPlain entry.1 := hplain _ (List.mem_append_right _ List.mem_cons_self)
    obtain ⟨hdot, -⟩ | ⟨hup, -⟩ | ⟨-, -, habove⟩ := step_eq_ok hstep
    · exact absurd hdot hname.2.1
    · exact absurd hup hname.2.2
    · obtain ⟨name, node⟩ := entry
      obtain ⟨lastNode, lastAbove⟩ := last
      cases habove
      rw [root_parent]
      exact hlast

/-- A step from an anchored place leads to an anchored place. -/
theorem isAnchored_of_step (h : p.IsAnchored) (hstep : p.step segment = .ok q) (hne : segment ≠ [])
    (hslash : '/' ∉ segment) (hnul : Path.holdsNul segment = false) :
  q.IsAnchored
  := by
  obtain ⟨-, rfl⟩ | ⟨-, rfl⟩ | ⟨hdot, hup, habove⟩ := step_eq_ok hstep
  · exact h
  · exact isAnchored_parent h
  · have hnames := names_of_above habove
    refine ⟨?_, ?_, ?_, ?_⟩
    · rw [hnames, root_of_above habove, walk_append h.walk_names, List.foldlM_cons, hstep]
      rfl
    · rw [hnames, List.forall_mem_append, List.forall_mem_singleton]
      exact ⟨h.isPlain_name, hne, hdot, hup⟩
    · rw [hnames, List.forall_mem_append, List.forall_mem_singleton]
      exact ⟨h.slash_notMem, hslash⟩
    · rw [hnames, List.forall_mem_append, List.forall_mem_singleton]
      exact ⟨h.holdsNul_name, hnul⟩

/-- A walk from an anchored place leads to an anchored place. -/
theorem isAnchored_of_walk (h : p.IsAnchored) (hwalk : segments.foldlM step p = .ok q)
    (hplain : ∀ segment ∈ segments, segment ≠ [] ∧ '/' ∉ segment ∧ Path.holdsNul segment = false) :
  q.IsAnchored
  := by
  induction segments generalizing p with
  | nil =>
    cases hwalk
    exact h
  | cons segment segments ih =>
    rw [List.forall_mem_cons] at hplain
    obtain ⟨⟨hne, hslash, hnul⟩, hothers⟩ := hplain
    obtain ⟨next, hstep, hrest⟩ := exists_of_walk_cons hwalk
    apply ih (isAnchored_of_step h hstep hne hslash hnul) hrest hothers

/-- Whatever a path leads to from the root of a tree is anchored. -/
theorem isAnchored_of_follow {node : Node} {path : Text}
    (h : follow ⟨node, []⟩ path = .ok here) (hnul : Path.holdsNul path = false) :
  here.IsAnchored
  := by
  obtain ⟨-, -, hwalk, -⟩ := follow_eq_ok_iff.mp h
  have hstart : startOf ⟨node, []⟩ path = ⟨node, []⟩ := by
    rw [startOf]
    split
    · rfl
    · rfl
  rw [hstart] at hwalk
  apply isAnchored_of_walk (isAnchored_root node) hwalk
  intro segment hsegment
  obtain ⟨hslash, hne⟩ := Path.notMem_of_mem_segments hsegment
  rw [Path.holdsNul_eq_any, List.any_eq_false] at hnul
  exact ⟨hne, hslash, by simpa using hnul segment hsegment⟩

/-! ### The normal form of a path -/

/-- The names on the way to an anchored place are the segments of its path. -/
theorem IsAnchored.segments_path (h : here.IsAnchored) :
  Path.segments here.path = here.names
  := by
  rw [path, ← List.nil_append ('/' :: _), Path.segments_append, Path.segments_join_slash]
  · rfl
  · exact fun name hname => ⟨h.slash_notMem name hname, (h.isPlain_name name hname).1⟩

/-- The path of an anchored place holds no null character. -/
theorem IsAnchored.holdsNul_path (h : here.IsAnchored) :
  Path.holdsNul here.path = false
  := by
  rw [Path.holdsNul_eq_any, h.segments_path, List.any_eq_false]
  intro name hname
  simp [h.holdsNul_name name hname]

/-- The walk to where a path leads, from the root of the tree. -/
theorem IsAnchored.walk_join (h : here.IsAnchored) (hfollow : here.follow root = .ok q)
    (hup : Path.dotDot ∉ Path.segments root) :
  (Path.segments (Path.join here.path root)).foldlM step here.root = .ok q
    ∧ Path.dotDot ∉ Path.segments (Path.join here.path root)
    ∧ Path.isAbsolute (Path.join here.path root) = true
  := by
  obtain ⟨-, -, hwalk, -⟩ := follow_eq_ok_iff.mp hfollow
  cases habs : Path.isAbsolute root with
  | true =>
    rw [Path.join_of_isAbsolute habs]
    rw [startOf, if_pos habs] at hwalk
    exact ⟨hwalk, hup, habs⟩
  | false =>
    have hne : here.path ≠ [] := List.cons_ne_nil _ _
    rw [startOf, if_neg (by simp [habs])] at hwalk
    rw [Path.segments_join habs, Path.isAbsolute_join habs hne, h.segments_path,
      walk_append h.walk_names, List.mem_append, not_or]
    exact ⟨hwalk, ⟨fun hmem => (h.isPlain_name _ hmem).2.2 rfl, hup⟩, rfl⟩

/-- A path to a directory that takes nothing back and its normal form from the root of the tree lead
to one place, unless the normal form is too long. -/
theorem IsAnchored.meet_normalize (h : here.IsAnchored) (hfollow : here.follow root = .ok q)
    (hdir : q.node.isDirectory = true) (hup : Path.dotDot ∉ Path.segments root)
    (hshort : Text.octetCount (Path.normalize (Path.join here.path root)) < pathLimit) :
  Meet here root (Path.normalize (Path.join here.path root)) q
  := by
  obtain ⟨hwalk, hwhole, habs⟩ := h.walk_join hfollow hup
  have hsegments := Path.segments_normalize habs
  rw [Path.normalSegments_of_notMem hwhole] at hsegments
  have hnormal := Path.isAbsolute_normalize habs
  refine ⟨hfollow, ?_, hdir, ?_⟩
  · rw [follow_eq_ok_iff, hsegments, startOf, if_pos hnormal]
    refine ⟨?_, hshort, walk_filter_dot hwalk, fun _ => hdir⟩
    intro hnil
    rw [hnil] at hnormal
    cases hnormal
  · have hdots (segments : List Text) :
        (segments.filter (· ≠ ['.'])).any Path.holdsNul = segments.any Path.holdsNul := by
      rw [List.any_filter]
      congr 1
      funext segment
      by_cases hdot : segment = ['.']
      · rw [hdot]
        rfl
      · simp [hdot]
    rw [Path.holdsNul_eq_any (Path.normalize _), hsegments, hdots, ← Path.holdsNul_eq_any]
    cases hrel : Path.isAbsolute root with
    | true => rw [Path.join_of_isAbsolute hrel]
    | false => rw [Path.holdsNul_join hrel, h.holdsNul_path, Bool.false_or]

end Place

end ImportCensus
