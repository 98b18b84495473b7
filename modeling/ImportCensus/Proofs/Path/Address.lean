import ImportCensus.Proofs.Path.Following

/-!
# Addresses

The address of a path is what its normal form from the root of the tree is made of.  It is told from the
path without a look at the tree, and yet it says where the path leads: the names on the way to a place are
the address of every path that leads there.  A tree without links holds each place in one way only, so two
paths that lead anywhere lead to one place exactly where they have one address.
-/

namespace ImportCensus

/-! ### Proper trees -/

/-- A text that a directory may hold a node under. -/
structure Path.IsName (name : Text) : Prop where
  isPlain : Path.IsPlain name
  slash_notMem : '/' ∉ name
  holdsNul_eq : Path.holdsNul name = false

instance : DecidablePred Path.IsName :=
  fun name => decidable_of_iff (Path.IsPlain name ∧ '/' ∉ name ∧ Path.holdsNul name = false)
    ⟨fun h => ⟨h.1, h.2.1, h.2.2⟩, fun h => ⟨h.isPlain, h.slash_notMem, h.holdsNul_eq⟩⟩

/-- A tree in which every node has a proper name. -/
inductive Node.IsProper : Node → Prop where
  | file (bytes : List UInt8) :
    IsProper (.file bytes)
  | directory {children : List (Text × Node)} (hname : ∀ child ∈ children, Path.IsName child.1)
      (hnode : ∀ child ∈ children, IsProper child.2) :
    IsProper (.directory children)

theorem Node.IsProper.isName {node : Node} (h : node.IsProper) {child : Text × Node}
    (hchild : child ∈ node.children) :
  Path.IsName child.1
  := by
  cases h with
  | file => cases hchild
  | directory hname => exact hname child hchild

theorem Node.IsProper.of_mem {node : Node} (h : node.IsProper) {child : Text × Node}
    (hchild : child ∈ node.children) :
  child.2.IsProper
  := by
  cases h with
  | file => cases hchild
  | directory _ hnode => exact hnode child hchild

namespace Place

/-- A place in a proper tree. -/
structure IsProper (p : Place) : Prop where
  node : p.node.IsProper
  above : ∀ entry ∈ p.above, entry.2.IsProper

variable {p q here : Place} {segment : Text} {segments : List Text}

theorem isProper_root {node : Node} (h : node.IsProper) :
  IsProper ⟨node, []⟩
  := ⟨h, fun _ hentry => nomatch hentry⟩

theorem IsProper.parent (h : p.IsProper) :
  p.parent.IsProper
  := by
  obtain ⟨node, above⟩ := p
  cases above with
  | nil => exact h
  | cons entry above =>
    exact ⟨h.above entry List.mem_cons_self, fun e he => h.above e (List.mem_cons_of_mem _ he)⟩

theorem IsProper.child (h : p.IsProper) {child : Text × Node} (hchild : child ∈ p.node.children) :
  IsProper ⟨child.2, (child.1, p.node) :: p.above⟩
  := by
  refine ⟨h.node.of_mem hchild, ?_⟩
  rw [List.forall_mem_cons]
  exact ⟨h.node, h.above⟩

theorem IsProper.root (h : p.IsProper) :
  p.root.IsProper
  := by
  apply isProper_root
  cases hlast : p.above.getLast? with
  | none => exact h.node
  | some entry => exact h.above entry (List.mem_of_getLast? hlast)

/-! ### Steps in a proper tree -/

/-- A step that does not stay or go up leads to a node of the directory. -/
theorem exists_child_of_step (h : p.step segment = .ok q) (hdot : segment ≠ ['.'])
    (hup : segment ≠ Path.dotDot) :
  ∃ node, (segment, node) ∈ p.node.children ∧ q = ⟨node, (segment, p.node) :: p.above⟩
  := by
  rw [Path.dotDot] at hup
  simp only [step, if_neg hdot, if_neg hup] at h
  split at h
  · cases h
  split at h
  · cases h
  split at h
  · rename_i place hplace
    cases h
    obtain ⟨child, hchild, he⟩ := List.mem_map.mp (Table.mem_of_lookup_eq_some hplace)
    cases he
    exact ⟨child.2, hchild, rfl⟩
  · cases h

/-- A step is dots or a name. -/
theorem isName_of_step (hp : p.IsProper) (h : p.step segment = .ok q) (hdot : segment ≠ ['.'])
    (hup : segment ≠ Path.dotDot) :
  Path.IsName segment
  := by
  obtain ⟨node, hchild, -⟩ := exists_child_of_step h hdot hup
  exact hp.node.isName hchild

/-- A step leads from a proper place to a proper one. -/
theorem isProper_of_step (hp : p.IsProper) (h : p.step segment = .ok q) :
  q.IsProper
  := by
  by_cases hdot : segment = ['.']
  · obtain ⟨-, rfl⟩ | ⟨hup, -⟩ | ⟨hne, -⟩ := step_eq_ok h
    · exact hp
    · cases hdot.symm.trans hup
    · exact absurd hdot hne
  by_cases hup : segment = Path.dotDot
  · obtain ⟨hsame, -⟩ | ⟨-, rfl⟩ | ⟨-, hne, -⟩ := step_eq_ok h
    · exact absurd hsame hdot
    · exact hp.parent
    · exact absurd hup hne
  · obtain ⟨node, hchild, rfl⟩ := exists_child_of_step h hdot hup
    exact hp.child hchild

/-- A walk leads from a proper place to a proper one. -/
theorem isProper_of_walk (hp : p.IsProper) (h : segments.foldlM step p = .ok q) :
  q.IsProper
  := by
  induction segments generalizing p with
  | nil =>
    cases h
    exact hp
  | cons segment segments ih =>
    obtain ⟨next, hstep, hrest⟩ := exists_of_walk_cons h
    exact ih (isProper_of_step hp hstep) hrest

/-- A path leads from a proper place to a proper one. -/
theorem isProper_of_follow {path : Text} (hp : p.IsProper) (h : p.follow path = .ok q) :
  q.IsProper
  := by
  obtain ⟨-, -, hwalk, -⟩ := follow_eq_ok_iff.mp h
  refine isProper_of_walk ?_ hwalk
  rw [startOf]
  split
  · exact hp.root
  · exact hp

/-- In a proper tree a step leads to an anchored place, whatever the step is. -/
theorem IsAnchored.of_step (ha : p.IsAnchored) (hp : p.IsProper) (h : p.step segment = .ok q) :
  q.IsAnchored
  := by
  by_cases hdot : segment = ['.']
  · exact isAnchored_of_step ha h (by simp [hdot]) (by simp [hdot]) (by rw [hdot]; rfl)
  by_cases hup : segment = Path.dotDot
  · exact isAnchored_of_step ha h (by simp [hup, Path.dotDot]) (by simp [hup, Path.dotDot])
      (by rw [hup]; rfl)
  · have hname := isName_of_step hp h hdot hup
    exact isAnchored_of_step ha h hname.isPlain.1 hname.slash_notMem hname.holdsNul_eq

/-- A step does to the names on the way what one more segment does to a normal path. -/
theorem reverse_names_of_step (ha : p.IsAnchored) (hp : p.IsProper) (h : p.step segment = .ok q) :
  q.names.reverse = Path.push true p.names.reverse segment
  := by
  obtain ⟨rfl, rfl⟩ | ⟨rfl, rfl⟩ | ⟨hdot, hup, habove⟩ := step_eq_ok h
  · rw [Path.push_of_idle (.inr rfl)]
  · obtain ⟨node, above⟩ := p
    cases above with
    | nil => rfl
    | cons entry above =>
      have hnames : names ⟨node, entry :: above⟩ = names ⟨entry.2, above⟩ ++ [entry.1] :=
        names_of_above rfl
      have hentry : entry.1 ≠ Path.dotDot := by
        refine (ha.isPlain_name entry.1 ?_).2.2
        rw [hnames]
        exact List.mem_append_right _ List.mem_cons_self
      rw [hnames, List.reverse_append, List.reverse_singleton, List.singleton_append,
        Path.push_dotDot_cons hentry]
      rfl
  · have hname := isName_of_step hp h hdot hup
    rw [names_of_above habove, List.reverse_append, Path.push_of_isPlain hname.isPlain]
    rfl

/-- A step stays in its tree. -/
theorem root_of_step (h : p.step segment = .ok q) :
  q.root = p.root
  := by
  obtain ⟨-, rfl⟩ | ⟨-, rfl⟩ | ⟨-, -, habove⟩ := step_eq_ok h
  · rfl
  · exact root_parent p
  · exact root_of_above habove

/-! ### Walks in a proper tree -/

/-- What a walk in a proper tree comes to. -/
structure Arrives (p : Place) (segments : List Text) (q : Place) : Prop where
  isAnchored : q.IsAnchored
  root_eq : q.root = p.root
  reverse_names : q.names.reverse = segments.foldl (Path.push true) p.names.reverse

/-- A walk arrives at the names that its segments leave. -/
theorem arrives_of_walk (ha : p.IsAnchored) (hp : p.IsProper)
    (h : segments.foldlM step p = .ok q) :
  Arrives p segments q
  := by
  induction segments generalizing p with
  | nil =>
    cases h
    exact ⟨ha, rfl, rfl⟩
  | cons segment segments ih =>
    obtain ⟨next, hstep, hrest⟩ := exists_of_walk_cons h
    have hnext := ih (ha.of_step hp hstep) (isProper_of_step hp hstep) hrest
    refine ⟨hnext.isAnchored, hnext.root_eq.trans (root_of_step hstep), ?_⟩
    rw [hnext.reverse_names, reverse_names_of_step ha hp hstep, List.foldl_cons]

end Place

/-- The normal segments of a path, read from the segments that are not empty. -/
theorem Path.normalSegments_eq (path : Text) :
  normalSegments path = ((segments path).foldl (push (isAbsolute path)) []).reverse
  := by
  rw [normalSegments, segments, List.foldl_filter]
  congr 1
  apply List.foldl_ext
  intro pushed segment _
  split
  · rfl
  · rename_i hempty
    apply push_of_idle (.inl _)
    simpa using hempty

namespace Place

variable {p q here : Place} {path path' : Text}

/-- The names on the way to where a path leads, told from the path. -/
def address (here : Place) (path : Text) : List Text :=
  Path.normalSegments (Path.join here.path path)

/-- Every segment of a path from the root of the tree is pushed on the address. -/
theorem address_eq (here : Place) (path : Text) :
  here.address path = ((Path.segments (Path.join here.path path)).foldl (Path.push true) []).reverse
  := by
  have habs : Path.isAbsolute (Path.join here.path path) = true := by
    cases hpath : Path.isAbsolute path with
    | true => rw [Path.join_of_isAbsolute hpath, hpath]
    | false => exact Path.isAbsolute_join hpath (List.cons_ne_nil _ _)
  rw [address, Path.normalSegments_eq, habs]

/-- The names on the way to where a path leads are the address of the path. -/
theorem arrives_of_follow (ha : here.IsAnchored) (hp : here.IsProper)
    (h : here.follow path = .ok q) :
  q.IsAnchored ∧ q.root = here.root ∧ q.names = here.address path
  := by
  obtain ⟨-, -, hwalk, -⟩ := follow_eq_ok_iff.mp h
  cases habs : Path.isAbsolute path with
  | true =>
    rw [startOf, if_pos habs] at hwalk
    have harrives := arrives_of_walk (isAnchored_root _) hp.root hwalk
    refine ⟨harrives.isAnchored, harrives.root_eq, ?_⟩
    rw [address_eq, Path.join_of_isAbsolute habs, ← List.reverse_reverse q.names,
      harrives.reverse_names]
    rfl
  | false =>
    rw [startOf, if_neg (by simp [habs])] at hwalk
    have harrives := arrives_of_walk ha hp hwalk
    refine ⟨harrives.isAnchored, harrives.root_eq, ?_⟩
    rw [address_eq, Path.segments_join habs, ha.segments_path,
      List.foldl_append, Path.foldl_push_of_forall_isPlain ha.isPlain_name, List.append_nil,
      ← harrives.reverse_names, List.reverse_reverse]

/-- A place is told by the names on the way to it. -/
theorem eq_of_names (hp : p.IsAnchored) (hq : q.IsAnchored) (hroot : p.root = q.root)
    (hnames : p.names = q.names) :
  p = q
  := by
  have hwalk := hp.walk_names
  rw [hroot, hnames, hq.walk_names] at hwalk
  exact (Except.ok.inj hwalk).symm

/-- Two paths lead to one place exactly where they have one address. -/
theorem follow_eq_follow_iff (ha : here.IsAnchored) (hp : here.IsProper)
    (h : here.follow path = .ok p) (h' : here.follow path' = .ok q) :
  here.follow path = here.follow path' ↔ here.address path = here.address path'
  := by
  obtain ⟨hanchored, hroot, hnames⟩ := arrives_of_follow ha hp h
  obtain ⟨hanchored', hroot', hnames'⟩ := arrives_of_follow ha hp h'
  rw [h, h', ← hnames, ← hnames', Except.ok.injEq]
  constructor
  · intro hsame
    rw [hsame]
  · exact eq_of_names hanchored hanchored' (hroot.trans hroot'.symm)

end Place

end ImportCensus
