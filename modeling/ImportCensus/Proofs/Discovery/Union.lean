import Mathlib.Data.List.Permutation
import Mathlib.Data.List.ReduceOption
import ImportCensus.Discovery
import ImportCensus.Proofs.Sequence

/-!
# Discovery as an ordered union

Where nothing is refused, the patterns that add files list what they find one after the other, and those
that take files away spare some of the list.  What is chosen is the spared part of the list without its
repetitions.  So a pattern that takes files away takes them from the whole choice, wherever it stands, and
more patterns put their files behind those that are there already.
-/

namespace ImportCensus.Discovery

/-- Whether a pattern takes files away. -/
def isExclusion (pattern : Text) : Bool :=
  pattern.head? == some '!'

/-! ### Patterns one after the other -/

section

variable {ps qs : List Text}

theorem includes_append :
  includes (ps ++ qs) = includes ps ++ includes qs
  := List.filter_append ps qs

theorem exclusions_append :
  exclusions (ps ++ qs) = exclusions ps ++ exclusions qs
  := by
  rw [exclusions, List.filter_append, List.map_append]
  rfl

/-- Patterns that take files away add none. -/
theorem includes_filter_isExclusion :
  includes (ps.filter isExclusion) = []
  := by
  rw [includes, List.filter_filter, List.filter_eq_nil_iff]
  intro pattern _
  simp [isExclusion]

/-- Only patterns with a mark exclude. -/
theorem exclusions_filter_isExclusion :
  exclusions (ps.filter isExclusion) = exclusions ps
  := by
  have hsame : (ps.filter isExclusion).filter isExclusion = ps.filter isExclusion :=
    List.filter_eq_self.mpr fun _ hpattern => (List.mem_filter.mp hpattern).2
  exact congrArg (List.map fun pattern => Path.withoutDotSlash (pattern.drop 1)) hsame

theorem exclusions_eq_nil (h : ∀ pattern ∈ ps, isExclusion pattern = false) :
  exclusions ps = []
  := by
  rw [exclusions, List.map_eq_nil_iff, List.filter_eq_nil_iff]
  exact fun pattern hpattern => Bool.eq_false_iff.mp (h pattern hpattern)

end

/-! ### Surroundings without refusals -/

/-- Surroundings in which nothing is refused. -/
def Surroundings.sure {ε : Type} (find : Text → List Text) (isFile : Text → Bool)
    (isMeant : Text → Text → Bool) : Surroundings ε where
  find pattern := .ok (find pattern)
  isFile := isFile
  isMeant exclusion path := .ok (isMeant exclusion path)

section

variable {ε : Type} (find : Text → List Text) (isFile : Text → Bool) (isMeant : Text → Text → Bool)

/-- The paths of the files that a list of patterns finds, with repetitions. -/
def listing (patterns : List Text) : List Text :=
  (includes patterns).flatMap fun pattern =>
    ((Text.sorted (find pattern)).filter isFile).map Path.withoutDotSlash

/-- Whether no exclusion means a path. -/
def isSpared (exclusions : List Text) (path : Text) : Bool :=
  !exclusions.any fun exclusion => isMeant exclusion path

/-- The paths of a listing that are spared, each once. -/
def choice (patterns : List Text) (exclude : Option Text) : List Text :=
  ((listing find isFile patterns).filter
    (isSpared isMeant (allExclusions patterns exclude))).eraseDups

/-- What is found is listed, if it is a file and no exclusion means it. -/
theorem listed?_sure (exclusions : List Text) (found : Text) :
  listed? (.sure (ε := ε) find isFile isMeant) exclusions found
    = .ok (if isFile found then
        Option.guard (isSpared isMeant exclusions) (Path.withoutDotSlash found) else none)
  := by
  have hexcluded (path : Text) : isExcluded (.sure (ε := ε) find isFile isMeant) exclusions path
      = .ok (exclusions.any fun exclusion => isMeant exclusion path) := List.anyM_pure
  rw [listed?]
  cases hfile : isFile found with
  | false => simp [Surroundings.sure, hfile, pure, Except.pure]
  | true =>
    simp only [Surroundings.sure] at hexcluded ⊢
    simp only [hfile, if_true, hexcluded, bind, Except.bind]
    cases hany : exclusions.any fun exclusion => isMeant exclusion (Path.withoutDotSlash found) with
    | false => simp [isSpared, hany, pure, Except.pure, Option.guard]
    | true => simp [isSpared, hany, pure, Except.pure, Option.guard]

/-- A pattern adds the files that it finds in order, without those that an exclusion means. -/
theorem added_sure (exclusions : List Text) (pattern : Text) :
  added (.sure (ε := ε) find isFile isMeant) exclusions pattern
    = .ok ((((Text.sorted (find pattern)).filter isFile).map Path.withoutDotSlash).filter
        (isSpared isMeant exclusions))
  := by
  have hlisted : listed? (.sure (ε := ε) find isFile isMeant) exclusions = fun found =>
      pure (if isFile found then
        Option.guard (isSpared isMeant exclusions) (Path.withoutDotSlash found) else none) := by
    funext found
    apply listed?_sure
  have hfound : (Surroundings.sure (ε := ε) find isFile isMeant).find pattern = pure (find pattern) :=
    rfl
  rw [added, hlisted, hfound, pure_bind, List.mapM_pure, pure_bind]
  apply congrArg Except.ok
  rw [List.reduceOption, List.filterMap_map, ← List.filterMap_eq_filter, ← List.filterMap_eq_map,
    List.filterMap_filterMap, List.filterMap_filter]
  rfl

/-- What is chosen are the spared paths of the listing, each once. -/
theorem resolve_sure (patterns : List Text) (exclude : Option Text) :
  resolve (.sure (ε := ε) find isFile isMeant) patterns exclude
    = .ok (choice find isFile isMeant patterns exclude)
  := by
  have hadded : added (.sure (ε := ε) find isFile isMeant) (allExclusions patterns exclude)
      = fun pattern => pure ((((Text.sorted (find pattern)).filter isFile).map
          Path.withoutDotSlash).filter (isSpared isMeant (allExclusions patterns exclude))) := by
    funext pattern
    apply added_sure
  rw [resolve, hadded, List.mapM_pure, pure_bind, choice, listing, List.filter_flatMap]
  rfl

variable {find isFile isMeant} {ps qs : List Text} {exclude : Option Text}

/-- A path is listed where a pattern that adds files finds it, possibly under another spelling. -/
theorem mem_listing {path : Text} :
  path ∈ listing find isFile ps
    ↔ ∃ pattern ∈ ps, pattern.head? ≠ some '!'
        ∧ ∃ found ∈ find pattern, isFile found = true ∧ Path.withoutDotSlash found = path
  := by
  simp [listing, includes, Text.sorted, and_assoc]

/-- The exclusions among the patterns, without their marks. -/
theorem mem_exclusions {exclusion : Text} :
  exclusion ∈ exclusions ps ↔ ∃ e, '!' :: e ∈ ps ∧ Path.withoutDotSlash e = exclusion
  := by
  rw [exclusions, List.mem_map]
  constructor
  · rintro ⟨pattern, hpattern, rfl⟩
    obtain ⟨hmem, hmark⟩ := List.mem_filter.mp hpattern
    obtain ⟨e, rfl⟩ := List.head?_eq_some_iff.mp (beq_iff_eq.mp hmark)
    exact ⟨e, hmem, rfl⟩
  · rintro ⟨e, hmem, rfl⟩
    exact ⟨'!' :: e, List.mem_filter.mpr ⟨hmem, rfl⟩, rfl⟩

/-- The pattern that is given apart is an exclusion unless it is empty; of its marks none is read. -/
theorem mem_exclusion? {exclusion : Text} :
  exclusion ∈ (exclusion? exclude).toList
    ↔ ∃ glob, exclude = some glob ∧ glob ≠ [] ∧ Path.withoutDotSlash (glob.dropWhile (· == '!')) = exclusion
  := by
  rw [Option.mem_toList]
  cases exclude with
  | none => simp [exclusion?]
  | some glob =>
    cases glob with
    | nil => simp [exclusion?]
    | cons c rest => simp [exclusion?]

/-- A path is spared where neither a pattern with a mark nor the one that is given apart means it. -/
theorem isSpared_iff {path : Text} :
  isSpared isMeant (allExclusions ps exclude) path = true
    ↔ (∀ e, '!' :: e ∈ ps → isMeant (Path.withoutDotSlash e) path = false)
      ∧ ∀ glob, exclude = some glob → glob ≠ [] →
          isMeant (Path.withoutDotSlash (glob.dropWhile (· == '!'))) path = false
  := by
  rw [isSpared, Bool.not_eq_true', List.any_eq_false, allExclusions]
  simp only [List.mem_append, Bool.not_eq_true]
  constructor
  · intro h
    constructor
    · exact fun e he => h _ (.inl (mem_exclusions.mpr ⟨e, he, rfl⟩))
    · exact fun glob hglob hne => h _ (.inr (mem_exclusion?.mpr ⟨glob, hglob, hne, rfl⟩))
  · rintro ⟨hmarked, hglob⟩ exclusion (h | h)
    · obtain ⟨e, he, rfl⟩ := mem_exclusions.mp h
      exact hmarked e he
    · obtain ⟨glob, rfl, hne, rfl⟩ := mem_exclusion?.mp h
      exact hglob glob rfl hne

/-- What is chosen is what is listed and spared. -/
theorem mem_choice {path : Text} :
  path ∈ choice find isFile isMeant ps exclude
    ↔ path ∈ listing find isFile ps ∧ isSpared isMeant (allExclusions ps exclude) path = true
  := by
  rw [choice, List.mem_eraseDups, List.mem_filter]

/-- One more exclusion takes its paths from the whole choice, wherever it stands. -/
theorem choice_exclusion (e : Text) :
  choice find isFile isMeant (ps ++ ('!' :: e) :: qs) exclude
    = (choice find isFile isMeant (ps ++ qs) exclude).filter fun path =>
        !isMeant (Path.withoutDotSlash e) path
  := by
  have hincludes : includes (ps ++ ('!' :: e) :: qs) = includes (ps ++ qs) := by
    rw [includes_append, includes_append]
    rfl
  have hexclusions : exclusions (ps ++ ('!' :: e) :: qs)
      = exclusions ps ++ Path.withoutDotSlash e :: exclusions qs := exclusions_append
  rw [choice, choice, listing, hincludes, ← eraseDups_filter, List.filter_filter]
  congr 2
  funext path
  simp only [isSpared, allExclusions, hexclusions, exclusions_append, List.any_append, List.any_cons]
  generalize isMeant (Path.withoutDotSlash e) path = meant
  cases meant with
  | false => simp
  | true => simp

/-- More patterns that add files put those that are new behind the others. -/
theorem choice_append (h : ∀ pattern ∈ qs, isExclusion pattern = false) :
  choice find isFile isMeant (ps ++ qs) exclude
    = choice find isFile isMeant ps exclude
      ++ (choice find isFile isMeant (ps.filter isExclusion ++ qs) exclude).filter fun path =>
          path ∉ choice find isFile isMeant ps exclude
  := by
  have hwhole : allExclusions (ps ++ qs) exclude = allExclusions ps exclude := by
    rw [allExclusions, allExclusions, exclusions_append, exclusions_eq_nil h, List.append_nil]
  have hlater : allExclusions (ps.filter isExclusion ++ qs) exclude = allExclusions ps exclude := by
    rw [allExclusions, allExclusions, exclusions_append, exclusions_filter_isExclusion,
      exclusions_eq_nil h, List.append_nil]
  have hlisting : listing find isFile (ps.filter isExclusion ++ qs) = listing find isFile qs := by
    rw [listing, includes_append, includes_filter_isExclusion]
    rfl
  have hboth : listing find isFile (ps ++ qs) = listing find isFile ps ++ listing find isFile qs := by
    rw [listing, includes_append, List.flatMap_append]
    rfl
  rw [choice, hwhole, hboth, List.filter_append, eraseDups_append_eq_filter]
  simp only [choice, hlater, hlisting]
  -- membership is decided in two ways
  congr

end

/-- A discovery is an ordered union filtered by its exclusions.  Where nothing is refused it chooses, none of
them twice, the paths of the files that the patterns without a mark find and that no exclusion means: neither
a pattern behind an exclamation mark nor the one that is given apart, which is read without its marks and
takes nothing away where it is empty.  A pattern that takes files away, wherever it stands, takes what it means
from what the others choose.  Patterns that add files put behind what the patterns before them choose those of
their own files that are new; to be chosen they must be spared by the exclusions before them. -/
theorem exists_choice {ε : Type} (find : Text → List Text) (isFile : Text → Bool)
    (isMeant : Text → Text → Bool) (exclude : Option Text) :
  ∃ chosen : List Text → List Text,
    (∀ patterns, resolve (.sure (ε := ε) find isFile isMeant) patterns exclude = .ok (chosen patterns))
    ∧ (∀ patterns, (chosen patterns).Nodup ∧ ∀ path, path ∈ chosen patterns ↔
        (∃ pattern ∈ patterns, pattern.head? ≠ some '!'
          ∧ ∃ found ∈ find pattern, isFile found = true ∧ Path.withoutDotSlash found = path)
        ∧ (∀ e, '!' :: e ∈ patterns → isMeant (Path.withoutDotSlash e) path = false)
        ∧ ∀ glob, exclude = some glob → glob ≠ [] →
            isMeant (Path.withoutDotSlash (glob.dropWhile (· == '!'))) path = false)
    ∧ (∀ ps qs e, chosen (ps ++ ('!' :: e) :: qs)
        = (chosen (ps ++ qs)).filter fun path => !isMeant (Path.withoutDotSlash e) path)
    ∧ ∀ ps qs, (∀ pattern ∈ qs, isExclusion pattern = false) →
        chosen (ps ++ qs) = chosen ps
          ++ (chosen (ps.filter isExclusion ++ qs)).filter fun path => path ∉ chosen ps
  := by
  refine ⟨fun patterns => choice find isFile isMeant patterns exclude, ?_, ?_, ?_, ?_⟩
  · exact fun patterns => resolve_sure find isFile isMeant patterns exclude
  · intro patterns
    refine ⟨nodup_eraseDups _, fun path => ?_⟩
    rw [mem_choice, mem_listing, isSpared_iff]
  · exact fun ps qs e => choice_exclusion e
  · exact fun ps qs h => choice_append h

/-- An exclusion between two patterns, the first of which finds one file under two spellings and the
second of which finds a file of the first, one that the exclusion means and one that the pattern given
apart means. -/
theorem exists_choice_interleaved :
  let find : Text → List Text := fun pattern =>
    if pattern = ['*'] then [['b'], ['a'], ['.', '/', 'b']] else [['e'], ['d'], ['c'], ['a']]
  let isFile : Text → Bool := fun _ => true
  let isMeant : Text → Text → Bool := fun exclusion path => exclusion == path
  let exclude : Option Text := some ['!', '.', '/', 'd']
  ∃ chosen : List Text → List Text,
    (∀ patterns, resolve (.sure (ε := Empty) find isFile isMeant) patterns exclude = .ok (chosen patterns))
    ∧ chosen [['*'], ['!', '.', '/', 'c'], ['?']] = [['b'], ['a'], ['e']]
    ∧ (∀ patterns, ∀ path ∈ chosen patterns, isMeant ['d'] path = false)
    ∧ chosen [['*'], ['!', '.', '/', 'c'], ['?']]
      = (chosen [['*'], ['?']]).filter (fun path => !isMeant ['c'] path)
    ∧ (∀ pattern ∈ [['?']], isExclusion pattern = false)
    ∧ chosen [['*'], ['!', '.', '/', 'c'], ['?']]
      = chosen [['*'], ['!', '.', '/', 'c']]
        ++ (chosen [['!', '.', '/', 'c'], ['?']]).filter
          fun path => path ∉ chosen [['*'], ['!', '.', '/', 'c']]
  := by
  intro find isFile isMeant exclude
  obtain ⟨chosen, hresolve, hmem, hexclusion, happend⟩ :=
    exists_choice (ε := Empty) find isFile isMeant exclude
  have hnone : ∀ pattern ∈ [['?']], isExclusion pattern = false := by decide
  have hchosen := hresolve [['*'], ['!', '.', '/', 'c'], ['?']]
  have hvalue : resolve (.sure (ε := Empty) find isFile isMeant)
      [['*'], ['!', '.', '/', 'c'], ['?']] exclude = .ok [['b'], ['a'], ['e']] := by cbv
  rw [hvalue, Except.ok.injEq] at hchosen
  have hapart : ∀ patterns, ∀ path ∈ chosen patterns, isMeant ['d'] path = false :=
    fun patterns path hpath => (((hmem patterns).2 path).mp hpath).2.2 _ rfl (by decide)
  exact ⟨chosen, hresolve, hchosen.symm, hapart, hexclusion [['*']] [['?']] ['.', '/', 'c'], hnone,
    happend [['*'], ['!', '.', '/', 'c']] [['?']] hnone⟩

end ImportCensus.Discovery
