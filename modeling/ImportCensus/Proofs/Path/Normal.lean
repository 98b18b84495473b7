import Mathlib.Data.List.Induction
import ImportCensus.Path
import ImportCensus.Proofs.Text.Parts

/-!
# Normal paths

Reading the segments of a path one after the other takes some segments back from what stood there before
and puts others behind what is left.  So a path comes to a number of climbs and a descent, and these two
tell how it goes on from a file.
-/

namespace ImportCensus

namespace Path

/-- The segment that takes back the one before it. -/
def dotDot : Text := ['.', '.']

/-- A segment that names something below the place where it stands. -/
def IsPlain (segment : Text) : Prop :=
  segment ≠ [] ∧ segment ≠ ['.'] ∧ segment ≠ dotDot

instance : DecidablePred IsPlain :=
  fun _ => inferInstanceAs (Decidable (_ ∧ _ ∧ _))

/-- A path all segments of which name something below the place where they stand. -/
def IsPlainPath (path : Text) : Prop :=
  ∀ segment ∈ Text.splitOn '/' path, IsPlain segment

instance : DecidablePred IsPlainPath :=
  fun _ => inferInstanceAs (Decidable (∀ _ ∈ _, _))

/-- The number of segments of a path. -/
def depth (path : Text) : Nat :=
  (Text.splitOn '/' path).length

/-- How many segments a path takes back before it names anything. -/
def climbs (path : Text) : Nat :=
  ((normalSegments path).takeWhile (· == dotDot)).length

/-- What a path names behind the segments that it takes back. -/
def descent (path : Text) : List Text :=
  (normalSegments path).dropWhile (· == dotDot)

/-! ### Segments one after the other -/

section

variable {path : Text}

/-- Empty segments and single dots are dropped. -/
theorem push_of_idle {segment : Text} (h : segment = [] ∨ segment = ['.']) (rooted : Bool)
    (segments : List Text) :
  push rooted segments segment = segments
  := by
  obtain rfl | rfl := h
  · simp [push]
  · simp [push]

/-- Two dots take the segment in front of them back. -/
theorem push_dotDot_cons {last : Text} (h : last ≠ dotDot) (rooted : Bool) (before : List Text) :
  push rooted (last :: before) dotDot = before
  := by
  rw [dotDot] at h
  simp [push, dotDot, h]

/-- Two dots stay behind two dots, if the path has no root. -/
theorem push_dotDot_replicate (n : Nat) :
  push false (List.replicate n dotDot) dotDot = List.replicate (n + 1) dotDot
  := by
  cases n with
  | zero => rfl
  | succ n => rfl

/-- A plain segment is kept. -/
theorem push_of_isPlain {rooted : Bool} {segment : Text} (h : IsPlain segment)
    (segments : List Text) :
  push rooted segments segment = segment :: segments
  := by
  obtain ⟨hne, hdot, hup⟩ := h
  rw [dotDot] at hup
  simp [push, hne, hdot, hup]

/-- Plain segments are kept in their order. -/
theorem foldl_push_of_forall_isPlain {rooted : Bool} {added : List Text}
    (h : ∀ segment ∈ added, IsPlain segment) (segments : List Text) :
  added.foldl (push rooted) segments = added.reverse ++ segments
  := by
  induction added generalizing segments with
  | nil => rfl
  | cons segment added ih =>
    rw [List.forall_mem_cons] at h
    rw [List.foldl_cons, push_of_isPlain h.1, ih h.2, List.reverse_cons, List.append_assoc,
      List.singleton_append]

/-- A segment that is kept was there or has been added. -/
theorem mem_of_mem_push {rooted : Bool} {segments : List Text} {segment s : Text}
    (h : s ∈ push rooted segments segment) :
  s ∈ segments ∨ s = segment
  := by
  unfold push at h
  split at h
  · exact .inl h
  · split at h
    · split at h
      · cases rooted with
        | true => cases h
        | false => exact .inr (List.mem_singleton.mp h)
      · split at h
        · exact (List.mem_cons.mp h).symm
        · exact .inl (List.mem_cons_of_mem _ h)
    · exact (List.mem_cons.mp h).symm

/-- A segment that is left was there, or has been added and is plain or two dots. -/
theorem mem_foldl_push {rooted : Bool} {added segments : List Text} {s : Text}
    (h : s ∈ added.foldl (push rooted) segments) :
  s ∈ segments ∨ s ∈ added ∧ (IsPlain s ∨ s = dotDot)
  := by
  induction added using List.reverseRecOn with
  | nil => exact .inl h
  | append_singleton added segment ih =>
    rw [List.foldl_append, List.foldl_cons, List.foldl_nil] at h
    by_cases hskip : segment = [] ∨ segment = ['.']
    · rw [push_of_idle hskip] at h
      obtain hs | ⟨hs, hplain⟩ := ih h
      · exact .inl hs
      · exact .inr ⟨List.mem_append_left _ hs, hplain⟩
    · obtain hold | rfl := mem_of_mem_push h
      · obtain hs | ⟨hs, hplain⟩ := ih hold
        · exact .inl hs
        · exact .inr ⟨List.mem_append_left _ hs, hplain⟩
      · rw [not_or] at hskip
        refine .inr ⟨List.mem_append_right _ (List.mem_singleton_self s), ?_⟩
        by_cases hup : s = dotDot
        · exact .inr hup
        · exact .inl ⟨hskip.1, hskip.2, hup⟩

/-- What the segments of a path do to the segments that stand before them: `climb` of these are taken
back, and `down` is put behind the others.  Where there are too few to take back, the climb stays. -/
theorem foldl_push_eq (added : List Text) :
  ∃ (climb : Nat) (down : List Text), dotDot ∉ down ∧ ∀ segments : List Text, dotDot ∉ segments →
    added.foldl (push false) segments
      = down ++ (segments.drop climb ++ List.replicate (climb - segments.length) dotDot)
  := by
  induction added using List.reverseRecOn with
  | nil => exact ⟨0, [], List.not_mem_nil, fun segments _ => by simp⟩
  | append_singleton added segment ih =>
    obtain ⟨climb, down, hdown, hfold⟩ := ih
    by_cases hskip : segment = [] ∨ segment = ['.']
    · refine ⟨climb, down, hdown, fun segments hs => ?_⟩
      rw [List.foldl_append, hfold segments hs, List.foldl_cons, List.foldl_nil, push_of_idle hskip]
    · rw [not_or] at hskip
      by_cases hup : segment = dotDot
      · subst hup
        cases down with
        | cons last down =>
          rw [List.mem_cons, not_or] at hdown
          refine ⟨climb, down, hdown.2, fun segments hs => ?_⟩
          rw [List.foldl_append, hfold segments hs, List.foldl_cons, List.foldl_nil, List.cons_append,
            push_dotDot_cons (Ne.symm hdown.1)]
        | nil =>
          refine ⟨climb + 1, [], hdown, fun segments hs => ?_⟩
          rw [List.foldl_append, hfold segments hs, List.foldl_cons, List.foldl_nil, List.nil_append,
            List.nil_append]
          by_cases hlong : climb < segments.length
          · -- a segment is left to take back
            have hlast : segments[climb] ≠ dotDot := fun h => hs (h ▸ List.getElem_mem hlong)
            have hnone : climb + 1 - segments.length = climb - segments.length := by omega
            rw [List.drop_eq_getElem_cons hlong, List.cons_append, push_dotDot_cons hlast, hnone]
          · -- nothing is left but the climbs before this one
            rw [Nat.not_lt] at hlong
            rw [List.drop_eq_nil_of_le hlong, List.drop_eq_nil_of_le (Nat.le_succ_of_le hlong),
              Nat.succ_sub hlong, List.nil_append, List.nil_append, push_dotDot_replicate]
      · refine ⟨climb, segment :: down, ?_, fun segments hs => ?_⟩
        · simp [Ne.symm hup, hdown]
        · have hplain : IsPlain segment := ⟨hskip.1, hskip.2, hup⟩
          rw [List.foldl_append, hfold segments hs, List.foldl_cons, List.foldl_nil,
            push_of_isPlain hplain]
          rfl

/-- Without a segment that takes another one back there is no climb to split off. -/
theorem takeWhile_and_dropWhile_of_notMem {segments : List Text} (h : dotDot ∉ segments) :
  segments.takeWhile (· == dotDot) = [] ∧ segments.dropWhile (· == dotDot) = segments
  := by
  cases segments with
  | nil => exact ⟨rfl, rfl⟩
  | cons first rest =>
    rw [List.mem_cons, not_or] at h
    have hfirst : (first == dotDot) = false := beq_eq_false_iff_ne.mpr (Ne.symm h.1)
    rw [List.takeWhile_cons, List.dropWhile_cons, hfirst]
    exact ⟨rfl, rfl⟩

/-- A path that is not absolute takes back `climbs path` segments and puts `descent path` behind the
others. -/
theorem foldl_push_splitOn (h : isAbsolute path = false) {segments : List Text}
    (hs : dotDot ∉ segments) :
  (Text.splitOn '/' path).foldl (push false) segments
    = (descent path).reverse
      ++ (segments.drop (climbs path) ++ List.replicate (climbs path - segments.length) dotDot)
  := by
  obtain ⟨climb, down, hdown, hfold⟩ := foldl_push_eq (Text.splitOn '/' path)
  have hnormal : normalSegments path = List.replicate climb dotDot ++ down.reverse := by
    rw [normalSegments, h, hfold [] List.not_mem_nil]
    simp
  have hstart := takeWhile_and_dropWhile_of_notMem (mt List.mem_reverse.mp hdown)
  have hclimbs : climbs path = climb := by
    rw [climbs, hnormal, List.takeWhile_append_of_pos (by simp), hstart.1]
    simp
  have hdescent : descent path = down.reverse := by
    rw [descent, hnormal, List.dropWhile_append_of_pos (by simp), hstart.2]
  rw [hclimbs, hdescent, List.reverse_reverse]
  exact hfold segments hs

/-- Normal segments hold no slash and are not empty. -/
theorem of_mem_normalSegments {segment : Text} (h : segment ∈ normalSegments path) :
  '/' ∉ segment ∧ segment ≠ []
  := by
  obtain hnil | ⟨hmem, hplain | rfl⟩ := mem_foldl_push (List.mem_reverse.mp h)
  · cases hnil
  · exact ⟨Text.notMem_of_mem_splitOn hmem, hplain.1⟩
  · exact ⟨Text.notMem_of_mem_splitOn hmem, List.cons_ne_nil _ _⟩

/-- Where no segment takes another one back, the normal segments are those that are not dots. -/
theorem normalSegments_of_notMem (h : dotDot ∉ segments path) :
  normalSegments path = (segments path).filter (· ≠ ['.'])
  := by
  have hfold : ∀ added : List Text, dotDot ∉ added → added.foldl (push (isAbsolute path)) []
      = ((added.filter fun segment => !segment.isEmpty).filter (· ≠ ['.'])).reverse := by
    intro added hadded
    induction added using List.reverseRecOn with
    | nil => rfl
    | append_singleton added segment ih =>
      rw [List.mem_append, not_or, List.mem_singleton] at hadded
      rw [List.foldl_append, ih hadded.1, List.foldl_cons, List.foldl_nil, List.filter_append,
        List.filter_append, List.reverse_append]
      by_cases hskip : segment = [] ∨ segment = ['.']
      · rw [push_of_idle hskip]
        obtain rfl | rfl := hskip
        · rfl
        · rfl
      · rw [not_or] at hskip
        rw [push_of_isPlain ⟨hskip.1, hskip.2, Ne.symm hadded.2⟩]
        simp [hskip]
  have hsplit : dotDot ∉ Text.splitOn '/' path :=
    fun hmem => h (List.mem_filter.mpr ⟨hmem, rfl⟩)
  rw [normalSegments, hfold _ hsplit, List.reverse_reverse]
  rfl

/-- A path without a segment that takes another one back climbs nowhere, and names below the place where
it stands what its segments but the dots say. -/
theorem climbs_eq_zero_and_descent_eq (h : dotDot ∉ segments path) :
  climbs path = 0 ∧ descent path = (segments path).filter (· ≠ ['.'])
  := by
  have hnone : dotDot ∉ normalSegments path := by
    rw [normalSegments_of_notMem h]
    exact fun hmem => h (List.mem_of_mem_filter hmem)
  obtain ⟨htake, hdrop⟩ := takeWhile_and_dropWhile_of_notMem hnone
  rw [climbs, descent, htake, hdrop, normalSegments_of_notMem h]
  exact ⟨rfl, rfl⟩

/-- A path that does not begin at the root is normal as soon as its segments are. -/
theorem normalize_eq (h : isAbsolute path = false) :
  normalize path
    = if normalSegments path = [] then ['.'] else Text.join ['/'] (normalSegments path)
  := by
  have hroot : rootSlashes path = 0 := by
    unfold rootSlashes
    split
    · cases h
    · cases h
    · cases h
    · rfl
  rw [normalize, hroot]
  cases hsegments : normalSegments path with
  | nil => rfl
  | cons first rest =>
    have hfirst : first ≠ [] := (of_mem_normalSegments (hsegments ▸ List.mem_cons_self)).2
    have hjoin : Text.join ['/'] (first :: rest) ≠ [] := by
      cases rest with
      | nil => simpa [Text.join] using hfirst
      | cons second rest => simp [Text.join, List.intercalate]
    simp [hjoin]

/-! ### Going on from a file -/

theorem IsPlainPath.exists_eq_cons (h : IsPlainPath path) :
  ∃ c rest, path = c :: rest ∧ c ≠ '/'
  := by
  cases path with
  | nil => exact absurd rfl (h [] (List.mem_singleton_self _)).1
  | cons c rest =>
    refine ⟨c, rest, rfl, ?_⟩
    rintro rfl
    have hempty : [] ∈ Text.splitOn '/' ('/' :: rest) := by simp [Text.splitOn]
    exact (h [] hempty).1 rfl

theorem IsPlainPath.endsWithSlash_eq_false (h : IsPlainPath path) :
  endsWithSlash path = false
  := by
  rw [endsWithSlash, beq_eq_false_iff_ne]
  intro hlast
  obtain ⟨before, rfl⟩ := List.getLast?_eq_some_iff.mp hlast
  have hempty : [] ∈ Text.splitOn '/' (before ++ ['/']) := by
    rw [Text.splitOn_append]
    exact List.mem_append_right _ (List.mem_singleton_self _)
  exact (h [] hempty).1 rfl

variable {file : Text}

/-- A relative path is joined to a plain one by a slash. -/
theorem join_eq (hf : IsPlainPath file) (h : isAbsolute path = false) :
  join file path = file ++ '/' :: path ∧ isAbsolute (join file path) = false
  := by
  obtain ⟨c, rest, rfl, hc⟩ := hf.exists_eq_cons
  have hjoin : join (c :: rest) path = c :: rest ++ '/' :: path := by
    rw [join, h, hf.endsWithSlash_eq_false]
    rfl
  refine ⟨hjoin, ?_⟩
  rw [hjoin, List.cons_append, isAbsolute]
  exact fun _ he => hc (List.cons.inj he).1

/-- A path goes on from a file by taking back some of the file's segments; its own name counts. -/
theorem normalSegments_join (hf : IsPlainPath file) (h : isAbsolute path = false) :
  normalSegments (join file path)
    = List.replicate (climbs path - depth file) dotDot
      ++ (Text.splitOn '/' file).take (depth file - climbs path) ++ descent path
  := by
  have hup : dotDot ∉ (Text.splitOn '/' file).reverse :=
    fun hmem => (hf dotDot (List.mem_reverse.mp hmem)).2.2 rfl
  rw [normalSegments, (join_eq hf h).2, (join_eq hf h).1, Text.splitOn_append, List.foldl_append,
    foldl_push_of_forall_isPlain hf, List.append_nil, foldl_push_splitOn h hup, List.length_reverse,
    List.drop_reverse]
  simp [depth]

end

end Path

end ImportCensus
