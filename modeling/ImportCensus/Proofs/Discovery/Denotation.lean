import ImportCensus.Proofs.Glob.Search
import ImportCensus.Proofs.Run.Roots

/-!
# What the entries of a discovery denote

A discovery lists paths, each of them once; but one file may have several paths.  Every entry of the list
leads to a file, and two entries lead to one file exactly where they have one address.  This cannot happen
where all patterns start at one place and spell out no dots but those at their start, which are taken from
the paths that they find.
-/

namespace ImportCensus

open Glob (AddsAll IsPart spell)

/-! ### Patterns without dots -/

namespace Glob

/-- Whether a segment is `.`, spelled out. -/
def Segment.isDot : Segment → Bool
  | .anyDepth => false
  | .atoms list => spelled? list == some ['.']

/-- Whether a route begins at the root, or does not, and spells out no dots.  A route that does not begin at
the root may begin with single dots. -/
def Route.isDirect (rooted : Bool) (r : Route) : Bool :=
  r.rooted == rooted
    && (if rooted then r.steps else r.steps.dropWhile Segment.isDot).all fun step => !step.isDots

variable {steps : List Segment} {names : List Text}

/-- Segments that spell out no dots put names behind a path. -/
theorem AddsAll.isName (h : AddsAll steps names)
    (hsteps : (steps.all fun step => !step.isDots) = true) :
  ∀ name ∈ names, Path.IsName name
  := by
  induction h with
  | nil => exact List.forall_mem_nil _
  | cons hadds _ ih =>
    rw [List.all_cons, Bool.and_eq_true] at hsteps
    rw [List.forall_mem_append]
    refine ⟨?_, ih hsteps.2⟩
    cases hadds with
    | anyDepth h => exact h
    | spelled hspelled h =>
      rw [List.forall_mem_singleton]
      obtain rfl | rfl | hname := h
      · simp [Segment.isDots, hspelled] at hsteps
      · simp [Segment.isDots, hspelled, Path.dotDot] at hsteps
      · exact hname
    | matched _ h =>
      rw [List.forall_mem_singleton]
      exact h

/-- The step for a single dot adds a single dot. -/
theorem Adds.eq_of_isDot {step : Segment} (h : Adds step names) (hdot : step.isDot = true) :
  names = [['.']]
  := by
  cases h with
  | anyDepth => cases hdot
  | spelled hspelled =>
    rw [Segment.isDot, hspelled, beq_iff_eq, Option.some.injEq] at hdot
    rw [hdot]
  | matched hspelled =>
    rw [Segment.isDot, hspelled] at hdot
    cases hdot

end Glob

/-! ### Dots at the start -/

namespace Path

variable {child parent outer : Text}

/-- The segments of a relative child stand behind those of its parents, joined one behind the other. -/
theorem segments_join_join (h : isAbsolute child = false) :
  segments (join outer (join parent child)) = segments (join outer parent) ++ segments child
  := by
  cases hparent : isAbsolute parent with
  | true =>
    have hne : parent ≠ [] := by
      rintro rfl
      cases hparent
    have hjoin : isAbsolute (join parent child) = true := (isAbsolute_join h hne).trans hparent
    rw [join_of_isAbsolute hjoin, join_of_isAbsolute hparent, segments_join h]
  | false =>
    have hjoin : isAbsolute (join parent child) = false := by
      by_cases hne : parent = []
      · rw [join_eq_stem_append h, hne]
        exact h
      · rw [isAbsolute_join h hne, hparent]
    rw [segments_join hjoin, segments_join h, segments_join hparent, List.append_assoc]

/-- A path that is relative without its leading dots is relative with them. -/
theorem isAbsolute_eq_false_of_withoutDotSlash (h : isAbsolute (withoutDotSlash child) = false) :
  isAbsolute child = false
  := by
  unfold isAbsolute
  split
  · rename_i rest
    rw [withoutDotSlash] at h
    · cases h
    · intro more hmore
      cases hmore
  · rfl

end Path

namespace Place

variable {here place : Place} {root child : Text}

/-- A dot and a slash in front of a path do not change where it leads. -/
theorem follow_join_of_dotSlash {rest : Text}
    (h : here.follow (Path.join root ('.' :: '/' :: rest)) = .ok place)
    (hrest : Path.isAbsolute rest = false) (hne : rest ≠ []) :
  here.follow (Path.join root rest) = .ok place
  := by
  have hdots : Path.isAbsolute ('.' :: '/' :: rest) = false := rfl
  have hsplit : '.' :: '/' :: rest = ['.', '/'] ++ rest := rfl
  obtain ⟨-, hshort, hwalk, hslash⟩ := follow_eq_ok_iff.mp h
  rw [follow_eq_ok_iff]
  refine ⟨Path.join_ne_nil hne, ?_, ?_, ?_⟩
  · rw [Path.join_eq_stem_append hdots, hsplit, Text.octetCount_append, Text.octetCount_append]
      at hshort
    rw [Path.join_eq_stem_append hrest, Text.octetCount_append]
    omega
  · have hstart : here.startOf (Path.join root rest)
        = here.startOf (Path.join root ('.' :: '/' :: rest)) := by
      by_cases hroot : root = []
      · have hjoin (child : Text) (hchild : Path.isAbsolute child = false) :
            Path.join root child = child := by
          rw [Path.join_eq_stem_append hchild, hroot]
          rfl
        rw [startOf, startOf, hjoin rest hrest, hjoin _ hdots, hrest, hdots]
      · rw [startOf, startOf, Path.isAbsolute_join hrest hroot, Path.isAbsolute_join hdots hroot]
    have hsegments : Path.segments ('.' :: '/' :: rest) = ['.'] :: Path.segments rest :=
      Path.segments_append ['.'] rest
    rw [Path.segments_join hdots, hsegments, List.foldlM_append] at hwalk
    obtain ⟨middle, hmiddle, hbehind⟩ := exists_of_bind_eq_ok hwalk
    obtain ⟨next, hdot, hmore⟩ := exists_of_walk_cons hbehind
    obtain ⟨-, hsame⟩ | ⟨hup, -⟩ | ⟨hne, -⟩ := step_eq_ok hdot
    · rw [hstart, Path.segments_join hrest, walk_append hmiddle, ← hsame]
      exact hmore
    · cases hup
    · exact absurd rfl hne
  · rw [Path.endsWithSlash_join hdots (List.cons_ne_nil _ _), hsplit, Path.endsWithSlash,
      List.getLast?_append_of_ne_nil _ hne] at hslash
    rw [Path.endsWithSlash_join hrest hne]
    exact hslash

/-- A path leads where it leads without the dots at its start. -/
theorem follow_join_withoutDotSlash (h : here.follow (Path.join root child) = .ok place)
    (hrel : Path.isAbsolute (Path.withoutDotSlash child) = false)
    (hne : Path.withoutDotSlash child ≠ []) :
  here.follow (Path.join root (Path.withoutDotSlash child)) = .ok place
  := by
  induction child using Path.withoutDotSlash.induct with
  | case1 rest ih =>
    rw [Path.withoutDotSlash] at hrel hne ⊢
    have hrest : Path.isAbsolute rest = false := Path.isAbsolute_eq_false_of_withoutDotSlash hrel
    have hrestne : rest ≠ [] := by
      rintro rfl
      exact hne rfl
    exact ih (follow_join_of_dotSlash h hrest hrestne) hrel hne
  | case2 path hpath =>
    rw [Path.withoutDotSlash.eq_2 path hpath]
    exact h

/-- A file stands at a path where the path leads to what is no directory. -/
theorem hasFile_eq_true_iff {path : Text} :
  here.hasFile path = true ↔ ∃ file, here.follow path = .ok file ∧ file.node.isDirectory = false
  := by
  rw [hasFile]
  split
  · rename_i file hfollow
    simp [hfollow]
  · rename_i e hfollow
    simp [hfollow]

end Place

namespace Discovery

/-! ### Names without dots at their start -/

/-- Names without the dots that they begin with; the last one stays. -/
def withoutDots : List Text → List Text
  | ['.'] :: next :: rest => withoutDots (next :: rest)
  | names => names

variable {names : List Text}

/-- Taking single dots out keeps the other names in their order. -/
theorem withoutDots_sublist (names : List Text) :
  (withoutDots names).Sublist names
  := by
  fun_induction withoutDots names with
  | case1 next rest ih => exact ih.cons _
  | case2 names => exact List.Sublist.refl _

theorem withoutDots_ne_nil (h : names ≠ []) :
  withoutDots names ≠ []
  := by
  fun_induction withoutDots names with
  | case1 next rest ih => exact ih (List.cons_ne_nil _ _)
  | case2 names => exact h

theorem withoutDots_of_isName (h : ∀ name ∈ names, Path.IsName name) :
  withoutDots names = names
  := by
  fun_cases withoutDots names with
  | case1 next rest => exact absurd rfl (h ['.'] List.mem_cons_self).isPlain.2.1
  | case2 names => rfl

/-- Names that do not begin at the root spell a path that does not. -/
theorem isAbsolute_spell (hne : names ≠ []) (h : ∀ name ∈ names, IsPart name) :
  Path.isAbsolute (spell false names) = false ∧ spell false names ≠ []
  := by
  obtain ⟨name, names, rfl⟩ := List.exists_cons_of_ne_nil hne
  rw [List.forall_mem_cons] at h
  obtain ⟨c, rest, rfl⟩ := List.exists_cons_of_ne_nil h.1.1
  have hc : c ≠ '/' := fun hc => h.1.2 (hc ▸ List.mem_cons_self)
  have hspell : spell false ((c :: rest) :: names)
      = c :: (rest ++ names.flatMap fun name => '/' :: name) := Glob.join_slash_cons _ _
  rw [hspell]
  exact ⟨by simp [Path.isAbsolute, hc], List.cons_ne_nil _ _⟩

/-- A path without dots at its start is spelled by the names without dots at their start. -/
theorem withoutDotSlash_spell (h : ∀ name ∈ names, IsPart name) :
  Path.withoutDotSlash (spell false names) = spell false (withoutDots names)
  := by
  have hspell (names : List Text) : spell false names = Text.join ['/'] names := rfl
  rw [hspell, hspell]
  fun_induction withoutDots names with
  | case1 next rest ih =>
    rw [List.forall_mem_cons] at h
    rw [← ih h.2, Glob.join_slash_cons, List.flatMap_cons, Glob.join_slash_cons]
    simp [Path.withoutDotSlash]
  | case2 names hnames =>
    apply Path.withoutDotSlash.eq_2
    intro rest hrest
    cases names with
    | nil => cases hrest
    | cons name names =>
      rw [List.forall_mem_cons] at h
      rw [Glob.join_slash_cons] at hrest
      obtain ⟨c, others, rfl⟩ := List.exists_cons_of_ne_nil h.1.1
      cases others with
      | nil =>
        cases names with
        | nil => cases hrest
        | cons next names =>
          cases hrest
          exact hnames next names rfl
      | cons d others =>
        cases hrest
        exact h.1.2 (List.mem_cons_of_mem _ List.mem_cons_self)

/-! ### Entries -/

section

variable {here : Place} {root entry : Text} {patterns files : List Text} {exclude : Option Text}

/-- Every entry is spelled by the names that a route puts one behind the other, and leads to a file. -/
theorem exists_spelled_of_mem (hp : here.IsProper)
    (h : resolveIn here root patterns exclude = .ok files) (hentry : entry ∈ files) :
  here.hasFile (Path.join root entry) = true
    ∧ ∃ pattern ∈ includes patterns, ∃ texts, Glob.expand pattern = .ok texts
      ∧ ∃ text ∈ texts, ∃ r, Glob.Route.ofText? text = some r
      ∧ ∃ names, AddsAll r.steps names
        ∧ (if r.rooted then entry = spell true names
            else names ≠ [] ∧ entry = spell false (withoutDots names))
  := by
  obtain ⟨pattern, hpattern, paths, hpaths, found, hfound, hfile, rfl⟩ :=
    exists_found_of_mem_resolve h hentry
  obtain ⟨texts, htexts, text, htext, r, hr, hne, names, hadds, rfl⟩ :=
    Glob.exists_of_mem_search? hp hpaths hfound
  have hparts := hadds.isPart
  cases hrooted : r.rooted with
  | true =>
    have hsame : Path.withoutDotSlash (spell true names) = spell true names := by
      apply Path.withoutDotSlash.eq_2
      intro rest hrest
      cases hrest
    rw [hrooted] at hfile
    rw [hsame]
    refine ⟨hfile, pattern, hpattern, texts, htexts, text, htext, r, hr, names, hadds, ?_⟩
    rw [hrooted]
    rfl
  | false =>
    rw [hrooted] at hfile hne
    have hnames : names ≠ [] := by
      rintro rfl
      exact hne rfl
    have hsub := (withoutDots_sublist names).subset
    obtain ⟨hrel, hsome⟩ := isAbsolute_spell (withoutDots_ne_nil hnames)
      fun name hname => hparts name (hsub hname)
    obtain ⟨file, hfollow, hdirectory⟩ := Place.hasFile_eq_true_iff.mp hfile
    rw [← withoutDotSlash_spell hparts] at hrel hsome
    refine ⟨?_, pattern, hpattern, texts, htexts, text, htext, r, hr, names, hadds, ?_⟩
    · rw [Place.hasFile_eq_true_iff]
      exact ⟨file, Place.follow_join_withoutDotSlash hfollow hrel hsome, hdirectory⟩
    · rw [hrooted]
      exact ⟨hnames, withoutDotSlash_spell hparts⟩

/-- Whether the routes of all patterns that add files begin at the root, or all do not, and spell out no dots
but those at their start. -/
def isDirect (rooted : Bool) (patterns : List Text) : Bool :=
  (includes patterns).all fun pattern =>
    match Glob.expand pattern with
    | .error _ => true
    | .ok texts => (texts.filterMap Glob.Route.ofText?).all fun r => r.isDirect rooted

/-- Every route of direct patterns is direct. -/
theorem isDirect_of_mem {rooted : Bool} (h : isDirect rooted patterns = true) {pattern text : Text}
    {texts : List Text} {r : Glob.Route} (hpattern : pattern ∈ includes patterns)
    (htexts : Glob.expand pattern = .ok texts) (htext : text ∈ texts)
    (hr : Glob.Route.ofText? text = some r) :
  r.isDirect rooted = true
  := by
  have hroutes := List.all_eq_true.mp h pattern hpattern
  rw [htexts] at hroutes
  exact List.all_eq_true.mp hroutes r (List.mem_filterMap.mpr ⟨text, htext, hr⟩)

/-- Names of the tree, unless they are those of the directory itself. -/
def IsCanonical (rooted : Bool) (names : List Text) : Prop :=
  (∀ name ∈ names, Path.IsName name) ∧ (rooted = false → names ≠ [])
    ∨ rooted = false ∧ names = [['.']]

/-- The names that the steps of a route add are canonical without single dots, if the route spells no dots but
at its beginning. -/
theorem isCanonical_withoutDots {steps : List Glob.Segment} {names : List Text}
    (h : AddsAll steps names)
    (hsteps : ((steps.dropWhile Glob.Segment.isDot).all fun step => !step.isDots) = true)
    (hne : names ≠ []) :
  IsCanonical false (withoutDots names)
  := by
  induction h with
  | nil => exact absurd rfl hne
  | @cons step steps names more hadds hmore ih =>
    by_cases hdot : step.isDot = true
    · rw [List.dropWhile_cons_of_pos hdot] at hsteps
      obtain rfl : names = [['.']] := hadds.eq_of_isDot hdot
      cases more with
      | nil => exact .inr ⟨rfl, rfl⟩
      | cons next more => exact ih hsteps (List.cons_ne_nil _ _)
    · rw [List.dropWhile_cons_of_neg hdot] at hsteps
      have hnames := (AddsAll.cons hadds hmore).isName hsteps
      rw [withoutDots_of_isName hnames]
      exact .inl ⟨hnames, fun _ => hne⟩

/-- What direct patterns find is spelled by names of the tree. -/
theorem exists_isCanonical_of_mem (hp : here.IsProper)
    (h : resolveIn here root patterns exclude = .ok files) {rooted : Bool}
    (hdirect : isDirect rooted patterns = true) (hentry : entry ∈ files) :
  ∃ names, IsCanonical rooted names ∧ entry = spell rooted names
  := by
  obtain ⟨-, pattern, hpattern, texts, htexts, text, htext, r, hr, names, hadds, hnames⟩ :=
    exists_spelled_of_mem hp h hentry
  have hroute := isDirect_of_mem hdirect hpattern htexts htext hr
  rw [Glob.Route.isDirect, Bool.and_eq_true, beq_iff_eq] at hroute
  obtain ⟨rfl, hsteps⟩ := hroute
  cases hrooted : r.rooted with
  | true =>
    rw [hrooted, if_pos rfl] at hsteps hnames
    exact ⟨names, .inl ⟨hadds.isName hsteps, nofun⟩, hnames⟩
  | false =>
    rw [hrooted, if_neg (by decide)] at hsteps hnames
    exact ⟨withoutDots names, isCanonical_withoutDots hadds hsteps hnames.1, hnames.2⟩

/-! ### Addresses of entries -/

/-- The address of an entry, which stands behind the root of the discovery. -/
def addressOf (here : Place) (root entry : Text) : List Text :=
  here.address (Path.join root entry)

/-- A rooted path that spells names is the address of these names. -/
theorem addressOf_spell_rooted {names : List Text} (h : ∀ name ∈ names, Path.IsName name) :
  addressOf here root (spell true names) = names
  := by
  have habs : Path.isAbsolute (spell true names) = true := rfl
  have hsegments : Path.segments (spell true names) = names := by
    have hnames : Path.segments (Text.join ['/'] names) = names :=
      Path.segments_join_slash fun name hname => ⟨(h name hname).slash_notMem, (h name hname).isPlain.1⟩
    exact (Path.segments_append [] _).trans hnames
  rw [addressOf, Place.address, Path.join_of_isAbsolute habs, Path.join_of_isAbsolute habs,
    Path.normalSegments_eq, hsegments,
    Path.foldl_push_of_forall_isPlain fun name hname => (h name hname).isPlain, List.append_nil,
    List.reverse_reverse]

/-- The address of an entry that does not begin at the root goes on from that of the root of the
discovery. -/
theorem addressOf_spell_relative {names : List Text} (hne : names ≠ [])
    (h : ∀ name ∈ names, IsPart name) :
  addressOf here root (spell false names)
    = (names.foldl (Path.push true) (here.address root).reverse).reverse
  := by
  obtain ⟨hrel, -⟩ := isAbsolute_spell hne h
  have hsegments : Path.segments (spell false names) = names :=
    Path.segments_join_slash fun name hname => ⟨(h name hname).2, (h name hname).1⟩
  rw [addressOf, here.address_eq, here.address_eq, Path.segments_join_join hrel, hsegments,
    List.foldl_append, List.reverse_reverse]

/-- A canonical entry that does not begin at the root puts names behind the address of the root of the
discovery. -/
theorem exists_addressOf_eq {names : List Text} (h : IsCanonical false names) :
  ∃ shown, addressOf here root (spell false names) = here.address root ++ shown
    ∧ names = if shown = [] then [['.']] else shown
  := by
  obtain ⟨hnames, hne⟩ | ⟨-, rfl⟩ := h
  · refine ⟨names, ?_, (if_neg (hne rfl)).symm⟩
    rw [addressOf_spell_relative (hne rfl) fun name hname => Glob.isPart_of_isName (hnames name hname),
      Path.foldl_push_of_forall_isPlain fun name hname => (hnames name hname).isPlain,
      List.reverse_append, List.reverse_reverse, List.reverse_reverse]
  · refine ⟨[], ?_, rfl⟩
    have hparts : ∀ name ∈ [['.']], IsPart name := by
      rw [List.forall_mem_singleton]
      exact ⟨by decide, by decide⟩
    rw [addressOf_spell_relative (List.cons_ne_nil _ _) hparts, List.foldl_cons,
      Path.push_of_idle (.inr rfl), List.foldl_nil, List.reverse_reverse, List.append_nil]

/-- Entries that are spelled by names of the tree, all from the root or all not, are told by their
addresses. -/
theorem eq_of_addressOf_eq {rooted : Bool} {names others : List Text}
    (hn : IsCanonical rooted names) (ho : IsCanonical rooted others)
    (h : addressOf here root (spell rooted names) = addressOf here root (spell rooted others)) :
  names = others
  := by
  cases rooted with
  | true =>
    obtain ⟨hn, -⟩ | ⟨hfalse, -⟩ := hn
    · obtain ⟨ho, -⟩ | ⟨hfalse, -⟩ := ho
      · rwa [addressOf_spell_rooted hn, addressOf_spell_rooted ho] at h
      · cases hfalse
    · cases hfalse
  | false =>
    obtain ⟨shown, haddress, hshown⟩ := exists_addressOf_eq hn
    obtain ⟨shown', haddress', hshown'⟩ := exists_addressOf_eq ho
    rw [haddress, haddress', List.append_cancel_left_eq] at h
    rw [hshown, hshown', h]

/-- Every file is listed once where all patterns begin at one place and spell out no dots. -/
theorem nodup_map_addressOf (hp : here.IsProper)
    (h : resolveIn here root patterns exclude = .ok files) {rooted : Bool}
    (hdirect : isDirect rooted patterns = true) :
  (files.map (addressOf here root)).Nodup
  := by
  apply List.Nodup.map_on _ (nodup_of_resolve h)
  intro entry hentry other hother hsame
  obtain ⟨names, hnames, rfl⟩ := exists_isCanonical_of_mem hp h hdirect hentry
  obtain ⟨others, hothers, rfl⟩ := exists_isCanonical_of_mem hp h hdirect hother
  rw [eq_of_addressOf_eq hnames hothers hsame]

/-- Two entries lead to one file exactly where they have one address. -/
theorem follow_join_eq_iff (ha : here.IsAnchored) (hp : here.IsProper)
    (h : resolveIn here root patterns exclude = .ok files) {other : Text} (hentry : entry ∈ files)
    (hother : other ∈ files) :
  here.follow (Path.join root entry) = here.follow (Path.join root other)
    ↔ addressOf here root entry = addressOf here root other
  := by
  obtain ⟨file, hfile, -⟩ :=
    Place.hasFile_eq_true_iff.mp (exists_spelled_of_mem hp h hentry).1
  obtain ⟨file', hfile', -⟩ :=
    Place.hasFile_eq_true_iff.mp (exists_spelled_of_mem hp h hother).1
  exact Place.follow_eq_follow_iff ha hp hfile hfile'

end

end Discovery

end ImportCensus
