import ImportCensus.Glob.Search
import ImportCensus.Proofs.Path.Address

/-!
# What a search finds

What a search finds is spelled after the pattern.  Each segment of the pattern puts names of the tree
behind the path that has been found so far, or the dots that it spells out.  So in a proper tree a pattern
that spells out no dots finds nothing but names, from the root of the tree or from where the search starts.
-/

namespace ImportCensus

namespace Glob

/-! ### Names behind a path -/

/-- A place found behind a path, under names of the tree. -/
def IsBehind (path : Text) (names : List Text) (f : Found) : Prop :=
  f.path = names.foldl Path.join path ∧ f.place.IsProper

variable {path name : Text} {names : List Text} {f g : Found}

theorem IsBehind.trans {more : List Text} (h : IsBehind path names f) (hg : IsBehind f.path more g) :
  IsBehind path (names ++ more) g
  := by
  refine ⟨?_, hg.2⟩
  rw [List.foldl_append, ← h.1]
  exact hg.1

/-- What is found at any depth below a node is found under names of the tree. -/
theorem exists_of_mem_allBelow {above : List (Text × Node)} {node : Node}
    (hp : Place.IsProper ⟨node, above⟩) (hg : g ∈ Found.allBelow path above node) :
  ∃ names, (∀ name ∈ names, Path.IsName name) ∧ IsBehind path names g
  := by
  -- the induction is on the node, together with the nodes of a directory
  refine Found.allBelow.induct
    (fun path above node => Place.IsProper ⟨node, above⟩ → ∀ g ∈ Found.allBelow path above node,
      ∃ names, (∀ name ∈ names, Path.IsName name) ∧ IsBehind path names g)
    (fun path parent above children => Place.IsProper ⟨parent, above⟩ →
      (∀ child ∈ children, child ∈ parent.children) →
      ∀ g ∈ Found.allAmong path parent above children,
        ∃ names, (∀ name ∈ names, Path.IsName name) ∧ IsBehind path names g)
    ?_ ?_ ?_ ?_ ?_ path above node hp g hg
  · intro path above bytes _ g hg
    rw [Found.allBelow] at hg
    cases hg
  · intro path above children ih hp g hg
    rw [Found.allBelow] at hg
    exact ih hp (fun child hchild => hchild) g hg
  · intro path parent above _ _ g hg
    rw [Found.allAmong] at hg
    cases hg
  · intro path parent above name node rest hhidden ih hp hchildren g hg
    rw [Found.allAmong, if_pos hhidden] at hg
    rw [List.forall_mem_cons] at hchildren
    exact ih hp hchildren.2 g hg
  · intro path parent above name node rest hhidden way ihrest ihnode hp hchildren g hg
    rw [Found.allAmong, if_neg hhidden] at hg
    rw [List.forall_mem_cons] at hchildren
    have hname : Path.IsName name := hp.node.isName hchildren.1
    have hchild : Place.IsProper ⟨node, way⟩ := hp.child hchildren.1
    obtain hhere | hothers := List.mem_append.mp hg
    · obtain rfl | hbelow := List.mem_cons.mp hhere
      · exact ⟨[name], by simpa using hname, rfl, hchild⟩
      · obtain ⟨names, hnames, hbehind⟩ := ihnode hchild g hbelow
        refine ⟨name :: names, ?_, hbehind⟩
        rw [List.forall_mem_cons]
        exact ⟨hname, hnames⟩
    · exact ihrest hp hchildren.2 g hothers

theorem mem_of_mem_distinct {found : List Found} (h : f ∈ Found.distinct found) :
  f ∈ found
  := by
  have hsub : ∀ sorted : List Found,
      sorted.foldr (fun f rest => if rest.head?.map Found.path == some f.path then rest else f :: rest)
        [] ⊆ sorted := by
    intro sorted
    induction sorted with
    | nil => exact List.Subset.refl _
    | cons f sorted ih =>
      rw [List.foldr_cons]
      split
      · exact List.subset_cons_of_subset f ih
      · exact List.cons_subset_cons f ih
  exact List.mem_mergeSort.mp (hsub _ h)

/-! ### Segments -/

/-- The names that a segment of a pattern puts behind a path. -/
inductive Adds : Segment → List Text → Prop where
  | anyDepth {names : List Text} (h : ∀ name ∈ names, Path.IsName name) :
    Adds .anyDepth names
  | spelled {atoms : List Atom} {name : Text} (hs : spelled? atoms = some name)
      (h : name = ['.'] ∨ name = Path.dotDot ∨ Path.IsName name) :
    Adds (.atoms atoms) [name]
  | matched {atoms : List Atom} {name : Text} (hs : spelled? atoms = none) (h : Path.IsName name) :
    Adds (.atoms atoms) [name]

/-- The names that segments of a pattern put behind a path, one after the other. -/
inductive AddsAll : List Segment → List Text → Prop where
  | nil :
    AddsAll [] []
  | cons {step : Segment} {steps : List Segment} {names more : List Text} (h : Adds step names)
      (hmore : AddsAll steps more) :
    AddsAll (step :: steps) (names ++ more)

theorem exists_of_mem_foundBelow {atoms : List Atom} (hp : f.place.IsProper)
    (hg : g ∈ foundBelow atoms f) :
  ∃ names, Adds (.atoms atoms) names ∧ IsBehind f.path names g
  := by
  unfold foundBelow at hg
  split at hg
  · rename_i name hspelled
    split at hg
    · rename_i place hstep
      obtain rfl := List.mem_singleton.mp hg
      refine ⟨[name], .spelled hspelled ?_, rfl, Place.isProper_of_step hp hstep⟩
      by_cases hdot : name = ['.']
      · exact .inl hdot
      by_cases hup : name = Path.dotDot
      · exact .inr (.inl hup)
      · exact .inr (.inr (Place.isName_of_step hp hstep hdot hup))
    · cases hg
  · rename_i hspelled
    obtain ⟨entry, hentry, rfl⟩ := List.mem_map.mp hg
    obtain ⟨below, hbelow, rfl⟩ := List.mem_map.mp (List.mem_of_mem_filter hentry)
    obtain ⟨child, hchild, rfl⟩ := List.mem_map.mp hbelow
    exact ⟨[child.1], .matched hspelled (hp.node.isName hchild), rfl, hp.child hchild⟩

theorem exists_of_mem_advance {found : List Found} {step : Segment}
    (hp : ∀ f ∈ found, f.place.IsProper) (hg : g ∈ advance found step) :
  ∃ f ∈ found, ∃ names, Adds step names ∧ IsBehind f.path names g
  := by
  cases step with
  | anyDepth =>
    obtain ⟨f, hf, hg⟩ := List.mem_flatMap.mp (mem_of_mem_distinct hg)
    obtain rfl | hbelow := List.mem_cons.mp hg
    · exact ⟨g, hf, [], .anyDepth (List.forall_mem_nil _), rfl, hp g hf⟩
    · obtain ⟨names, hnames, hbehind⟩ := exists_of_mem_allBelow (hp f hf) hbelow
      exact ⟨f, hf, names, .anyDepth hnames, hbehind⟩
  | atoms atoms =>
    obtain ⟨f, hf, hg⟩ := List.mem_flatMap.mp hg
    obtain ⟨names, hadds, hbehind⟩ := exists_of_mem_foundBelow (hp f hf) hg
    exact ⟨f, hf, names, hadds, hbehind⟩

/-- What a search finds is found behind a path that it starts from. -/
theorem exists_of_mem_search {directories : Bool} {steps : List Segment} {found : List Found}
    (hp : ∀ f ∈ found, f.place.IsProper) (hg : g ∈ search directories steps found) :
  ∃ f ∈ found, ∃ names, AddsAll steps names ∧ IsBehind f.path names g
  := by
  induction steps generalizing found with
  | nil => exact ⟨g, hg, [], .nil, rfl, hp g hg⟩
  | cons step steps ih =>
    have hproper : ∀ f ∈ advance found step, f.place.IsProper := by
      intro f hf
      obtain ⟨_, _, _, _, hbehind⟩ := exists_of_mem_advance hp hf
      exact hbehind.2
    rw [search] at hg
    obtain ⟨f, hf, more, hmore, hbehind⟩ :=
      ih (fun f hf => hproper f (List.mem_of_mem_filter hf)) hg
    obtain ⟨start, hstart, names, hadds, hfirst⟩ :=
      exists_of_mem_advance hp (List.mem_of_mem_filter hf)
    exact ⟨start, hstart, names ++ more, .cons hadds hmore, hfirst.trans hbehind⟩

/-! ### The paths that are found -/

/-- Names with slashes between them, from the root or not. -/
def spell (rooted : Bool) (names : List Text) : Text :=
  if rooted then '/' :: Text.join ['/'] names else Text.join ['/'] names

/-- A text that can stand between slashes. -/
def IsPart (name : Text) : Prop :=
  name ≠ [] ∧ '/' ∉ name

theorem join_slash_cons (name : Text) (names : List Text) :
  Text.join ['/'] (name :: names) = name ++ names.flatMap fun name => '/' :: name
  := by
  induction names generalizing name with
  | nil => simp [Text.join]
  | cons next names ih =>
    rw [Text.join, List.intercalate_cons_cons, ← Text.join, ih]
    simp

/-- A part stands behind a slash in front of which there is something. -/
theorem join_of_isPart (hne : path ≠ []) (hslash : Path.endsWithSlash path = false)
    (h : IsPart name) :
  Path.join path name = path ++ '/' :: name ∧ Path.endsWithSlash (path ++ '/' :: name) = false
  := by
  obtain ⟨c, rest, rfl⟩ := List.exists_cons_of_ne_nil h.1
  have hc : c ≠ '/' := fun hc => h.2 (hc ▸ List.mem_cons_self)
  constructor
  · rw [Path.join, if_neg (by simp [Path.isAbsolute, hc]), if_neg (by simp [hne, hslash])]
  · rw [Path.endsWithSlash, List.getLast?_append_of_ne_nil _ (List.cons_ne_nil _ _),
      List.getLast?_cons_cons, beq_eq_false_iff_ne]
    intro hlast
    exact h.2 (List.mem_of_getLast? hlast)

theorem foldl_join_of_isPart (hne : path ≠ []) (hslash : Path.endsWithSlash path = false)
    (h : ∀ name ∈ names, IsPart name) :
  names.foldl Path.join path = path ++ names.flatMap fun name => '/' :: name
  := by
  induction names generalizing path with
  | nil => simp
  | cons name names ih =>
    rw [List.forall_mem_cons] at h
    obtain ⟨hjoin, hend⟩ := join_of_isPart hne hslash h.1
    rw [List.foldl_cons, hjoin, ih (by simp) hend h.2]
    simp

/-- Names behind the path that a search starts with. -/
theorem foldl_join_eq_spell (rooted : Bool) (h : ∀ name ∈ names, IsPart name) :
  names.foldl Path.join (if rooted then ['/'] else []) = spell rooted names
  := by
  cases names with
  | nil =>
    cases rooted with
    | true => rfl
    | false => rfl
  | cons name names =>
    rw [List.forall_mem_cons] at h
    have hname : ¬Path.isAbsolute name = true := by
      obtain ⟨c, rest, rfl⟩ := List.exists_cons_of_ne_nil h.1.1
      have hc : c ≠ '/' := fun hc => h.1.2 (hc ▸ List.mem_cons_self)
      simp [Path.isAbsolute, hc]
    have hslash : ¬(name.getLast? == some '/') = true := by
      rw [beq_iff_eq]
      exact fun hlast => h.1.2 (List.mem_of_getLast? hlast)
    have hend : Path.endsWithSlash ('/' :: name) = false := by
      rw [Path.endsWithSlash, ← List.singleton_append, List.getLast?_append_of_ne_nil _ h.1.1]
      simpa using hslash
    rw [List.foldl_cons, spell, join_slash_cons]
    cases rooted with
    | true =>
      have hjoin : Path.join ['/'] name = '/' :: name := by
        rw [Path.join, if_neg hname]
        rfl
      rw [if_pos rfl, if_pos rfl, hjoin, foldl_join_of_isPart (List.cons_ne_nil _ _) hend h.2,
        List.cons_append]
    | false =>
      have hjoin : Path.join [] name = name := by
        rw [Path.join, if_neg hname]
        rfl
      rw [if_neg (by decide), if_neg (by decide), hjoin,
        foldl_join_of_isPart h.1.1 (by simpa [Path.endsWithSlash] using hslash) h.2]

theorem isPart_of_isName (h : Path.IsName name) :
  IsPart name
  := ⟨h.isPlain.1, h.slash_notMem⟩

theorem Adds.isPart {step : Segment} (h : Adds step names) :
  ∀ name ∈ names, IsPart name
  := by
  cases h with
  | anyDepth h => exact fun name hname => isPart_of_isName (h name hname)
  | spelled _ h =>
    rw [List.forall_mem_singleton]
    obtain rfl | rfl | hname := h
    · exact ⟨by decide, by decide⟩
    · exact ⟨by decide, by decide⟩
    · exact isPart_of_isName hname
  | matched _ h =>
    rw [List.forall_mem_singleton]
    exact isPart_of_isName h

theorem AddsAll.isPart {steps : List Segment} (h : AddsAll steps names) :
  ∀ name ∈ names, IsPart name
  := by
  induction h with
  | nil => exact List.forall_mem_nil _
  | cons h _ ih =>
    rw [List.forall_mem_append]
    exact ⟨h.isPart, ih⟩

section

variable {here : Place} {root pattern : Text} {paths : List Text}

theorem Route.start?_eq_some {r : Route} (hp : here.IsProper) (h : r.start? here root = some f) :
  f.path = (if r.rooted then ['/'] else []) ∧ f.place.IsProper
  := by
  unfold Route.start? at h
  split at h
  · rename_i hrooted
    cases h
    rw [if_pos hrooted]
    exact ⟨rfl, hp.root⟩
  · rename_i hrooted
    rw [if_neg hrooted]
    split at h
    · cases h
    · rename_i directory hfollow
      split at h
      · cases h
        exact ⟨rfl, Place.isProper_of_follow hp hfollow⟩
      · cases h

/-- A route finds paths of names, and of the dots that it spells out. -/
theorem Route.exists_of_mem_find? {r : Route} (hp : here.IsProper)
    (h : r.find? here root = .ok paths) (hpath : path ∈ paths) :
  path ≠ [] ∧ ∃ names, AddsAll r.steps names ∧ path = spell r.rooted names
  := by
  unfold Route.find? at h
  split at h
  · cases h
  · cases h
    obtain ⟨hmem, hne⟩ := List.mem_filter.mp hpath
    obtain ⟨g, hg, rfl⟩ := List.mem_map.mp hmem
    have hstart : ∀ f ∈ (r.start? here root).toList,
        f.path = (if r.rooted then ['/'] else []) ∧ f.place.IsProper :=
      fun f hf => Route.start?_eq_some hp (Option.mem_toList.mp hf)
    obtain ⟨f, hf, names, hadds, hbehind⟩ := exists_of_mem_search (fun f hf => (hstart f hf).2) hg
    refine ⟨by simpa using hne, names, hadds, ?_⟩
    rw [hbehind.1, (hstart f hf).1, foldl_join_eq_spell _ hadds.isPart]

/-- A pattern finds what the routes of the patterns find that it stands for. -/
theorem exists_of_mem_search? (hp : here.IsProper) (h : search? here root pattern = .ok paths)
    (hpath : path ∈ paths) :
  ∃ texts, expand pattern = .ok texts ∧ ∃ text ∈ texts, ∃ r, Route.ofText? text = some r
    ∧ path ≠ [] ∧ ∃ names, AddsAll r.steps names ∧ path = spell r.rooted names
  := by
  obtain ⟨texts, htexts, h⟩ := exists_of_bind_eq_ok h
  obtain ⟨found, hfound, h⟩ := exists_of_bind_eq_ok h
  cases h
  obtain ⟨ofRoute, hmem, hpath⟩ := List.mem_flatten.mp hpath
  obtain ⟨r, hr, hfind⟩ := exists_of_mem_mapM hfound hmem
  obtain ⟨text, htext, hroute⟩ := List.mem_filterMap.mp hr
  exact ⟨texts, htexts, text, htext, r, hroute, Route.exists_of_mem_find? hp hfind hpath⟩

end

end Glob

end ImportCensus
