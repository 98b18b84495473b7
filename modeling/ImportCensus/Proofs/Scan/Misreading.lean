import ImportCensus.Proofs.Scan.Names

/-!
# Words behind a veil

The readers look forward through comments as they look through spaces, but what stands before a
word is told from the raw characters: a comment that ends in a dot makes the word behind it look
like the name of a property, and a comment behind a dot hides the dot.  A step is the same behind a
veil unless it is misled in this way about a word that may begin a declaration.
-/

namespace ImportCensus.Scan

open Segment (of)

/-- A trail with its comments veiled. -/
def Trail.veiled (before : Trail) : Trail where
  characters := Segment.veiled before.characters
  length := before.length
  length_eq := by simp [before.length_eq]

@[simp]
theorem Trail.veiled_pass (before : Trail) (segment : Segment) :
  (before.pass segment).veiled = before.veiled.pass segment.veiled
  := by
  ext1
  simp [veiled, pass, Segment.veiled]

@[simp]
theorem Trail.veiled_empty :
  empty.veiled = empty
  := by
  ext1
  rfl

@[simp]
theorem Trail.length_veiled (before : Trail) :
  before.veiled.length = before.length
  := rfl

namespace State

/-- The state in front of a text when the comments passed have been veiled. -/
def veiled (s : State) (rest : Text) : State :=
  { s with cursor := ⟨s.cursor.before.veiled, rest⟩ }

/-- Whether a dynamic import or a declaration may begin with the word in front of a state: the word
stands where the scanner would read it as a keyword, if it were not behind a dot, and what follows
is more than a plain name would be read alike, also with the names of a list behind it. -/
inductive MayDeclare (s : State) : Prop where
  | dynamic {gap : Segment} {rest : Text}
      (hr : s.cursor.rest = importWord ++ (gap.text ++ '(' :: rest))
      (hw : IsWord importWord (gap.text ++ '(' :: rest)) (hg : Trivia gap ('(' :: rest))
  | importing {gap : Segment} {rest : Text} (hf : s.frames = [])
      (hr : s.cursor.rest = importWord ++ (gap.text ++ rest))
      (hw : IsWord importWord (gap.text ++ rest)) (hg : Trivia gap rest)
      (hd : rest.head? ≠ some '.') (hn : ¬ImportsNames rest)
  | exporting {gap : Segment} {rest : Text} (hf : s.frames = [])
      (hr : s.cursor.rest = exportWord ++ (gap.text ++ rest))
      (hw : IsWord exportWord (gap.text ++ rest)) (hg : Trivia gap rest)
      (hc : rest.head? = some '*' ∨ rest.head? = some '{' ∨ rest.head? = some '/')
      (hn : ¬ExportsNames rest)

/-- Whether a comment misleads the scanner about the word in front of a state. -/
def Misreads (s : State) : Prop :=
  s.MayDeclare ∧ afterDot s.cursor.before.veiled ≠ afterDot s.cursor.before

/-- Where no comment misleads the scanner about a word, a veil leaves the dot in front of it as it is. -/
theorem afterDot_veiled {s : State} (hm : ¬s.Misreads) (hmay : s.MayDeclare) :
  afterDot s.cursor.before.veiled = afterDot s.cursor.before
  := by
  by_contra hd
  apply hm ⟨hmay, hd⟩

/-- What the scanner finds from a state on. -/
def imports (s : State) : Except ScanError (List Occurrence) :=
  s.run.map found

end State

section

variable {s n f : State} {segment tail : Segment} {rest : Text}

/-- What a step finds with veiled comments is found from the state behind it. -/
theorem State.imports_veiled_of_step {veiled : Segment}
    (hs : ∀ text, Step (s.veiled text) veiled (n.veiled tail.veiled.text))
    (hv : segment.veiled = veiled) :
  (s.veiled (segment ++ tail).veiled.text).imports = (n.veiled tail.veiled.text).imports
  := by
  subst hv
  rw [State.imports, State.imports, (hs _).run_eq]
  simp [State.veiled]

/-- Blanks do not change where the scanner ends. -/
theorem Segment.IsBlank.run_eq {blanks : Segment} (hb : blanks.IsBlank)
    (hr : s.cursor.rest = blanks.text ++ rest) :
  s.run = (s.moved blanks rest s.expects).run
  := by
  apply State.run_of_spaces _ hr
  intro passed hp
  obtain ⟨hcode, hblank⟩ := hb passed hp
  exact ⟨hcode, (isSpace_of_blank hblank).1⟩

/-- A run passes the spaces and comments in front of it, and what is behind them is marked. -/
theorem Run.exists_gap (h : Run s tail f) (hr : s.cursor.rest = rest) :
  ∃ gap behind : Segment, Trivia gap behind.text ∧ tail = gap ++ behind
    ∧ gap.text ++ behind.text = rest ∧ behind.Marked
  := by
  have hrest := h.rest_eq
  obtain ⟨gap, behind, hg, rfl, hbehind⟩ := h.exists_trivia
  rw [hr, Segment.text_append] at hrest
  exact ⟨gap, behind, hg, rfl, hrest.symm, hbehind.marked⟩

/-- A veiled gap is passed. -/
theorem State.imports_veiled_gap {gap : Segment} (hg : Trivia gap tail.text) (ht : tail.Marked) :
  (s.veiled (Segment.veiled (gap ++ tail)).text).imports
    = ((s.moved gap tail.text s.expects).veiled tail.veiled.text).imports
  := by
  have hskip := (hg.veiled rfl ht).run_eq (s := s.veiled (Segment.veiled (gap ++ tail)).text)
    (by simp [State.veiled])
  rw [State.imports, State.imports, hskip]
  simp [State.veiled, State.moved, State.goto]

/-- A word is read as a name behind a veil, if it begins nothing else there. -/
theorem State.imports_veiled_name {name : Text} (hw : IsWord name tail.text)
    (hs : stops isSpace name = true)
    (hi : name = importWord → afterDot s.cursor.before.veiled = true)
    (he : name = exportWord → s.frames = [] → afterDot s.cursor.before.veiled = true) :
  (s.veiled (Segment.veiled (of .code name ++ tail)).text).imports
    = ((s.moved (of .code name) tail.text (expectsBehindWord name)).veiled
        tail.veiled.text).imports
  := by
  apply State.imports_veiled_of_step _ (Segment.veiled_of (by simp) name)
  intro text
  simpa [State.veiled, State.moved, State.goto] using
    @Step.name (s.veiled text) name tail.veiled.text (hw.veiled rfl) hs hi he

/-- What is expected in front of a settled text counts only if the text begins with a slash. -/
theorem State.imports_veiled_expects (ht : tail.Marked) (hs : isSettled tail.text = true)
    (hslash : tail.text.head? ≠ some '/') (expects expects' : Expectation) :
  ((s.moved segment tail.text expects).veiled tail.veiled.text).imports
    = ((s.moved segment tail.text expects').veiled tail.veiled.text).imports
  := by
  obtain ⟨hsettled, hhead⟩ := ht.isSettled_veiled hs
  rw [← hhead] at hslash
  exact (@State.found_run_with_expects
    ((s.moved segment tail.text expects).veiled tail.veiled.text) hsettled hslash expects').symm

/-! ### Exports behind a veil -/

/-- Where no source of an export is found, the run tells what stands there instead. -/
theorem ExportSource.veiled {specifier : Option Text} (h : ExportSource segment specifier rest)
    (hrun : Run s tail f) (hr : s.cursor.rest = rest) :
  ExportSource segment.veiled specifier tail.veiled.text
  := by
  cases h with
  | missing hg h =>
    obtain ⟨behind, rfl, rfl, hbehind⟩ := hrun.behind_trivia hg hr
    have hmarked := hbehind.marked
    simpa using ExportSource.missing (hg.veiled rfl hmarked)
      (hmarked.beginsWord_veiled (by decide) h)
  | @loneFrom trivia gap rest ht hw hg hq =>
    have hword : IsWord fromWord (gap.text ++ rest) := .mk (by decide) (by decide) hw
    obtain ⟨_, -, rfl, hfrom⟩ := hrun.behind_trivia ht hr
    obtain ⟨_, -, rfl, hgap⟩ := hfrom.behind_word hword (by decide) (by decide) (by decide) rfl
    obtain ⟨tail, rfl, rfl, hbehind⟩ := hgap.behind_trivia hg rfl
    have hmarked := hbehind.marked
    have hstops : stops isIdentifierPart (gap.veiled.text ++ tail.veiled.text) = true := by
      simpa using Segment.stops_veiled (by decide)
        (show stops isIdentifierPart (Segment.text (gap ++ tail)) = true by simpa using hw)
    have htrivia : Trivia trivia.veiled
        (fromWord ++ (gap.veiled.text ++ tail.veiled.text)) := by
      simpa using ht.veiled (show _ = Segment.text (of .code fromWord ++ (gap ++ tail)) by simp)
        ((Segment.marked_of (by simp) fromWord).append (hg.marked.append hmarked))
    simpa using ExportSource.loneFrom htrivia hstops (hg.veiled rfl hmarked)
      (Segment.beginsQuote_veiled hq)
  | @specifier trivia gap quote body rest ht hw hg hq hb =>
    obtain rfl : rest = tail.text := hr.symm.trans hrun.rest_eq
    have hmarked := (Segment.marked_string quote body).append hrun.marked
    have hstops : stops isIdentifierPart
        (gap.veiled.text ++ ((Segment.string quote body).text ++ tail.veiled.text)) = true := by
      simpa using Segment.stops_veiled (by decide)
        (show stops isIdentifierPart
          (Segment.text (gap ++ (Segment.string quote body ++ tail))) = true by simpa using hw)
    have hgap : Trivia gap.veiled ((Segment.string quote body).text ++ tail.veiled.text) := by
      simpa using hg.veiled
        (show _ = Segment.text (Segment.string quote body ++ tail) by simp) hmarked
    have htrivia : Trivia trivia.veiled
        (fromWord ++ (gap.veiled.text
          ++ ((Segment.string quote body).text ++ tail.veiled.text))) := by
      simpa using ht.veiled
        (show _ = Segment.text
          (of .code fromWord ++ (gap ++ (Segment.string quote body ++ tail))) by simp)
        ((Segment.marked_of (by simp) fromWord).append (hg.marked.append hmarked))
    simpa using ExportSource.specifier htrivia hstops hgap hq hb

/-- A clause of an export is one behind a veil. -/
theorem ExportClause.veiled {specifier : Option Text} (h : ExportClause segment specifier rest)
    (hrun : Run s tail f) (hr : s.cursor.rest = rest) :
  ExportClause segment.veiled specifier tail.veiled.text
  := by
  obtain rfl : rest = tail.text := hr.symm.trans hrun.rest_eq
  have hmarked := hrun.marked
  cases h with
  | other ht hs hb =>
    exact .other (ht.veiled rfl hmarked) (Segment.head?_veiled_ne (by decide) hs)
      (Segment.head?_veiled_ne (by decide) hb)
  | @star trivia gap naming source specifier _ ht hg ha hs =>
    have hsource := hs.veiled hrun hr
    have hmarked := hs.marked.append hmarked
    have hnaming : Alias naming.veiled (source.veiled.text ++ tail.veiled.text) := by
      simpa using ha.veiled (show _ = Segment.text (source ++ tail) by simp) hmarked
    have hmarked := ha.marked.append hmarked
    have hgap : Trivia gap.veiled
        (naming.veiled.text ++ (source.veiled.text ++ tail.veiled.text)) := by
      simpa using hg.veiled (show _ = Segment.text (naming ++ (source ++ tail)) by simp) hmarked
    have htrivia : Trivia trivia.veiled ('*' :: (gap.veiled.text
        ++ (naming.veiled.text ++ (source.veiled.text ++ tail.veiled.text)))) := by
      simpa using ht.veiled
        (show _ = Segment.text (('*', .code) :: (gap ++ (naming ++ (source ++ tail)))) by simp)
        (.cons (by simp) (hg.marked.append hmarked))
    simpa using ExportClause.star htrivia hgap hnaming hsource
  | @braces trivia braces source specifier _ ht hb hs =>
    have hsource := hs.veiled hrun hr
    have hmarked := hs.marked.append hmarked
    have hbraces : Braces braces.veiled (source.veiled.text ++ tail.veiled.text) := by
      simpa using hb.veiled (show _ = Segment.text (source ++ tail) by simp)
    have htrivia : Trivia trivia.veiled
        ('{' :: (braces.veiled.text ++ (source.veiled.text ++ tail.veiled.text))) := by
      simpa using ht.veiled
        (show _ = Segment.text (('{', .code) :: (braces ++ (source ++ tail))) by simp)
        (.cons (by simp) (hb.marked.append hmarked))
    simpa using ExportClause.braces htrivia hbraces hsource

/-! ### Lists behind a veil -/

section

variable {gap listing : Segment}

/-- A clause that finds nothing ends in front of a settled text. -/
theorem ImportClause.settled_of_none (h : ImportClause segment none rest) :
  isSettled rest = true
  := by
  generalize hs : none = specifier at h
  induction h with
  | stop ht => exact ht.isSettled
  | braces _ _ _ ih => exact ih hs
  | mark _ _ _ ih => exact ih hs
  | word _ _ _ _ ih => exact ih hs
  | loneFrom _ _ _ _ _ ih => exact ih hs
  | specifier => cases hs

/-- Names are passed one by one, also behind a veil, and what is expected then does not count. -/
theorem State.imports_veiled_names (hl : Names listing tail.text) (ht : tail.Marked)
    (hs : isSettled tail.text = true) (hslash : tail.text.head? ≠ some '/')
    (expects : Expectation) :
  (s.veiled (Segment.veiled (listing ++ tail)).text).imports
    = ((s.moved listing tail.text expects).veiled tail.veiled.text).imports
  := by
  have hveiled : Names listing.veiled tail.veiled.text := hl.veiled rfl
  obtain ⟨expects', hgets⟩ := hveiled.getsTo
    (s := s.veiled (Segment.veiled (listing ++ tail)).text) (by simp [State.veiled])
  rw [← State.imports_veiled_expects ht hs hslash expects' expects, State.imports, State.imports,
    hgets.run_eq]
  simp [State.veiled, State.moved, State.goto]

/-- Names in curly brackets are passed one by one, also behind a veil. -/
theorem State.imports_veiled_curly (hl : Names listing ('}' :: tail.text)) :
  (s.veiled (Segment.veiled (Segment.curly listing ++ tail)).text).imports
    = ((s.moved (Segment.curly listing) tail.text .operand).veiled tail.veiled.text).imports
  := by
  have hveiled : Names listing.veiled ('}' :: tail.veiled.text) := by
    simpa using hl.veiled (show _ = Segment.text (('}', .code) :: tail) by simp)
  have hgets := hveiled.getsTo_curly
    (s := s.veiled (Segment.veiled (Segment.curly listing ++ tail)).text) (by simp [State.veiled])
  rw [State.imports, State.imports, hgets.run_eq]
  simp [State.veiled, State.moved, State.goto]

end

/-! ### Declarations behind a veil -/

section

variable {gap : Segment} {specifier : Option Text}

/-- A declaration that finds nothing leaves the state as it is. -/
@[simp]
theorem State.declared_none (s : State) (segment : Segment) (rest : Text) (expects : Expectation) :
  s.declared segment rest none expects = s.moved segment rest expects
  := by
  simp [declared, declare, moved, goto, Declaration.behind]

/-- An import is read as one where a veil shows no dot in front of it. -/
theorem State.imports_veiled_importClause (ht : tail.Marked) (hf : s.frames = [])
    (hw : IsWord importWord (gap.text ++ (segment.text ++ tail.text)))
    (hg : Trivia gap (segment.text ++ tail.text))
    (hq : beginsQuote (segment.text ++ tail.text) = false)
    (hp : (segment.text ++ tail.text).head? ≠ some '('
      ∧ (segment.text ++ tail.text).head? ≠ some '.')
    (hc : ImportClause segment specifier tail.text)
    (hd : afterDot s.cursor.before.veiled = false) :
  (s.veiled (Segment.veiled ((of .code importWord ++ (gap ++ segment)) ++ tail)).text).imports
    = ((s.declared (of .code importWord ++ (gap ++ segment)) tail.text specifier .operator).veiled
        tail.veiled.text).imports
  := by
  have hmarked := hc.marked.append ht
  have hword : IsWord importWord
      (gap.veiled.text ++ (segment.veiled.text ++ tail.veiled.text)) := by
    simpa using hw.veiled (show _ = Segment.text (gap ++ (segment ++ tail)) by simp)
  have hgap : Trivia gap.veiled (segment.veiled.text ++ tail.veiled.text) := by
    simpa using hg.veiled (show _ = Segment.text (segment ++ tail) by simp) hmarked
  rw [← Segment.text_append] at hq hp
  have hquote : beginsQuote (segment.veiled.text ++ tail.veiled.text) = false := by
    simpa using Segment.beginsQuote_veiled hq
  have hround := Segment.head?_veiled_ne (by decide) hp.1
  have hproperty := Segment.head?_veiled_ne (by decide) hp.2
  rw [Segment.veiled_append, Segment.text_append] at hround hproperty
  apply State.imports_veiled_of_step _
    (show _ = of .code importWord ++ (gap.veiled ++ segment.veiled) by simp)
  intro text
  simpa [State.veiled, State.declared, State.declare, Declaration.behind] using
    @Step.importClause (s.veiled text) gap.veiled segment.veiled specifier tail.veiled.text hd hf
      hword hgap hquote ⟨hround, hproperty⟩ (hc.veiled rfl ht)

/-- An export is read as one where a veil shows no dot in front of it. -/
theorem State.imports_veiled_exportClause (hf : s.frames = [])
    (hw : IsWord exportWord (segment.text ++ tail.text))
    (hc : ExportClause segment.veiled specifier tail.veiled.text)
    (hd : afterDot s.cursor.before.veiled = false) :
  (s.veiled (Segment.veiled ((of .code exportWord ++ segment) ++ tail)).text).imports
    = ((s.declared (of .code exportWord ++ segment) tail.text specifier
        (expectsBehindExport specifier)).veiled tail.veiled.text).imports
  := by
  apply State.imports_veiled_of_step _ (show _ = of .code exportWord ++ segment.veiled by simp)
  intro text
  simpa [State.veiled, State.declared, State.declare, Declaration.behind] using
    @Step.exportClause (s.veiled text) segment.veiled specifier tail.veiled.text hd hf
      hw.veiled_gap hc

end

/-! ### Words that are read alike -/

@[simp]
theorem expectsBehindWord_import :
  expectsBehindWord importWord = .operator
  := by
  decide

@[simp]
theorem expectsBehindWord_export :
  expectsBehindWord exportWord = .operator
  := by
  decide

/-- What makes the word `import` no more than a name. -/
def State.ReadsProperty (s : State) (rest : Text) : Prop :=
  rest.head? = some '.' ∨ s.frames ≠ [] ∧ rest.head? ≠ some '('

section

variable {gap : Segment}

/-- The word `import` is no more than a name, or names are imported behind it. -/
theorem State.readsProperty_or_of_not_mayDeclare
    (hr : s.cursor.rest = importWord ++ (gap.text ++ rest))
    (hw : IsWord importWord (gap.text ++ rest)) (hg : Trivia gap rest) (hm : ¬s.MayDeclare) :
  s.ReadsProperty rest
    ∨ s.frames = [] ∧ (rest.head? ≠ some '(' ∧ rest.head? ≠ some '.') ∧ ImportsNames rest
  := by
  have hround : rest.head? ≠ some '(' := by
    intro hround
    obtain ⟨behind, rfl⟩ := List.head?_eq_some_iff.mp hround
    exact hm (.dynamic hr hw hg)
  by_cases hd : rest.head? = some '.'
  · exact .inl (.inl hd)
  by_cases hf : s.frames = []
  · right
    refine ⟨hf, ⟨hround, hd⟩, ?_⟩
    by_contra hn
    exact hm (.importing hf hr hw hg hd hn)
  · exact .inl (.inr ⟨hf, hround⟩)

/-- A run over a gap goes on with what can be passed behind it. -/
theorem Run.exists_behind_gap {behind passed : Segment} (h : Run s (gap ++ behind) f)
    (hg : Trivia gap rest) (hr : s.cursor.rest = gap.text ++ rest)
    (hp : GetsTo (s.moved gap rest s.expects) passed n) :
  ∃ tail, behind = passed ++ tail ∧ n.cursor.rest = tail.text ∧ Run n tail f
  := by
  obtain ⟨tail, htail, hrun⟩ := ((hg.getsTo hr).trans hp).exists_run h
  rw [List.append_assoc, List.append_cancel_left_eq] at htail
  exact ⟨tail, htail, hrun.rest_eq, hrun⟩

/-- A property `import` is read as one where a veil shows no dot in front of it. -/
theorem State.imports_veiled_property (ht : tail.Marked)
    (hw : IsWord importWord (gap.text ++ tail.text)) (hg : Trivia gap tail.text)
    (hp : s.ReadsProperty tail.text) (hd : afterDot s.cursor.before.veiled = false) :
  (s.veiled (Segment.veiled ((of .code importWord ++ gap) ++ tail)).text).imports
    = ((s.moved (of .code importWord ++ gap) tail.text .operator).veiled tail.veiled.text).imports
  := by
  obtain ⟨-, hhead⟩ := ht.isSettled_veiled hg.isSettled
  rw [State.ReadsProperty, ← hhead] at hp
  apply State.imports_veiled_of_step _ (show _ = of .code importWord ++ gap.veiled by simp)
  intro text
  simpa [State.veiled, State.moved, State.goto] using
    @Step.property (s.veiled text) gap.veiled tail.veiled.text hd hw.veiled_gap (hg.veiled rfl ht) hp

/-- A property `import` is read as one behind a veil, or as a name where the veil shows a dot in
front of it. -/
theorem State.imports_veiled_of_property (ht : tail.Marked)
    (hw : IsWord importWord (gap.text ++ tail.text)) (hg : Trivia gap tail.text)
    (hp : s.ReadsProperty tail.text) :
  (s.veiled (Segment.veiled ((of .code importWord ++ gap) ++ tail)).text).imports
    = ((s.moved (of .code importWord ++ gap) tail.text .operator).veiled tail.veiled.text).imports
  := by
  by_cases hd : afterDot s.cursor.before.veiled = true
  · rw [← Segment.text_append] at hw
    rw [List.append_assoc,
      State.imports_veiled_name hw (by decide) (fun _ => hd) (fun _ _ => hd),
      State.imports_veiled_gap hg ht, State.moved_moved]
    simp
  · rw [Bool.not_eq_true] at hd
    exact State.imports_veiled_property ht hw hg hp hd

/-- A name `import` behind a dot is read as a property where a veil hides the dot, or as an import
of the names behind it. -/
theorem State.imports_veiled_of_name_import
    (hrun : Run (s.moved (of .code importWord) rest .operator) tail f)
    (hr : s.cursor.rest = importWord ++ rest) (hw : IsWord importWord rest) (hm : ¬s.MayDeclare)
    (hd : afterDot s.cursor.before.veiled = false) :
  (s.veiled (Segment.veiled (of .code importWord ++ tail)).text).imports
    = ((s.moved (of .code importWord) rest .operator).veiled tail.veiled.text).imports
  := by
  obtain ⟨gap, behind, hg, rfl, rfl, hmarked⟩ := hrun.exists_gap rfl
  rw [← List.append_assoc, State.imports_veiled_gap hg hmarked, State.moved_moved]
  obtain hproperty | ⟨hf, hp, hq, listing, text, htext, hl, hc, hslash⟩ :=
    State.readsProperty_or_of_not_mayDeclare hr hw hg hm
  · exact State.imports_veiled_property hmarked hw hg hproperty hd
  · rw [htext] at hrun hg hw hp hq ⊢
    obtain ⟨expects, hgets⟩ := hl.getsTo
      (s := (s.moved (of .code importWord) (gap.text ++ (listing.text ++ text)) .operator).moved gap
        (listing.text ++ text) .operator) rfl
    obtain ⟨tail, rfl, rfl, hbehind⟩ := hrun.exists_behind_gap hg rfl hgets
    have himport := State.imports_veiled_importClause hbehind.marked hf hw hg hq hp hc hd
    rw [State.imports_veiled_names hl hbehind.marked hc.settled_of_none hslash .operator,
      State.moved_moved]
    simpa using himport

/-- The word `export` is no more than a name, apart from what it expects, or names are exported
behind it. -/
theorem State.head?_ne_or_of_not_mayDeclare (hf : s.frames = [])
    (hr : s.cursor.rest = exportWord ++ (gap.text ++ rest))
    (hw : IsWord exportWord (gap.text ++ rest)) (hg : Trivia gap rest) (hm : ¬s.MayDeclare) :
  (rest.head? ≠ some '*' ∧ rest.head? ≠ some '{' ∧ rest.head? ≠ some '/') ∨ ExportsNames rest
  := by
  rw [← not_or, ← not_or]
  by_contra hn
  rw [not_or, not_not] at hn
  exact hm (.exporting hf hr hw hg hn.1 hn.2)

/-- A name `export` behind a dot is read as an export where a veil hides the dot. -/
theorem State.imports_veiled_of_name_export
    (hrun : Run (s.moved (of .code exportWord) rest .operator) tail f)
    (hr : s.cursor.rest = exportWord ++ rest) (hw : IsWord exportWord rest) (hm : ¬s.MayDeclare)
    (hf : s.frames = []) (hd : afterDot s.cursor.before.veiled = false) :
  (s.veiled (Segment.veiled (of .code exportWord ++ tail)).text).imports
    = ((s.moved (of .code exportWord) rest .operator).veiled tail.veiled.text).imports
  := by
  obtain ⟨gap, behind, hg, rfl, rfl, hmarked⟩ := hrun.exists_gap rfl
  rw [← List.append_assoc, State.imports_veiled_gap hg hmarked, State.moved_moved]
  obtain ⟨hstar, hbrace, hslash⟩ | ⟨listing, text, htext, hl, hs⟩ :=
    State.head?_ne_or_of_not_mayDeclare hf hr hw hg hm
  · have hclause : ExportClause gap.veiled none behind.veiled.text :=
      .other (hg.veiled rfl hmarked) (Segment.head?_veiled_ne (by decide) hstar)
        (Segment.head?_veiled_ne (by decide) hbrace)
    rw [State.imports_veiled_exportClause hf hw hclause hd, State.declared_none]
    exact State.imports_veiled_expects hmarked hg.isSettled hslash _ _
  · rw [htext] at hrun hg hw ⊢
    have hgets := hl.getsTo_curly
      (s := (s.moved (of .code exportWord) (gap.text ++ '{' :: (listing.text ++ '}' :: text))
        .operator).moved gap ('{' :: (listing.text ++ '}' :: text)) .operator) rfl
    obtain ⟨tail, rfl, rfl, hbehind⟩ := hrun.exists_behind_gap hg rfl hgets
    have hclause := (ExportClause.of_names hg hl hs).veiled hbehind rfl
    have hexport := State.imports_veiled_exportClause hf (by simpa using hw) hclause hd
    rw [State.imports_veiled_curly hl, State.moved_moved]
    simpa [expectsBehindExport] using hexport

/-- An export without a clause is read as a name where a veil shows the dot in front of it. -/
theorem State.imports_veiled_of_export (ht : tail.Marked)
    (hw : IsWord exportWord (gap.text ++ tail.text)) (hg : Trivia gap tail.text)
    (hslash : tail.text.head? ≠ some '/') (hd : afterDot s.cursor.before.veiled = true) :
  (s.veiled (Segment.veiled ((of .code exportWord ++ gap) ++ tail)).text).imports
    = ((s.moved (of .code exportWord ++ gap) tail.text .operand).veiled tail.veiled.text).imports
  := by
  rw [← Segment.text_append] at hw
  rw [List.append_assoc,
    State.imports_veiled_name hw (by decide) (fun _ => hd) (fun _ _ => hd),
    State.imports_veiled_gap hg ht, State.moved_moved]
  exact State.imports_veiled_expects ht hg.isSettled hslash _ _

/-- An import of names is read as a name, and then the names, where a veil shows a dot in front. -/
theorem State.imports_veiled_of_importsNames {listing : Segment} (ht : tail.Marked)
    (hw : IsWord importWord (gap.text ++ (listing.text ++ tail.text)))
    (hg : Trivia gap (listing.text ++ tail.text)) (hl : Names listing tail.text)
    (hc : ImportClause listing none tail.text) (hslash : tail.text.head? ≠ some '/')
    (hd : afterDot s.cursor.before.veiled = true) :
  (s.veiled (Segment.veiled ((of .code importWord ++ (gap ++ listing)) ++ tail)).text).imports
    = ((s.moved (of .code importWord ++ (gap ++ listing)) tail.text .operator).veiled
        tail.veiled.text).imports
  := by
  rw [← Segment.text_append] at hg
  rw [← Segment.text_append, ← Segment.text_append] at hw
  rw [List.append_assoc, List.append_assoc,
    State.imports_veiled_name hw (by decide) (fun _ => hd) (fun _ _ => hd),
    State.imports_veiled_gap hg (hl.marked.append ht), State.moved_moved,
    State.imports_veiled_names hl ht hc.settled_of_none hslash .operator, State.moved_moved,
    List.append_assoc]

/-- An export of names is read as a name, and then the names, where a veil shows a dot in front. -/
theorem State.imports_veiled_of_exportsNames {listing : Segment} (ht : tail.Marked)
    (hw : IsWord exportWord ((gap ++ Segment.curly listing).text ++ tail.text))
    (hg : Trivia gap ('{' :: (listing.text ++ '}' :: tail.text)))
    (hl : Names listing ('}' :: tail.text)) (hd : afterDot s.cursor.before.veiled = true) :
  (s.veiled (Segment.veiled ((of .code exportWord ++ (gap ++ Segment.curly listing)) ++ tail)).text).imports
    = ((s.moved (of .code exportWord ++ (gap ++ Segment.curly listing)) tail.text .operand).veiled
        tail.veiled.text).imports
  := by
  have hmarked : (Segment.curly listing ++ tail).Marked := hl.marked_curly.append ht
  have hgap : Trivia gap (Segment.text (Segment.curly listing ++ tail)) := by simpa using hg
  rw [← Segment.text_append, List.append_assoc] at hw
  rw [List.append_assoc, List.append_assoc,
    State.imports_veiled_name hw (by decide) (fun _ => hd) (fun _ _ => hd),
    State.imports_veiled_gap hgap hmarked, State.moved_moved, State.imports_veiled_curly hl,
    State.moved_moved, List.append_assoc]

end

/-! ### Words behind a veil -/

section

variable {gap : Segment}

/-- A word that is no more than a name is one behind a veil, or finds nothing more there. -/
theorem State.imports_veiled_of_name {name : Text}
    (hrun : Run (s.moved (of .code name) rest (expectsBehindWord name)) tail f)
    (hr : s.cursor.rest = name ++ rest) (ht : rest = tail.text) (hw : IsWord name rest)
    (hs : stops isSpace name = true) (hi : name = importWord → afterDot s.cursor.before = true)
    (he : name = exportWord → s.frames = [] → afterDot s.cursor.before = true)
    (hm : ¬s.Misreads) :
  (s.veiled (Segment.veiled (of .code name ++ tail)).text).imports
    = ((s.moved (of .code name) rest (expectsBehindWord name)).veiled tail.veiled.text).imports
  := by
  by_cases himport : name = importWord ∧ afterDot s.cursor.before.veiled = false
  · obtain ⟨rfl, hd⟩ := himport
    rw [expectsBehindWord_import] at hrun ⊢
    apply State.imports_veiled_of_name_import hrun hr hw _ hd
    intro hmay
    apply hm ⟨hmay, by simp [hd, hi rfl]⟩
  by_cases hexport : name = exportWord ∧ s.frames = [] ∧ afterDot s.cursor.before.veiled = false
  · obtain ⟨rfl, hf, hd⟩ := hexport
    rw [expectsBehindWord_export] at hrun ⊢
    apply State.imports_veiled_of_name_export hrun hr hw _ hf hd
    intro hmay
    apply hm ⟨hmay, by simp [hd, he rfl hf]⟩
  subst ht
  apply State.imports_veiled_name hw hs
  · intro hname
    simpa [hname] using himport
  · intro hname hf
    simpa [hname, hf] using hexport

/-- A dynamic import is one behind a veil. -/
theorem State.imports_veiled_of_dynamic
    (hr : s.cursor.rest = importWord ++ (gap.text ++ '(' :: tail.text)) (ht : tail.Marked)
    (hw : IsWord importWord (gap.text ++ '(' :: tail.text)) (hg : Trivia gap ('(' :: tail.text))
    (hd : afterDot s.cursor.before = false) (hm : ¬s.Misreads) :
  (s.veiled (Segment.veiled
      ((of .code importWord ++ (gap ++ [('(', .code)])) ++ tail)).text).imports
    = ((s.enter (.bracket .round) (some s.cursor.before.length)
        (s.cursor.before.pass (of .code importWord ++ gap)) tail.text).veiled
          tail.veiled.text).imports
  := by
  have hdot := (State.afterDot_veiled hm (.dynamic hr hw hg)).trans hd
  have hword : IsWord importWord (gap.veiled.text ++ '(' :: tail.veiled.text) := by
    simpa using hw.veiled (show _ = Segment.text (gap ++ ('(', .code) :: tail) by simp)
  have hgap : Trivia gap.veiled ('(' :: tail.veiled.text) := by
    simpa using hg.veiled (show _ = Segment.text (('(', .code) :: tail) by simp)
      (.cons (by simp) ht)
  apply State.imports_veiled_of_step _
    (show _ = of .code importWord ++ (gap.veiled ++ [('(', .code)]) by simp)
  intro text
  simpa [State.veiled, State.enter] using
    @Step.dynamic (s.veiled text) gap.veiled tail.veiled.text hdot hword hgap

/-- An import of a specifier alone is one behind a veil. -/
theorem State.imports_veiled_of_bare {quote : Char} {body : Text}
    (hr : s.cursor.rest
      = importWord ++ (gap.text ++ ((Segment.string quote body).text ++ tail.text)))
    (ht : tail.Marked) (hf : s.frames = [])
    (hw : IsWord importWord (gap.text ++ ((Segment.string quote body).text ++ tail.text)))
    (hg : Trivia gap ((Segment.string quote body).text ++ tail.text)) (hq : isQuote quote = true)
    (hb : IsStringBody quote body) (hd : afterDot s.cursor.before = false) (hm : ¬s.Misreads) :
  (s.veiled (Segment.veiled
      ((of .code importWord ++ (gap ++ Segment.string quote body)) ++ tail)).text).imports
    = ((s.declared (of .code importWord ++ (gap ++ Segment.string quote body)) tail.text
        (some body) .operator).veiled tail.veiled.text).imports
  := by
  have hquote : ((Segment.string quote body).text ++ tail.text).head? ≠ some '.' := by
    rintro h
    cases h
    exact absurd hq (by decide)
  have hnames : ¬ImportsNames ((Segment.string quote body).text ++ tail.text) := by
    rintro ⟨hnone, -⟩
    exact absurd (hnone.symm.trans hq) (by decide)
  have hdot := (State.afterDot_veiled hm (.importing hf hr hw hg hquote hnames)).trans hd
  have hword : IsWord importWord
      (gap.veiled.text ++ ((Segment.string quote body).text ++ tail.veiled.text)) := by
    simpa using hw.veiled
      (show _ = Segment.text (gap ++ (Segment.string quote body ++ tail)) by simp)
  have hgap : Trivia gap.veiled ((Segment.string quote body).text ++ tail.veiled.text) := by
    simpa using hg.veiled (show _ = Segment.text (Segment.string quote body ++ tail) by simp)
      ((Segment.marked_string quote body).append ht)
  apply State.imports_veiled_of_step _
    (show _ = of .code importWord ++ (gap.veiled ++ Segment.string quote body) by simp)
  intro text
  simpa [State.veiled, State.declared, State.declare, Declaration.behind] using
    @Step.bare (s.veiled text) gap.veiled quote body tail.veiled.text hdot hf hword hgap hq hb

/-- An import with a clause is one behind a veil, or finds nothing there either. -/
theorem State.imports_veiled_of_importClause {specifier : Option Text}
    (hr : s.cursor.rest = importWord ++ (gap.text ++ (segment.text ++ tail.text)))
    (ht : tail.Marked) (hf : s.frames = [])
    (hw : IsWord importWord (gap.text ++ (segment.text ++ tail.text)))
    (hg : Trivia gap (segment.text ++ tail.text))
    (hq : beginsQuote (segment.text ++ tail.text) = false)
    (hp : (segment.text ++ tail.text).head? ≠ some '('
      ∧ (segment.text ++ tail.text).head? ≠ some '.')
    (hc : ImportClause segment specifier tail.text) (hd : afterDot s.cursor.before = false)
    (hm : ¬s.Misreads) :
  (s.veiled (Segment.veiled ((of .code importWord ++ (gap ++ segment)) ++ tail)).text).imports
    = ((s.declared (of .code importWord ++ (gap ++ segment)) tail.text specifier .operator).veiled
        tail.veiled.text).imports
  := by
  by_cases hv : afterDot s.cursor.before.veiled = true
  · have hmay : ¬s.MayDeclare := by
      intro hmay
      rw [State.afterDot_veiled hm hmay, hd] at hv
      cases hv
    obtain (hproperty | ⟨hframes, -⟩) | ⟨-, -, -, listing, text, htext, hl, hclause, hslash⟩ :=
      State.readsProperty_or_of_not_mayDeclare hr hw hg hmay
    · exact absurd hproperty hp.2
    · exact absurd hf hframes
    · have hstep := Step.importClause hd hf hw hg hq hp hc
      rw [htext] at hw hg hq hp
      have hnames := Step.importClause hd hf hw hg hq hp hclause
      obtain ⟨hsegment, hstate⟩ := hstep.deterministic hnames (by simp [htext])
      obtain rfl : segment = listing := by simpa using hsegment
      obtain rfl : text = tail.text := (congrArg (fun n => n.cursor.rest) hstate).symm
      rw [hstate, State.declared_none]
      exact State.imports_veiled_of_importsNames ht hw hg hl hclause hslash hv
  · rw [Bool.not_eq_true] at hv
    exact State.imports_veiled_importClause ht hf hw hg hq hp hc hv

/-- An export is one behind a veil, or finds nothing there either. -/
theorem State.imports_veiled_of_exportClause {specifier : Option Text} (hrun : Run n tail f)
    (hr : s.cursor.rest = exportWord ++ (segment.text ++ tail.text))
    (hn : n.cursor.rest = tail.text) (hf : s.frames = [])
    (hw : IsWord exportWord (segment.text ++ tail.text))
    (hc : ExportClause segment specifier tail.text) (hd : afterDot s.cursor.before = false)
    (hm : ¬s.Misreads) :
  (s.veiled (Segment.veiled ((of .code exportWord ++ segment) ++ tail)).text).imports
    = ((s.declared (of .code exportWord ++ segment) tail.text specifier
        (expectsBehindExport specifier)).veiled tail.veiled.text).imports
  := by
  by_cases hv : afterDot s.cursor.before.veiled = true
  · have hmay : ¬s.MayDeclare := by
      intro hmay
      rw [State.afterDot_veiled hm hmay, hd] at hv
      cases hv
    have hstep := Step.exportClause hd hf hw hc
    cases hc with
    | other ht hs hb =>
      obtain ⟨-, -, hslash⟩ | ⟨listing, text, htext, -⟩ :=
        State.head?_ne_or_of_not_mayDeclare hf hr hw ht hmay
      · rw [State.declared_none]
        exact State.imports_veiled_of_export hrun.marked hw ht hslash hv
      · rw [htext] at hb
        exact absurd rfl hb
    | star ht =>
      obtain ⟨hs, -⟩ | ⟨listing, text, htext, -⟩ :=
        State.head?_ne_or_of_not_mayDeclare hf (by simpa using hr) (by simpa using hw) ht hmay
      · exact absurd rfl hs
      · cases htext
    | @braces gap braces source _ _ ht hb hs =>
      obtain ⟨-, hbrace, -⟩ | ⟨listing, text, htext, hl, hs⟩ :=
        State.head?_ne_or_of_not_mayDeclare hf (by simpa using hr) (by simpa using hw) ht hmay
      · exact absurd rfl hbrace
      · rw [htext] at ht
        have hword : IsWord exportWord ((gap ++ Segment.curly listing).text ++ text) := by
          simpa [htext] using hw
        have hnames := Step.exportClause hd hf hword (.of_names ht hl hs)
        obtain ⟨hsegment, hstate⟩ := hstep.deterministic hnames (by simp [htext])
        obtain rfl : text = tail.text := (congrArg (fun n => n.cursor.rest) hstate).symm
        rw [hstate, hsegment, State.declared_none]
        exact State.imports_veiled_of_exportsNames hrun.marked hword ht hl hv
  · rw [Bool.not_eq_true] at hv
    exact State.imports_veiled_exportClause hf hw (hc.veiled hrun hn) hv

end

/-! ### Steps side by side -/

/-- Every step can be taken with veiled comments, if none misleads the scanner. -/
theorem Step.imports_veiled (hs : Step s segment n)
    (hr : s.cursor.rest = segment.text ++ n.cursor.rest) (hrun : Run n tail f)
    (hm : ¬s.Misreads) :
  (s.veiled (segment ++ tail).veiled.text).imports = (n.veiled tail.veiled.text).imports
  := by
  have hmarked := hrun.marked
  have hrest := hrun.rest_eq
  cases hs with
  | @space c rest hc =>
    apply State.imports_veiled_of_step _ rfl
    intro text
    exact @Step.space (s.veiled text) c tail.veiled.text hc
  | @comment comment rest hc =>
    have hblank := Segment.isBlank_veiled_comment comment
    rw [State.imports, State.imports, Segment.veiled_append, Segment.text_append,
      hblank.run_eq rfl]
    simp [State.veiled, State.moved, State.goto]
  | @division rest he hc =>
    apply State.imports_veiled_of_step _ rfl
    intro text
    rw [State.cursor_moved] at hrest
    subst hrest
    exact @Step.division (s.veiled text) tail.veiled.text he (Segment.beginsComment_cons_veiled hc)
  | @pattern body flags rest he hc hb hf hflags =>
    apply State.imports_veiled_of_step _ (Segment.veiled_pattern body flags)
    intro text
    rw [State.cursor_moved] at hrest
    subst hrest
    have hc' : beginsComment ('/' :: (body ++ '/' :: (flags ++ tail.veiled.text))) = false := by
      simpa using Segment.beginsComment_cons_veiled
        (show beginsComment ('/' :: Segment.text
          (of .pattern body ++ ('/', .code) :: (of .code flags ++ tail))) = false by simpa using hc)
    simpa [State.veiled, State.moved, State.goto] using
      @Step.pattern (s.veiled text) body flags tail.veiled.text he hc' hb hf
        (Segment.stops_veiled (by decide) hflags)
  | @string quote body rest hq hb =>
    apply State.imports_veiled_of_step _ (Segment.veiled_string quote body)
    intro text
    simpa [State.veiled, State.moved, State.goto] using
      @Step.string (s.veiled text) quote body tail.veiled.text hq hb
  | @literal chunk rest hc =>
    apply State.imports_veiled_of_step _
      (show _ = ('\x60', .code) :: Segment.chunk chunk .literal by simp)
    intro text
    simpa [State.veiled, State.moved, State.goto] using
      @Step.literal (s.veiled text) chunk tail.veiled.text hc
  | @substitution chunk rest hc =>
    apply State.imports_veiled_of_step _
      (show _ = ('\x60', .code) :: Segment.chunk chunk .substitution by simp)
    intro text
    simpa [State.veiled, State.enter] using
      @Step.substitution (s.veiled text) chunk tail.veiled.text hc
  | @opening b rest =>
    apply State.imports_veiled_of_step _ rfl
    intro text
    simpa [State.veiled, State.enter] using @Step.opening (s.veiled text) b tail.veiled.text
  | @closing b frame frames rest hf ho =>
    apply State.imports_veiled_of_step _ rfl
    intro text
    exact @Step.closing (s.veiled text) b frame frames tail.veiled.text hf ho
  | @resumeLiteral frame frames chunk rest hf ho hc =>
    apply State.imports_veiled_of_step _
      (show _ = ('}', .code) :: Segment.chunk chunk .literal by simp)
    intro text
    simpa [State.veiled, State.moved, State.goto, State.leave] using
      @Step.resumeLiteral (s.veiled text) frame frames chunk tail.veiled.text hf ho hc
  | @resumeSubstitution frame frames chunk rest hf ho hc =>
    apply State.imports_veiled_of_step _
      (show _ = ('}', .code) :: Segment.chunk chunk .substitution by simp)
    intro text
    simpa [State.veiled, State.enter, State.leave] using
      @Step.resumeSubstitution (s.veiled text) frame frames chunk tail.veiled.text hf ho hc
  | name hw hs hi he =>
    rw [State.cursor_moved] at hrest
    rw [State.cursor_moved, Segment.text_of] at hr
    apply State.imports_veiled_of_name hrun hr hrest hw hs hi he hm
  | dynamic hd hw hg =>
    rw [State.cursor_enter] at hrest hr
    subst hrest
    apply State.imports_veiled_of_dynamic (by simpa using hr) hmarked hw hg hd hm
  | property hd hw hg hp =>
    rw [State.cursor_moved] at hrest
    subst hrest
    apply State.imports_veiled_of_property hmarked hw hg hp
  | bare hd hf hw hg hq hb =>
    rw [State.cursor_declared] at hrest hr
    subst hrest
    apply State.imports_veiled_of_bare (by simpa using hr) hmarked hf hw hg hq hb hd hm
  | importClause hd hf hw hg hq hp hc =>
    rw [State.cursor_declared] at hrest hr
    subst hrest
    apply State.imports_veiled_of_importClause (by simpa using hr) hmarked hf hw hg hq hp hc hd hm
  | exportClause hd hf hw hc =>
    rw [State.cursor_declared] at hrest hr
    subst hrest
    apply State.imports_veiled_of_exportClause hrun (by simpa using hr) rfl hf hw hc hd hm
  | @number c digits rest hc ht hends =>
    apply State.imports_veiled_of_step _ (Segment.veiled_of (by simp) (c :: digits))
    intro text
    rw [State.cursor_moved] at hrest
    subst hrest
    have hc' : State.beginsNumber c (digits ++ tail.veiled.text) = true := by
      simpa using ((Segment.marked_of (by simp) digits).append hmarked).beginsNumber_veiled
        (show State.beginsNumber c (Segment.text (of .code digits ++ tail)) = true by
          simpa using hc)
    simpa [State.veiled, State.moved, State.goto] using
      @Step.number (s.veiled text) c digits tail.veiled.text hc' ht
        (Segment.stops_veiled (by decide) hends)
  | @mark c rest hc =>
    apply State.imports_veiled_of_step _ rfl
    intro text
    rw [State.cursor_moved] at hrest
    subst hrest
    have hc' : IsMark c tail.veiled.text :=
      { hc with not_number := Segment.beginsNumber_veiled_eq_false hc.not_number }
    exact @Step.mark (s.veiled text) c tail.veiled.text hc'

end

end ImportCensus.Scan
