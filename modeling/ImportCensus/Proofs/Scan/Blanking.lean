import ImportCensus.Proofs.Scan.Misreading

/-!
# Sources with blanked comments

Where no comment misleads the scanner about a word that may begin a declaration, blanking the
comments of a source changes none of its imports.  The proof runs the scanner on both sources side
by side, up to the first word that it is misled about.
-/

namespace ImportCensus.Scan

open Segment (of)

/-! ### Runs side by side -/

/-- The scanner gets from a state to another one, misled by no comment on the way. -/
inductive Reads : State → Segment → State → Prop where
  | here {s : State} :
    Reads s [] s
  | step {s n m : State} {segment tail : Segment} (hm : ¬s.Misreads) (hs : Step s segment n)
      (hr : s.cursor.rest = segment.text ++ n.cursor.rest) (h : Reads n tail m) :
    Reads s (segment ++ tail) m

section

variable {s m f : State} {passed segment tail : Segment}

/-- What is read is passed. -/
theorem Reads.getsTo (h : Reads s passed m) :
  GetsTo s passed m
  := by
  induction h with
  | here => exact .here
  | step hm hs hr h ih => exact .step hs hr ih

/-- As far as no comment misleads the scanner, it goes on with veiled comments as without. -/
theorem Reads.imports_veiled (h : Reads s passed m) (hrun : Run m tail f) :
  (s.veiled (passed ++ tail).veiled.text).imports = (m.veiled tail.veiled.text).imports
  := by
  induction h with
  | here => rfl
  | step hm hs hr h ih =>
    rw [List.append_assoc, hs.imports_veiled hr (h.getsTo.run hrun) hm, ih hrun]

/-- A run is misled at a first word, or nowhere. -/
theorem Run.reads_or (h : Run s segment f) :
  Reads s segment f ∨ ∃ passed m, Reads s passed m ∧ m.Misreads
  := by
  induction h with
  | finished => exact .inl .here
  | @step s n f segment tail hs hr h ih =>
    by_cases hm : s.Misreads
    · exact .inr ⟨[], s, .here, hm⟩
    obtain hreads | ⟨passed, m, hreads, hmisreads⟩ := ih
    · exact .inl (.step hm hs hr hreads)
    · exact .inr ⟨_, m, .step hm hs hr hreads, hmisreads⟩

end

/-! ### Sources side by side -/

/-- A source with its comments overwritten by spaces; what breaks a line is kept. -/
def blank (source : Text) : Text :=
  match parts source with
  | .error _ => source
  | .ok segment => Segment.text (Segment.veiled segment)

/-- The state in which the scanner of the blanked source comes to the word in front of a state. -/
def State.blanked (s : State) (source : Text) : State :=
  s.veiled ((blank source).drop s.cursor.position)

section

variable {hashbang segment : Segment} {f : State}

/-- Blanking a source veils what its run passes. -/
theorem blank_eq (hh : Hashbang hashbang segment.text)
    (hrun : Run (.behindHashbang hashbang segment.text) segment f) :
  blank (hashbang.text ++ segment.text) = hashbang.veiled.text ++ segment.veiled.text
  := by
  have hfinish : finish (hashbang.text ++ segment.text) = .ok f :=
    finish_eq_ok_iff.mpr ⟨hashbang, segment, hh, rfl, hrun⟩
  have hparts : parts (hashbang.text ++ segment.text) = .ok (hashbang ++ segment) := by
    rw [parts, hfinish]
    simp [Except.map, hrun.before_eq, State.behindHashbang, State.initial, Trail.pass, Trail.empty]
  rw [blank, hparts]
  simp

/-- The first line that is passed like a comment leaves blanks. -/
theorem Hashbang.isBlank_veiled {rest : Text} (h : Hashbang hashbang rest) :
  hashbang.veiled.IsBlank
  := by
  cases h with
  | missing =>
    intro passed hp
    cases hp
  | line => apply Segment.isBlank_veiled_comment _

/-- Behind a veil no first line is passed like a comment. -/
theorem Hashbang.veiled (h : Hashbang hashbang segment.text) :
  Hashbang [] (hashbang.veiled ++ segment.veiled).text
  := by
  apply Hashbang.missing
  cases h with
  | missing h =>
    intro hprefix
    apply h (Segment.prefix_of_veiled (by decide) hprefix)
  | line =>
    intro hprefix
    obtain ⟨rest, hrest⟩ := hprefix
    cases hrest

/-- The scanner comes through a blanked source as through the veiled run. -/
theorem scan_blank_eq (hh : Hashbang hashbang segment.text)
    (hrun : Run (.behindHashbang hashbang segment.text) segment f) :
  scan (blank (hashbang.text ++ segment.text))
    = ((State.behindHashbang hashbang segment.text).veiled segment.veiled.text).imports
  := by
  have hstart := hh.veiled.start_eq
  rw [Segment.text_nil, List.nil_append] at hstart
  rw [blank_eq hh hrun, scan, finish, ← Segment.text_append, hstart, State.imports,
    hh.isBlank_veiled.run_eq
      (show _ = hashbang.veiled.text ++ segment.veiled.text by simp [State.behindHashbang])]
  simp [State.behindHashbang, State.veiled, State.moved, State.goto, State.initial]

/-- Behind what is read right, the blanked source goes on like the veiled rest of the run. -/
theorem Reads.scan_blank {passed : Segment} {m : State} (hh : Hashbang hashbang segment.text)
    (hrun : Run (.behindHashbang hashbang segment.text) segment f)
    (h : Reads (.behindHashbang hashbang segment.text) passed m) :
  scan (blank (hashbang.text ++ segment.text))
    = (m.blanked (hashbang.text ++ segment.text)).imports
  := by
  obtain ⟨tail, rfl, htail⟩ := h.getsTo.exists_run hrun
  have hposition : m.cursor.position
      = (hashbang.veiled.text ++ (Segment.veiled passed).text).length := by
    simp [Cursor.position, h.getsTo.before_eq, State.behindHashbang, State.initial, Trail.empty]
  have hdrop : (blank (hashbang.text ++ (passed ++ tail).text)).drop m.cursor.position
      = tail.veiled.text := by
    rw [blank_eq hh hrun, hposition, Segment.veiled_append, Segment.text_append,
      ← List.append_assoc, List.drop_left]
  rw [scan_blank_eq hh hrun, h.imports_veiled htail, State.blanked, hdrop]

end

/-! ### Where imports begin -/

/-- The offsets at which the imports around the open levels begin. -/
def outerStarts : List Frame → List Nat
  | [] => []
  | frame :: frames =>
    outerStarts frames ++ (frame.outer.map Occurrence.statementStart ++ frame.importAt.toList)

/-- The offsets at which the imports begin that have been found or whose brackets are open. -/
def State.starts (s : State) : List Nat :=
  outerStarts s.frames ++ s.found.map Occurrence.statementStart

/-- Whether an import begins with the token in front of a state. -/
def State.BeginsImport (s : State) : Prop :=
  ∃ segment n, Step s segment n ∧ s.cursor.rest = segment.text ++ n.cursor.rest
    ∧ n.starts = s.starts ++ [s.cursor.position]

/-- No dynamic import has the brackets of a substitution. -/
def State.Opens (s : State) : Prop :=
  ∀ frame ∈ s.frames, frame.opener = .substitution → frame.importAt = none

section

variable {s n m f : State} {segment : Segment}

/-- Entering a level keeps dynamic imports out of substitutions. -/
theorem State.Opens.enter (h : s.Opens) {opener : Opener} {importAt : Option Nat}
    (ho : opener = .substitution → importAt = none) (before : Trail) (rest : Text) :
  (s.enter opener importAt before rest).Opens
  := by
  intro frame hframe
  rw [State.frames_enter, List.mem_cons] at hframe
  obtain rfl | hframe := hframe
  · exact ho
  · apply h frame hframe

/-- Leaving a level keeps dynamic imports out of substitutions. -/
theorem State.Opens.leave (h : s.Opens) {frame : Frame} {frames : List Frame}
    (hf : s.frames = frame :: frames) (found : List Occurrence) :
  (s.leave frame frames found).Opens
  := by
  intro outer houter
  rw [State.frames_leave] at houter
  apply h outer
  rw [hf]
  apply List.mem_cons_of_mem _ houter

/-- A step keeps dynamic imports out of substitutions. -/
theorem Step.opens (h : Step s segment n) (hs : s.Opens) :
  n.Opens
  := by
  cases h with
  | substitution => apply hs.enter (fun _ => rfl) _ _
  | opening => apply hs.enter (fun _ => rfl) _ _
  | closing hf => apply hs.leave hf []
  | resumeLiteral hf => apply hs.leave hf []
  | resumeSubstitution hf => exact (hs.leave hf _).enter (fun _ => rfl) _ _
  | dynamic => apply hs.enter (fun ho => absurd ho (by simp)) _ _
  | _ => exact hs

/-- One import begins in a step at most, where the step begins, and not behind a dot. -/
theorem Step.starts (h : Step s segment n) (hs : s.Opens) :
  n.starts = s.starts
    ∨ afterDot s.cursor.before = false ∧ n.starts = s.starts ++ [s.cursor.position]
  := by
  cases h with
  | dynamic hd =>
    right
    use hd
    simp [State.starts, outerStarts, Cursor.position]
  | bare hd =>
    right
    use hd
    simp [State.starts, Occurrence.ofSpecifier, Cursor.position]
  | @importClause _ _ specifier _ hd =>
    cases specifier with
    | none =>
      left
      simp [State.starts]
    | some =>
      right
      use hd
      simp [State.starts, Occurrence.ofSpecifier, Cursor.position]
  | @exportClause _ specifier _ hd =>
    cases specifier with
    | none =>
      left
      simp [State.starts]
    | some =>
      right
      use hd
      simp [State.starts, Occurrence.ofSpecifier, Cursor.position]
  | @closing _ frame _ _ hf =>
    left
    cases himport : frame.importAt with
    | none => simp [State.starts, outerStarts, hf, himport, Frame.occurrence?]
    | some => simp [State.starts, outerStarts, hf, himport, Frame.occurrence?]
  | @resumeLiteral frame _ _ _ hf ho =>
    left
    have himport := hs frame (by simp [hf]) ho
    simp [State.starts, outerStarts, hf, himport]
  | @resumeSubstitution frame _ _ _ hf ho =>
    left
    have himport := hs frame (by simp [hf]) ho
    simp [State.starts, outerStarts, hf, himport]
  | _ =>
    left
    simp [State.starts, outerStarts]

/-- A run finds imports that begin behind those found before it. -/
theorem Run.starts (h : Run s segment f) (hs : s.Opens) :
  ∃ later, f.starts = s.starts ++ later ∧ ∀ p ∈ later, s.cursor.position ≤ p
  := by
  induction h with
  | finished => exact ⟨[], by simp, by simp⟩
  | @step s n f segment tail hstep hr h ih =>
    obtain ⟨later, hlater, hle⟩ := ih (hstep.opens hs)
    have hlt := hstep.position_lt
    obtain hn | ⟨-, hn⟩ := hstep.starts hs
    · refine ⟨later, by rw [hlater, hn], ?_⟩
      intro p hp
      apply Nat.le_trans (Nat.le_of_lt hlt) (hle p hp)
    · refine ⟨s.cursor.position :: later, by simp [hlater, hn], ?_⟩
      intro p hp
      obtain rfl | hp := List.mem_cons.mp hp
      · apply Nat.le_refl _
      · apply Nat.le_trans (Nat.le_of_lt hlt) (hle p hp)

/-- An import begins at an offset of a source just where one begins with the token there. -/
theorem Run.position_mem_starts_iff (h : Run s segment f) (hs : s.Opens)
    (hlt : ∀ p ∈ s.starts, p < s.cursor.position) :
  s.cursor.position ∈ f.starts ↔ s.BeginsImport
  := by
  cases h with
  | finished hnil =>
    constructor
    · intro hmem
      exact absurd (hlt _ hmem) (Nat.lt_irrefl _)
    · rintro ⟨segment, n, hstep, hr, -⟩
      obtain ⟨c, tail, hc, -⟩ := hstep.step_eq
      rw [← hr, hnil] at hc
      cases hc
  | @step _ n _ segment tail hstep hr h =>
    obtain ⟨later, hlater, hle⟩ := h.starts (hstep.opens hs)
    have hposition := hstep.position_lt
    constructor
    · intro hmem
      refine ⟨segment, n, hstep, hr, ?_⟩
      obtain hn | ⟨-, hn⟩ := hstep.starts hs
      · rw [hlater, hn, List.mem_append] at hmem
        obtain hmem | hmem := hmem
        · exact absurd (hlt _ hmem) (Nat.lt_irrefl _)
        · exact absurd (hle _ hmem) (Nat.not_le_of_lt hposition)
      · exact hn
    · rintro ⟨segment', n', hstep', hr', hn⟩
      obtain ⟨-, rfl⟩ := hstep.deterministic hstep' (hr.symm.trans hr')
      rw [hlater, hn]
      simp

/-- The imports found up to a state that is read begin before it. -/
theorem Reads.starts_lt {passed : Segment} (h : Reads s passed m) (hs : s.Opens)
    (hlt : ∀ p ∈ s.starts, p < s.cursor.position) :
  m.Opens ∧ ∀ p ∈ m.starts, p < m.cursor.position
  := by
  induction h with
  | here => exact ⟨hs, hlt⟩
  | step hm hstep hr h ih =>
    apply ih (hstep.opens hs)
    intro p hp
    have hposition := hstep.position_lt
    obtain hn | ⟨-, hn⟩ := hstep.starts hs
    · rw [hn] at hp
      apply Nat.lt_trans (hlt p hp) hposition
    · rw [hn, List.mem_append, List.mem_singleton] at hp
      obtain hp | rfl := hp
      · apply Nat.lt_trans (hlt p hp) hposition
      · exact hposition

/-- At the end of a run no bracket is open, and every import that has begun is found. -/
theorem Run.starts_eq (h : Run s segment f) :
  f.starts = f.found.map Occurrence.statementStart
  := by
  rw [State.starts, h.final.2, outerStarts, List.nil_append]

/-- No import begins behind a dot. -/
theorem State.BeginsImport.afterDot_eq (h : s.BeginsImport) (hs : s.Opens) :
  afterDot s.cursor.before = false
  := by
  obtain ⟨segment, n, hstep, -, hn⟩ := h
  obtain hsame | ⟨hd, -⟩ := hstep.starts hs
  · rw [hsame] at hn
    simp at hn
  · exact hd

/-- A word about which a comment misleads the scanner begins an import in one reading at most. -/
theorem State.Misreads.not_both (hm : s.Misreads) (hs : s.Opens) (text : Text) :
  ¬(s.BeginsImport ∧ (s.veiled text).BeginsImport)
  := by
  rintro ⟨hbegins, hveiled⟩
  have hdot : afterDot s.cursor.before.veiled = false := hveiled.afterDot_eq hs
  apply hm.2
  rw [hdot, hbegins.afterDot_eq hs]

/-- The imports found up to a state of a source begin before it. -/
theorem Reads.starts_lt_of_start {source : Text} {passed : Segment}
    (h : Reads (.start source) passed m) :
  m.Opens ∧ ∀ p ∈ m.starts, p < m.cursor.position
  := by
  obtain ⟨hashbang, rest, hh, rfl⟩ := exists_hashbang source
  rw [hh.start_eq] at h
  apply h.starts_lt
  · simp [State.Opens, State.behindHashbang, State.initial]
  · simp [State.starts, outerStarts, State.behindHashbang, State.initial]

end

/-! ### Blanked sources -/

section

variable {source : Text} {occurrences : List Occurrence}

/-- Blanking the comments of a source changes its imports where, at a word up to which no comment
has misled the scanner, an import begins either with the comments or without them. -/
theorem scan_blank_ne {passed : Segment} {m : State} (h : scan source = .ok occurrences)
    (hreads : Reads (.start source) passed m)
    (hb : m.BeginsImport ↔ ¬(m.blanked source).BeginsImport) :
  scan (blank source) ≠ .ok occurrences
  := by
  intro hsame
  obtain ⟨hopens, hlt⟩ := hreads.starts_lt_of_start
  obtain ⟨f, hfinish, rfl⟩ := exists_of_map_eq_ok h
  obtain ⟨hashbang, segment, hh, rfl, hrun⟩ := finish_eq_ok_iff.mp hfinish
  rw [hh.start_eq] at hreads
  rw [hreads.scan_blank hh hrun] at hsame
  obtain ⟨f', hrun', hfound⟩ := exists_of_map_eq_ok hsame
  obtain ⟨tail, -, htail⟩ := hreads.getsTo.exists_run hrun
  obtain ⟨tail', htail'⟩ := exists_of_run hrun'
  have hbegins := htail.position_mem_starts_iff hopens hlt
  have hbegins' := htail'.position_mem_starts_iff hopens hlt
  rw [htail.starts_eq, hfound, ← htail'.starts_eq] at hbegins
  rw [← hbegins, ← hbegins'] at hb
  exact absurd hb (iff_not_self)

/-- Blanking the comments of a source leaves its imports as they are, if and only if no comment
misleads the scanner about a word that begins an import and, where one misleads it first about
another word of a declaration, the same imports are found when that word is read otherwise.  The
words in front of no more than names, as in `export { a, b }` or `import a = require('b')`, are not
among those words: they are read alike. -/
theorem scan_blank_iff (h : scan source = .ok occurrences) :
  scan (blank source) = .ok occurrences
    ↔ ∀ passed m, Reads (.start source) passed m → m.Misreads →
        ¬m.BeginsImport ∧ ¬(m.blanked source).BeginsImport
          ∧ (m.blanked source).imports = .ok occurrences
  := by
  constructor
  · intro hsame passed m hreads hm
    have hone : ¬(m.BeginsImport ↔ ¬(m.blanked source).BeginsImport) := by
      intro hb
      exact scan_blank_ne h hreads hb hsame
    have hboth : ¬(m.BeginsImport ∧ (m.blanked source).BeginsImport) :=
      hm.not_both hreads.starts_lt_of_start.1 _
    obtain ⟨f, hfinish, rfl⟩ := exists_of_map_eq_ok h
    obtain ⟨hashbang, segment, hh, rfl, hrun⟩ := finish_eq_ok_iff.mp hfinish
    rw [hh.start_eq] at hreads
    rw [hreads.scan_blank hh hrun] at hsame
    tauto
  · intro hsame
    obtain ⟨f, hfinish, rfl⟩ := exists_of_map_eq_ok h
    obtain ⟨hashbang, segment, hh, rfl, hrun⟩ := finish_eq_ok_iff.mp hfinish
    rw [hh.start_eq] at hsame
    obtain hreads | ⟨passed, m, hreads, hm⟩ := hrun.reads_or
    · obtain ⟨hnil, hframes⟩ := hrun.final
      have hend := hreads.imports_veiled (.finished hnil hframes)
      have hveiled : Run (f.veiled []) [] (f.veiled []) := .finished rfl hframes
      rw [List.append_nil, Segment.veiled_nil, Segment.text_nil] at hend
      rw [scan_blank_eq hh hrun, hend, State.imports, hveiled.run_eq]
      rfl
    · rw [hreads.scan_blank hh hrun]
      exact (hsame passed m hreads hm).2.2

/-- A comment in front of a dynamic import may be blanked. -/
theorem scan_blank_iff_comment_import :
  scan ("/**/import('x')").toList = .ok [⟨11, 14, 4, 15, true⟩]
    ∧ (scan (blank ("/**/import('x')").toList) = .ok [⟨11, 14, 4, 15, true⟩]
      ↔ ∀ passed m, Reads (.start ("/**/import('x')").toList) passed m → m.Misreads →
        ¬m.BeginsImport ∧ ¬(m.blanked ("/**/import('x')").toList).BeginsImport
          ∧ (m.blanked ("/**/import('x')").toList).imports = .ok [⟨11, 14, 4, 15, true⟩])
  := by
  have h : scan ("/**/import('x')").toList = .ok [⟨11, 14, 4, 15, true⟩] := by
    simp +decide [scan, finish, State.start, State.initial, State.run_cons, State.run_nil,
      State.step, State.slash, blockComment?, State.word, wordOf, behindWord, State.importStatement,
      skipTrivia_cons, readComment?, State.enter, readString, stringBody?, withFront,
      Bracket.ofOpening?, Bracket.ofClosing?, State.close, Frame.occurrence?, Except.map,
      Trail.empty, Trail.pass, of]
  exact ⟨h, scan_blank_iff h⟩

/-- A comment that ends in a dot makes the import behind it disappear. -/
theorem scan_blank_comment_dot :
  scan "//.\nimport a from 'x'".toList = .ok []
    ∧ scan (blank "//.\nimport a from 'x'".toList) = .ok [⟨19, 20, 4, 21, false⟩]
  := by
  have hparts : parts "//.\nimport a from 'x'".toList
      = .ok (of .comment "//.".toList ++ of .code "\nimport a from ".toList
          ++ Segment.string '\'' ['x']) := by
    simp +decide [parts, finish, State.start, State.initial, State.run_cons, State.run_nil,
      State.step, State.slash, lineComment, behindLine, State.word, wordOf, behindWord, readComment?,
      readString, stringBody?, withFront, Bracket.ofOpening?, Bracket.ofClosing?, Except.map,
      Trail.empty, Trail.pass, of, Segment.string, State.goto]
  have hblank : blank "//.\nimport a from 'x'".toList = "   \nimport a from 'x'".toList := by
    rw [blank, hparts]
    rfl
  have hspecifier : ImportClause
      (of .code [' '] ++ (of .code fromWord ++ (of .code [' '] ++ Segment.string '\'' ['x'])))
      (some ['x']) [] :=
    .specifier (.space rfl (.settled rfl)) (.mk rfl rfl rfl) (.space rfl (.settled rfl)) rfl rfl
  have hclause : ImportClause
      ([] ++ (of .code ['a'] ++ (of .code [' '] ++ (of .code fromWord
        ++ (of .code [' '] ++ Segment.string '\'' ['x'])))))
      (some ['x']) [] :=
    .word (.settled rfl) (.mk rfl rfl rfl) (by decide) hspecifier
  have hread : ∀ statementStart before, importClause statementStart before
      ['a', ' ', 'f', 'r', 'o', 'm', ' ', '\'', 'x', '\''] = _ := hclause.importClause_eq
  constructor
  · simp +decide [scan, finish, State.start, State.initial, State.run_cons, State.run_nil,
      State.step, State.slash, lineComment, behindLine, State.word, wordOf, behindWord, readComment?,
      readString, stringBody?, withFront, Bracket.ofOpening?, Bracket.ofClosing?, Except.map,
      Trail.empty, Trail.pass, of, State.goto]
  · rw [hblank]
    simp +decide [scan, finish, State.start, State.initial, State.run_cons, State.run_nil,
      State.step, State.word, wordOf, behindWord, State.importStatement, skipTrivia_cons, readComment?,
      Bracket.ofOpening?, Bracket.ofClosing?, Except.map, Trail.empty, Trail.pass, of, hread,
      State.declare, Declaration.behind, Occurrence.ofSpecifier]

end

end ImportCensus.Scan
