import ImportCensus.Proofs.Scan.Run

/-!
# What errors are about

An error is reported at the offset of the token that it is about.  The readers of literals, comments and
clauses are told the offset of what they have to close, so each of their errors is about a token that
stands where the reading began.  The errors about brackets name a level of nesting, and the invariant of
the scanner's states is that every open level was opened where it says, before the place that has been
reached.
-/

namespace ImportCensus

namespace Scan

open Segment (of)

/-! ### Tokens in a source -/

/-- A token stands in a source at an offset. -/
def StandsAt (token source : Text) (position : Nat) : Prop :=
  token <+: source.drop position

section

variable {token source : Text} {position : Nat}

/-- A token stands behind what is as long as its offset. -/
theorem standsAt_append (before token rest : Text) :
  StandsAt token (before ++ (token ++ rest)) before.length
  := by
  rw [StandsAt, List.drop_left]
  apply List.prefix_append

/-- A token stands where it stands whatever comes behind. -/
theorem StandsAt.append (h : StandsAt token source position) (more : Text) :
  StandsAt token (source ++ more) position
  := by
  rw [StandsAt, List.drop_append]
  apply h.trans (List.prefix_append _ _)

/-- A token ends within its source. -/
theorem StandsAt.add_length_le (h : StandsAt token source position) (hne : token ≠ []) :
  position + token.length ≤ source.length
  := by
  have hpos := List.length_pos_iff.mpr hne
  have hle := h.length_le
  rw [List.length_drop] at hle
  omega

/-- A token stands inside of the source. -/
theorem StandsAt.lt_length (h : StandsAt token source position) (hne : token ≠ []) :
  position < source.length
  := by
  have hpos := List.length_pos_iff.mpr hne
  have hle := h.add_length_le hne
  omega

end

/-- The character that closes what an opener opens. -/
def Opener.closing : Opener → Char
  | .bracket b => b.closing
  | .substitution => '}'

/-- What opens a level has characters. -/
theorem Opener.text_ne_nil (opener : Opener) :
  opener.text ≠ []
  := by
  cases opener with
  | bracket b => apply List.cons_ne_nil
  | substitution => apply List.cons_ne_nil

/-- A closing bracket tells its kind. -/
theorem Bracket.closing_injective {b b' : Bracket} (h : b.closing = b'.closing) :
  b = b'
  := by
  have hsame := ofClosing?_eq_some_iff.mpr h
  rw [ofClosing?_eq_some_iff.mpr rfl] at hsame
  exact Option.some.inj hsame

end Scan

open Scan

/-- The token that an error is about stands in a source at the offset that the error is reported at.  An
error about a closing bracket that does not fit is about what was opened, too. -/
def ScanError.IsAbout (source : Text) : ScanError → Prop
  | unterminatedString p => StandsAt ['\''] source p ∨ StandsAt ['"'] source p
  | unterminatedComment p => StandsAt ['/', '*'] source p
  | unterminatedTemplate p => StandsAt ['\x60'] source p ∨ StandsAt ['$', '{'] source p
  | unterminatedPattern p => StandsAt ['/'] source p
  | unterminatedClause p => StandsAt ['{'] source p
  | unterminatedImport p => StandsAt importWord source p
  | unclosed opener p => StandsAt opener.text source p
  | unexpected closer p => StandsAt [closer.closing] source p
  | mismatched closer opener openedAt p =>
    StandsAt [closer.closing] source p ∧ StandsAt opener.text source openedAt ∧ openedAt < p
      ∧ opener.closing ≠ closer.closing

/-- The offset of an error lies within the source that the error is about. -/
theorem ScanError.IsAbout.position_lt {e : ScanError} {source : Text} (h : e.IsAbout source) :
  e.position < source.length
  := by
  cases e with
  | unterminatedString p => exact h.elim (·.lt_length (by decide)) (·.lt_length (by decide))
  | unterminatedTemplate p => exact h.elim (·.lt_length (by decide)) (·.lt_length (by decide))
  | unterminatedComment p => exact h.lt_length (by decide)
  | unterminatedPattern p => exact h.lt_length (by decide)
  | unterminatedClause p => exact h.lt_length (by decide)
  | unterminatedImport p => exact h.lt_length (by decide)
  | unclosed opener p => exact h.lt_length opener.text_ne_nil
  | unexpected closer p => exact h.lt_length (List.cons_ne_nil _ _)
  | mismatched closer opener openedAt p => exact h.1.lt_length (List.cons_ne_nil _ _)

namespace Scan

/-! ### The readers -/

section

variable {source text rest : Text} {before : Trail} {c : Cursor} {d : Declaration} {e : ScanError}

/-- A token at the place of a trail. -/
theorem Trail.standsAt (before : Trail) (token : Text)
    (hs : before.text ++ (token ++ rest) = source) :
  StandsAt token source before.length
  := by
  rw [← hs, ← before.length_text]
  apply standsAt_append

/-- Where no string is read, its quotation mark stands where the error says. -/
theorem isAbout_of_readString {quote : Char} (hq : isQuote quote = true)
    (hs : before.text ++ quote :: text = source) (h : readString before quote text = .error e) :
  e.IsAbout source
  := by
  unfold readString at h
  split at h
  · cases h
    have hat : StandsAt [quote] source before.length := before.standsAt [quote] hs
    simp only [isQuote, Bool.or_eq_true, beq_iff_eq] at hq
    obtain rfl | rfl := hq
    · exact .inl hat
    · exact .inr hat
  · cases h

/-- Where no comment is read, its beginning stands where the error says. -/
theorem isAbout_of_readComment? (hs : before.text ++ text = source)
    (h : readComment? before text = some (.error e)) :
  e.IsAbout source
  := by
  unfold readComment? at h
  split at h
  · cases h
  · split at h
    · cases h
      exact before.standsAt ['/', '*'] hs
    · cases h
  · cases h

/-- Where spaces and comments are not skipped, a comment begins where the error says. -/
theorem isAbout_of_skipTrivia (hs : before.text ++ text = source)
    (h : skipTrivia before text = .error e) :
  e.IsAbout source
  := by
  fun_induction skipTrivia before text with
  | case1 => cases h
  | case2 before c rest hc ih => exact ih (by simpa using hs) h
  | case3 => cases h
  | case4 before c rest hc e' he =>
    cases h
    exact isAbout_of_readComment? hs he
  | case5 before c rest hc cursor he ih => exact ih ((source_of_readComment? he).trans hs) h

/-- Where curly brackets are not closed, what is open stands where the error says. -/
theorem isAbout_of_skipClause {opened : Nat} (ho : StandsAt ['{'] source opened)
    (hs : before.text ++ text = source) (h : skipClause opened before text = .error e) :
  e.IsAbout source
  := by
  fun_induction skipClause opened before text with
  | case1 =>
    cases h
    exact ho
  | case2 before c rest hq e' he =>
    cases h
    exact isAbout_of_readString hq hs he
  | case3 before c rest hq cursor hc ih => exact ih ((source_of_readString hc).trans hs) h
  | case4 => cases h
  | case5 before c rest hq hc hn ih => exact ih (by simpa using hs) h
  | case6 before c rest hq hc e' he =>
    cases h
    exact isAbout_of_readComment? hs he
  | case7 before c rest hq hc cursor he ih => exact ih ((source_of_readComment? he).trans hs) h

/-- Where no specifier is read, its quotation mark stands where the error says. -/
theorem isAbout_of_readSpecifier {statementStart : Nat} {quote : Char} (hq : isQuote quote = true)
    (hs : before.text ++ quote :: text = source)
    (h : readSpecifier statementStart before quote text = .error e) :
  e.IsAbout source
  := by
  unfold readSpecifier at h
  split at h
  · cases h
    rename_i he
    exact isAbout_of_readString hq hs he
  · cases h

/-- What a word and the text behind it are read from. -/
theorem text_append_word {first : Char} (hs : before.text ++ first :: rest = source) :
  (before.add .code (wordOf first rest)).text ++ behindWord rest = source
  := by
  rw [Trail.text_add, List.append_assoc, wordOf_append_behindWord, hs]

/-- Where no clause is read, what is open or the word `import` stands where the error says. -/
theorem isAbout_of_importClause {statementStart : Nat} (hi : StandsAt importWord source statementStart)
    (hs : before.text ++ text = source) (h : importClause statementStart before text = .error e) :
  e.IsAbout source
  := by
  fun_induction importClause statementStart before text with
  | case1 before text e' he =>
    cases h
    exact isAbout_of_skipTrivia hs he
  | case2 =>
    cases h
    exact hi
  | case3 before text before' rest e' ht he =>
    cases h
    have hs' := (source_of_skipTrivia ht).trans hs
    exact isAbout_of_skipClause (before'.standsAt ['{'] hs') (by simpa [Cursor.source] using hs') he
  | case4 before text before' rest cursor ht hc ih =>
    have hs' := (source_of_skipTrivia ht).trans hs
    exact ih ((source_of_skipClause hc).trans (by simpa [Cursor.source] using hs')) h
  | case5 before text before' c rest ht hb hm ih =>
    have hs' := (source_of_skipTrivia ht).trans hs
    exact ih (by simpa [Cursor.source] using hs') h
  | case6 before text before' c rest ht hb hm hw passed hfrom e' he =>
    cases h
    have hs' := (source_of_skipTrivia ht).trans hs
    exact isAbout_of_skipTrivia (text_append_word hs') he
  | case7 before text before' c rest ht hb hm hw passed hfrom before'' hf ih =>
    have hs' := (source_of_skipTrivia ht).trans hs
    exact ih ((source_of_skipTrivia hf).trans (text_append_word hs')) h
  | case8 before text before' c rest ht hb hm hw passed hfrom before'' q tail hf hq =>
    have hs' := (source_of_skipTrivia ht).trans hs
    exact isAbout_of_readSpecifier hq ((source_of_skipTrivia hf).trans (text_append_word hs')) h
  | case9 before text before' c rest ht hb hm hw passed hfrom before'' q tail hf hq ih =>
    have hs' := (source_of_skipTrivia ht).trans hs
    exact ih ((source_of_skipTrivia hf).trans (text_append_word hs')) h
  | case10 before text before' c rest ht hb hm hw passed hfrom ih =>
    have hs' := (source_of_skipTrivia ht).trans hs
    exact ih (text_append_word hs') h
  | case11 => cases h

/-- Skipping an alias leaves the source as it is. -/
theorem source_of_skipAlias {clause : Cursor} (h : skipAlias clause = .ok c) :
  c.source = clause.source
  := by
  obtain ⟨naming, rest, -, hrest, rfl⟩ := exists_of_skipAlias h
  simp [Cursor.source, hrest]

/-- Where no alias is skipped, what is open stands where the error says. -/
theorem isAbout_of_skipAlias {clause : Cursor} (hs : clause.source = source)
    (h : skipAlias clause = .error e) :
  e.IsAbout source
  := by
  unfold skipAlias at h
  split at h
  · cases h
  · rename_i rest hr
    rw [Cursor.source, Text.after?_eq_some_iff.mp hr] at hs
    have hs' : (clause.before.add .code asWord).text ++ rest = source := by simpa using hs
    split at h
    · split at h
      · cases h
        rename_i he
        exact isAbout_of_skipTrivia hs' he
      · cases h
      · rename_i before q tail ht
        split at h
        · rename_i hq
          exact isAbout_of_readString hq ((source_of_skipTrivia ht).trans hs') h
        · cases h
    · cases h

/-- Where no source of an export is read, what is open stands where the error says. -/
theorem isAbout_of_exportSource {statementStart : Nat} {clause : Cursor} (hs : clause.source = source)
    (h : exportSource statementStart clause = .error e) :
  e.IsAbout source
  := by
  unfold exportSource at h
  split at h
  · cases h
    rename_i he
    exact isAbout_of_skipTrivia hs he
  · rename_i cursor ht
    have hcursor := (source_of_skipTrivia ht).trans hs
    split at h
    · cases h
    · rename_i rest hr
      rw [Cursor.source, Text.after?_eq_some_iff.mp hr] at hcursor
      have hs' : (cursor.before.add .code fromWord).text ++ rest = source := by simpa using hcursor
      split at h
      · split at h
        · cases h
          rename_i he
          exact isAbout_of_skipTrivia hs' he
        · cases h
        · rename_i before q tail ht'
          split at h
          · rename_i hq
            exact isAbout_of_readSpecifier hq ((source_of_skipTrivia ht').trans hs') h
          · cases h
      · cases h

/-- Where no export is read, what is open stands where the error says. -/
theorem isAbout_of_exportClause {statementStart : Nat} (hs : before.text ++ text = source)
    (h : exportClause statementStart before text = .error e) :
  e.IsAbout source
  := by
  unfold exportClause at h
  split at h
  · cases h
    rename_i he
    exact isAbout_of_skipTrivia hs he
  · cases h
  · rename_i before' c rest ht
    have hcursor := (source_of_skipTrivia ht).trans hs
    have hs' : (before'.add .code [c]).text ++ rest = source := by
      simpa [Cursor.source] using hcursor
    split at h
    · split at h
      · cases h
        rename_i he
        exact isAbout_of_skipTrivia hs' he
      · rename_i star hstar
        have hstar' := (source_of_skipTrivia hstar).trans hs'
        split at h
        · cases h
          rename_i he
          exact isAbout_of_skipAlias hstar' he
        · rename_i clause hclause
          exact isAbout_of_exportSource ((source_of_skipAlias hclause).trans hstar') h
    · split at h
      · rename_i hbrace
        subst hbrace
        split at h
        · cases h
          rename_i he
          exact isAbout_of_skipClause (before'.standsAt ['{'] hcursor) hs' he
        · rename_i clause hclause
          exact isAbout_of_exportSource ((source_of_skipClause hclause).trans hs') h
      · cases h

end

/-! ### Open levels -/

/-- Every open level was opened where it says. -/
def State.Recalls (s : State) : Prop :=
  ∀ frame ∈ s.frames, StandsAt frame.opener.text s.cursor.before.text frame.position

namespace State.Recalls

variable {s : State} {frame : Frame} {frames : List Frame}

/-- What the levels recall is true when more is passed. -/
theorem moved (h : s.Recalls) (segment : Segment) (rest : Text) (expects : Expectation) :
  (s.moved segment rest expects).Recalls
  := by
  intro frame hframe
  rw [cursor_moved, Trail.text_pass]
  exact (h frame hframe).append _

/-- What the levels recall is true behind a declaration. -/
theorem declared (h : s.Recalls) (segment : Segment) (rest : Text) (specifier : Option Text)
    (expects : Expectation) :
  (s.declared segment rest specifier expects).Recalls
  := h.moved segment rest expects

/-- What the other levels recall is true when one is left. -/
theorem leave (h : s.Recalls) (hf : s.frames = frame :: frames) (found : List Occurrence) :
  (s.leave frame frames found).Recalls
  := by
  intro frame' hframe
  apply h frame'
  rw [hf]
  apply List.mem_cons_of_mem _ hframe

/-- What opens a level stands where the level recalls it. -/
theorem enter (h : s.Recalls) (opener : Opener) (importAt : Option Nat) (passed : Segment)
    (rest : Text) :
  (s.enter opener importAt (s.cursor.before.pass passed) rest).Recalls
  := by
  intro frame hframe
  rw [cursor_enter, Trail.text_pass, Segment.text_of]
  rw [frames_enter] at hframe
  obtain rfl | hframe := List.mem_cons.mp hframe
  · have hat := standsAt_append (s.cursor.before.pass passed).text opener.text []
    rwa [List.append_nil, Trail.length_text] at hat
  · rw [Trail.text_pass, List.append_assoc]
    exact (h frame hframe).append _

end State.Recalls

/-- Every step leaves the open levels where they were opened. -/
theorem Step.recalls {s n : State} {segment : Segment} (h : Step s segment n) (hs : s.Recalls) :
  n.Recalls
  := by
  cases h with
  | space => apply hs.moved
  | comment => apply hs.moved
  | division => apply hs.moved
  | pattern => apply hs.moved
  | string => apply hs.moved
  | literal => apply hs.moved
  | substitution => apply hs.enter
  | opening =>
    rw [← s.cursor.before.pass_nil]
    apply hs.enter
  | closing hf => exact (hs.leave hf _).moved _ _ _
  | resumeLiteral hf => exact (hs.leave hf _).moved _ _ _
  | resumeSubstitution hf => exact (hs.leave hf _).enter _ _ _ _
  | name => apply hs.moved
  | dynamic => apply hs.enter
  | property => apply hs.moved
  | bare => apply hs.declared
  | importClause => apply hs.declared
  | exportClause => apply hs.declared
  | number => apply hs.moved
  | mark => apply hs.moved

/-! ### Steps that fail -/

section

variable {s : State} {source rest : Text} {before : Trail} {e : ScanError}

/-- Where a template literal is not closed, what has opened it stands where the error says. -/
theorem isAbout_of_template {opened : Nat}
    (ho : StandsAt ['\x60'] source opened ∨ StandsAt ['$', '{'] source opened)
    (h : s.template opened before rest = .error e) :
  e.IsAbout source
  := by
  unfold State.template at h
  split at h
  · cases h
    exact ho
  · cases h
  · cases h

/-- Where no regular expression and no comment is read, a slash stands where the error says. -/
theorem isAbout_of_slash (hs : before.text ++ '/' :: rest = source)
    (h : s.slash before rest = .error e) :
  e.IsAbout source
  := by
  unfold State.slash at h
  split at h
  · cases h
    rename_i he
    exact isAbout_of_readComment? hs he
  · cases h
  · split at h
    · cases h
    · split at h
      · cases h
        exact before.standsAt ['/'] hs
      · cases h

/-- Where a bracket closes nothing or the wrong level, it stands where the error says. -/
theorem isAbout_of_close {b : Bracket} (ho : s.Recalls)
    (hs : s.cursor.before.text ++ b.closing :: rest = source)
    (h : s.close b s.cursor.before rest = .error e) :
  e.IsAbout source
  := by
  have hclosing : StandsAt [b.closing] source s.cursor.before.length := Trail.standsAt _ _ hs
  unfold State.close at h
  split at h
  · cases h
    exact hclosing
  · rename_i frame frames hf
    have hopen := ho frame (hf ▸ List.mem_cons_self)
    have hopened : StandsAt frame.opener.text source frame.position := hs ▸ hopen.append _
    simp only at h
    split at h
    · cases h
    · rename_i hbracket
      split at h
      · rename_i hsubstitution
        rw [hsubstitution.1] at hopened
        exact isAbout_of_template (.inr hopened) h
      · rename_i hsubstitution
        cases h
        refine ⟨hclosing, hopened, ?_, ?_⟩
        · have hle := hopen.add_length_le frame.opener.text_ne_nil
          have hpos := List.length_pos_iff.mpr frame.opener.text_ne_nil
          rw [Trail.length_text] at hle
          omega
        · intro hsame
          cases hopener : frame.opener with
          | bracket b' =>
            rw [hopener] at hsame hbracket
            rw [Bracket.closing_injective hsame] at hbracket
            exact hbracket rfl
          | substitution =>
            rw [hopener] at hsame
            exact hsubstitution ⟨hopener, (Bracket.closing_injective (b := .curly) hsame).symm⟩

/-- Where no import is read, what is open or the word `import` stands where the error says. -/
theorem isAbout_of_importStatement {statementStart : Nat}
    (hi : StandsAt importWord source statementStart) (hs : before.text ++ rest = source)
    (h : s.importStatement statementStart before rest = .error e) :
  e.IsAbout source
  := by
  unfold State.importStatement at h
  split at h
  · cases h
    rename_i he
    exact isAbout_of_skipTrivia hs he
  · rename_i before' rest' ht
    have hs' := (source_of_skipTrivia ht).trans hs
    split at h
    · cases h
    · cases h
    · split at h
      · split at h
        · cases h
          exact hi
        · split at h
          · rename_i hq
            exact isAbout_of_readSpecifier hq hs' (eq_error_of_map_eq_error h)
          · exact isAbout_of_importClause hi hs' (eq_error_of_map_eq_error h)
      · cases h

/-- Where nothing is read at a word, what the error names stands where it says. -/
theorem isAbout_of_word {c : Char} (hs : before.text ++ c :: rest = source)
    (h : s.word before c rest = .error e) :
  e.IsAbout source
  := by
  have hs' := text_append_word hs
  unfold State.word at h
  simp only at h
  split at h
  · rename_i himport
    have hi : StandsAt importWord source before.length := by
      rw [← himport.1]
      rw [← wordOf_append_behindWord c rest] at hs
      exact before.standsAt _ hs
    exact isAbout_of_importStatement hi hs' h
  · split at h
    · exact isAbout_of_exportClause hs' (eq_error_of_map_eq_error h)
    · cases h

/-- The error of a step that fails is about a token of the source. -/
theorem isAbout_of_step {c : Char} (ho : s.Recalls) (hs : s.cursor.before.text ++ c :: rest = source)
    (h : s.step c rest = .error e) :
  e.IsAbout source
  := by
  unfold State.step at h
  simp only at h
  split at h
  · cases h
  split at h
  · rename_i hslash
    subst hslash
    exact isAbout_of_slash hs h
  split at h
  · rename_i hquote
    exact isAbout_of_readString hquote hs (eq_error_of_map_eq_error h)
  split at h
  · rename_i hbacktick
    subst hbacktick
    exact isAbout_of_template (.inl (Trail.standsAt _ _ hs)) h
  split at h
  · cases h
  split at h
  · rename_i b hb
    obtain rfl := Bracket.ofClosing?_eq_some_iff.mp hb
    exact isAbout_of_close ho hs h
  split at h
  · exact isAbout_of_word hs h
  split at h
  · cases h
  · cases h

/-- The error of a run that fails is about a token of the source. -/
theorem isAbout_of_run (ho : s.Recalls) (h : s.run = .error e) :
  e.IsAbout s.cursor.source
  := by
  fun_induction State.run s with
  | case1 => cases h
  | case2 s hr frame frames hf =>
    cases h
    have hopen := ho frame (hf ▸ List.mem_cons_self)
    rw [Cursor.source]
    exact hopen.append _
  | case3 s c rest hr e' hstep =>
    cases h
    rw [Cursor.source, hr]
    exact isAbout_of_step ho rfl hstep
  | case4 s c rest hr next hstep ih =>
    obtain ⟨segment, hs, he⟩ := exists_of_step hstep
    have hsource : next.cursor.source = s.cursor.source := by
      rw [Cursor.source, hs.before_eq, Trail.text_pass, List.append_assoc, ← he, Cursor.source, hr]
    rw [← hsource]
    exact ih (hs.recalls ho) h

end

/-- The error of a source that cannot be scanned is about a token of the source, and is reported at the
offset where this token stands. -/
theorem isAbout_of_scan {source : Text} {e : ScanError} (h : scan source = .error e) :
  e.IsAbout source ∧ e.position < source.length
  := by
  have hrun : (State.start source).run = .error e := eq_error_of_map_eq_error h
  obtain ⟨hashbang, rest, hh, rfl⟩ := exists_hashbang source
  rw [hh.start_eq] at hrun
  have ho : (State.behindHashbang hashbang rest).Recalls := by
    intro frame hframe
    cases hframe
  have habout := isAbout_of_run ho hrun
  have hsource : (State.behindHashbang hashbang rest).cursor.source = hashbang.text ++ rest := by
    simp [State.behindHashbang, State.initial, Cursor.source]
  rw [hsource] at habout
  exact ⟨habout, habout.position_lt⟩

/-- In a template that is gone on with behind a substitution, the parenthesis of the next substitution is
closed by a bracket. -/
theorem isAbout_of_scan_resumed :
  scan "\x60$\x7ba\x7d$\x7b(\"]\"]\x7d\x60".toList
      = .error (.mismatched .square (.bracket .round) 7 11)
    ∧ ((ScanError.mismatched .square (.bracket .round) 7 11).IsAbout
        "\x60$\x7ba\x7d$\x7b(\"]\"]\x7d\x60".toList
      ∧ (ScanError.mismatched .square (.bracket .round) 7 11).position
        < "\x60$\x7ba\x7d$\x7b(\"]\"]\x7d\x60".toList.length)
  := by
  have hscan : scan "\x60$\x7ba\x7d$\x7b(\"]\"]\x7d\x60".toList
      = .error (.mismatched .square (.bracket .round) 7 11) := by
    decide +kernel
  exact ⟨hscan, isAbout_of_scan hscan⟩

end Scan

end ImportCensus
