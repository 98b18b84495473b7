import ImportCensus.Proofs.Scan.Run

/-!
# How occurrences nest

An occurrence is written in its source where its offsets say, and of two occurrences the second
stands either behind the first or in its round brackets.  The scanner collects the imports of every
level of nesting apart, so the invariant tells for every open level where the imports around it
stand: behind the opening of the level around, and before the level itself or, when the level is
the argument of a dynamic import, before the word that begins this import.
-/

namespace ImportCensus.Scan

open Segment (of)

namespace Occurrence

/-- An occurrence that is written in a source where its offsets say. -/
structure WrittenIn (o : Occurrence) (source : Text) : Prop where
  statementStart_lt : o.statementStart < o.start
  start_le : o.start ≤ o.stop
  statementStop_eq : o.statementStop = o.stop + 1
  statementStop_le : o.statementStop ≤ source.length
  keyword : importWord <+: source.drop o.statementStart
    ∨ o.dynamic = false ∧ exportWord <+: source.drop o.statementStart
  quotes : o.dynamic = false → ∃ quote, isQuote quote = true
    ∧ source[o.start - 1]? = some quote ∧ source[o.stop]? = some quote
  brackets : o.dynamic = true →
    source[o.start - 1]? = some '(' ∧ source[o.stop]? = some ')'

/-- A dynamic import that stands in the round brackets of another one. -/
structure Encloses (outer inner : Occurrence) : Prop where
  outer_dynamic : outer.dynamic = true
  inner_dynamic : inner.dynamic = true
  start_le : outer.start ≤ inner.statementStart
  le_stop : inner.statementStop ≤ outer.stop

/-- An occurrence begins before another one, and it ends there too or encloses it. -/
structure Precedes (first second : Occurrence) : Prop where
  statementStart_lt : first.statementStart < second.statementStart
  apart_or_encloses : first.statementStop ≤ second.statementStart ∨ first.Encloses second

variable {o : Occurrence} {text : Text}

/-- A statement has characters. -/
theorem WrittenIn.statementStart_lt_statementStop (h : o.WrittenIn text) :
  o.statementStart < o.statementStop
  := by
  have hstart := h.statementStart_lt
  have hstop := h.start_le
  have heq := h.statementStop_eq
  omega

/-- What is written at the front of a source stays there. -/
theorem WrittenIn.append (h : o.WrittenIn text) (more : Text) :
  o.WrittenIn (text ++ more)
  := by
  have hstart := h.statementStart_lt
  have hstop := h.start_le
  have heq := h.statementStop_eq
  have hle := h.statementStop_le
  have hdrop : (text ++ more).drop o.statementStart = text.drop o.statementStart ++ more :=
    List.drop_append_of_le_length (by omega)
  have hfirst : (text ++ more)[o.start - 1]? = text[o.start - 1]? :=
    List.getElem?_append_left (by omega)
  have hlast : (text ++ more)[o.stop]? = text[o.stop]? :=
    List.getElem?_append_left (by omega)
  constructor
  · exact hstart
  · exact hstop
  · exact heq
  · rw [List.length_append]
    omega
  · rw [hdrop]
    obtain himport | ⟨hd, hexport⟩ := h.keyword
    · exact .inl (himport.trans (List.prefix_append _ _))
    · exact .inr ⟨hd, hexport.trans (List.prefix_append _ _)⟩
  · rw [hfirst, hlast]
    exact h.quotes
  · rw [hfirst, hlast]
    exact h.brackets

/-- A declaration that ends in its specifier is written where it has been read. -/
theorem writtenIn_ofSpecifier {source word front body : Text} {quote : Char}
    (hs : source = text ++ (word ++ (front ++ quote :: (body ++ [quote]))))
    (hw : word = importWord ∨ word = exportWord) (hq : isQuote quote = true) :
  (ofSpecifier text.length source.length body).WrittenIn source
  := by
  have hlength : source.length
      = text.length + word.length + front.length + body.length + 2 := by
    rw [hs]
    simp only [List.length_append, List.length_cons, List.length_nil]
    omega
  have hword : 0 < word.length := by
    obtain rfl | rfl := hw
    · decide
    · decide
  constructor
  · simp only [ofSpecifier]
    omega
  · simp only [ofSpecifier]
    omega
  · simp only [ofSpecifier]
    omega
  · apply Nat.le_refl _
  · simp only [ofSpecifier, true_and]
    rw [hs, List.drop_left]
    obtain rfl | rfl := hw
    · exact .inl (List.prefix_append _ _)
    · exact .inr (List.prefix_append _ _)
  · intro _
    refine ⟨quote, hq, ?_, ?_⟩
    · have hopening : source = (text ++ word ++ front) ++ quote :: (body ++ [quote]) := by simp [hs]
      have hat : source.length - 1 - body.length - 1 = (text ++ word ++ front).length := by
        simp only [hlength, List.length_append]
        omega
      simp only [ofSpecifier]
      rw [hat, hopening, List.getElem?_append_right (Nat.le_refl _)]
      simp
    · have hclosing : source = (text ++ word ++ front ++ quote :: body) ++ [quote] := by simp [hs]
      have hat : source.length - 1 = (text ++ word ++ front ++ quote :: body).length := by
        simp only [hlength, List.length_append, List.length_cons]
        omega
      simp only [ofSpecifier]
      rw [hat, hclosing, List.getElem?_concat_length]
  · intro hd
    cases hd

end Occurrence

/-! ### Specifiers at the end of declarations -/

/-- A segment ends in the string of its specifier, if it has one. -/
def Quotes (segment : Segment) (specifier : Option Text) : Prop :=
  ∀ body, specifier = some body →
    ∃ front quote, isQuote quote = true ∧ segment = front ++ Segment.string quote body

section

variable {segment : Segment} {specifier : Option Text} {rest : Text}

/-- A string at the end stays there whatever stands in front. -/
theorem Quotes.append (h : Quotes segment specifier) (front : Segment) :
  Quotes (front ++ segment) specifier
  := by
  intro body hs
  obtain ⟨front', quote, hq, rfl⟩ := h body hs
  exact ⟨front ++ front', quote, hq, by simp⟩

/-- A string at the end stays there with one more character in front. -/
theorem Quotes.cons (h : Quotes segment specifier) (passed : Char × Part) :
  Quotes (passed :: segment) specifier
  := h.append [passed]

/-- Without a specifier nothing is asked. -/
theorem quotes_none :
  Quotes segment none
  := by
  intro body hs
  cases hs

/-- A string ends with its closing quotation mark. -/
theorem quotes_string {quote : Char} {body : Text} (hq : isQuote quote = true) :
  Quotes (Segment.string quote body) (some body)
  := by
  intro _ hs
  cases hs
  exact ⟨[], quote, hq, rfl⟩

/-- A clause with a specifier ends with its string. -/
theorem ImportClause.quotes (h : ImportClause segment specifier rest) :
  Quotes segment specifier
  := by
  induction h with
  | stop => exact quotes_none
  | braces _ _ _ ih => exact ((ih.append _).cons _).append _
  | mark _ _ _ ih => exact (ih.cons _).append _
  | word _ _ _ _ ih => exact (ih.append _).append _
  | loneFrom _ _ _ _ _ ih => exact ((ih.append _).append _).append _
  | specifier _ _ _ hq => exact (((quotes_string hq).append _).append _).append _

/-- The source of an export with a specifier ends with its string. -/
theorem ExportSource.quotes (h : ExportSource segment specifier rest) :
  Quotes segment specifier
  := by
  cases h with
  | missing => exact quotes_none
  | loneFrom => exact quotes_none
  | specifier _ _ _ hq => exact (((quotes_string hq).append _).append _).append _

/-- An export with a specifier ends with its string. -/
theorem ExportClause.quotes (h : ExportClause segment specifier rest) :
  Quotes segment specifier
  := by
  cases h with
  | other => exact quotes_none
  | star _ _ _ hs => exact (((hs.quotes.append _).append _).cons _).append _
  | braces _ _ hs => exact ((hs.quotes.append _).cons _).append _

end

/-! ### Levels -/

/-- The imports found at one level of nesting: where in the source they stand, in which order, and
that they are dynamic within brackets. -/
structure Level (source : Text) (start stop : Nat) (bracketed : Prop) (found : List Occurrence) :
    Prop where
  written : ∀ o ∈ found, o.WrittenIn source
  start_le : ∀ o ∈ found, start ≤ o.statementStart
  le_stop : ∀ o ∈ found, o.statementStop ≤ stop
  ordered : found.Pairwise Occurrence.Precedes
  dynamic : bracketed → ∀ o ∈ found, o.dynamic = true

namespace Level

variable {text : Text} {start stop : Nat} {bracketed : Prop} {found : List Occurrence}

/-- A level without imports. -/
theorem nil :
  Level text start stop bracketed []
  := by
  constructor <;> simp

/-- The imports of a level stand in a longer text too. -/
theorem append (h : Level text start stop bracketed found) (more : Text) {stop' : Nat}
    (hs : stop ≤ stop') :
  Level (text ++ more) start stop' bracketed found
  where
  written o ho := (h.written o ho).append more
  start_le := h.start_le
  le_stop o ho := Nat.le_trans (h.le_stop o ho) hs
  ordered := h.ordered
  dynamic := h.dynamic

/-- The imports of a stretch of a level and those of a later stretch. -/
theorem join (h : Level text start stop bracketed found) {start' stop' : Nat}
    {found' : List Occurrence} (h' : Level text start' stop' bracketed found')
    (hs : start ≤ start') (hm : stop ≤ start') (hs' : stop ≤ stop') :
  Level text start stop' bracketed (found ++ found')
  := by
  constructor
  · intro o ho
    obtain ho | ho := List.mem_append.mp ho
    · apply h.written o ho
    · apply h'.written o ho
  · intro o ho
    obtain ho | ho := List.mem_append.mp ho
    · apply h.start_le o ho
    · apply Nat.le_trans hs (h'.start_le o ho)
  · intro o ho
    obtain ho | ho := List.mem_append.mp ho
    · apply Nat.le_trans (h.le_stop o ho) hs'
    · apply h'.le_stop o ho
  · rw [List.pairwise_append]
    refine ⟨h.ordered, h'.ordered, ?_⟩
    intro i hi j hj
    have hlt := (h.written i hi).statementStart_lt_statementStop
    have hle := h.le_stop i hi
    have hle' := h'.start_le j hj
    exact ⟨by omega, .inl (by omega)⟩
  · intro hb o ho
    obtain ho | ho := List.mem_append.mp ho
    · apply h.dynamic hb o ho
    · apply h'.dynamic hb o ho

/-- A level with one import. -/
theorem single {o : Occurrence} (ho : o.WrittenIn text) (hb : ¬bracketed) :
  Level text o.statementStart o.statementStop bracketed [o]
  := by
  constructor
  · simpa using ho
  · simp
  · simp
  · simp
  · exact fun h => absurd h hb

/-- A dynamic import and the imports in its round brackets. -/
theorem enclose {o : Occurrence} (ho : o.WrittenIn text) (hd : o.dynamic = true)
    (h : Level text o.start o.stop True found) :
  Level text o.statementStart o.statementStop bracketed (o :: found)
  := by
  have hstart := ho.statementStart_lt
  have hstop := ho.statementStop_eq
  constructor
  · rintro i (_ | ⟨_, hi⟩)
    · exact ho
    · apply h.written i hi
  · rintro i (_ | ⟨_, hi⟩)
    · apply Nat.le_refl _
    · have hle := h.start_le i hi
      omega
  · rintro i (_ | ⟨_, hi⟩)
    · apply Nat.le_refl _
    · have hle := h.le_stop i hi
      omega
  · rw [List.pairwise_cons]
    refine ⟨?_, h.ordered⟩
    intro i hi
    have hle := h.start_le i hi
    refine ⟨by omega, .inr ⟨hd, h.dynamic trivial i hi, hle, h.le_stop i hi⟩⟩
  · rintro _ i (_ | ⟨_, hi⟩)
    · exact hd
    · apply h.dynamic trivial i hi

end Level

/-- The offset behind the first character of what opens the innermost level. -/
def contentStart : List Frame → Nat
  | [] => 0
  | frame :: _ => frame.position + 1

/-- A level that is the argument of the dynamic import that begins at an offset. -/
structure Frame.IsArgument (frame : Frame) (source : Text) (statementStart : Nat) : Prop where
  opener_eq : frame.opener = .bracket .round
  lt_position : statementStart < frame.position
  keyword : importWord <+: source.drop statementStart
  opening : source[frame.position]? = some '('

/-- The offset before which all imports around a level end. -/
def Frame.outerStop (frame : Frame) : Nat :=
  frame.importAt.getD frame.position

/-- The open levels of a source. -/
inductive Levels (source : Text) : List Frame → Prop where
  | outermost : Levels source []
  | within {frame : Frame} {frames : List Frame} (h : Levels source frames)
      (hs : contentStart frames ≤ frame.outerStop) (hp : frame.position < source.length)
      (hi : ∀ statementStart, frame.importAt = some statementStart →
        frame.IsArgument source statementStart)
      (ho : Level source (contentStart frames) frame.outerStop (frames ≠ []) frame.outer) :
    Levels source (frame :: frames)

section

variable {text : Text} {frame : Frame} {frames : List Frame}

/-- The argument of a dynamic import begins where it begins in a longer text too. -/
theorem Frame.IsArgument.append {statementStart : Nat} (h : frame.IsArgument text statementStart)
    (more : Text) :
  frame.IsArgument (text ++ more) statementStart
  := by
  obtain ⟨hlength, -⟩ := List.getElem?_eq_some_iff.mp h.opening
  have hlt := h.lt_position
  constructor
  · exact h.opener_eq
  · exact hlt
  · rw [List.drop_append_of_le_length (by omega)]
    apply h.keyword.trans (List.prefix_append _ _)
  · rw [List.getElem?_append_left hlength]
    exact h.opening

/-- The open levels stand in a longer text too. -/
theorem Levels.append (h : Levels text frames) (more : Text) :
  Levels (text ++ more) frames
  := by
  induction h with
  | outermost => exact .outermost
  | within h hs hp hi ho ih =>
    refine .within ih hs ?_ ?_ (ho.append more (Nat.le_refl _))
    · rw [List.length_append]
      omega
    · intro statementStart himport
      exact (hi statementStart himport).append more

/-- The innermost level begins inside of the text. -/
theorem Levels.contentStart_le (h : Levels text frames) :
  contentStart frames ≤ text.length
  := by
  cases h with
  | outermost => apply Nat.zero_le _
  | within h hs hp hi ho => exact hp

/-- The imports around a level end before it. -/
theorem Levels.outerStop_le (h : Levels text (frame :: frames)) :
  frame.outerStop ≤ frame.position
  := by
  cases h with
  | within h hs hp hi ho =>
    unfold Frame.outerStop
    cases himport : frame.importAt with
    | none => apply Nat.le_refl _
    | some statementStart => apply Nat.le_of_lt (hi statementStart himport).lt_position

/-- A dynamic import is written where its level has opened and closed. -/
theorem Frame.IsArgument.writtenIn {statementStart : Nat}
    (h : frame.IsArgument text statementStart) :
  Occurrence.WrittenIn {
      start := frame.position + 1
      stop := text.length
      statementStart
      statementStop := text.length + 1
      dynamic := true }
    (text ++ [')'])
  := by
  obtain ⟨hlength, -⟩ := List.getElem?_eq_some_iff.mp h.opening
  have hlt := h.lt_position
  have happend := h.append [')']
  constructor
  · apply Nat.lt_succ_of_lt hlt
  · exact hlength
  · rfl
  · simp
  · exact .inl happend.keyword
  · intro hd
    cases hd
  · intro _
    exact ⟨happend.opening, List.getElem?_concat_length⟩

end

/-! ### The invariant of scanner states -/

/-- The imports found at all levels of a state stand where they are written and nest. -/
structure State.Nests (s : State) : Prop where
  levels : Levels s.cursor.before.text s.frames
  level : Level s.cursor.before.text (contentStart s.frames) s.cursor.before.length
    (s.frames ≠ []) s.found

namespace State.Nests

variable {s : State} {frame : Frame} {frames : List Frame}

/-- The imports nest when more is passed. -/
theorem moved (h : s.Nests) (segment : Segment) (rest : Text) (expects : Expectation) :
  (s.moved segment rest expects).Nests
  := by
  constructor
  · simpa using h.levels.append segment.text
  · have hle : s.cursor.before.length ≤ segment.length + s.cursor.before.length :=
      Nat.le_add_left _ _
    simpa using h.level.append segment.text hle

/-- The imports nest when a level is left that belongs to no import. -/
theorem leave (h : s.Nests) (hf : s.frames = frame :: frames) :
  (s.leave frame frames []).Nests
  := by
  have hlevels := h.levels
  have hlevel := h.level
  rw [hf] at hlevels hlevel
  have hstop := hlevels.outerStop_le
  cases hlevels with
  | within hlevels hs hp hi ho =>
    rw [Trail.length_text] at hp
    have houter : Level s.cursor.before.text (contentStart frames) frame.outerStop (frames ≠ [])
      frame.outer := ho
    have hinner : Level s.cursor.before.text (frame.position + 1) s.cursor.before.length
        (frames ≠ []) s.found :=
      { hlevel with dynamic := fun _ => hlevel.dynamic (by simp) }
    refine ⟨hlevels, ?_⟩
    simpa using houter.join hinner (by omega) (by omega) (by omega)

/-- The imports nest when a bracket is closed, also the one of a dynamic import. -/
theorem close (h : s.Nests) (hf : s.frames = frame :: frames) {b : Bracket}
    (hb : frame.opener = .bracket b) (rest : Text) (expects : Expectation) :
  ((s.leave frame frames (frame.occurrence? s.cursor.before.length).toList).moved
    [(b.closing, .code)] rest expects).Nests
  := by
  cases himport : frame.importAt with
  | none =>
    have hocc : frame.occurrence? s.cursor.before.length = none := by
      simp [Frame.occurrence?, himport]
    rw [hocc]
    exact (h.leave hf).moved _ _ _
  | some statementStart =>
    have hlevels := h.levels
    have hlevel := h.level
    rw [hf] at hlevels hlevel
    cases hlevels with
    | within hlevels hs hp hi ho =>
      have harg := hi statementStart himport
      obtain rfl : b = .round := by
        have heq := hb.symm.trans harg.opener_eq
        cases heq
        rfl
      have hwritten := harg.writtenIn
      rw [Trail.length_text] at hwritten
      have hstop : frame.outerStop = statementStart := by
        simp [Frame.outerStop, himport]
      rw [hstop] at hs ho
      have houter := ho.append [')'] (Nat.le_refl _)
      have hinner : Level (s.cursor.before.text ++ [')']) (frame.position + 1)
          s.cursor.before.length True s.found :=
        { hlevel.append [')'] (Nat.le_refl _) with dynamic := fun _ => hlevel.dynamic (by simp) }
      have hlt := hwritten.statementStart_lt_statementStop
      have hjoined := houter.join (hinner.enclose hwritten rfl) hs (Nat.le_refl _) (Nat.le_of_lt hlt)
      constructor
      · simpa [Bracket.closing] using hlevels.append [')']
      · simpa [Bracket.closing, Frame.occurrence?, himport, Nat.add_comm] using hjoined

/-- The imports nest when a level is opened. -/
theorem enter (h : s.Nests) {opener : Opener} {importAt : Option Nat} {passed : Segment}
    (hi : ∀ statementStart, importAt = some statementStart →
      opener = .bracket .round ∧ statementStart = s.cursor.before.length
        ∧ ∃ gap, passed.text = importWord ++ gap)
    (rest : Text) :
  (s.enter opener importAt (s.cursor.before.pass passed) rest).Nests
  := by
  have hstart := h.levels.contentStart_le
  rw [Trail.length_text] at hstart
  have hstop : s.cursor.before.length
      ≤ importAt.getD (passed.length + s.cursor.before.length) := by
    cases himport : importAt with
    | none => apply Nat.le_add_left _ _
    | some statementStart => exact (hi statementStart himport).2.1.ge
  constructor
  · simp only [State.cursor_enter, State.frames_enter, Trail.text_pass, Segment.text_of,
      List.append_assoc]
    refine .within (h.levels.append _) (Nat.le_trans hstart hstop) ?_ ?_ (h.level.append _ hstop)
    · have hopener : 0 < opener.text.length := by
        cases opener <;> apply Nat.zero_lt_succ _
      simp only [Trail.length_pass, List.length_append, Trail.length_text, Segment.length_text]
      omega
    · intro statementStart himport
      obtain ⟨rfl, rfl, gap, hgap⟩ := hi statementStart himport
      have hlength : passed.length = (importWord ++ gap).length := by
        rw [← hgap, Segment.length_text]
      constructor
      · rfl
      · simp only [Trail.length_pass, hlength, List.length_append, importWord, List.length_cons]
        omega
      · rw [← Trail.length_text, List.drop_left, hgap, List.append_assoc]
        apply List.prefix_append _ _
      · have hat : (s.cursor.before.pass passed).length
            = (s.cursor.before.text ++ passed.text).length := by
          simp [Nat.add_comm]
        simp only [hat, Opener.text, Bracket.opening]
        rw [← List.append_assoc, List.getElem?_concat_length]
  · exact .nil

/-- The imports nest behind a declaration. -/
theorem declared (h : s.Nests) (hf : s.frames = []) {word : Text}
    (hw : word = importWord ∨ word = exportWord) {segment : Segment} {specifier : Option Text}
    (hq : Quotes segment specifier) (rest : Text) (expects : Expectation) :
  (s.declared (of .code word ++ segment) rest specifier expects).Nests
  := by
  cases specifier with
  | none =>
    have hmoved := h.moved (of .code word ++ segment) rest expects
    constructor
    · exact hmoved.levels
    · simpa using hmoved.level
  | some body =>
    obtain ⟨front, quote, hquote, rfl⟩ := hq body rfl
    have hmoved := h.moved (of .code word ++ (front ++ Segment.string quote body)) rest expects
    have hsource : (s.cursor.before.pass (of .code word ++ (front ++ Segment.string quote body))).text
        = s.cursor.before.text ++ (word ++ (front.text ++ quote :: (body ++ [quote]))) := by
      simp
    have hwritten := Occurrence.writtenIn_ofSpecifier hsource hw hquote
    rw [Trail.length_text, Trail.length_text] at hwritten
    have hsingle := Level.single hwritten (not_not.mpr hf)
    have hfound := h.level.append
      (of .code word ++ (front ++ Segment.string quote body)).text (Nat.le_refl _)
    rw [← Trail.text_pass] at hfound
    have hstart := h.levels.contentStart_le
    rw [Trail.length_text] at hstart
    have hjoined := hfound.join hsingle hstart (Nat.le_refl _)
      (Nat.le_of_lt hwritten.statementStart_lt_statementStop)
    exact ⟨hmoved.levels, hjoined⟩

end State.Nests

/-- Every step keeps the imports nested. -/
theorem Step.nests {s n : State} {segment : Segment} (h : Step s segment n) (hs : s.Nests) :
  n.Nests
  := by
  cases h with
  | space => apply hs.moved _ _ _
  | comment => apply hs.moved _ _ _
  | division => apply hs.moved _ _ _
  | pattern => apply hs.moved _ _ _
  | string => apply hs.moved _ _ _
  | literal => apply hs.moved _ _ _
  | substitution => apply hs.enter (by simp) _
  | opening =>
    rw [← s.cursor.before.pass_nil]
    apply hs.enter (by simp) _
  | closing hf ho => apply hs.close hf ho _ _
  | resumeLiteral hf => exact (hs.leave hf).moved _ _ _
  | resumeSubstitution hf => exact (hs.leave hf).enter (by simp) _
  | name => apply hs.moved _ _ _
  | dynamic => apply hs.enter (by simp) _
  | property => apply hs.moved _ _ _
  | @bare gap quote body rest hd hf hw hg hq hb =>
    apply hs.declared hf (.inl rfl) ((quotes_string hq).append gap) _ _
  | @importClause gap segment specifier rest hd hf hw hg hq hr hc =>
    apply hs.declared hf (.inl rfl) (hc.quotes.append gap) _ _
  | exportClause _ hf _ hc => apply hs.declared hf (.inr rfl) hc.quotes _ _
  | number => apply hs.moved _ _ _
  | mark => apply hs.moved _ _ _

/-- The imports nest at the end of a run if they do so at its beginning. -/
theorem Run.nests {s f : State} {segment : Segment} (h : Run s segment f) (hs : s.Nests) :
  f.Nests
  := by
  induction h with
  | finished hr hf => exact hs
  | step h hr htail ih => apply ih (h.nests hs)

/-- The occurrences of a source are the level outside of all its brackets. -/
theorem level_of_scan {source : Text} {occurrences : List Occurrence} (h : scan source = .ok occurrences) :
  Level source 0 source.length False occurrences
  := by
  obtain ⟨f, hfinish, rfl⟩ := exists_of_map_eq_ok h
  obtain ⟨hashbang, segment, hh, rfl, hrun⟩ := finish_eq_ok_iff.mp hfinish
  have hstart : (State.behindHashbang hashbang segment.text).Nests := ⟨.outermost, .nil⟩
  have hlevel := (hrun.nests hstart).level
  rw [hrun.final.2, ← Trail.length_text, hrun.before_eq, Trail.text_pass] at hlevel
  simpa [State.behindHashbang, State.initial, contentStart] using hlevel

/-- The occurrences of a source are written in it, in the order of their statements, and each
stands behind the earlier ones or, dynamic like these, in their round brackets. -/
theorem nests_of_scan {source : Text} {occurrences : List Occurrence}
    (h : scan source = .ok occurrences) :
  (∀ o ∈ occurrences, o.WrittenIn source) ∧ occurrences.Pairwise Occurrence.Precedes
  := by
  have hlevel := level_of_scan h
  exact ⟨hlevel.written, hlevel.ordered⟩

/-- A dynamic import in the argument of another one comes behind it and stands between its brackets. -/
theorem nests_of_scan_import_in_import :
  scan ("import(import('x'))").toList = .ok [⟨7, 18, 0, 19, true⟩, ⟨14, 17, 7, 18, true⟩]
    ∧ (∀ o ∈ [⟨7, 18, 0, 19, true⟩, ⟨14, 17, 7, 18, true⟩],
      Occurrence.WrittenIn o ("import(import('x'))").toList)
    ∧ List.Pairwise Occurrence.Precedes [⟨7, 18, 0, 19, true⟩, ⟨14, 17, 7, 18, true⟩]
  := by
  have h : scan ("import(import('x'))").toList
      = .ok [⟨7, 18, 0, 19, true⟩, ⟨14, 17, 7, 18, true⟩] := by
    simp +decide [scan, finish, State.start, State.initial, State.run_cons, State.run_nil, State.step,
      State.word, wordOf, behindWord, State.importStatement, skipTrivia_cons, readComment?, State.enter,
      readString, stringBody?, withFront, Bracket.ofOpening?, Bracket.ofClosing?, State.close,
      Frame.occurrence?, Except.map, Trail.empty, Trail.pass, Segment.of]
  exact ⟨h, nests_of_scan h⟩

end ImportCensus.Scan
