import ImportCensus.Proofs.Scan.Step

/-!
# Runs

A run puts steps together up to the end of a source.  It ends outside of all brackets, and it
passes the whole source: the segment of the run is the source with the part of each character.
-/

namespace ImportCensus.Scan

open Segment (of)

namespace State

variable {before : Trail} {expects : Expectation} {frames : List Frame} {found : List Occurrence}

/-- At the end of a source without open levels a run is over. -/
theorem run_nil :
  run ⟨⟨before, []⟩, expects, [], found⟩ = .ok ⟨⟨before, []⟩, expects, [], found⟩
  := by
  rw [run]

/-- At the end of a source an open level is an error. -/
theorem run_nil_cons {frame : Frame} :
  run ⟨⟨before, []⟩, expects, frame :: frames, found⟩
    = .error (.unclosed frame.opener frame.position)
  := by
  rw [run]

/-- A run goes on behind a step. -/
theorem run_cons {c : Char} {rest : Text} :
  run ⟨⟨before, c :: rest⟩, expects, frames, found⟩
    = match step ⟨⟨before, c :: rest⟩, expects, frames, found⟩ c rest with
      | .error e => .error e
      | .ok next => next.run
  := by
  rw [run]
  split
  · simp_all
  · rename_i h
    cases h
    split
    · simp_all
    · simp_all

end State

/-- A run of the scanner from a state to the end of its source, and the segment that it passes. -/
inductive Run : State → Segment → State → Prop where
  | finished {s : State} (hr : s.cursor.rest = []) (hf : s.frames = []) :
    Run s [] s
  | step {s n f : State} {segment tail : Segment} (hs : Step s segment n)
      (hr : s.cursor.rest = segment.text ++ n.cursor.rest) (h : Run n tail f) :
    Run s (segment ++ tail) f

variable {s n f : State} {segment : Segment}

/-- A step passes its segment. -/
theorem Step.before_eq (h : Step s segment n) :
  n.cursor.before = s.cursor.before.pass segment
  := by
  cases h with
  | space => simp
  | comment => simp
  | division => simp
  | pattern => simp
  | string => simp
  | literal => simp
  | substitution => simp [Segment.chunk, Opener.text, ChunkEnd.text]
  | opening => simp [Opener.text]
  | closing => simp
  | resumeLiteral => simp
  | resumeSubstitution => simp [Segment.chunk, Opener.text, ChunkEnd.text]
  | name => simp
  | dynamic => simp [Opener.text, Bracket.opening]
  | property => simp
  | bare => simp
  | importClause => simp
  | exportClause => simp
  | number => simp
  | mark => simp

/-- A step passes at least one character. -/
theorem Step.position_lt (h : Step s segment n) :
  s.cursor.position < n.cursor.position
  := by
  obtain ⟨c, tail, hc, hstep⟩ := h.step_eq
  have hle := State.length_step hstep
  have hlength := congrArg List.length hc
  rw [List.length_append, Segment.length_text, List.length_cons] at hlength
  rw [Cursor.position, Cursor.position, h.before_eq, Trail.length_pass]
  omega

/-- A run passes all that is left. -/
theorem Run.rest_eq (h : Run s segment f) :
  s.cursor.rest = segment.text
  := by
  induction h with
  | finished hr hf => exact hr
  | step hs hr h ih => rw [hr, ih, Segment.text_append]

/-- The trail behind a run goes on with what the run has passed. -/
theorem Run.before_eq (h : Run s segment f) :
  f.cursor.before = s.cursor.before.pass segment
  := by
  induction h with
  | finished hr hf => simp
  | step hs hr h ih => rw [ih, hs.before_eq, Trail.pass_pass]

/-- At the end of a run nothing is left and no level is open. -/
theorem Run.final (h : Run s segment f) :
  f.cursor.rest = [] ∧ f.frames = []
  := by
  induction h with
  | finished hr hf => exact ⟨hr, hf⟩
  | step hs hr h ih => exact ih

/-- A step does not change where the scanner ends. -/
theorem Step.run_eq (hs : Step s segment n) (hr : s.cursor.rest = segment.text ++ n.cursor.rest) :
  s.run = n.run
  := by
  obtain ⟨c, rest, hc, hstep⟩ := hs.step_eq
  obtain ⟨⟨before, _⟩, expects, frames, found⟩ := s
  obtain rfl := hr.trans hc
  rw [State.run_cons, hstep]

/-- Spaces do not change where the scanner ends. -/
theorem State.run_of_spaces {spaces : Segment} {rest : Text}
    (hs : ∀ passed ∈ spaces, passed.2 = .code ∧ isSpace passed.1 = true)
    (hr : s.cursor.rest = spaces.text ++ rest) :
  s.run = (s.moved spaces rest s.expects).run
  := by
  induction spaces generalizing s with
  | nil =>
    rw [Segment.text_nil, List.nil_append] at hr
    rw [← hr, State.moved_nil]
  | cons passed spaces ih =>
    obtain ⟨c, part⟩ := passed
    obtain ⟨rfl, hc⟩ := hs (c, part) List.mem_cons_self
    have hstep : Step s [(c, .code)]
        (s.moved [(c, .code)] (Segment.text spaces ++ rest) s.expects) := .space hc
    have hspaces : ∀ passed ∈ spaces, passed.2 = .code ∧ isSpace passed.1 = true := by
      intro passed hp
      apply hs passed
      apply List.mem_cons_of_mem _ hp
    rw [hstep.run_eq hr, ih hspaces rfl, State.moved_moved]
    rfl

/-- The relation `Run` gives the state in which the scanner ends. -/
theorem Run.run_eq (h : Run s segment f) :
  s.run = .ok f
  := by
  induction h with
  | @finished s hr hf =>
    obtain ⟨⟨before, rest⟩, expects, frames, found⟩ := s
    cases hr
    cases hf
    exact State.run_nil
  | step hs hr h ih => exact (hs.run_eq hr).trans ih

/-- A scanner that ends has taken the steps of a run. -/
theorem exists_of_run (h : s.run = .ok f) :
  ∃ segment, Run s segment f
  := by
  fun_induction State.run s with
  | case1 s hr hf =>
    cases h
    exact ⟨[], .finished hr hf⟩
  | case2 => cases h
  | case3 => cases h
  | case4 s c rest hr n hs ih =>
    obtain ⟨tail, ht⟩ := ih h
    obtain ⟨segment, hstep, he⟩ := exists_of_step hs
    exact ⟨segment ++ tail, .step hstep (hr.trans he) ht⟩

/-! ### Runs over spaces, comments and words -/

/-- A state takes one step at most. -/
theorem Step.deterministic {n' : State} {segment' : Segment} (h : Step s segment n)
    (h' : Step s segment' n')
    (he : segment.text ++ n.cursor.rest = segment'.text ++ n'.cursor.rest) :
  segment = segment' ∧ n = n'
  := by
  obtain ⟨c, rest, hc, hstep⟩ := h.step_eq
  obtain ⟨c', rest', hc', hstep'⟩ := h'.step_eq
  rw [hc, hc'] at he
  cases he
  rw [hstep] at hstep'
  cases hstep'
  have hpass := h.before_eq.symm.trans h'.before_eq
  exact ⟨Trail.pass_injective hpass, rfl⟩

/-- A run takes the step that can be taken first. -/
theorem Step.exists_run {whole : Segment} (hs : Step s segment n)
    (hr : s.cursor.rest = segment.text ++ n.cursor.rest) (h : Run s whole f) :
  ∃ tail, whole = segment ++ tail ∧ Run n tail f
  := by
  cases h with
  | finished hnil =>
    obtain ⟨c, rest, hc, -⟩ := hs.step_eq
    rw [← hr, hnil] at hc
    cases hc
  | @step _ _ _ _ tail hs' hr' h =>
    obtain ⟨rfl, rfl⟩ := hs.deterministic hs' (hr.symm.trans hr')
    exact ⟨tail, rfl, h⟩

/-- The scanner gets from a state to another one by steps over a segment. -/
inductive GetsTo : State → Segment → State → Prop where
  | here {s : State} :
    GetsTo s [] s
  | step {s n m : State} {segment tail : Segment} (hs : Step s segment n)
      (hr : s.cursor.rest = segment.text ++ n.cursor.rest) (h : GetsTo n tail m) :
    GetsTo s (segment ++ tail) m

section

variable {m : State} {passed tail : Segment}

/-- One step gets to a state. -/
theorem Step.getsTo (hs : Step s segment n) (hr : s.cursor.rest = segment.text ++ n.cursor.rest) :
  GetsTo s segment n
  := by
  rw [← List.append_nil segment]
  exact .step hs hr .here

/-- The scanner goes on where it has got to. -/
theorem GetsTo.trans (h : GetsTo s passed n) (h' : GetsTo n tail m) :
  GetsTo s (passed ++ tail) m
  := by
  induction h with
  | here => exact h'
  | step hs hr h ih =>
    rw [List.append_assoc]
    exact .step hs hr (ih h')

/-- Steps do not change where the scanner ends. -/
theorem GetsTo.run_eq (h : GetsTo s passed m) :
  s.run = m.run
  := by
  induction h with
  | here => rfl
  | step hs hr h ih => rw [hs.run_eq hr, ih]

/-- The steps over a segment pass its characters. -/
theorem GetsTo.before_eq (h : GetsTo s passed m) :
  m.cursor.before = s.cursor.before.pass passed
  := by
  induction h with
  | here => simp
  | step hs hr h ih => rw [ih, hs.before_eq, Trail.pass_pass]

/-- A run leads through every state that is got to. -/
theorem GetsTo.exists_run (h : GetsTo s passed m) (hrun : Run s segment f) :
  ∃ tail, segment = passed ++ tail ∧ Run m tail f
  := by
  induction h generalizing segment with
  | here => exact ⟨segment, rfl, hrun⟩
  | step hs hr h ih =>
    obtain ⟨behind, rfl, hbehind⟩ := hs.exists_run hr hrun
    obtain ⟨tail, rfl, htail⟩ := ih hbehind
    exact ⟨tail, (List.append_assoc ..).symm, htail⟩

/-- A run goes on from a state that is got to. -/
theorem GetsTo.run (h : GetsTo s passed m) (hrun : Run m tail f) :
  Run s (passed ++ tail) f
  := by
  induction h with
  | here => exact hrun
  | step hs hr h ih =>
    rw [List.append_assoc]
    exact .step hs hr (ih hrun)

end

/-- Spaces and comments are told from what stands behind them in one way. -/
theorem Trivia.unique {gap gap' : Segment} {rest rest' : Text} (h : Trivia gap rest)
    (h' : Trivia gap' rest') (he : gap.text ++ rest = gap'.text ++ rest') :
  gap = gap' ∧ rest = rest'
  := by
  have hskip := h.skipTrivia_eq .empty
  rw [he, h'.skipTrivia_eq] at hskip
  obtain ⟨hpass, hrest⟩ := Cursor.mk.inj (Except.ok.inj hskip)
  exact ⟨(Trail.pass_injective hpass).symm, hrest.symm⟩

/-- What is neither a space nor a slash ends spaces and comments. -/
theorem isSettled_cons {c : Char} (hs : isSpace c = false) (hc : c ≠ '/') (rest : Text) :
  isSettled (c :: rest) = true
  := by
  have hcomment : beginsComment (c :: rest) = false := beginsComment_of_ne hc rest
  simp [isSettled, stops, hs, hcomment]

/-- A word ends spaces and comments. -/
theorem IsWord.isSettled {name rest : Text} (h : IsWord name rest)
    (hs : stops isSpace name = true) :
  isSettled (name ++ rest) = true
  := by
  cases h with
  | mk hc ht hr =>
    rw [List.cons_append]
    apply isSettled_cons
    · simpa [stops] using hs
    · exact (State.ne_of_isIdentifierStart hc).1

/-- A step that passes neither a space nor a comment begins at a settled text. -/
theorem Step.isSettled_or (h : Step s segment n) :
  isSettled (segment.text ++ n.cursor.rest) = true
    ∨ n = s.moved segment n.cursor.rest s.expects
      ∧ ∀ {gap : Segment} {rest : Text}, Trivia gap rest → n.cursor.rest = gap.text ++ rest →
        Trivia (segment ++ gap) rest
  := by
  have himport : stops isSpace importWord = true := by decide
  have hexport : stops isSpace exportWord = true := by decide
  cases h with
  | space hc =>
    right
    use rfl
    intro gap rest hg hr
    exact .space hc hg
  | @comment comment rest hc =>
    right
    use rfl
    intro gap rest hg hr
    rw [State.cursor_moved] at hr
    subst hr
    exact .comment hc hg
  | division he hc =>
    left
    simpa [isSettled, stops, isSpace, Text.isBlank] using hc
  | pattern he hc =>
    left
    simpa [isSettled, stops, isSpace, Text.isBlank] using hc
  | @string quote body rest hq hb =>
    left
    obtain ⟨hspace, hslash⟩ := State.ne_of_isQuote hq
    apply isSettled_cons hspace hslash _
  | literal =>
    left
    apply isSettled_cons (by decide) (by decide) _
  | substitution =>
    left
    apply isSettled_cons (by decide) (by decide) _
  | opening b =>
    left
    cases b <;> apply isSettled_cons (by decide) (by decide) _
  | @closing b =>
    left
    cases b <;> apply isSettled_cons (by decide) (by decide) _
  | resumeLiteral =>
    left
    apply isSettled_cons (by decide) (by decide) _
  | resumeSubstitution =>
    left
    apply isSettled_cons (by decide) (by decide) _
  | name hw hs =>
    left
    simpa using hw.isSettled hs
  | dynamic hd hw =>
    left
    simpa using hw.isSettled himport
  | property hd hw =>
    left
    simpa using hw.isSettled himport
  | bare hd hf hw =>
    left
    simpa using hw.isSettled himport
  | importClause hd hf hw =>
    left
    simpa using hw.isSettled himport
  | exportClause hd hf hw =>
    left
    simpa using hw.isSettled hexport
  | number hc =>
    left
    obtain ⟨hspace, hslash, -⟩ := State.ne_of_beginsNumber hc
    apply isSettled_cons hspace hslash _
  | mark hc =>
    left
    apply isSettled_cons hc.not_space hc.ne_slash _

/-- A run passes the spaces and comments in front of it first. -/
theorem Run.exists_trivia (h : Run s segment f) :
  ∃ gap tail : Segment, Trivia gap tail.text ∧ segment = gap ++ tail
    ∧ Run (s.moved gap tail.text s.expects) tail f
  := by
  induction h with
  | @finished s hr hf =>
    refine ⟨[], [], .settled rfl, rfl, ?_⟩
    rw [Segment.text_nil, ← hr, State.moved_nil]
    exact .finished hr hf
  | @step s n f segment tail hs hr h ih =>
    obtain hsettled | ⟨hn, htrivia⟩ := hs.isSettled_or
    · refine ⟨[], segment ++ tail, .settled ?_, rfl, ?_⟩
      · rw [Segment.text_append, ← h.rest_eq]
        exact hsettled
      · rw [Segment.text_append, ← h.rest_eq, ← hr, State.moved_nil]
        exact .step hs hr h
    · obtain ⟨gap, behind, hgap, rfl, hrun⟩ := ih
      refine ⟨segment ++ gap, behind, htrivia hgap ?_, by simp, ?_⟩
      · rw [h.rest_eq, Segment.text_append]
      · rw [hn] at hrun
        simpa using hrun

/-- Spaces and comments are passed step by step. -/
theorem Trivia.getsTo {gap : Segment} {rest : Text} (hg : Trivia gap rest)
    (hr : s.cursor.rest = gap.text ++ rest) :
  GetsTo s gap (s.moved gap rest s.expects)
  := by
  induction hg generalizing s with
  | settled =>
    rw [Segment.text_nil, List.nil_append] at hr
    rw [← hr, State.moved_nil]
    exact .here
  | @space c gap rest hc hg ih =>
    have hstep : Step s [(c, .code)] (s.moved [(c, .code)] (gap.text ++ rest) s.expects) :=
      .space hc
    simpa using (hstep.getsTo hr).trans (ih rfl)
  | @comment comment gap rest hc hg ih =>
    have hstep : Step s (of .comment comment)
        (s.moved (of .comment comment) (gap.text ++ rest) s.expects) := .comment hc
    simpa using (hstep.getsTo (by simpa using hr)).trans (ih rfl)

/-- The spaces and comments in front of a run are passed by it. -/
theorem Run.behind_trivia {gap : Segment} {rest : Text} (h : Run s segment f)
    (hg : Trivia gap rest) (hr : s.cursor.rest = gap.text ++ rest) :
  ∃ tail : Segment, tail.text = rest ∧ segment = gap ++ tail
    ∧ Run (s.moved gap rest s.expects) tail f
  := by
  obtain ⟨tail, rfl, htail⟩ := (hg.getsTo hr).exists_run h
  exact ⟨tail, htail.rest_eq.symm, rfl, htail⟩

/-- Spaces and comments do not change where the scanner ends. -/
theorem Trivia.run_eq {gap : Segment} {rest : Text} (hg : Trivia gap rest)
    (hr : s.cursor.rest = gap.text ++ rest) :
  s.run = (s.moved gap rest s.expects).run
  := (hg.getsTo hr).run_eq

/-- A run passes the word in front of it, if the word begins no declaration. -/
theorem Run.behind_word {name rest : Text} (h : Run s segment f) (hw : IsWord name rest)
    (hs : stops isSpace name = true) (hi : name ≠ importWord) (he : name ≠ exportWord)
    (hr : s.cursor.rest = name ++ rest) :
  ∃ tail : Segment, tail.text = rest ∧ segment = of .code name ++ tail
    ∧ Run (s.moved (of .code name) rest (expectsBehindWord name)) tail f
  := by
  have hstep : Step s (of .code name) (s.moved (of .code name) rest (expectsBehindWord name)) :=
    .name hw hs (fun h => absurd h hi) (fun h => absurd h he)
  obtain ⟨tail, rfl, htail⟩ := hstep.exists_run (by simpa using hr) h
  exact ⟨tail, htail.rest_eq.symm, rfl, htail⟩

/-- What is expected matters to a slash only. -/
theorem State.step_with_expects {c : Char} (hs : isSpace c = false) (hc : c ≠ '/')
    (expects : Expectation) (rest : Text) :
  { s with expects }.step c rest = s.step c rest
  := by
  simp only [State.step, hs, hc, Bool.false_eq_true, if_false]
  rfl

/-- What may come next counts only in front of a slash. -/
theorem State.found_run_with_expects (hs : isSettled s.cursor.rest = true)
    (hc : s.cursor.rest.head? ≠ some '/') (expects : Expectation) :
  { s with expects }.run.map found = s.run.map found
  := by
  obtain ⟨⟨before, rest⟩, expects', frames, found⟩ := s
  cases rest with
  | nil =>
    cases frames with
    | nil =>
      rw [State.run_nil, State.run_nil]
      rfl
    | cons frame frames => rw [State.run_nil_cons, State.run_nil_cons]
  | cons c rest =>
    have hspace : isSpace c = false := by
      simp only [isSettled, stops, List.head?_cons, Option.all_some, Bool.and_eq_true,
        Bool.not_eq_true'] at hs
      exact hs.1
    have hslash : c ≠ '/' := by simpa using hc
    have hstep := State.step_with_expects hspace hslash expects rest
      (s := ⟨⟨before, c :: rest⟩, expects', frames, found⟩)
    simp only at hstep
    rw [State.run_cons, State.run_cons, hstep]

/-! ### Sources -/

/-- A first line that is passed like a comment, given what stands behind it. -/
inductive Hashbang : Segment → Text → Prop where
  | missing {rest : Text} (h : ¬['#', '!'] <+: rest) :
    Hashbang [] rest
  | line {body rest : Text} (hb : body.all isInLine = true) (hr : stops isInLine rest = true) :
    Hashbang (of .comment ('#' :: '!' :: body)) rest

/-- The state behind the first line that is passed like a comment. -/
def State.behindHashbang (hashbang : Segment) (rest : Text) : State :=
  (State.initial []).moved hashbang rest .operand

/-- The scanner begins behind the line in front of a source. -/
theorem Hashbang.start_eq {rest : Text} (h : Hashbang segment rest) :
  State.start (segment.text ++ rest) = .behindHashbang segment rest
  := by
  cases h with
  | missing h =>
    rw [Segment.text_nil, List.nil_append, State.start.eq_def]
    split
    · exact absurd ⟨_, rfl⟩ h
    · simp [State.behindHashbang, State.moved, State.initial, State.goto]
  | @line body _ hb hr =>
    have hall : ('#' :: '!' :: body).all isInLine = true := by simpa [isInLine] using hb
    have ht : lineComment ('#' :: '!' :: body ++ rest) = '#' :: '!' :: body :=
      takeWhile_append_of_stops hall hr
    have hd : behindLine ('#' :: '!' :: body ++ rest) = rest :=
      dropWhile_append_of_stops hall hr
    simp only [List.cons_append] at ht hd
    simp [State.start, ht, hd, State.behindHashbang, State.moved, State.initial, State.goto]

/-- Without a number sign in front no line is passed. -/
theorem hashbang_nil {source : Text} (h : source.head? ≠ some '#') :
  Hashbang [] source
  := by
  apply Hashbang.missing
  rintro ⟨rest, rfl⟩
  exact h rfl

/-- A source that does not begin with a number sign is scanned from its first character on. -/
theorem finish_eq {source : Text} (h : source.head? ≠ some '#') :
  finish source = (State.behindHashbang [] source).run
  := by
  have hstart := (hashbang_nil h).start_eq
  rw [Segment.text_nil, List.nil_append] at hstart
  rw [finish, hstart]

/-- Every source has a line in front, possibly an empty one, and something behind it. -/
theorem exists_hashbang (source : Text) :
  ∃ hashbang rest, Hashbang hashbang rest ∧ source = hashbang.text ++ rest
  := by
  by_cases h : ['#', '!'] <+: source
  · obtain ⟨behind, rfl⟩ := h
    refine ⟨of .comment ('#' :: '!' :: lineComment behind), behindLine behind, ?_, ?_⟩
    · exact .line List.all_takeWhile (stops_dropWhile _ _)
    · simp [lineComment_append_behindLine]
  · exact ⟨[], source, .missing h, rfl⟩

/-- A source is scanned by a run behind its first line. -/
theorem finish_eq_ok_iff {source : Text} :
  finish source = .ok f
    ↔ ∃ hashbang segment, Hashbang hashbang segment.text
        ∧ source = hashbang.text ++ segment.text
        ∧ Run (.behindHashbang hashbang segment.text) segment f
  := by
  unfold finish
  constructor
  · intro h
    obtain ⟨hashbang, rest, hh, rfl⟩ := exists_hashbang source
    rw [hh.start_eq] at h
    obtain ⟨segment, hrun⟩ := exists_of_run h
    obtain rfl : rest = segment.text := hrun.rest_eq
    exact ⟨hashbang, segment, hh, rfl, hrun⟩
  · rintro ⟨hashbang, segment, hh, rfl, hrun⟩
    rw [hh.start_eq]
    exact hrun.run_eq

/-- The parts of a source are what a run passes, behind its first line. -/
theorem parts_eq_ok_iff {source : Text} {passed : Segment} :
  parts source = .ok passed
    ↔ ∃ hashbang segment f, Hashbang hashbang segment.text ∧ source = hashbang.text ++ segment.text
        ∧ Run (.behindHashbang hashbang segment.text) segment f ∧ passed = hashbang ++ segment
  := by
  have hpassed : ∀ {hashbang segment : Segment} {f : State},
      Run (.behindHashbang hashbang segment.text) segment f →
        f.cursor.before.characters.reverse = hashbang ++ segment := by
    intro hashbang segment f hrun
    rw [hrun.before_eq]
    simp [State.behindHashbang, State.initial, Trail.pass, Trail.empty]
  constructor
  · intro h
    obtain ⟨f, hf, rfl⟩ := exists_of_map_eq_ok h
    obtain ⟨hashbang, segment, hh, hs, hrun⟩ := finish_eq_ok_iff.mp hf
    exact ⟨hashbang, segment, f, hh, hs, hrun, hpassed hrun⟩
  · rintro ⟨hashbang, segment, f, hh, hs, hrun, rfl⟩
    rw [parts, finish_eq_ok_iff.mpr ⟨hashbang, segment, hh, hs, hrun⟩, ← hpassed hrun]
    rfl

end ImportCensus.Scan
