import ImportCensus.Proofs.Scan.Nesting

/-!
# The statements of occurrences

Wherever the scanner finds an import, the characters of a statement stand: a declaration that imports a module,
or the word `import` with an argument in round brackets.  The scanner reads an argument token by token, so the
invariant tells for every open level that is one that a token of the scanner stands at its start.
-/

namespace ImportCensus.Scan

open Segment (of)

/-! ### Statements -/

/-- A declaration that imports a module: its segment, the contents of its specifier, and what stands behind
it. -/
inductive Declares : Segment → Text → Text → Prop where
  | bare {gap : Segment} {quote : Char} {body rest : Text}
      (hw : IsWord importWord (gap.text ++ ((Segment.string quote body).text ++ rest)))
      (hg : Trivia gap ((Segment.string quote body).text ++ rest)) (hq : isQuote quote = true)
      (hb : IsStringBody quote body) :
    Declares (of .code importWord ++ (gap ++ Segment.string quote body)) body rest
  | clause {gap segment : Segment} {body rest : Text}
      (hw : IsWord importWord (gap.text ++ (segment.text ++ rest)))
      (hg : Trivia gap (segment.text ++ rest)) (hq : beginsQuote (segment.text ++ rest) = false)
      (hr : (segment.text ++ rest).head? ≠ some '(' ∧ (segment.text ++ rest).head? ≠ some '.')
      (hc : ImportClause segment (some body) rest) :
    Declares (of .code importWord ++ (gap ++ segment)) body rest

/-- A segment that is passed token by token. -/
inductive Tokens : Segment → Prop where
  | nil : Tokens []
  | cons {s n : State} {token segment : Segment} (h : Step s token n) (ht : Tokens segment) :
    Tokens (token ++ segment)

/-- The statement of an occurrence that begins at `position`. -/
inductive IsStatement (position : Nat) : Segment → Occurrence → Prop where
  | declaration {segment : Segment} {body rest : Text} (h : Declares segment body rest) :
    IsStatement position segment (.ofSpecifier position (segment.length + position) body)
  | onward {segment : Segment} {body rest : Text} (h : ExportClause segment (some body) rest) :
    IsStatement position (of .code exportWord ++ segment)
      (.ofSpecifier position ((of .code exportWord ++ segment).length + position) body)
  | call {gap argument : Segment} {rest : Text} (hg : Trivia gap ('(' :: rest))
      (ha : Tokens argument) :
    IsStatement position (of .code importWord ++ (gap ++ ('(', .code) :: (argument ++ [(')', .code)]))) {
      start := position + importWord.length + gap.length + 1
      stop := position + importWord.length + gap.length + 1 + argument.length
      statementStart := position
      statementStop := position + importWord.length + gap.length + 1 + argument.length + 1
      dynamic := true }

/-- One more token behind tokens. -/
theorem Tokens.append_token {s n : State} {segment token : Segment} (h : Tokens segment) (ht : Step s token n) :
  Tokens (segment ++ token)
  := by
  induction h with
  | nil =>
    rw [List.nil_append, ← List.append_nil token]
    exact .cons ht .nil
  | cons hfirst _ ih =>
    rw [List.append_assoc]
    exact .cons hfirst ih

/-- A declaration is passed in one step outside of all brackets. -/
theorem Declares.step {segment : Segment} {body rest : Text} (h : Declares segment body rest) {s : State}
    (hf : s.frames = []) (hd : afterDot s.cursor.before = false) :
  Step s segment (s.declared segment rest (some body) .operator)
  := by
  cases h with
  | bare hw hg hq hb => exact .bare hd hf hw hg hq hb
  | clause hw hg hq hr hc => exact .importClause hd hf hw hg hq hr hc

/-- A declaration ends in its specifier. -/
theorem Declares.quotes {segment : Segment} {body rest : Text} (h : Declares segment body rest) :
  Quotes segment (some body)
  := by
  cases h with
  | bare hw hg hq hb => exact ((quotes_string hq).append _).append _
  | clause hw hg hq hr hc => exact (hc.quotes.append _).append _

section

variable {segment : Segment}

/-- The first token begins with the first character. -/
theorem Tokens.exists_step (h : Tokens segment) {c : Char} {rest : Text} (ht : segment.text = c :: rest) :
  ∃ s n token more left, Step s token n ∧ Tokens more ∧ segment = token ++ more ∧ s.step c left = .ok n
  := by
  cases h with
  | nil => cases ht
  | @cons s n token more hstep hmore =>
    obtain ⟨d, left, hleft, hd⟩ := hstep.step_eq
    have hlt := hstep.position_lt
    rw [Cursor.position, Cursor.position, hstep.before_eq, Trail.length_pass] at hlt
    cases token with
    | nil => simp at hlt
    | cons passed token =>
      have hc : d = c := by
        have hfirst : passed.1 = c := (List.cons.inj ht).1
        rw [← hfirst]
        exact (List.cons.inj hleft).1.symm
      subst hc
      exact ⟨s, n, _, more, left, hstep, hmore, rfl, hd⟩

/-- A blank is a token of its own. -/
theorem Tokens.exists_of_isBlank (h : Tokens segment) {blanks rest : Text} (hb : blanks.all Text.isBlank = true)
    (ht : segment.text = blanks ++ rest) :
  ∃ more, segment = of .code blanks ++ more ∧ Tokens more ∧ more.text = rest
  := by
  induction blanks generalizing segment with
  | nil => exact ⟨segment, rfl, h, ht⟩
  | cons c blanks ih =>
    rw [List.all_cons, Bool.and_eq_true] at hb
    obtain ⟨s, n, token, more, left, hstep, hmore, rfl, hread⟩ := h.exists_step ht
    rw [State.step_space _ _ (by simp [isSpace, hb.1])] at hread
    have hn := Except.ok.inj hread
    have hpass := hstep.before_eq
    rw [← hn] at hpass
    obtain rfl : [(c, .code)] = token := Trail.pass_injective hpass
    obtain ⟨behind, rfl, hbehind, hrest⟩ := ih hmore hb.2 (List.cons.inj ht).2
    exact ⟨behind, rfl, hbehind, hrest⟩

/-- A quotation mark begins a string. -/
theorem Tokens.exists_string (h : Tokens segment) {quote : Char} {rest : Text} (hq : isQuote quote = true)
    (ht : segment.text = quote :: rest) :
  ∃ body more, segment = Segment.string quote body ++ more ∧ IsStringBody quote body ∧ Tokens more
  := by
  obtain ⟨s, n, token, more, left, hstep, hmore, rfl, hread⟩ := h.exists_step ht
  rw [State.step_quote _ _ hq] at hread
  obtain ⟨cursor, hcursor, rfl⟩ := exists_of_map_eq_ok hread
  obtain ⟨body, behind, hbody, -, rfl⟩ := readString_eq_ok_iff.mp hcursor
  obtain rfl : Segment.string quote body = token := Trail.pass_injective hstep.before_eq
  exact ⟨body, more, rfl, hbody, hmore⟩

/-- A string without quotation marks in it ends at the next one. -/
theorem eq_of_append_quote {quote closing : Char} {body contents left right : Text} (hq : isQuote quote = true)
    (hc : ∀ c ∈ contents, isQuote c = false) (hr : ∀ c ∈ right, isQuote c = false)
    (h : body ++ quote :: left = contents ++ closing :: right) :
  body = contents ∧ closing = quote ∧ left = right
  := by
  obtain ⟨middle, rfl, hmiddle⟩ | ⟨middle, rfl, hmiddle⟩ := List.append_eq_append_iff.mp h
  · cases middle with
    | nil =>
      obtain ⟨rfl, rfl⟩ := List.cons.inj hmiddle
      exact ⟨(List.append_nil _).symm, rfl, rfl⟩
    | cons c middle =>
      obtain rfl : quote = c := (List.cons.inj hmiddle).1
      rw [hc quote (by simp)] at hq
      cases hq
  · cases middle with
    | nil =>
      obtain ⟨rfl, rfl⟩ := List.cons.inj hmiddle
      exact ⟨List.append_nil _, rfl, rfl⟩
    | cons c middle =>
      have hright := (List.cons.inj hmiddle).2
      rw [hr quote (by simp [hright])] at hq
      cases hq

/-- Tokens that end where the string in front of them may end are this string. -/
theorem Tokens.isStringBody (h : Tokens segment) {quote closing : Char} {contents : Text} (hq : isQuote quote = true)
    (hc : ∀ c ∈ contents, isQuote c = false) (ht : segment.text = quote :: (contents ++ [closing])) :
  closing = quote ∧ IsStringBody quote contents
  := by
  obtain ⟨body, more, rfl, hbody, -⟩ := h.exists_string hq ht
  have heq : body ++ quote :: more.text = contents ++ [closing] := by
    simpa using ht
  obtain ⟨rfl, rfl, -⟩ := eq_of_append_quote hq hc (List.forall_mem_nil _) heq
  exact ⟨rfl, hbody⟩

/-- Tokens that end where the template in front of them may end are this template. -/
theorem Tokens.isChunk (h : Tokens segment) {contents : Text} (hd : '$' ∉ contents) (hb : '\x60' ∉ contents)
    (ht : segment.text = '\x60' :: (contents ++ ['\x60'])) :
  IsChunk .literal contents
  := by
  obtain ⟨s, n, token, more, left, hstep, -, rfl, hread⟩ := h.exists_step ht
  rw [State.step_backtick, template_eq_ok_iff] at hread
  obtain ⟨chunk, behind, ⟨hchunk, -, rfl⟩ | ⟨hchunk, -, rfl⟩⟩ := hread
  · have hpass := hstep.before_eq
    simp only [State.goto, Trail.add_eq_pass, Trail.pass_pass] at hpass
    obtain rfl := Trail.pass_injective hpass
    have heq : chunk ++ '\x60' :: more.text = contents ++ ['\x60'] := by
      simpa [Segment.chunk, ChunkEnd.text] using ht
    obtain ⟨middle, rfl, hmiddle⟩ | ⟨middle, rfl, hmiddle⟩ := List.append_eq_append_iff.mp heq
    · cases middle with
      | nil => simpa using hchunk
      | cons c middle =>
        obtain rfl : '\x60' = c := (List.cons.inj hmiddle).1
        simp at hb
    · cases middle with
      | nil => simpa using hchunk
      | cons c middle =>
        have hlength := congrArg List.length hmiddle
        simp at hlength
  · -- a substitution has a dollar sign
    have hpass := hstep.before_eq
    simp only [State.cursor_enter, Trail.add_eq_pass, Trail.pass_pass] at hpass
    obtain rfl := Trail.pass_injective hpass
    have hmem : '$' ∈ contents ++ ['\x60'] := by
      have htext := (List.cons.inj ht).2
      rw [← htext]
      simp [Opener.text]
    simp [hd] at hmem

end

/-! ### The invariant of scanner states -/

/-- An occurrence whose statement stands among characters. -/
def Occurrence.StandsIn (o : Occurrence) (passed : Segment) : Prop :=
  ∃ front statement behind, passed = front ++ (statement ++ behind) ∧ IsStatement front.length statement o

/-- An occurrence stands in what has been passed when more is passed. -/
theorem Occurrence.StandsIn.append {o : Occurrence} {passed : Segment} (h : o.StandsIn passed) (more : Segment) :
  o.StandsIn (passed ++ more)
  := by
  obtain ⟨front, statement, behind, rfl, hs⟩ := h
  exact ⟨front, statement, behind ++ more, by simp, hs⟩

/-- A level whose imports have their statements among characters, and whose argument, if it is one, ends with
them. -/
structure Frame.StandsIn (frame : Frame) (passed : Segment) : Prop where
  outer : ∀ o ∈ frame.outer, o.StandsIn passed
  argument : ∀ statementStart, frame.importAt = some statementStart →
    frame.opener = .bracket .round ∧ ∃ front gap argument rest,
      passed = front ++ (of .code importWord ++ (gap ++ ('(', .code) :: argument))
        ∧ statementStart = front.length ∧ frame.position = front.length + importWord.length + gap.length
        ∧ Trivia gap ('(' :: rest) ∧ Tokens argument

/-- A state that has passed characters among which the statements of all that was found stand. -/
structure State.Stands (s : State) (passed : Segment) : Prop where
  before_eq : s.cursor.before = Trail.empty.pass passed
  found : ∀ o ∈ s.found, o.StandsIn passed
  frames : ∀ frame ∈ s.frames, frame.StandsIn passed

section

variable {s n : State} {segment passed : Segment}

/-- A dynamic import that is open stands in what has been passed when one more token is passed. -/
theorem Frame.StandsIn.append_token {frame : Frame} (h : frame.StandsIn passed) (hs : Step s segment n) :
  frame.StandsIn (passed ++ segment)
  := by
  constructor
  · intro o ho
    exact (h.outer o ho).append segment
  · intro statementStart himport
    obtain ⟨hopener, front, gap, argument, rest, rfl, hstart, hposition, hg, ha⟩ :=
      h.argument statementStart himport
    refine ⟨hopener, front, gap, argument ++ segment, rest, by simp, hstart, hposition, hg, ?_⟩
    exact ha.append_token hs

/-- Behind a token all stands where it stood, apart from what the token adds. -/
theorem Step.stands_of (h : Step s segment n) (hs : s.Stands passed)
    (hfound : ∀ o ∈ n.found, o ∈ s.found ∨ o.StandsIn (passed ++ segment))
    (hframes : ∀ frame ∈ n.frames, frame ∈ s.frames ∨ frame.StandsIn (passed ++ segment)) :
  n.Stands (passed ++ segment)
  := by
  constructor
  · rw [h.before_eq, hs.before_eq, Trail.pass_pass]
  · intro o ho
    obtain hbefore | hstands := hfound o ho
    · exact (hs.found o hbefore).append segment
    · exact hstands
  · intro frame hframe
    obtain hbefore | hstands := hframes frame hframe
    · exact (hs.frames frame hbefore).append_token h
    · exact hstands

/-- A state has passed as many characters as its trail has. -/
theorem State.Stands.length_eq (h : s.Stands passed) :
  s.cursor.before.length = passed.length
  := by
  rw [h.before_eq, Trail.length_pass]
  rfl

/-- The level that a token opens, unless it is an argument. -/
theorem State.Stands.frame (h : s.Stands passed) (opener : Opener) (position : Nat) (segment : Segment) :
  Frame.StandsIn ⟨opener, position, none, s.found⟩ (passed ++ segment)
  := by
  constructor
  · intro o ho
    exact (h.found o ho).append segment
  · intro _ himport
    cases himport

/-- The imports around a level stand where they do when the level closes. -/
theorem State.Stands.outer (h : s.Stands passed) {frame : Frame} (hf : frame ∈ s.frames) (segment : Segment) :
  ∀ o ∈ frame.outer, o.StandsIn (passed ++ segment)
  := by
  intro o ho
  exact ((h.frames frame hf).outer o ho).append segment

/-- A declaration that has been passed stands where it has been found. -/
theorem State.Stands.declared (h : s.Stands passed) (hd : Step s segment n) {specifier : Option Text}
    {rest : Text} {expects : Expectation} (hn : n = s.declared segment rest specifier expects)
    (hs : ∀ body, specifier = some body → IsStatement passed.length segment
      (.ofSpecifier passed.length (segment.length + passed.length) body)) :
  n.Stands (passed ++ segment)
  := by
  subst hn
  apply hd.stands_of h
  · intro o ho
    rw [State.found_declared, List.mem_append, h.length_eq] at ho
    obtain ho | ho := ho
    · exact .inl ho
    · cases specifier with
      | none => cases ho
      | some body =>
        obtain rfl := List.mem_singleton.mp ho
        exact .inr ⟨passed, segment, [], by simp, hs body rfl⟩
  · exact fun frame hframe => .inl hframe

/-- The dynamic import that a level is the argument of stands where the level has opened and closes. -/
theorem State.Stands.close (h : s.Stands passed) {frame : Frame} (hf : frame ∈ s.frames) {b : Bracket}
    (ho : frame.opener = .bracket b) :
  ∀ o ∈ (frame.occurrence? s.cursor.before.length).toList, o.StandsIn (passed ++ [(b.closing, .code)])
  := by
  intro o hmem
  cases himport : frame.importAt with
  | none => simp [Frame.occurrence?, himport] at hmem
  | some statementStart =>
    obtain ⟨hopener, front, gap, argument, rest, rfl, rfl, hposition, hg, ha⟩ :=
      (h.frames frame hf).argument statementStart himport
    obtain rfl : b = .round := by
      rw [ho] at hopener
      cases hopener
      rfl
    have hlength := h.length_eq
    simp only [List.length_append, Segment.length_of, List.length_cons] at hlength
    simp only [Frame.occurrence?, himport, Option.map_some, Option.toList_some, List.mem_singleton] at hmem
    have hstop : s.cursor.before.length
        = front.length + importWord.length + gap.length + 1 + argument.length := by omega
    rw [hposition, hstop] at hmem
    subst hmem
    refine ⟨front, _, [], ?_, .call hg ha⟩
    simp [Bracket.closing]

/-- A token leaves everything standing where it stands, and adds its own. -/
theorem Step.stands (h : Step s segment n) (hs : s.Stands passed) :
  n.Stands (passed ++ segment)
  := by
  have hstands := h.stands_of hs
  have hstay : ∀ o ∈ s.found, o ∈ s.found ∨ o.StandsIn (passed ++ segment) := fun _ => .inl
  have hlevels : ∀ frame ∈ s.frames, frame ∈ s.frames ∨ frame.StandsIn (passed ++ segment) := fun _ => .inl
  have hinner : ∀ {frame : Frame} {frames : List Frame}, s.frames = frame :: frames →
      ∀ inner ∈ frames, inner ∈ s.frames ∨ inner.StandsIn (passed ++ segment) := by
    intro frame frames hf inner hmem
    rw [hf]
    exact .inl (List.mem_cons_of_mem frame hmem)
  cases h with
  | space => exact hstands hstay hlevels
  | comment => exact hstands hstay hlevels
  | division => exact hstands hstay hlevels
  | pattern => exact hstands hstay hlevels
  | string => exact hstands hstay hlevels
  | literal => exact hstands hstay hlevels
  | substitution =>
    apply hstands nofun
    rw [State.frames_enter, List.forall_mem_cons]
    exact ⟨.inr (hs.frame _ _ _), hlevels⟩
  | opening =>
    apply hstands nofun
    rw [State.frames_enter, List.forall_mem_cons]
    exact ⟨.inr (hs.frame _ _ _), hlevels⟩
  | @closing b frame frames _ hf ho =>
    have hmem : frame ∈ s.frames := by simp [hf]
    apply hstands
    · simp only [State.found_moved, State.found_leave, List.forall_mem_append]
      exact ⟨⟨fun o houter => .inr (hs.outer hmem _ o houter), fun o hclosed => .inr (hs.close hmem ho o hclosed)⟩,
        hstay⟩
    · exact hinner hf
  | @resumeLiteral frame frames _ _ hf =>
    have hmem : frame ∈ s.frames := by simp [hf]
    apply hstands
    · simp only [State.found_moved, State.found_leave, List.append_nil, List.forall_mem_append]
      exact ⟨fun o houter => .inr (hs.outer hmem _ o houter), hstay⟩
    · exact hinner hf
  | @resumeSubstitution frame frames _ _ hf =>
    have hmem : frame ∈ s.frames := by simp [hf]
    apply hstands nofun
    rw [State.frames_enter, List.forall_mem_cons]
    constructor
    · right
      constructor
      · simp only [State.found_leave, List.append_nil, List.forall_mem_append]
        refine ⟨hs.outer hmem _, ?_⟩
        intro o ho
        exact (hs.found o ho).append _
      · intro _ himport
        cases himport
    · exact hinner hf
  | name => exact hstands hstay hlevels
  | @dynamic gap rest hd hw hg =>
    apply hstands nofun
    rw [State.frames_enter, List.forall_mem_cons]
    refine ⟨.inr ⟨?_, ?_⟩, hlevels⟩
    · intro o ho
      exact (hs.found o ho).append _
    · intro statementStart himport
      cases himport
      refine ⟨rfl, passed, gap, [], rest, by simp, hs.length_eq, ?_, hg, .nil⟩
      simp only [Trail.length_pass, List.length_append, Segment.length_of, hs.length_eq]
      omega
  | property => exact hstands hstay hlevels
  | bare hd hf hw hg hq hb =>
    have hstep := Step.bare hd hf hw hg hq hb
    apply hs.declared hstep rfl
    rintro _ ⟨⟩
    exact .declaration (.bare hw hg hq hb)
  | importClause hd hf hw hg hq hr hc =>
    have hstep := Step.importClause hd hf hw hg hq hr hc
    apply hs.declared hstep rfl
    rintro body rfl
    exact .declaration (.clause hw hg hq hr hc)
  | exportClause hd hf hw hc =>
    have hstep := Step.exportClause hd hf hw hc
    apply hs.declared hstep rfl
    rintro body rfl
    exact .onward hc
  | number => exact hstands hstay hlevels
  | mark => exact hstands hstay hlevels

/-- The occurrences found in a run stand in what has been passed. -/
theorem Run.stands {f : State} (h : Run s segment f) (hs : s.Stands passed) :
  f.Stands (passed ++ segment)
  := by
  induction h generalizing passed with
  | finished =>
    rw [List.append_nil]
    exact hs
  | step hstep _ _ ih =>
    rw [← List.append_assoc]
    exact ih (hstep.stands hs)

/-- The statement of every occurrence stands in its source. -/
theorem standsIn_of_scan {source : Text} {occurrences : List Occurrence} {passed : Segment}
    (hs : scan source = .ok occurrences) (hp : parts source = .ok passed) :
  passed.text = source ∧ ∀ o ∈ occurrences, o.StandsIn passed
  := by
  obtain ⟨f, hfinish, rfl⟩ := exists_of_map_eq_ok hs
  obtain ⟨hashbang, segment, hh, rfl, hrun⟩ := finish_eq_ok_iff.mp hfinish
  have hstands : (State.behindHashbang hashbang segment.text).Stands hashbang := by
    constructor
    · rfl
    · nofun
    · nofun
  have hfinal := hrun.stands hstands
  have hpassed : passed = hashbang ++ segment := by
    have hcharacters : f.cursor.before.characters.reverse = passed := by
      rw [parts, hfinish] at hp
      exact Except.ok.inj hp
    rw [← hcharacters, hfinal.before_eq]
    simp [Trail.pass, Trail.empty]
  rw [hpassed]
  exact ⟨by simp, hfinal.found⟩

end

end ImportCensus.Scan
