import ImportCensus.Proofs.Scan.Continuation
import ImportCensus.Proofs.Scan.Nesting
import ImportCensus.Proofs.Scan.Reworded

/-!
# Sources behind other sources

A source that begins with the word `import` is scanned behind whatever stands before it, outside of all
brackets and not behind a dot, as it is scanned by itself: every step is the same, and only the offsets are
those of a source that begins farther on.
-/

namespace ImportCensus.Scan

/-! ### Trails -/

namespace Trail

/-- A trail with another one in front of it. -/
def behind (before lead : Trail) : Trail where
  characters := before.characters ++ lead.characters
  length := before.length + lead.length
  length_eq := by simp [before.length_eq, lead.length_eq]

variable (before lead : Trail)

@[simp]
theorem length_behind :
  (before.behind lead).length = before.length + lead.length
  := rfl

@[simp]
theorem behind_pass (segment : Segment) :
  (before.pass segment).behind lead = (before.behind lead).pass segment
  := by
  ext1
  simp [behind, pass]

@[simp]
theorem empty_behind :
  empty.behind lead = lead
  := by
  ext1
  simp [behind, empty]

/-- The look back for a dot does not go beyond a character that is neither a space nor a dot. -/
theorem dotted_pass_of_not_isPassedOver {c : Char} (hc : isPassedOver c = false) (part : Part) (segment : Segment) :
  (lead.pass ((c, part) :: segment)).dotted = (empty.pass ((c, part) :: segment)).dotted
  := by
  simp [dotted, pass, empty, List.takeWhile_append, hc]

end Trail

/-- Whether the look back for a dot comes to the same from each place of a text with another trail in front. -/
def Trail.PartsFrom (before lead : Trail) (rest : Text) : Prop :=
  ∀ (segment : Segment) (behind : Text), rest = segment.text ++ behind →
    afterDot ((before.pass segment).behind lead) = afterDot (before.pass segment)

namespace Trail.PartsFrom

variable {before lead : Trail} {rest : Text} {segment : Segment}

/-- What stands behind a dot does so with a lead in front. -/
theorem afterDot_eq (h : before.PartsFrom lead rest) :
  afterDot (before.behind lead) = afterDot before
  := by
  simpa using h [] rest rfl

/-- What has been parted stays parted when more is passed. -/
theorem pass (h : before.PartsFrom lead (segment.text ++ rest)) :
  (before.pass segment).PartsFrom lead rest
  := by
  intro segment' behind hrest
  simpa using h (segment ++ segment') behind (by simp [hrest])

/-- A text that begins with neither a space nor a dot is parted from what it stands behind, if that is no dot. -/
theorem of_cons {c : Char} (hc : isPassedOver c = false) (hd : afterDot lead = false) :
  empty.PartsFrom lead (c :: rest)
  := by
  intro segment behind hrest
  cases segment with
  | nil =>
    rw [pass_nil, empty_behind]
    exact hd
  | cons passed segment =>
    obtain ⟨d, part⟩ := passed
    obtain rfl : c = d := (List.cons.inj hrest).1
    rw [behind_pass, empty_behind, Trail.afterDot_eq, dotted_pass_of_not_isPassedOver lead hc, ← Trail.afterDot_eq]

end Trail.PartsFrom

/-! ### Occurrences -/

/-- The occurrence of a declaration is shifted with its offsets. -/
theorem shift_ofSpecifier {statementStart position : Nat} {specifier : Text} (h : specifier.length < position)
    (offset : Nat) :
  (Occurrence.ofSpecifier statementStart position specifier).shift offset
    = .ofSpecifier (statementStart + offset) (position + offset) specifier
  := by
  simp only [Occurrence.ofSpecifier, Occurrence.shift, Occurrence.mk.injEq, and_true]
  omega

/-! ### States -/

/-- A frame whose source begins that many characters farther on, with other imports found around it. -/
def Frame.shift (frame : Frame) (offset : Nat) (earlier : List Occurrence) : Frame where
  opener := frame.opener
  position := frame.position + offset
  importAt := frame.importAt.map (· + offset)
  outer := earlier ++ frame.outer.map (·.shift offset)

/-- A level behind a lead becomes an occurrence that much further behind. -/
theorem Frame.occurrence?_shift (frame : Frame) (offset stop : Nat) (earlier : List Occurrence) :
  (frame.shift offset earlier).occurrence? (stop + offset) = (frame.occurrence? stop).map (·.shift offset)
  := by
  cases hat : frame.importAt with
  | none => simp [Frame.occurrence?, Frame.shift, hat]
  | some statementStart =>
    simp [Frame.occurrence?, Frame.shift, hat, Occurrence.shift]
    omega

/-- Imports found before a source belong to the outermost level. -/
def outermost (earlier : List Occurrence) : List Frame → List Occurrence
  | [] => earlier
  | _ :: _ => []

/-- Frames with a source in front of them, in which other imports were found. -/
def framesBehind (offset : Nat) (earlier : List Occurrence) : List Frame → List Frame
  | [] => []
  | frame :: frames => frame.shift offset (outermost earlier frames) :: framesBehind offset earlier frames

/-- Behind a lead the same levels are open. -/
theorem framesBehind_eq_nil_iff {offset : Nat} {earlier : List Occurrence} {frames : List Frame} :
  framesBehind offset earlier frames = [] ↔ frames = []
  := by
  cases frames with
  | nil => simp [framesBehind]
  | cons => simp [framesBehind]

namespace State

/-- A state with a source in front of its own, in which other imports were found. -/
def behind (s : State) (lead : Trail) (earlier : List Occurrence) : State where
  cursor := ⟨s.cursor.before.behind lead, s.cursor.rest⟩
  expects := s.expects
  frames := framesBehind lead.length earlier s.frames
  found := outermost earlier s.frames ++ s.found.map (·.shift lead.length)

section

variable (s : State) (lead : Trail) (earlier : List Occurrence) (segment : Segment) (rest : Text)
  (expects : Expectation)

/-- Passing a segment and putting a lead in front commute. -/
theorem behind_moved :
  (s.moved segment rest expects).behind lead earlier = (s.behind lead earlier).moved segment rest expects
  := by
  simp [behind, moved, goto]

/-- Opening a level and putting a lead in front commute. -/
theorem behind_enter (opener : Opener) (importAt : Option Nat) (before : Trail) :
  (s.enter opener importAt before rest).behind lead earlier
    = (s.behind lead earlier).enter opener (importAt.map (· + lead.length)) (before.behind lead) rest
  := by
  simp [behind, enter, framesBehind, outermost, Frame.shift]

/-- Passing a declaration and putting a lead in front commute. -/
theorem behind_declared {specifier : Option Text} (h : Quotes segment specifier) :
  (s.declared segment rest specifier expects).behind lead earlier
    = (s.behind lead earlier).declared segment rest specifier expects
  := by
  have hfound : (specifier.map (Occurrence.ofSpecifier s.cursor.before.length
        (segment.length + s.cursor.before.length))).toList.map (·.shift lead.length)
      = (specifier.map (Occurrence.ofSpecifier (s.cursor.before.length + lead.length)
        (segment.length + (s.cursor.before.length + lead.length)))).toList := by
    cases specifier with
    | none => rfl
    | some body =>
      obtain ⟨front, quote, -, hquotes⟩ := h body rfl
      have hlength : body.length < segment.length + s.cursor.before.length := by
        simp [hquotes]
        omega
      simp only [Option.map_some, Option.toList_some, List.map_cons, List.map_nil, shift_ofSpecifier hlength,
        Nat.add_assoc]
  simp [behind, declared, declare, Declaration.behind, hfound]

end

/-- Leaving a level and putting a lead in front commute. -/
theorem behind_leave {s : State} {frame : Frame} {frames : List Frame} (hf : s.frames = frame :: frames)
    (lead : Trail) (earlier found : List Occurrence) :
  (s.leave frame frames found).behind lead earlier
    = (s.behind lead earlier).leave (frame.shift lead.length (outermost earlier frames))
        (framesBehind lead.length earlier frames) (found.map (·.shift lead.length))
  := by
  have hnone : outermost earlier s.frames = [] := by
    rw [hf]
    rfl
  simp [behind, leave, hnone, Frame.shift]

/-- The innermost level behind a lead is the one there was, further behind. -/
theorem frames_behind {s : State} {frame : Frame} {frames : List Frame} (hf : s.frames = frame :: frames)
    (lead : Trail) (earlier : List Occurrence) :
  (s.behind lead earlier).frames
    = frame.shift lead.length (outermost earlier frames) :: framesBehind lead.length earlier frames
  := by
  rw [behind, hf, framesBehind]

end State

section

variable {s n f : State} {segment : Segment} {lead : Trail} (earlier : List Occurrence)

/-- A step is taken behind another source as it is taken by itself. -/
theorem Step.behind (h : Step s segment n)
    (hd : afterDot (s.cursor.before.behind lead) = afterDot s.cursor.before) :
  Step (s.behind lead earlier) segment (n.behind lead earlier)
  := by
  have hnil : s.frames = [] → (s.behind lead earlier).frames = [] := framesBehind_eq_nil_iff.mpr
  cases h with
  | space hc =>
    rw [State.behind_moved]
    exact .space hc
  | comment hc =>
    rw [State.behind_moved]
    exact .comment hc
  | division he hc =>
    rw [State.behind_moved]
    exact .division he hc
  | pattern he hc hb hf hr =>
    rw [State.behind_moved]
    exact .pattern he hc hb hf hr
  | string hq hb =>
    rw [State.behind_moved]
    exact .string hq hb
  | literal hc =>
    rw [State.behind_moved]
    exact .literal hc
  | substitution hc =>
    rw [State.behind_enter, Trail.behind_pass]
    exact .substitution hc
  | opening b =>
    rw [State.behind_enter]
    exact .opening b
  | @closing b frame frames rest hf ho =>
    rw [State.behind_moved, State.behind_leave hf, ← Option.toList_map, ← Frame.occurrence?_shift]
    exact .closing (State.frames_behind hf lead earlier) ho
  | resumeLiteral hf ho hc =>
    rw [State.behind_moved, State.behind_leave hf]
    exact .resumeLiteral (State.frames_behind hf lead earlier) ho hc
  | resumeSubstitution hf ho hc =>
    rw [State.behind_enter, State.behind_leave hf, Trail.behind_pass]
    exact .resumeSubstitution (State.frames_behind hf lead earlier) ho hc
  | name hw hs hi he =>
    -- from here on a step looks back, or asks whether it stands outside of all brackets
    rw [State.behind_moved]
    apply Step.name hw hs
    · intro hname
      exact hd.trans (hi hname)
    · intro hname hframes
      exact hd.trans (he hname (framesBehind_eq_nil_iff.mp hframes))
  | dynamic hdot hw hg =>
    rw [State.behind_enter, Trail.behind_pass]
    exact .dynamic (hd.trans hdot) hw hg
  | property hdot hw hg hr =>
    rw [State.behind_moved]
    apply Step.property (hd.trans hdot) hw hg
    exact hr.imp_right fun hr => ⟨fun hframes => hr.1 (framesBehind_eq_nil_iff.mp hframes), hr.2⟩
  | bare hdot hf hw hg hq hb =>
    rw [State.behind_declared _ _ _ _ _ _ (((quotes_string hq).append _).append _)]
    exact .bare (hd.trans hdot) (hnil hf) hw hg hq hb
  | importClause hdot hf hw hg hq hr hc =>
    rw [State.behind_declared _ _ _ _ _ _ ((hc.quotes.append _).append _)]
    exact .importClause (hd.trans hdot) (hnil hf) hw hg hq hr hc
  | exportClause hdot hf hw hc =>
    rw [State.behind_declared _ _ _ _ _ _ (hc.quotes.append _)]
    exact .exportClause (hd.trans hdot) (hnil hf) hw hc
  | number hc ht hr =>
    rw [State.behind_moved]
    exact .number hc ht hr
  | mark hc =>
    rw [State.behind_moved]
    exact .mark hc

/-- A run goes behind another source as it goes by itself. -/
theorem Run.behind (h : Run s segment f) (hp : s.cursor.before.PartsFrom lead s.cursor.rest) :
  Run (s.behind lead earlier) segment (f.behind lead earlier)
  := by
  induction h with
  | finished hr hf => exact .finished hr (framesBehind_eq_nil_iff.mpr hf)
  | step hs hr h ih =>
    rw [hr] at hp
    apply Run.step (hs.behind earlier hp.afterDot_eq) hr
    apply ih
    rw [hs.before_eq]
    exact hp.pass

end

/-- A text that begins with the word `import` is scanned behind another one, outside of all brackets and not
behind a dot, as it is scanned by itself. -/
theorem found_run_of_scan {text : Text} {found : List Occurrence} (hs : scan (importWord ++ text) = .ok found)
    {s : State} (hf : s.frames = []) (hd : afterDot s.cursor.before = false)
    (hr : s.cursor.rest = importWord ++ text) :
  s.run.map State.found = .ok (s.found ++ found.map (·.shift s.cursor.before.length))
  := by
  obtain ⟨f, hfinish, rfl⟩ := exists_of_map_eq_ok hs
  rw [finish_eq (by rintro ⟨⟩)] at hfinish
  obtain ⟨segment, hrun⟩ := exists_of_run hfinish
  have hparts : (State.behindHashbang [] (importWord ++ text)).cursor.before.PartsFrom s.cursor.before
      (importWord ++ text) :=
    .of_cons (by decide) hd
  have hbehind := (hrun.behind s.found hparts).run_eq
  have hstate : (State.behindHashbang [] (importWord ++ text)).behind s.cursor.before s.found
      = { s with expects := .operand } := by
    obtain ⟨⟨before, rest⟩, expects, frames, earlier⟩ := s
    subst hf hr
    simp [State.behind, State.behindHashbang, State.moved, State.goto, State.initial, framesBehind, outermost]
  -- what the state expects does not count in front of a word
  have hexpects := State.found_run_with_expects (s := s) (by rw [hr]; exact (continues_import text).settled)
    (by rw [hr]; rintro ⟨⟩) .operand
  rw [← hexpects, ← hstate, hbehind]
  simp [Except.map, State.behind, hrun.final.2, outermost]

end ImportCensus.Scan
