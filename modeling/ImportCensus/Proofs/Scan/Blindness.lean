import ImportCensus.Proofs.Scan.Renewed

/-!
# Blindness for the contents of literals

A source whose literals are reworded is scanned with the same result.  A step over a renewed segment leads
to a state that differs in the place only, so a run over the source becomes a run over the reworded one,
step by step; and what it finds has the same offsets.
-/

namespace ImportCensus.Scan

open Segment (of)

namespace State

/-- A state at another place. -/
def placed (s : State) (before : Trail) (rest : Text) : State :=
  { s with cursor := ⟨before, rest⟩ }

@[simp]
theorem cursor_placed (s : State) (before : Trail) (rest : Text) :
  (s.placed before rest).cursor = ⟨before, rest⟩
  := rfl

/-- Levels are told by the length of what has been passed in front of them. -/
theorem enter_placed (s : State) (opener : Opener) (importAt : Option Nat) {before before' : Trail}
    (h : before'.length = before.length) (rest rest' text : Text) (trail : Trail) :
  (s.enter opener importAt before rest).placed (before'.pass (of .code opener.text)) rest'
    = (s.placed trail text).enter opener importAt before' rest'
  := by
  simp [enter, placed, h]

/-- A declaration ends alike at another place, if its specifier is as long. -/
theorem declared_placed (s : State) {segment segment' : Segment}
    (hs : segment'.length = segment.length) {before : Trail}
    (hb : before.length = s.cursor.before.length) {specifier specifier' : Option Text}
    (h : SameLength specifier' specifier) (rest rest' text : Text) (expects : Expectation) :
  (s.declared segment rest specifier expects).placed (before.pass segment') rest'
    = (s.placed before text).declared segment' rest' specifier' expects
  := by
  simp [declared, placed, declare, Declaration.behind, h.map_ofSpecifier_eq, hs, hb]

end State

section

variable {s n f : State} {segment segment' tail tail' : Segment} {before : Trail}

/-- A step over a segment is a step over the reworded one, between states at other places. -/
theorem Step.renewed (h : Step s segment n) (hr : n.cursor.rest = tail.text) (hrun : Run n tail f)
    (hs : Reworded segment segment') (ht : Reworded tail tail')
    (hb : s.cursor.before.Alike before) (text : Text) :
  Step (s.placed before text) segment' (n.placed (before.pass segment') tail'.text)
  := by
  have htail : Renewed tail tail' := ⟨hrun.framed, ht⟩
  have hpass := hb.pass ⟨h.framed, hs⟩
  cases h with
  | @space c rest hc =>
    obtain rfl := hs.eq_of_isPlain (isPlain_code [c])
    exact @Step.space (s.placed before text) c tail'.text hc
  | @comment comment rest hc =>
    obtain rfl := hs.eq_of_isPlain (Segment.isPlain_of rfl comment)
    exact @Step.comment (s.placed before text) comment tail'.text (hc.renewed hr htail)
  | @division rest he hc =>
    obtain rfl : rest = tail.text := hr
    obtain rfl := hs.eq_of_isPlain (isPlain_code ['/'])
    exact @Step.division (s.placed before text) tail'.text he ((htail.beginsComment_cons '/').trans hc)
  | @pattern body flags rest he hc hbody hf hstops =>
    obtain rfl : rest = tail.text := hr
    obtain ⟨body', rfl, hreworded⟩ := hs.of_pattern
    have hcomment : beginsComment ('/' :: (body' ++ '/' :: (flags ++ tail'.text))) = false := by
      have hrenewed := Renewed.append ⟨.pattern hc, hs⟩ htail
      have hold : beginsComment (Segment.text (Segment.pattern body flags ++ tail)) = false := by
        simpa using hc
      simpa using hrenewed.beginsComment_eq.trans hold
    exact @Step.pattern (s.placed before text) body' flags tail'.text he hcomment
      (hreworded.isPatternBody hbody) hf ((htail.stops_eq _).trans hstops)
  | @string quote body rest hq hbody =>
    obtain ⟨body', rfl, hreworded⟩ := hs.of_string_end
    exact @Step.string (s.placed before text) quote body' tail'.text hq (hreworded.isStringBody hq hbody)
  | @literal chunk rest hc =>
    obtain ⟨chunk', rfl, hchunk⟩ := hs.of_chunk
    exact @Step.literal (s.placed before text) chunk' tail'.text (hchunk.isChunk hc)
  | @substitution chunk rest hc =>
    obtain ⟨chunk', rfl, hchunk⟩ := hs.of_chunk
    have hlength : (before.pass (('\x60', .code) :: of .chunk chunk')).length
        = (s.cursor.before.pass (('\x60', .code) :: of .chunk chunk)).length := by
      simp [hb.length_eq, hchunk.length_eq]
    have htrail : before.pass (('\x60', .code) :: Segment.chunk chunk' .substitution)
        = (before.pass (('\x60', .code) :: of .chunk chunk')).pass (of .code Opener.substitution.text) := by
      simp [Segment.chunk, ChunkEnd.text, Opener.text]
    rw [htrail, s.enter_placed _ _ hlength]
    exact @Step.substitution (s.placed before text) chunk' tail'.text (hchunk.isChunk hc)
  | @opening b rest =>
    obtain rfl := hs.eq_of_isPlain (isPlain_code [b.opening])
    have hopening : [(b.opening, Part.code)] = of .code (Opener.bracket b).text := rfl
    rw [hopening, s.enter_placed _ _ hb.length_eq]
    exact @Step.opening (s.placed before text) b tail'.text
  | @closing b frame frames rest hf ho =>
    obtain rfl := hs.eq_of_isPlain (isPlain_code [b.closing])
    rw [← hb.length_eq]
    exact @Step.closing (s.placed before text) b frame frames tail'.text hf ho
  | @resumeLiteral frame frames chunk rest hf ho hc =>
    obtain ⟨chunk', rfl, hchunk⟩ := hs.of_chunk
    exact @Step.resumeLiteral (s.placed before text) frame frames chunk' tail'.text hf ho
      (hchunk.isChunk hc)
  | @resumeSubstitution frame frames chunk rest hf ho hc =>
    obtain ⟨chunk', rfl, hchunk⟩ := hs.of_chunk
    have hlength : (before.pass (('}', .code) :: of .chunk chunk')).length
        = (s.cursor.before.pass (('}', .code) :: of .chunk chunk)).length := by
      simp [hb.length_eq, hchunk.length_eq]
    have htrail : before.pass (('}', .code) :: Segment.chunk chunk' .substitution)
        = (before.pass (('}', .code) :: of .chunk chunk')).pass (of .code Opener.substitution.text) := by
      simp [Segment.chunk, ChunkEnd.text, Opener.text]
    rw [htrail, (s.leave frame frames []).enter_placed _ _ hlength]
    exact @Step.resumeSubstitution (s.placed before text) frame frames chunk' tail'.text hf ho
      (hchunk.isChunk hc)
  | @name name rest hw hspace hi he =>
    obtain rfl := hs.eq_of_isPlain (isPlain_code name)
    rw [← hb.afterDot_eq] at hi he
    exact @Step.name (s.placed before text) name tail'.text (hw.renewed hr htail) hspace hi he
  | @dynamic gap rest hd hw hg =>
    obtain rfl : rest = tail.text := hr
    obtain rfl := hs.eq_of_isPlain (Segment.isPlain_append.mpr
      ⟨isPlain_code importWord, Segment.isPlain_append.mpr ⟨hg.isPlain, isPlain_code ['(']⟩⟩)
    have hrenewed := htail.append_left (isPlain_code ['('])
    have hlength : (before.pass (of .code importWord ++ gap)).length
        = (s.cursor.before.pass (of .code importWord ++ gap)).length := by
      simp [hb.length_eq]
    have htrail : before.pass (of .code importWord ++ (gap ++ [('(', .code)]))
        = (before.pass (of .code importWord ++ gap)).pass (of .code (Opener.bracket .round).text) := by
      simp [Opener.text, Bracket.opening]
    have hword : IsWord importWord (gap.text ++ '(' :: tail'.text) := by
      simpa using hw.renewed (show _ = Segment.text (gap ++ (of .code ['('] ++ tail)) by simp)
        (hrenewed.append_left hg.isPlain)
    have hgap : Trivia gap ('(' :: tail'.text) := by
      simpa using hg.renewed (show _ = Segment.text (of .code ['('] ++ tail) by simp) hrenewed
    rw [htrail, s.enter_placed _ _ hlength, ← hb.length_eq]
    exact @Step.dynamic (s.placed before text) gap tail'.text (hb.afterDot_eq.trans hd) hword hgap
  | @property gap rest hd hw hg hhead =>
    obtain rfl : rest = tail.text := hr
    obtain rfl := hs.eq_of_isPlain
      (Segment.isPlain_append.mpr ⟨isPlain_code importWord, hg.isPlain⟩)
    have hword : IsWord importWord (gap.text ++ tail'.text) := by
      simpa using hw.renewed (show _ = Segment.text (gap ++ tail) by simp)
        (htail.append_left hg.isPlain)
    rw [← htail.head?_eq] at hhead
    exact @Step.property (s.placed before text) gap tail'.text (hb.afterDot_eq.trans hd) hword
      (hg.renewed rfl htail) hhead
  | @bare gap quote body rest hd hf hw hg hq hbody =>
    obtain rfl : rest = tail.text := hr
    obtain ⟨_, rfl, hspace⟩ := hs.of_append (isPlain_code importWord)
    obtain ⟨_, rfl, hstring⟩ := hspace.of_append hg.isPlain
    obtain ⟨body', rfl, hreworded⟩ := hstring.of_string_end
    have hrenewed := Renewed.append ⟨.string hq hbody, hstring⟩ htail
    have hword : IsWord importWord (gap.text ++ ((Segment.string quote body').text ++ tail'.text)) := by
      simpa using hw.renewed
        (show _ = Segment.text (gap ++ (Segment.string quote body ++ tail)) by simp)
        (hrenewed.append_left hg.isPlain)
    have hgap : Trivia gap ((Segment.string quote body').text ++ tail'.text) := by
      simpa using hg.renewed
        (show _ = Segment.text (Segment.string quote body ++ tail) by simp) hrenewed
    rw [s.declared_placed hs.length_eq hb.length_eq
      (show SameLength (some body') (some body) from congrArg some hreworded.length_eq)]
    exact @Step.bare (s.placed before text) gap quote body' tail'.text (hb.afterDot_eq.trans hd) hf
      hword hgap hq (hreworded.isStringBody hq hbody)
  | @importClause gap clause specifier rest hd hf hw hg hq hhead hc =>
    obtain rfl : rest = tail.text := hr
    obtain ⟨_, rfl, hspace⟩ := hs.of_append (isPlain_code importWord)
    obtain ⟨clause', rfl, hclause⟩ := hspace.of_append hg.isPlain
    obtain ⟨specifier', hc', hlength⟩ := hc.renewed rfl htail hclause
    have hrenewed := Renewed.append ⟨hc.framed, hclause⟩ htail
    have hword : IsWord importWord (gap.text ++ (clause'.text ++ tail'.text)) := by
      simpa using hw.renewed (show _ = Segment.text (gap ++ (clause ++ tail)) by simp)
        (hrenewed.append_left hg.isPlain)
    have hgap : Trivia gap (clause'.text ++ tail'.text) := by
      simpa using hg.renewed (show _ = Segment.text (clause ++ tail) by simp) hrenewed
    rw [← Segment.text_append, ← hrenewed.head?_eq, Segment.text_append] at hhead
    rw [← Segment.text_append, ← hrenewed.beginsQuote_eq, Segment.text_append] at hq
    rw [s.declared_placed hs.length_eq hb.length_eq hlength]
    exact @Step.importClause (s.placed before text) gap clause' specifier' tail'.text
      (hb.afterDot_eq.trans hd) hf hword hgap hq hhead hc'
  | @exportClause clause specifier rest hd hf hw hc =>
    obtain rfl : rest = tail.text := hr
    obtain ⟨clause', rfl, hclause⟩ := hs.of_append (isPlain_code exportWord)
    obtain ⟨specifier', hc', hlength⟩ := hc.renewed hrun rfl ht hclause
    have hword : IsWord exportWord (clause'.text ++ tail'.text) := by
      simpa using hw.renewed (show _ = Segment.text (clause ++ tail) by simp)
        (Renewed.append ⟨hc.framed, hclause⟩ htail)
    rw [s.declared_placed hs.length_eq hb.length_eq hlength, ← hlength.expectsBehindExport_eq]
    exact @Step.exportClause (s.placed before text) clause' specifier' tail'.text
      (hb.afterDot_eq.trans hd) hf hword hc'
  | @number c digits rest hc hdigits hstops =>
    obtain rfl : rest = tail.text := hr
    obtain rfl := hs.eq_of_isPlain (isPlain_code (c :: digits))
    have hnumber : State.beginsNumber c (digits ++ tail'.text) = true := by
      simpa using ((htail.append_left (isPlain_code digits)).beginsNumber_eq c).trans
        (by simpa using hc)
    exact @Step.number (s.placed before text) c digits tail'.text hnumber hdigits
      ((htail.stops_eq _).trans hstops)
  | @mark c rest hc =>
    obtain rfl : rest = tail.text := hr
    obtain rfl := hs.eq_of_isPlain (isPlain_code [c])
    have hmark : IsMark c tail'.text :=
      { hc with not_number := (htail.beginsNumber_eq c).trans hc.not_number }
    exact @Step.mark (s.placed before text) c tail'.text hmark

/-- A run over a source is a run over the reworded one, and finds the same. -/
theorem Run.renewed (h : Run s segment f) (hs : Reworded segment segment')
    (hb : s.cursor.before.Alike before) :
  Run (s.placed before segment'.text) segment' (f.placed (before.pass segment') [])
  := by
  induction h generalizing before segment' with
  | @finished s hr hf =>
    obtain rfl := hs.of_nil
    rw [Trail.pass_nil]
    exact .finished rfl hf
  | @step s n f segment tail hstep hr h ih =>
    obtain ⟨segment', tail', rfl, hsegment, htail⟩ := hstep.framed.exists_append hs
    have hn := hb.pass ⟨hstep.framed, hsegment⟩
    rw [← hstep.before_eq] at hn
    have hrun := ih htail hn
    rw [Trail.pass_pass] at hrun
    exact .step (hstep.renewed h.rest_eq h hsegment htail hb _) (Segment.text_append _ _) hrun

end

/-! ### Sources -/

/-- The line in front of a source holds no contents of literals. -/
theorem Hashbang.isPlain {hashbang : Segment} {rest : Text} (h : Hashbang hashbang rest) :
  hashbang.IsPlain
  := by
  cases h with
  | missing => simp [Segment.IsPlain]
  | line => exact Segment.isPlain_of rfl _

/-- The line in front of a source ends in front of reworded literals where it has ended. -/
theorem Hashbang.renewed {hashbang tail tail' : Segment} {rest : Text} (h : Hashbang hashbang rest)
    (hr : rest = tail.text) (ht : Renewed tail tail') :
  Hashbang hashbang tail'.text
  := by
  subst hr
  cases h with
  | missing h => exact .missing fun hp => h (ht.beginsHashbang_of hp)
  | line hb hr => exact .line hb ((ht.stops_eq _).trans hr)

/-- The scanner is blind to what literals contain: where it accepts a source, it accepts every source in
which the contents of literals are reworded, reads the same literals there, and finds the same. -/
theorem scan_reworded {source : Text} {found : List Occurrence} (h : scan source = .ok found) :
  ∃ segment : Segment, parts source = .ok segment ∧ segment.text = source
    ∧ ∀ segment' : Segment, Reworded segment segment' →
      scan segment'.text = .ok found ∧ parts segment'.text = .ok segment'
  := by
  obtain ⟨f, hfinish, rfl⟩ := exists_of_map_eq_ok h
  obtain ⟨hashbang, segment, hh, rfl, hrun⟩ := finish_eq_ok_iff.mp hfinish
  have hcharacters : ∀ segment : Segment,
      ((Trail.empty.pass hashbang).pass segment).characters.reverse = hashbang ++ segment := by
    intro segment
    simp [Trail.pass, Trail.empty]
  refine ⟨hashbang ++ segment, ?_, Segment.text_append _ _, ?_⟩
  · rw [parts, hfinish, Except.map, hrun.before_eq]
    exact congrArg Except.ok (hcharacters segment)
  · intro whole hwhole
    obtain ⟨segment', rfl, hs⟩ := hwhole.of_append hh.isPlain
    have hrun' : Run (.behindHashbang hashbang segment'.text) segment'
        (f.placed ((Trail.empty.pass hashbang).pass segment') []) := hrun.renewed hs ⟨rfl, rfl⟩
    have hfinish' : finish (Segment.text (hashbang ++ segment'))
        = .ok (f.placed ((Trail.empty.pass hashbang).pass segment') []) :=
      finish_eq_ok_iff.mpr ⟨hashbang, segment', hh.renewed rfl ⟨hrun.framed, hs⟩,
        Segment.text_append _ _, hrun'⟩
    constructor
    · rw [scan, hfinish']
      rfl
    · rw [parts, hfinish']
      exact congrArg Except.ok (hcharacters segment')

/-- Neither the slashes of a comment in a string nor a dot and a quotation mark in a template change what is
found. -/
theorem scan_reworded_import :
  scan "import('ab');\x60cd\x60".toList = .ok [⟨7, 11, 0, 12, true⟩]
    ∧ scan "import('//');\x60.'\x60".toList = .ok [⟨7, 11, 0, 12, true⟩]
  := by
  have h : scan "import('ab');\x60cd\x60".toList = .ok [⟨7, 11, 0, 12, true⟩] := by
    simp +decide [scan, finish, State.start, State.initial, State.run_cons, State.run_nil, State.step,
      State.word, wordOf, behindWord, State.importStatement, skipTrivia_cons, readComment?, State.enter,
      readString, stringBody?, withFront, Bracket.ofOpening?, Bracket.ofClosing?, State.close,
      Frame.occurrence?, State.template, templateChunk?, State.goto, Except.map, Trail.empty, Trail.pass, of]
  obtain ⟨segment, hparts, -, hblind⟩ := scan_reworded h
  have hread : parts "import('ab');\x60cd\x60".toList = .ok (of .code "import('".toList
      ++ (of (.quoted '\'') "ab".toList ++ ('\'', .code) :: (of .code ");\x60".toList
        ++ (of .chunk "cd".toList ++ [('\x60', .code)])))) := by
    simp +decide [parts, finish, State.start, State.initial, State.run_cons, State.run_nil, State.step,
      State.word, wordOf, behindWord, State.importStatement, skipTrivia_cons, readComment?, State.enter,
      readString, stringBody?, withFront, Bracket.ofOpening?, Bracket.ofClosing?, State.close,
      State.template, templateChunk?, State.goto, Except.map, Trail.empty, Trail.pass, of]
  have hreworded : Reworded (of .code "import('".toList
      ++ (of (.quoted '\'') "ab".toList ++ ('\'', .code) :: (of .code ");\x60".toList
        ++ (of .chunk "cd".toList ++ [('\x60', .code)]))))
      (of .code "import('".toList
        ++ (of (.quoted '\'') "//".toList ++ ('\'', .code) :: (of .code ");\x60".toList
          ++ (of .chunk ".'".toList ++ [('\x60', .code)])))) := by
    have hstring : (Part.quoted '\'').Rewords "ab".toList "//".toList :=
      ⟨rfl, .inr (by simp [Part.Admits])⟩
    have htemplate : Part.chunk.Rewords "cd".toList ".'".toList :=
      ⟨rfl, .inr (by simp [Part.Admits])⟩
    apply Reworded.append_left _ (isPlain_code _)
    apply Reworded.contents_cons rfl hstring
    apply Reworded.append_left _ (isPlain_code _)
    exact .contents_cons rfl htemplate .nil
  rw [hread] at hparts
  cases hparts
  exact ⟨h, (hblind _ hreworded).1⟩

end ImportCensus.Scan
