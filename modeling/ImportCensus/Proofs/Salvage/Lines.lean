import Mathlib.Data.List.Basic
import ImportCensus.Proofs.Salvage.Finding
import ImportCensus.Proofs.Salvage.Linkage
import ImportCensus.Proofs.Scan.Nesting
import ImportCensus.Proofs.Scan.Shifted
import ImportCensus.Proofs.Scan.Statement

/-!
# Statements one below the other

A sentence is a stretch of source that the scanner passes and finds as one import, and what is extracted from
it does not depend on what stands around it.  Links to modules and dynamic imports are sentences, and with
blanks between them they are extracted one by one.  So are the statements salvaged from a source, which are
scanned one below the other, and any texts that begin with the word `import` and can be scanned by themselves,
unless the end of one waits for a word or stands behind a dot.  Nothing is extracted from a dynamic import of a
template.
-/

namespace ImportCensus.Salvage

open Text Scan Written Extraction
open Segment (of)

/-! ### Templates -/

namespace Template

variable (template : Template)

/-- The literal that a template is. -/
def literal : Segment :=
  ('\x60', .code) :: Segment.chunk template.contents .literal

/-- A template import is written with its literal in brackets. -/
theorem text_eq :
  template.text = Scan.importWord ++ '(' :: (template.literal.text ++ [')'])
  := by
  simp [text, literal, ChunkEnd.text]

theorem run_eq {s : State} {rest : Text} (hr : s.cursor.rest = template.literal.text ++ rest) :
  s.run = (s.moved template.literal rest .operator).run
  := by
  have hstep : Scan.Step s template.literal (s.moved template.literal rest .operator) :=
    .literal template.isChunk
  apply hstep.run_eq hr

end Template

/-! ### Records -/

/-- A record is told from what a source has at the offsets of an occurrence. -/
theorem record?_congr {code code' : Text} {o o' : Occurrence} (hd : o.dynamic = o'.dynamic)
    (ht : o.text code = o'.text code')
    (hs : code.slice o.statementStart o.statementStop = code'.slice o'.statementStart o'.statementStop)
    (hf : o.dynamic = false → code.slice o.statementStart (o.start - 1)
      = code'.slice o'.statementStart (o'.start - 1)) :
  record? code o = record? code' o'
  := by
  have hspecifier : specifier? code o = specifier? code' o' := by
    rw [specifier?, specifier?, hd, ht]
  rw [record?, record?, hspecifier, hs]
  cases hdynamic : o.dynamic with
  | true =>
    rw [← hd, hdynamic]
    simp only [if_true]
  | false => rw [← hd, hdynamic, hf hdynamic]

section

variable {o : Occurrence} {text : Text}

theorem slice_append {stop : Nat} (hs : stop ≤ text.length) (start : Nat) (more : Text) :
  (text ++ more).slice start stop = text.slice start stop
  := by
  by_cases h : start ≤ text.length
  · rw [slice, slice, List.drop_append_of_le_length h, List.take_append_of_le_length]
    rw [List.length_drop]
    omega
  · have hnone : stop - start = 0 := by omega
    rw [slice, slice, hnone, List.take_zero, List.take_zero]

/-- A slice behind a text is shifted by its length. -/
theorem slice_shift (before text : Text) (start stop : Nat) :
  (before ++ text).slice (start + before.length) (stop + before.length) = text.slice start stop
  := by
  rw [slice, slice, Nat.add_sub_add_right, Nat.add_comm start, List.drop_length_add_append]

/-- The record of an occurrence does not depend on what stands behind its source. -/
theorem record?_append (h : o.WrittenIn text) (more : Text) :
  record? (text ++ more) o = record? text o
  := by
  have hstart := h.start_le
  have hstop := h.statementStop_eq
  have hle := h.statementStop_le
  apply record?_congr rfl
  · apply slice_append
    omega
  · apply slice_append hle
  · intro _
    apply slice_append
    omega

/-- The record of an occurrence does not depend on what stands before its source. -/
theorem record?_shift (h : o.WrittenIn text) (before : Text) :
  record? (before ++ text) (o.shift before.length) = record? text o
  := by
  have hstart := h.statementStart_lt
  have hdynamic : (o.shift before.length).dynamic = o.dynamic := rfl
  apply record?_congr hdynamic
  · apply slice_shift
  · apply slice_shift
  · intro _
    have hquote : (o.shift before.length).start - 1 = o.start - 1 + before.length := by
      simp only [Occurrence.shift]
      omega
    rw [hquote]
    apply slice_shift

end

/-- A literal begins with a blank or a quotation mark. -/
theorem literal?_eq_none {c : Char} (hb : isBlank c = false) (hq : isQuote c = false) (rest : Text) :
  literal? (c :: rest) = none
  := by
  have hskip : skipBlanks (c :: rest) = c :: rest := by simp [skipBlanks, hb]
  rw [literal?, hskip]
  simp only [hq, Bool.false_and, Bool.false_eq_true, if_false]
  split
  · rfl
  · rfl

/-- What a source has at the offsets of a declaration that has been passed. -/
theorem slices_declaration (before : Text) (front : Segment) (rest : Text) (quote : Char) (body : Text)
    {source : Text} (hs : source = before ++ ((front ++ Segment.string quote body).text ++ rest)) {o : Occurrence}
    (ho : o = .ofSpecifier before.length (before.length + (front ++ Segment.string quote body).length) body) :
  o.text source = body
    ∧ source.slice o.statementStart o.statementStop = (front ++ Segment.string quote body).text
    ∧ source.slice o.statementStart (o.start - 1) = front.text
  := by
  have htext : (front ++ Segment.string quote body).text = front.text ++ quote :: (body ++ [quote]) := by simp
  rw [htext, List.append_assoc] at hs
  rw [← Segment.length_text, htext] at ho
  rw [htext]
  exact slices_string before front.text rest quote body hs ho

/-! ### Sentences -/

/-- A stretch of source that is passed outside of all brackets and found as one import, with a record that
does not depend on what stands around it. -/
structure Sentence where
  segment : Segment
  occurrence : Nat → Occurrence
  run_eq : ∀ {s : State} {rest : Text}, s.frames = [] → afterDot s.cursor.before = false →
    s.cursor.rest = segment.text ++ rest →
    s.run = { s.moved segment rest .operator with
      found := s.found ++ [occurrence s.cursor.before.length] }.run
  afterDot_eq : ∀ before : Trail, afterDot (before.pass segment) = false
  record?_eq : ∀ before behind : Text,
    record? (before ++ (segment.text ++ behind)) (occurrence before.length)
      = record? segment.text (occurrence 0)

namespace Sentence

/-- The characters of a sentence. -/
def text (sentence : Sentence) : Text :=
  sentence.segment.text

/-- What a sentence imports. -/
def records (sentence : Sentence) : List ImportRecord :=
  (record? sentence.text (sentence.occurrence 0)).toList

/-- A link to a module as it is written. -/
def ofLink (link : Link) (front : Text) (hs : Spells link.tokens front) (q : Quoted) : Sentence where
  segment := of .code front ++ q.segment
  occurrence position := .ofSpecifier position (position + (front ++ q.text).length) q.body
  run_eq := by
    intro s rest hf hd hr
    have hposition : (s.cursor.before.pass (of .code front ++ q.segment)).length
        = s.cursor.before.length + (front ++ q.text).length := by
      rw [Trail.length_pass, ← Segment.length_text, Nat.add_comm]
      simp
    rw [(link.step hf hd hs q rest).run_eq hr]
    simp only [State.declared, State.declare, Scan.Declaration.behind, Option.map_some,
      Option.toList_some, hposition]
    rfl
  afterDot_eq := by
    intro before
    obtain ⟨hspace, hdot⟩ := q.ne_of_quote
    have hpass := afterDot_pass hspace hdot before
      (of .code front ++ (q.quote, .code) :: of (.quoted q.quote) q.body) .code
    simpa [Quoted.segment, Segment.string] using hpass
  record?_eq := by
    intro before behind
    have hsegment : (of .code front ++ q.segment).text = front ++ q.text := by simp
    have hs : before ++ ((of .code front ++ q.segment).text ++ behind)
        = before ++ (front ++ (q.text ++ behind)) := by
      simp
    have hs' : (of .code front ++ q.segment).text = [] ++ (front ++ (q.text ++ [])) := by simp
    obtain ⟨htext, hstatement, hfront⟩ := slices_static before front behind q hs rfl
    obtain ⟨htext', hstatement', hfront'⟩ := slices_static [] front [] q hs' rfl
    rw [List.length_nil] at htext' hstatement' hfront'
    exact record?_congr rfl (htext.trans htext'.symm) (hstatement.trans hstatement'.symm)
      fun _ => hfront.trans hfront'.symm

/-- A declaration of a module, whatever stands behind it. -/
def ofDeclaration (segment : Segment) (body : Text) (h : ∀ rest, Declares segment body rest) : Sentence where
  segment := segment
  occurrence position := .ofSpecifier position (position + segment.length) body
  run_eq := by
    intro s rest hf hd hr
    rw [((h rest).step hf hd).run_eq hr]
    simp only [State.declared, State.declare, Scan.Declaration.behind, Option.map_some, Option.toList_some,
      Trail.length_pass, Nat.add_comm]
    rfl
  afterDot_eq := by
    intro before
    obtain ⟨front, quote, hq, rfl⟩ := (h []).quotes body rfl
    obtain ⟨hspace, hdot⟩ : isSpace quote = false ∧ quote ≠ '.' :=
      of_isQuote (p := fun c => isSpace c = false ∧ c ≠ '.') hq (by decide)
    have hpass := afterDot_pass hspace hdot before (front ++ (quote, .code) :: of (.quoted quote) body) .code
    simpa [Segment.string] using hpass
  record?_eq := by
    intro before behind
    obtain ⟨front, quote, -, rfl⟩ := (h []).quotes body rfl
    obtain ⟨htext, hstatement, hfront⟩ := slices_declaration before front behind quote body rfl rfl
    obtain ⟨htext', hstatement', hfront'⟩ := slices_declaration [] front [] quote body (List.append_nil _).symm rfl
    exact record?_congr rfl (htext.trans htext'.symm) (hstatement.trans hstatement'.symm)
      fun _ => hfront.trans hfront'.symm

/-- A dynamic import of an argument. -/
def ofCall (argument : Segment) (ha : ∀ {s : State} {rest : Text}, s.cursor.rest = argument.text ++ rest →
    s.run = (s.moved argument rest .operator).run) : Sentence where
  segment := of .code (Scan.importWord ++ ['(']) ++ (argument ++ of .code [')'])
  occurrence position := dynamicOccurrence position [] argument.text
  run_eq := by
    intro s rest hf hd hr
    exact @run_of_call s hf hd [] rest rfl argument (fun _ => ha) (by simpa using hr)
  afterDot_eq := by
    intro before
    have hpass := afterDot_pass (c := ')') (by decide) (by decide) before
      (of .code (Scan.importWord ++ ['(']) ++ argument) .code
    simpa using hpass
  record?_eq := by
    intro before behind
    have hs : before ++ ((of .code (Scan.importWord ++ ['(']) ++ (argument ++ of .code [')'])).text ++ behind)
        = before ++ (Scan.importWord ++ ([] ++ '(' :: (argument.text ++ ')' :: behind))) := by
      simp
    have hs' : (of .code (Scan.importWord ++ ['(']) ++ (argument ++ of .code [')'])).text
        = [] ++ (Scan.importWord ++ ([] ++ '(' :: (argument.text ++ ')' :: []))) := by
      simp
    obtain ⟨htext, hstatement⟩ := slices_dynamic before [] argument.text behind hs rfl
    obtain ⟨htext', hstatement'⟩ := slices_dynamic [] [] argument.text [] hs' rfl
    exact record?_congr rfl (htext.trans htext'.symm) (hstatement.trans hstatement'.symm) nofun

/-- A sentence of a link is written as its front and its source. -/
theorem text_ofLink (link : Link) (front : Text) (hs : Spells link.tokens front) (q : Quoted) :
  (ofLink link front hs q).text = front ++ q.text
  := by
  simp [text, ofLink]

/-- A dynamic import of a quoted text. -/
def ofQuoted (q : Quoted) : Sentence :=
  ofCall q.segment fun hr => run_of_quoted (by rw [hr, q.text_segment])

/-- A dynamic import of a template. -/
def ofTemplate (t : Template) : Sentence :=
  ofCall t.literal t.run_eq

end Sentence

/-! ### Sentences one behind the other -/

/-- Sentences with the blanks behind each of them. -/
def prose : List (Sentence × Text) → Text
  | [] => []
  | (sentence, gap) :: rest => sentence.text ++ (gap ++ prose rest)

/-- The imports that sentences are, where they stand one behind the other from `position` on. -/
def occurrences (position : Nat) : List (Sentence × Text) → List Occurrence
  | [] => []
  | (sentence, gap) :: rest =>
    sentence.occurrence position :: occurrences (position + sentence.text.length + gap.length) rest

section

variable {sentences : List (Sentence × Text)}

/-- The scanner passes sentences and finds each of them. -/
theorem exists_run_prose (hg : ∀ written ∈ sentences, written.2.all isGap = true) {s : State}
    (hf : s.frames = []) (hd : afterDot s.cursor.before = false) (hr : s.cursor.rest = prose sentences) :
  ∃ f, s.run = .ok f ∧ f.found = s.found ++ occurrences s.cursor.before.length sentences
  := by
  induction sentences generalizing s with
  | nil => exact ⟨s, (Run.finished hr hf).run_eq, (List.append_nil _).symm⟩
  | cons written rest ih =>
    obtain ⟨sentence, gap⟩ := written
    rw [List.forall_mem_cons] at hg
    let passed := { s.moved sentence.segment (gap ++ prose rest) .operator with
      found := s.found ++ [sentence.occurrence s.cursor.before.length] }
    let behind := passed.moved (of .code gap) (prose rest) .operator
    have hdot : afterDot behind.cursor.before = false := by
      rw [State.cursor_moved, afterDot_pass_of_isGap hg.1]
      apply sentence.afterDot_eq
    obtain ⟨f, hrun, hfound⟩ := @ih hg.2 behind hf hdot rfl
    refine ⟨f, ?_, ?_⟩
    · rw [sentence.run_eq hf hd hr, run_of_isGap (s := passed) hg.1 rfl]
      exact hrun
    · have hposition : behind.cursor.before.length
          = s.cursor.before.length + sentence.text.length + gap.length := by
        rw [Sentence.text, Segment.length_text]
        simp only [behind, passed, State.moved, State.goto, Trail.length_pass, Segment.length_of]
        omega
      rw [hfound, hposition, State.found_moved, occurrences, List.append_assoc]
      rfl

/-- The records of sentences that stand one behind the other are the records of each of them. -/
theorem filterMap_occurrences (sentences : List (Sentence × Text)) (before : Text) :
  (occurrences before.length sentences).filterMap (record? (before ++ prose sentences))
    = sentences.flatMap fun written => written.1.records
  := by
  rw [List.filterMap_eq_flatMap_toList]
  induction sentences generalizing before with
  | nil => rfl
  | cons written rest ih =>
    obtain ⟨sentence, gap⟩ := written
    have hrest := ih (before ++ (sentence.text ++ gap))
    have hlength : (before ++ (sentence.text ++ gap)).length
        = before.length + sentence.text.length + gap.length := by
      simp [Nat.add_assoc]
    have hprose : before ++ (sentence.text ++ gap) ++ prose rest
        = before ++ (sentence.text ++ (gap ++ prose rest)) := by
      simp
    rw [hlength, hprose] at hrest
    rw [occurrences, List.flatMap_cons, List.flatMap_cons, Sentence.records, prose, Sentence.text,
      sentence.record?_eq, ← Sentence.text, hrest]

/-- Sentences that stand one behind the other are extracted one by one. -/
theorem records_prose (hg : ∀ written ∈ sentences, written.2.all isGap = true)
    (hh : (prose sentences).head? ≠ some '#') :
  Extraction.records (prose sentences) = .ok (sentences.flatMap fun written => written.1.records)
  := by
  obtain ⟨f, hrun, hfound⟩ :=
    exists_run_prose hg (s := .behindHashbang [] (prose sentences)) rfl rfl rfl
  have hscan : scan (prose sentences) = .ok (occurrences 0 sentences) := by
    rw [scan, finish_eq hh, hrun]
    exact congrArg Except.ok hfound
  have hrecords := filterMap_occurrences sentences []
  rw [Extraction.records, hscan, ← hrecords]
  rfl

end

/-! ### What goes on in the next line -/

/-- What the scanner finds in a text, and finds again before what it finds in a source that begins with the word
`import` in the next line. -/
structure GoesOn (text : Text) (found : List Occurrence) : Prop where
  scan_eq : scan text = .ok found
  scan_append : ∀ {inner : Text} {later : List Occurrence}, scan (importWord ++ inner) = .ok later →
    scan (text ++ '\n' :: (importWord ++ inner)) = .ok (found ++ later.map (·.shift (text.length + 1)))

/-- A text that can be scanned by itself goes on in the next line, unless its end is a dot or waits for a word. -/
theorem goesOn_of_scan {text : Text} {found : List Occurrence} (hs : scan text = .ok found)
    (hdot : (text.reverse.dropWhile isSpace).head? ≠ some '.') (hd : ¬ Dangling text) :
  GoesOn text found
  := by
  refine ⟨hs, ?_⟩
  intro inner later hlater
  obtain ⟨s, hfinish, hrest, hframes, hfound, hposition, hafter⟩ :=
    exists_state_of_scan hs hdot hd (continues_import inner)
  have hrun := found_run_of_scan hlater hframes hafter hrest
  rw [hfound, hposition] at hrun
  rw [scan, ← hrun]
  exact congrArg _ hfinish

namespace Sentence

variable (sentence : Sentence)

/-- The scanner leaves a sentence behind that stands in front of a text, and finds it. -/
theorem goesOn (h : ∃ inner, sentence.text = importWord ++ inner) :
  GoesOn sentence.text [sentence.occurrence 0]
  := by
  obtain ⟨inner, ht⟩ := h
  have hstart : ∀ behind, finish (sentence.text ++ behind)
      = { (State.behindHashbang [] (sentence.text ++ behind)).moved sentence.segment behind .operator with
          found := [sentence.occurrence 0] }.run := by
    intro behind
    have hhead : (sentence.text ++ behind).head? ≠ some '#' := by
      rw [ht]
      rintro ⟨⟩
    rw [finish_eq hhead]
    exact sentence.run_eq rfl rfl rfl
  constructor
  · have hend := hstart []
    rw [List.append_nil, (Run.finished rfl rfl).run_eq] at hend
    rw [scan, hend]
    rfl
  · intro inner later hlater
    -- behind the sentence the line feed is passed, outside of all brackets and not behind a dot
    let passed := { (State.behindHashbang [] (sentence.text ++ '\n' :: (importWord ++ inner))).moved
      sentence.segment ('\n' :: (importWord ++ inner)) .operator with found := [sentence.occurrence 0] }
    have hspace : Scan.Step passed [('\n', .code)]
        (passed.moved [('\n', .code)] (importWord ++ inner) passed.expects) := .space (by decide)
    have hgap : ['\n'].all isGap = true := by decide
    have hafter : afterDot (passed.cursor.before.pass [('\n', .code)]) = false :=
      (afterDot_pass_of_isGap hgap _).trans (sentence.afterDot_eq _)
    have hrun := found_run_of_scan hlater (s := passed.moved [('\n', .code)] (importWord ++ inner) passed.expects)
      rfl hafter rfl
    have hposition : (passed.cursor.before.pass [('\n', .code)]).length = sentence.text.length + 1 := by
      rw [Sentence.text, Segment.length_text]
      simp [passed, State.behindHashbang, State.initial, Trail.empty]
    rw [State.cursor_moved, hposition, ← hspace.run_eq rfl, ← hstart] at hrun
    exact hrun

end Sentence

/-! ### Texts one below the other -/

namespace GoesOn

variable {text : Text} {found : List Occurrence}

/-- The records of a text are those of what the scanner finds in it. -/
theorem records_eq (h : GoesOn text found) :
  Extraction.records text = .ok (found.filterMap (record? text))
  := by
  rw [Extraction.records, h.scan_eq]
  rfl

/-- What goes on in the next line is extracted, and behind it what begins there. -/
theorem records_append (h : GoesOn text found) {inner : Text} {later : List ImportRecord}
    (hl : Extraction.records (importWord ++ inner) = .ok later) :
  Extraction.records (text ++ '\n' :: (importWord ++ inner)) = .ok (found.filterMap (record? text) ++ later)
  := by
  obtain ⟨scanned, hs, rfl⟩ := exists_of_map_eq_ok hl
  have hown := (level_of_scan h.scan_eq).written
  have hlater := (level_of_scan hs).written
  have hfront : found.filterMap (record? (text ++ '\n' :: (importWord ++ inner)))
      = found.filterMap (record? text) := by
    apply List.filterMap_congr
    intro o ho
    apply record?_append (hown o ho)
  have hbehind : (scanned.map (·.shift (text.length + 1))).filterMap
        (record? (text ++ '\n' :: (importWord ++ inner)))
      = scanned.filterMap (record? (importWord ++ inner)) := by
    rw [List.filterMap_map]
    apply List.filterMap_congr
    intro o ho
    have hshift := record?_shift (hlater o ho) (text ++ ['\n'])
    simpa using hshift
  rw [Extraction.records, h.scan_append hs, ← hfront, ← hbehind, ← List.filterMap_append]
  rfl

end GoesOn

/-- A sentence is extracted as a text by itself. -/
theorem Sentence.records_eq {sentence : Sentence} (h : ∃ inner, sentence.text = importWord ++ inner) :
  Extraction.records sentence.text = .ok sentence.records
  := by
  rw [(sentence.goesOn h).records_eq, List.filterMap_eq_flatMap_toList, List.flatMap_singleton]
  rfl

theorem join_cons_cons (text next : Text) (texts : List Text) :
  join ['\n'] (text :: next :: texts) = text ++ '\n' :: join ['\n'] (next :: texts)
  := by
  simp [join, List.intercalate_cons_cons]

/-- Things whose texts begin with the word `import` and go on in the next line are extracted one by one where the
texts stand one below the other. -/
theorem records_join {α : Type} {text : α → Text} {own : α → List ImportRecord} {things : List α}
    (ht : ∀ x ∈ things, ∃ inner, text x = importWord ++ inner) (hg : ∀ x ∈ things, ∃ found, GoesOn (text x) found)
    (ho : ∀ x ∈ things, Extraction.records (text x) = .ok (own x)) :
  Extraction.records (join ['\n'] (things.map text)) = .ok (things.flatMap own)
  := by
  induction things with
  | nil => exact @records_prose [] nofun nofun
  | cons x things ih =>
    rw [List.forall_mem_cons] at ht hg ho
    obtain ⟨found, hgoes⟩ := hg.1
    cases things with
    | nil => simpa [join, List.intercalate_singleton] using ho.1
    | cons y things =>
      have hrest := ih ht.2 hg.2 ho.2
      -- what stands in the lines below begins with the word too
      obtain ⟨inner, hinner⟩ : ∃ inner, join ['\n'] ((y :: things).map text) = importWord ++ inner := by
        obtain ⟨inner, hy⟩ := ht.2 y List.mem_cons_self
        rw [List.map_cons, hy]
        cases things with
        | nil => exact ⟨inner, by rw [List.map_nil, join, List.intercalate_singleton]⟩
        | cons z things => exact ⟨_, by rw [List.map_cons, join_cons_cons, List.append_assoc]⟩
      have hown := Except.ok.inj (hgoes.records_eq.symm.trans ho.1)
      rw [hinner] at hrest
      rw [List.map_cons, List.map_cons, join_cons_cons, ← List.map_cons, hinner, hgoes.records_append hrest, hown]
      rfl

/-! ### Statements -/

namespace Statement

/-- A statement as a sentence. -/
def sentence : Statement → Sentence
  | piece (.static s) => .ofLink (.inward s.bindings) s.front s.spells s.address.toQuoted
  | piece (.dynamic address) => .ofQuoted address.toQuoted
  | template t => .ofTemplate t

/-- What a statement imports. -/
def records (statement : Statement) : List ImportRecord :=
  statement.sentence.records

variable (statement : Statement)

theorem text_sentence :
  statement.sentence.text = statement.text
  := by
  rcases statement with (i | address) | t
  · exact Sentence.text_ofLink (.inward i.bindings) i.front i.spells i.address.toQuoted
  · simp [sentence, Sentence.ofQuoted, Sentence.ofCall, Sentence.text, text, Piece.text]
  · simp [sentence, Sentence.ofTemplate, Sentence.ofCall, Sentence.text, text, Template.text_eq]

theorem exists_text :
  ∃ inner, statement.text = importWord ++ inner
  := by
  cases statement with
  | piece p => apply p.exists_text
  | template t => exact ⟨_, rfl⟩

/-- Nothing is extracted from a dynamic import of a template. -/
theorem records_template (t : Template) :
  (template t).records = []
  := by
  have hs : (template t).sentence.text
      = [] ++ (Scan.importWord ++ ([] ++ '(' :: (t.literal.text ++ ')' :: []))) := by
    rw [text_sentence]
    exact t.text_eq
  obtain ⟨htext, -⟩ := slices_dynamic [] [] t.literal.text [] hs rfl
  have hliteral : literal? t.literal.text = none := literal?_eq_none (by decide) (by decide) _
  have hspecifier : specifier? (template t).sentence.text ((template t).sentence.occurrence 0) = none := by
    rw [specifier?, if_pos (by rfl)]
    exact (congrArg literal? htext).trans hliteral
  rw [records, Sentence.records, record?, hspecifier]
  rfl

/-- What is extracted from statements is what is extracted from the pieces among them. -/
theorem flatMap_records (statements : List Statement) :
  statements.flatMap records = (statements.filterMap piece?).flatMap fun p => (piece p).records
  := by
  induction statements with
  | nil => rfl
  | cons statement statements ih =>
    cases statement with
    | piece p =>
      have hsome : piece? (piece p) = some p := rfl
      rw [List.flatMap_cons, List.filterMap_cons_some hsome, List.flatMap_cons, ih]
    | template t =>
      have hnone : piece? (template t) = none := rfl
      rw [List.flatMap_cons, List.filterMap_cons_none hnone, records_template, List.nil_append, ih]

end Statement

/-! ### Statements one below the other -/

/-- Statements one below the other. -/
def lines (statements : List Statement) : Text :=
  join ['\n'] (statements.map Statement.text)

theorem lines_singleton (statement : Statement) :
  lines [statement] = statement.text
  := by
  simp [lines, join, List.intercalate]

/-- Statements that stand one below the other are extracted one by one. -/
theorem records_lines (statements : List Statement) :
  Extraction.records (lines statements) = .ok (statements.flatMap Statement.records)
  := by
  apply records_join
  · intro statement _
    exact statement.exists_text
  · intro statement _
    have htext := statement.exists_text
    rw [← statement.text_sentence] at htext ⊢
    exact ⟨_, statement.sentence.goesOn htext⟩
  · intro statement _
    have htext := statement.exists_text
    rw [← statement.text_sentence] at htext ⊢
    exact Sentence.records_eq htext

/-- What is extracted from a source that is not scanned as it is, from its statements. -/
theorem extract_salvaged {source : Text} {statics dynamics : List (Nat × Text)}
    (hs : find behindStatement? 0 0 true (Comment.remove source) = statics)
    (hd : find behindDynamic? 0 0 true (Comment.remove source) = dynamics)
    (h : statics = [] ∨ dynamics = []) :
  extract source ".tsx".toList
    = { fallback := none, outcome := Extraction.records (join ['\n'] ((statics ++ dynamics).map Prod.snd)) }
  := by
  have hmerge : ∀ le, List.merge statics dynamics le = statics ++ dynamics := by
    intro le
    obtain rfl | rfl := h <;> simp
  rw [extract_of_holdsMarkup (by decide), reduce, statements, hs, hd, hmerge]

end ImportCensus.Salvage
