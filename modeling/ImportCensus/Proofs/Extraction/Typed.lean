import ImportCensus.Proofs.Extraction.Exactness

/-!
# Declarations of types

The word `type` behind the first word of a declaration makes it one of types, of which no record is kept, or
it is the name of a default export.  The scanner passes an export of types token by token and finds
nothing.  An import it finds either way, and what stands behind the word tells of which kind it is.
-/

namespace ImportCensus.Written

open Text Scan Clause Extraction
open Segment (of of_append)

/-- The word before a clause of types. -/
def Name.typing : Name := ⟨['t', 'y', 'p', 'e'], by decide⟩

/-- What stands between curly brackets: bindings, and the tokens that list them. -/
structure Listing where
  bindings : List Binding
  tokens : List Token
  lists : Lists bindings tokens

/-- The declarations with the word `type` behind their first word: those of types, and those of values
whose default export has that name. -/
inductive Typed where
  | importDefault (name : Name) (ne_from : name.text ≠ fromWord)
  | importItems (items : Listing)
  | importWhole (whole : Name)
  | exportItems (items : Listing)
  | exportAll
  | defaultOnly
  | defaultItems (items : Listing)
  | defaultWhole (whole : Name)

/-- The tokens of a listing in curly brackets, and `from` behind it. -/
def Listing.block (items : Listing) : List Token :=
  .opening .curly :: (items.tokens ++ [.closing .curly, .word .sourcing])

namespace Typed

/-- The word that a declaration begins with. -/
def firstWord : Typed → Name
  | exportItems _ => .exporting
  | exportAll => .exporting
  | _ => .importing

/-- The tokens between the word `type` and the specifier. -/
def clause : Typed → List Token
  | importDefault name _ => [.word name, .word .sourcing]
  | importItems items => items.block
  | importWhole whole => [.star, .word .aliasing, .word whole, .word .sourcing]
  | exportItems items => items.block
  | exportAll => [.star, .word .sourcing]
  | defaultOnly => [.word .sourcing]
  | defaultItems items => .comma :: items.block
  | defaultWhole whole => [.comma, .star, .word .aliasing, .word whole, .word .sourcing]

/-- Whether a declaration imports values. -/
def isValue : Typed → Bool
  | defaultOnly => true
  | defaultItems _ => true
  | defaultWhole _ => true
  | _ => false

/-- What is to be kept of a declaration: nothing of one of types, and of one of values a single record with
the default export. -/
def Yields (t : Typed) (records : List ImportRecord) : Prop :=
  if t.isValue then ∃ record, records = [record] ∧ record.defaultName = some Name.typing.text else records = []

/-- Whether a declaration is taken for what it is, with `gap` behind the word `type`.  An import of types is
not where a bracket or a star stands right behind the word, nor where the name behind it begins as the word
`from` does, with a dollar sign behind that. -/
def IsTold (gap : Text) : Typed → Prop
  | importDefault name _ => ¬ fromWord ++ ['$'] <+: name.text
  | importItems _ => gap ≠ []
  | importWhole _ => gap ≠ []
  | _ => True

/-- The ways to write a declaration down, with `gap` behind the word `type`. -/
inductive Prints (t : Typed) (q : Quoted) (gap : Text) : Text → Prop where
  | mk {lead before text : Text} (hl : lead.all isGap = true) (hb : before.all isGap = true)
      (hn : before ≠ []) (hg : gap.all isGap = true)
      (hw : t.clause.head?.any Token.isWord = true → gap ≠ [])
      (hs : Spells (t.clause ++ [.quoted q]) text) :
    Prints t q gap (lead ++ (t.firstWord.text ++ (before ++ (Name.typing.text ++ (gap ++ text)))))

end Typed

/-! ### What is passed -/

/-- A state that is reached where nothing is found on the way, at the same levels of nesting. -/
structure Idle (s n : State) (rest : Text) : Prop where
  run_eq : s.run = n.run
  frames_eq : n.frames = s.frames
  found_eq : n.found = s.found
  rest_eq : n.cursor.rest = rest

section

variable {s n : State} {gap rest : Text}

theorem Idle.refl (s : State) :
  Idle s s s.cursor.rest
  := ⟨rfl, rfl, rfl, rfl⟩

theorem Idle.trans {f : State} {text : Text} (h : Idle s n text) (h' : Idle n f rest) :
  Idle s f rest
  := ⟨h.run_eq.trans h'.run_eq, h'.frames_eq.trans h.frames_eq, h'.found_eq.trans h.found_eq, h'.rest_eq⟩

/-- A step that enters and leaves no level and finds nothing is idle. -/
theorem idle_of_step {segment : Segment} {expects : Expectation}
    (h : Scan.Step s segment (s.moved segment rest expects)) (hr : s.cursor.rest = segment.text ++ rest) :
  Idle s (s.moved segment rest expects) rest
  := ⟨h.run_eq hr, rfl, rfl, rfl⟩

/-- A gap is passed idly. -/
theorem idle_of_isGap (hg : gap.all isGap = true) (hr : s.cursor.rest = gap ++ rest) :
  Idle s (s.moved (of .code gap) rest s.expects) rest
  := ⟨run_of_isGap hg hr, rfl, rfl, rfl⟩

/-- A token that may stand inside of a level of nesting, or outside of all of them, without being found. -/
def Token.IsIdle (frames : List Frame) : Token → Prop
  | word name => frames = [] → name.text ≠ importWord ∧ name.text ≠ exportWord
  | star => True
  | comma => True
  | opening _ => False
  | closing _ => False
  | quoted _ => True

/-- A star or a comma is passed idly. -/
theorem exists_idle_mark {c : Char} (hc : c = '*' ∨ c = ',') (hr : s.cursor.rest = c :: rest) :
  ∃ n, Idle s n rest
  := by
  have hmark : IsMark c rest := by
    apply isMark_of_mem
    obtain rfl | rfl := hc
    · decide
    · decide
  exact ⟨_, idle_of_step (.mark hmark) hr⟩

/-- A word is passed, together with the blanks behind it. -/
theorem exists_idle_word {name : Name} (hi : s.frames = [] → name.text ≠ importWord ∧ name.text ≠ exportWord)
    (hg : gap.all isGap = true) (hw : stops isIdentifierPart (gap ++ rest) = true)
    (hs : isSettled rest = true) (ho : rest.head? ≠ some '(') (hr : s.cursor.rest = name.text ++ (gap ++ rest)) :
  ∃ n, Idle s n rest
  := by
  have hword := name.isWord hw
  have hspace : stops isSpace name.text = true := by
    obtain ⟨c, tail, ht, hc, -⟩ := name.exists_cons
    simp [ht, stops, isSpace_of_isNamePart (isNamePart_of_isNameStart hc)]
  by_cases hd : name.text = importWord ∧ afterDot s.cursor.before = false
  · -- inside of brackets the word begins nothing without round ones behind it
    have hf : s.frames ≠ [] := fun hf => (hi hf).1 hd.1
    rw [hd.1] at hword hr
    have hproperty : Scan.Step s (of .code importWord ++ of .code gap)
        (s.moved (of .code importWord ++ of .code gap) rest .operator) :=
      .property hd.2 (by simpa using hword) (trivia_of_isGap hg hs) (.inr ⟨hf, ho⟩)
    exact ⟨_, idle_of_step hproperty (by simpa using hr)⟩
  · have hstep : Scan.Step s (of .code name.text)
        (s.moved (of .code name.text) (gap ++ rest) (expectsBehindWord name.text)) := by
      apply Scan.Step.name hword hspace
      · intro hname
        rw [← Bool.not_eq_false]
        intro hdot
        exact hd ⟨hname, hdot⟩
      · intro hname hf
        exact absurd hname (hi hf).2
    have hpassed := idle_of_step hstep (by simpa using hr)
    exact ⟨_, hpassed.trans (idle_of_isGap hg rfl)⟩

/-- A token is passed, together with the blanks behind it. -/
theorem exists_idle_token {token : Token} (hi : token.IsIdle s.frames) (hg : gap.all isGap = true)
    (hw : token.isWord = true → stops isIdentifierPart (gap ++ rest) = true)
    (hs : isSettled rest = true) (ho : rest.head? ≠ some '(') (hr : s.cursor.rest = token.text ++ (gap ++ rest)) :
  ∃ n, Idle s n rest
  := by
  have hmark : ∀ {c : Char}, c = '*' ∨ c = ',' → s.cursor.rest = c :: (gap ++ rest) → ∃ n, Idle s n rest := by
    intro c hc hr
    obtain ⟨n, hn⟩ := exists_idle_mark hc hr
    exact ⟨_, hn.trans (idle_of_isGap hg hn.rest_eq)⟩
  cases token with
  | word name => exact exists_idle_word hi hg (hw rfl) hs ho hr
  | star => exact hmark (.inl rfl) hr
  | comma => exact hmark (.inr rfl) hr
  | opening b => cases hi
  | closing b => cases hi
  | quoted q =>
    have hquoted : Idle s (s.moved q.segment (gap ++ rest) .operator) (gap ++ rest) :=
      ⟨run_of_quoted hr, rfl, rfl, rfl⟩
    exact ⟨_, hquoted.trans (idle_of_isGap hg rfl)⟩

/-- No bracket of a dynamic import is among idle tokens. -/
theorem Token.head?_text_ne_round {frames : List Frame} {token : Token} (hi : token.IsIdle frames) (rest : Text) :
  (token.text ++ rest).head? ≠ some '('
  := by
  cases token with
  | word name =>
    obtain ⟨c, tail, ht, hc, -⟩ := name.exists_cons
    rintro h
    simp only [Token.text, ht, List.cons_append, List.head?_cons, Option.some.injEq] at h
    subst h
    exact absurd hc (by decide)
  | star => simp [Token.text]
  | comma => simp [Token.text]
  | opening b => cases hi
  | closing b => cases hi
  | quoted q =>
    have hquote := of_isQuote (p := fun c => c ≠ '(') q.isQuote (by decide)
    simpa [Token.text, Quoted.text] using hquote

/-- Tokens in front of something else than a name or round brackets are passed. -/
theorem exists_idle_spells {tokens : List Token} {text : Text} (h : Spells tokens text)
    (hi : ∀ token ∈ tokens, token.IsIdle s.frames) (hw : stops isIdentifierPart rest = true)
    (hs : isSettled rest = true) (ho : rest.head? ≠ some '(') (hr : s.cursor.rest = text ++ rest) :
  ∃ n, Idle s n rest
  := by
  induction h generalizing s with
  | nil =>
    obtain rfl : s.cursor.rest = rest := hr
    exact ⟨s, .refl s⟩
  | @cons token tokens gap text hg hword h ih =>
    have hround : (text ++ rest).head? ≠ some '(' := by
      cases h with
      | nil => exact ho
      | @cons next _ _ _ _ _ _ =>
        rw [List.append_assoc]
        exact next.head?_text_ne_round (hi next (by simp)) _
    have hends : token.isWord = true → stops isIdentifierPart (gap ++ (text ++ rest)) = true :=
      fun htoken => h.stops_behind_word hg (hword htoken) inNames_isIdentifierPart hw
    obtain ⟨n, hn⟩ := exists_idle_token (hi token List.mem_cons_self) hg hends (h.isSettled_append hs) hround
      (by rw [hr, List.append_assoc, List.append_assoc])
    have hrest : ∃ f, Idle n f rest := by
      apply ih _ hn.rest_eq
      intro token htoken
      rw [hn.frames_eq]
      exact hi token (List.mem_cons_of_mem _ htoken)
    obtain ⟨f, hf⟩ := hrest
    exact ⟨f, hn.trans hf⟩

/-- What stands between curly brackets is passed with them. -/
theorem exists_idle_curly {inner : List Token} {lead text : Text} (hl : lead.all isGap = true)
    (h : Spells inner text) (hi : ∀ token ∈ inner, token.IsInner)
    (hr : s.cursor.rest = '{' :: (lead ++ (text ++ '}' :: rest))) :
  ∃ n, Idle s n rest
  := by
  have hopening : s.run = (s.enter (.bracket .curly) none s.cursor.before (lead ++ (text ++ '}' :: rest))).run :=
    (Scan.Step.opening .curly).run_eq hr
  have hlead := idle_of_isGap (s := s.enter (.bracket .curly) none s.cursor.before (lead ++ (text ++ '}' :: rest)))
    hl rfl
  have hinner : ∃ n, Idle ((s.enter (.bracket .curly) none s.cursor.before
      (lead ++ (text ++ '}' :: rest))).moved (of .code lead) (text ++ '}' :: rest) .operand) n ('}' :: rest) := by
    apply exists_idle_spells h _ rfl (isSettled_cons (by decide) (by decide) _) (by simp) rfl
    intro token htoken
    obtain rfl | ⟨name, rfl⟩ := hi token htoken
    · trivial
    · intro hf
      cases hf
  obtain ⟨n, hn⟩ := hinner
  have hn := hlead.trans hn
  have hclosing := (Scan.Step.closing (s := n) hn.frames_eq (b := .curly) rfl).run_eq hn.rest_eq
  refine ⟨_, hopening.trans (hn.run_eq.trans hclosing), rfl, ?_, rfl⟩
  rw [State.found_moved, State.found_leave, hn.found_eq]
  simp [State.enter, Frame.occurrence?]

/-- The scanner ends behind what it passes. -/
theorem Idle.found_of_run (h : Idle s n []) (hf : s.frames = []) :
  s.run.map State.found = .ok s.found
  := by
  have hfinished : Run n [] n := .finished h.rest_eq (h.frames_eq.trans hf)
  rw [h.run_eq, hfinished.run_eq, Except.map, h.found_eq]

end

/-! ### Exports of types -/

/-- The tokens of a listing may stand in a block. -/
theorem Listing.isInner_of_mem {items : Listing} {token : Token} (h : token ∈ items.tokens) :
  token.IsInner
  := by
  obtain ⟨bindings, tokens, hlists⟩ := items
  dsimp only at h
  induction hlists with
  | nil => cases h
  | last binding => exact Binding.isInner_of_mem_tokens h
  | cons binding hrest ih =>
    obtain h | h := List.mem_append.mp h
    · exact Binding.isInner_of_mem_tokens h
    · obtain rfl | h := List.mem_cons.mp h
      · exact .inl rfl
      · exact ih h

/-- The state behind the blanks that a source begins with. -/
def behindLead (lead text : Text) : State :=
  (State.behindHashbang [] (lead ++ text)).moved (of .code lead) text .operand

section

variable {lead before gap text : Text}

/-- A gap in front of a source is passed. -/
theorem scan_gap_append (hl : lead.all isGap = true) (ht : text.head? ≠ some '#') :
  scan (lead ++ text) = (behindLead lead text).run.map State.found
  := by
  have hhead : (lead ++ text).head? ≠ some '#' := by
    cases lead with
    | nil => exact ht
    | cons c lead =>
      rw [List.all_cons, Bool.and_eq_true] at hl
      rintro h
      obtain rfl : c = '#' := by simpa using h
      exact absurd hl.1 (by decide)
  have hrun := run_of_isGap (s := .behindHashbang [] (lead ++ text)) hl rfl
  rw [scan, finish_eq hhead, hrun]
  rfl

/-- No dot stands in a gap. -/
theorem afterDot_behindLead (hl : lead.all isGap = true) (text : Text) :
  afterDot (behindLead lead text).cursor.before = false
  := by
  rw [behindLead, State.cursor_moved, afterDot_pass_of_isGap hl]
  rfl

theorem Name.head?_text_append (name : Name) (rest : Text) :
  (name.text ++ rest).head? ≠ some '#'
  := by
  obtain ⟨c, tail, ht, hc, -⟩ := name.exists_cons
  rintro h
  simp only [ht, List.cons_append, List.head?_cons, Option.some.injEq] at h
  subst h
  exact absurd hc (by decide)

/-- Behind the word `export` the word `type` begins no declaration. -/
theorem idle_exporting (hl : lead.all isGap = true) (hb : before.all isGap = true) (hn : before ≠ []) (text : Text) :
  ∃ n, Idle (behindLead lead (exportWord ++ (before ++ (Name.typing.text ++ text)))) n (Name.typing.text ++ text)
  := by
  have htrivia : Trivia (of .code before) (Name.typing.text ++ text) :=
    trivia_of_isGap hb ((Token.word .typing).isSettled_text text)
  have hword : IsWord exportWord ((of .code before).text ++ (Name.typing.text ++ text)) := by
    apply Name.exporting.isWord
    rw [Segment.text_of]
    exact stops_gap_append inNames_isIdentifierPart hb hn _
  have hclause : ExportClause (of .code before) none (Name.typing.text ++ text) :=
    .other htrivia (by simp [Name.typing]) (by simp [Name.typing])
  have hstep := Scan.Step.exportClause (s := behindLead lead (exportWord ++ (before ++ (Name.typing.text ++ text))))
    (afterDot_behindLead hl _) rfl hword hclause
  refine ⟨_, hstep.run_eq (by simp [behindLead]), rfl, ?_, rfl⟩
  rw [State.found_declared]
  exact List.append_nil _

end

/-- Behind the words `export` and `type`, a clause and a specifier are passed. -/
theorem exists_idle_exported {t : Typed} (ht : t.firstWord = .exporting) {q : Quoted} {s : State}
    {gap text : Text} (hg : gap.all isGap = true)
    (hs : Spells (t.clause ++ [.quoted q]) text) (hr : s.cursor.rest = Name.typing.text ++ (gap ++ text)) :
  ∃ n, Idle s n []
  := by
  have hwords : ∀ {name : Name} {frames : List Frame}, name = .typing ∨ name = .sourcing →
      (Token.word name).IsIdle frames := by
    rintro name frames (rfl | rfl) -
    · exact ⟨by decide, by decide⟩
    · exact ⟨by decide, by decide⟩
  cases t with
  | exportAll =>
    have hspells : Spells [.word .typing, .star, .word .sourcing, .quoted q] (Name.typing.text ++ (gap ++ text)) :=
      .cons hg nofun hs
    apply exists_idle_spells hspells _ rfl rfl (by simp) (by simpa using hr)
    intro token htoken
    simp only [List.mem_cons, List.not_mem_nil, or_false] at htoken
    obtain rfl | rfl | rfl | rfl := htoken
    · exact hwords (.inl rfl)
    · trivial
    · exact hwords (.inr rfl)
    · trivial
  | exportItems items =>
    have hs : Spells (.opening .curly :: (items.tokens ++ .closing .curly :: [.word .sourcing, .quoted q])) text := by
      simpa [Typed.clause, Listing.block] using hs
    obtain ⟨lead, inner, behind, rest, hl, hinner, hb, hrest, rfl⟩ := hs.exists_of_curly
    have hspells : Spells [.word .typing] (Name.typing.text ++ (gap ++ [])) := .cons hg nofun .nil
    have htyping : ∃ n, Idle s n ('{' :: (lead ++ (inner ++ '}' :: (behind ++ rest)))) := by
      apply exists_idle_spells hspells _ rfl (isSettled_cons (by decide) (by decide) _) (by simp) (by simpa using hr)
      intro token htoken
      obtain rfl := List.mem_singleton.mp htoken
      exact hwords (.inl rfl)
    obtain ⟨n, hn⟩ := htyping
    obtain ⟨m, hm⟩ := exists_idle_curly hl hinner (fun _ => Listing.isInner_of_mem) hn.rest_eq
    have hgap := idle_of_isGap hb hm.rest_eq
    have hsource : ∃ f, Idle (m.moved (of .code behind) rest m.expects) f [] := by
      apply exists_idle_spells hrest _ rfl rfl (by simp) (by simp)
      intro token htoken
      simp only [List.mem_cons, List.not_mem_nil, or_false] at htoken
      obtain rfl | rfl := htoken
      · exact hwords (.inr rfl)
      · trivial
    obtain ⟨f, hf⟩ := hsource
    exact ⟨f, hn.trans (hm.trans (hgap.trans hf))⟩
  | _ => cases ht

/-- In an export of types nothing is found. -/
theorem scan_exported {t : Typed} (ht : t.firstWord = .exporting) {q : Quoted} {gap source : Text}
    (h : t.Prints q gap source) :
  scan source = .ok []
  := by
  cases h with
  | @mk lead before text hl hb hn hg hw hs =>
    rw [scan_gap_append hl (t.firstWord.head?_text_append _), ht]
    obtain ⟨n, hn⟩ := idle_exporting hl hb hn (gap ++ text)
    obtain ⟨f, hf⟩ := exists_idle_exported ht hg hs hn.rest_eq
    exact (hn.trans hf).found_of_run rfl

/-! ### Imports -/

/-- What a source has at the offsets of an import. -/
structure IsImport (source : Text) (o : Occurrence) (front : Text) (q : Quoted) : Prop where
  dynamic_eq : o.dynamic = false
  text_eq : o.text source = q.body
  statement_eq : source.slice o.statementStart o.statementStop = front ++ q.text
  front_eq : source.slice o.statementStart (o.start - 1) = front

/-- A written import is the only one that is found. -/
theorem exists_scan_import {tokens : List Token} (h : IsClause tokens) {lead front behind : Text}
    (hl : lead.all isGap = true) (hs : Spells (.word .importing :: tokens) front) (q : Quoted)
    (hb : behind.all isGap = true) :
  ∃ o, scan (lead ++ (front ++ (q.text ++ behind))) = .ok [o]
    ∧ IsImport (lead ++ (front ++ (q.text ++ behind))) o front q
  := by
  have hhead : (front ++ (q.text ++ behind)).head? ≠ some '#' := by
    cases hs
    rw [List.append_assoc]
    exact Name.importing.head?_text_append _
  have hstep := step_of_import (s := behindLead lead (front ++ (q.text ++ behind))) rfl
    (afterDot_behindLead hl _) h hs q behind
  have hrun := hstep.run_eq (by simp [behindLead])
  have hrest : ((behindLead lead (front ++ (q.text ++ behind))).declared (of .code front ++ q.segment) behind
      (some q.body) .operator).cursor.rest = behind ++ [] := (List.append_nil behind).symm
  have hgap := idle_of_isGap hb hrest
  obtain ⟨htext, hstatement, hfront⟩ := slices_static lead front behind q rfl rfl
  refine ⟨_, ?_, rfl, htext, hstatement, hfront⟩
  have hlead : (behindLead lead (front ++ (q.text ++ behind))).cursor.before.length = lead.length := by
    simp [behindLead, State.behindHashbang, State.initial, Trail.empty]
  have hlength : (of .code front ++ q.segment).length = (front ++ q.text).length := by
    rw [← Segment.length_text, Segment.text_append, Segment.text_of, q.text_segment]
  rw [scan_gap_append hl hhead, hrun, hgap.found_of_run rfl, State.found_declared, hlead, hlength, Nat.add_comm]
  rfl

namespace Typed

variable {t : Typed} {q : Quoted}

/-- The clauses of imports, with the word `type` in front of them. -/
theorem isClause (ht : t.firstWord = .importing) :
  IsClause (.word .typing :: t.clause)
  := by
  have hblock : ∀ items : Listing, IsClause items.block :=
    fun items => .curly (fun _ => Listing.isInner_of_mem) .source
  cases t with
  | importDefault name _ => exact .word _ (.word name .source)
  | importItems items => exact .word _ (hblock items)
  | importWhole whole => exact .word _ (.star (.word _ (.word whole .source)))
  | exportItems items => cases ht
  | exportAll => cases ht
  | defaultOnly => exact .word _ .source
  | defaultItems items => exact .word _ (.comma (hblock items))
  | defaultWhole whole => exact .word _ (.comma (.star (.word _ (.word whole .source))))

/-- No specifier stands in a clause. -/
theorem quoted_not_mem (t : Typed) (q : Quoted) :
  .quoted q ∉ t.clause
  := by
  have hblock : ∀ items : Listing, .quoted q ∉ items.block := by
    intro items h
    simp only [Listing.block, List.mem_cons, List.mem_append, reduceCtorEq, List.not_mem_nil, or_false,
      false_or] at h
    obtain h | ⟨name, h⟩ := Listing.isInner_of_mem h
    · cases h
    · cases h
  cases t with
  | importItems items => exact hblock items
  | exportItems items => exact hblock items
  | defaultItems items => simpa [clause] using hblock items
  | _ => simp [clause]

end Typed

/-- The record of an import is kept unless it imports types only. -/
theorem exists_records_import {tokens : List Token} (h : IsClause tokens) (ht : ∀ q, .quoted q ∉ tokens)
    {lead front behind : Text} (hl : lead.all isGap = true) (hs : Spells (.word .importing :: tokens) front)
    {q : Quoted} {specifier : Text} (hc : Specifier.classify q.body = some specifier)
    (hm : Specifier.isMacro specifier = false) (hb : behind.all isGap = true) :
  ∃ record : ImportRecord, record.defaultName = defaultName? front
    ∧ records (lead ++ (front ++ (q.text ++ behind)))
      = .ok (if isTypeOnly (front ++ q.text) then [] else [record])
  := by
  obtain ⟨o, hscan, ho⟩ := exists_scan_import h hl hs q hb
  have hbare : ∀ c ∈ front, IsBare c := by
    apply hs.forall_mem (p := IsBare)
    · intro c hgap
      apply isBare_of_isItemCharacter
      simp [isItemCharacter, hgap]
    · intro token htoken c
      apply Token.isBare_of_mem
      rintro q rfl
      exact ht q (by simpa using htoken)
  have hspecifier : specifier? (lead ++ (front ++ (q.text ++ behind))) o = some q.body := by
    rw [specifier?, ho.dynamic_eq, ho.text_eq]
    rfl
  rw [records, hscan, Except.map, List.filterMap_cons, Extraction.record?, hspecifier, Option.bind_some, hc]
  simp only [hm, Bool.false_or, ho.dynamic_eq, Bool.false_eq_true, if_false, ho.statement_eq, ho.front_eq,
    Written.remove_eq hbare]
  cases isTypeOnly (front ++ q.text) with
  | true => exact ⟨{ specifier, defaultName := defaultName? front }, rfl, rfl⟩
  | false => exact ⟨_, rfl, rfl⟩

/-! ### The word `type` -/

section

variable {before gap text : Text}

/-- The word `type` makes an import one of types where blanks and a clause stand behind it. -/
theorem isTypeOnly_typing (hb : before.all isGap = true) (hn : before ≠ []) (hg : gap.all isGap = true)
    (hw : stops isNamePart (gap ++ text) = true) (hs : stops isBlank text = true) :
  isTypeOnly (importWord ++ (before ++ (Name.typing.text ++ (gap ++ text))))
    = (!gap.isEmpty && beginsClause text)
  := by
  have hfirst : ∀ word : Text, word.all isNamePart = true →
      behindWord? word (importWord ++ (before ++ (Name.typing.text ++ (gap ++ text))))
        = if importWord = word then some (Name.typing.text ++ (gap ++ text)) else none := by
    intro word hword
    rw [behindWord?_append hword (by decide) (stops_gap_append inNames_isNamePart hb hn _),
      skipBlanks₁?_append hb rfl, if_neg hn]
  have htype : behindWord? ['t', 'y', 'p', 'e'] (Name.typing.text ++ (gap ++ text))
      = if gap = [] then none else some text := by
    have htyping : Name.typing.text = ['t', 'y', 'p', 'e'] := rfl
    rw [behindWord?_append (by decide) Name.typing.all_isNamePart hw, if_pos htyping, skipBlanks₁?_append hg hs]
  have himport : importWord = ['i', 'm', 'p', 'o', 'r', 't'] := rfl
  have hexport : importWord ≠ ['e', 'x', 'p', 'o', 'r', 't'] := by decide
  rw [isTypeOnly, behindFirstWord?, hfirst _ (by decide), hfirst _ (by decide), if_pos himport, if_neg hexport,
    Option.or_none, Option.bind_some, htype]
  cases gap with
  | nil => rfl
  | cons c gap => rfl

/-- A name in front of something else than a name is taken for the word `from` where it is that word, and
where a dollar sign stands behind that word in it. -/
theorem beginsFrom_name_iff (name : Name) (hw : stops isNamePart text = true)
    (hw' : stops isWordCharacter text = true) :
  beginsFrom (name.text ++ text) = true ↔ name.text = fromWord ∨ fromWord ++ ['$'] <+: name.text
  := by
  have hends : wordEnds text = true := by
    cases text with
    | nil => rfl
    | cons c text => simpa [wordEnds, stops] using hw'
  have hfrom : ∀ rest : Text, beginsFrom (fromWord ++ rest) = wordEnds rest := by
    intro rest
    have hafter : after? ['f', 'r', 'o', 'm'] (fromWord ++ rest) = some rest := after?_append fromWord rest
    rw [beginsFrom, hafter]
  by_cases hprefix : fromWord <+: name.text
  · obtain ⟨tail, htail⟩ := hprefix
    rw [← htail, List.append_assoc, hfrom]
    cases tail with
    | nil => simp [hends]
    | cons c tail =>
      have hc : isNamePart c = true := name.isNamePart_of_mem (by simp [← htail])
      rw [List.cons_append, wordEnds, Bool.not_eq_true', isWordCharacter_eq_false_iff hc]
      simp [eq_comm]
  · have hnone : beginsFrom (name.text ++ text) = false := by
      rw [beginsFrom]
      split
      · rfl
      · rename_i rest hafter
        have heq : name.text ++ text = fromWord ++ rest := after?_eq_some_iff.mp hafter
        obtain ⟨tail, htail, hrest⟩ | ⟨tail, htail, -⟩ := List.append_eq_append_iff.mp heq
        · -- the name would go on within the word
          cases tail with
          | nil => exact absurd ⟨[], by simpa using htail⟩ hprefix
          | cons c tail =>
            have hc : isNamePart c = true := by
              have hall : fromWord.all isNamePart = true := by decide
              rw [htail, List.all_append, List.all_cons, Bool.and_eq_true, Bool.and_eq_true] at hall
              exact hall.2.1
            rw [hrest, List.cons_append] at hw
            simp [stops, hc] at hw
        · exact absurd ⟨tail, htail.symm⟩ hprefix
    rw [hnone]
    constructor
    · intro h
      cases h
    · rintro (h | ⟨tail, h⟩)
      · exact absurd ⟨[], by simp [h]⟩ hprefix
      · exact absurd ⟨'$' :: tail, by simp [← h]⟩ hprefix

end

namespace Typed

variable {t : Typed} {q : Quoted} {before gap clause : Text}

/-- The text of an import from its first word to its specifier. -/
theorem spells_front (hb : before.all isGap = true) (hn : before ≠ [])
    (hg : gap.all isGap = true) (hw : t.clause.head?.any Token.isWord = true → gap ≠ [])
    (hs : Spells t.clause clause) :
  Spells (.word .importing :: .word .typing :: t.clause)
    (importWord ++ (before ++ (Name.typing.text ++ (gap ++ clause))))
  := .cons hb (fun _ _ => hn) (.cons hg (fun _ => hw) hs)

/-- An import of types is told by its clause. -/
theorem isTypeOnly_iff (ht : t.firstWord = .importing) (hv : t.isValue = false) (hb : before.all isGap = true)
    (hn : before ≠ []) (hg : gap.all isGap = true) (hw : t.clause.head?.any Token.isWord = true → gap ≠ [])
    (hs : Spells t.clause clause) (q : Quoted) :
  isTypeOnly (importWord ++ (before ++ (Name.typing.text ++ (gap ++ (clause ++ q.text))))) = true
    ↔ t.IsTold gap
  := by
  have hclause := hs.append_singleton (.quoted q) rfl
  have hends : stops isNamePart (gap ++ (clause ++ q.text)) = true := by
    apply hs.stops_behind_word hg hw inNames_isNamePart
    rw [← List.append_nil q.text]
    exact q.stops_append inNames_isNamePart []
  rw [isTypeOnly_typing hb hn hg hends hclause.stops_isBlank]
  cases t with
  | importDefault name ne_from =>
    have hgap : gap.isEmpty = false := by simpa using hw rfl
    cases hs with
    | @cons _ _ gap' rest hg' hw' hs =>
      have hname : ∀ {p : Char → Bool}, InNames p → stops p (gap' ++ (rest ++ q.text)) = true := by
        intro p hp
        apply hs.stops_behind_word hg' (hw' rfl) hp
        rw [← List.append_nil q.text]
        exact q.stops_append hp []
      have hfrom := beginsFrom_name_iff name (hname inNames_isNamePart) (hname inNames_isWordCharacter)
      have htext : Token.text (.word name) ++ (gap' ++ rest) ++ q.text = name.text ++ (gap' ++ (rest ++ q.text)) := by
        simp [Token.text]
      obtain ⟨c, tail, hc, hstart, -⟩ := name.exists_cons
      have hpart := isNamePart_of_isNameStart hstart
      have hcharacter : isNameCharacter c = true := by
        rwa [isNameCharacter_eq (toNat_lt_of_isNamePart hpart)]
      rw [htext, IsTold, ← not_iff_not.mpr (hfrom.trans (or_iff_right ne_from)), hc, List.cons_append,
        beginsClause, hcharacter, hgap]
      simp
  | importItems items =>
    cases hs
    simp [beginsClause, beginsFrom, after?, IsTold, Token.text, Bracket.opening]
  | importWhole whole =>
    cases hs
    simp [beginsClause, beginsFrom, after?, IsTold, Token.text]
  | exportItems items => cases ht
  | exportAll => cases ht
  | defaultOnly => cases hv
  | defaultItems items => cases hv
  | defaultWhole whole => cases hv

/-- The word `type` is the default export of an import of values. -/
theorem begins (hv : t.isValue = true) :
  Begins (.word .typing :: t.clause) (some .typing)
  := by
  cases t with
  | defaultOnly => exact .source _ _
  | defaultItems items => exact .comma _ _
  | defaultWhole whole => exact .comma _ _
  | _ => cases hv

/-- An import is kept as it is to be just where it is told from one of the other kind. -/
theorem exists_yields_import (ht : t.firstWord = .importing) {specifier source : Text}
    (hc : Specifier.classify q.body = some specifier) (hm : Specifier.isMacro specifier = false)
    (h : t.Prints q gap source) :
  ∃ kept, records source = .ok kept ∧ (t.Yields kept ↔ t.IsTold gap)
  := by
  cases h with
  | @mk lead before text hl hb hn hg hw hs =>
    obtain ⟨clause, _, hclause, hquoted, rfl⟩ := hs.exists_of_append
    obtain ⟨behind, rfl, hbehind⟩ := hquoted.exists_of_singleton
    have hfront := spells_front hb hn hg hw hclause
    have hquoted : ∀ q, .quoted q ∉ .word .typing :: t.clause := fun q => by simpa using t.quoted_not_mem q
    obtain ⟨record, hdefault, hrecords⟩ := exists_records_import (isClause ht) hquoted hl hfront hc hm hbehind
    have htext : lead ++ (importWord ++ (before ++ (Name.typing.text ++ (gap ++ clause))) ++ (q.text ++ behind))
        = lead ++ (t.firstWord.text ++ (before ++ (Name.typing.text ++ (gap ++ (clause ++ ((Token.quoted q).text
          ++ behind)))))) := by
      simp [ht, Name.importing, Token.text]
    rw [htext] at hrecords
    refine ⟨_, hrecords, ?_⟩
    cases hv : t.isValue with
    | true =>
      have hspells := hfront.append_singleton (.quoted q) rfl
      have hname := defaultName?_eq (begins hv) (.inl rfl) hfront
      have htypes : isTypeOnly (importWord ++ (before ++ (Name.typing.text ++ (gap ++ clause))) ++ q.text) = false :=
        isTypeOnly_eq_false ((begins hv).append_quoted q []) hspells
      have htold : t.IsTold gap := by
        cases t with
        | defaultOnly => trivial
        | defaultItems items => trivial
        | defaultWhole whole => trivial
        | _ => cases hv
      rw [htypes, iff_true_right htold, Yields, hv, if_pos rfl]
      exact ⟨record, rfl, hdefault.trans hname⟩
    | false =>
      have htypes := isTypeOnly_iff ht hv hb hn hg hw hclause q
      rw [← htypes, Yields, hv, if_neg (by decide)]
      simp

end Typed

/-- A declaration with the word `type` behind its first word is extracted without a second scan.  What it
imports is dropped or kept as it is to be just where it is told of which kind it is. -/
theorem extract_typed_iff {t : Typed} {q : Quoted} {specifier gap source : Text}
    (hc : Specifier.classify q.body = some specifier) (hm : Specifier.isMacro specifier = false)
    (h : t.Prints q gap source) :
  ∃ kept, extract source ".ts".toList = { fallback := none, outcome := .ok kept }
    ∧ (t.Yields kept ↔ t.IsTold gap)
  := by
  have hmarkup : holdsMarkup ".ts".toList = false := by decide
  have hexport : t.firstWord = .exporting → t.isValue = false → t.IsTold gap →
      ∃ kept, records source = .ok kept ∧ (t.Yields kept ↔ t.IsTold gap) := by
    intro ht hv htold
    refine ⟨[], ?_, ?_⟩
    · rw [records, scan_exported ht h]
      rfl
    · rw [iff_true_right htold, Typed.Yields, hv, if_neg (by decide)]
  have hrecords : ∃ kept, records source = .ok kept ∧ (t.Yields kept ↔ t.IsTold gap) := by
    cases t with
    | exportItems items => exact hexport rfl rfl trivial
    | exportAll => exact hexport rfl rfl trivial
    | _ => exact Typed.exists_yields_import rfl hc hm h
  obtain ⟨kept, hkept, hyields⟩ := hrecords
  exact ⟨kept, extract_of_records hmarkup hkept, hyields⟩

/-- An import of types with an item that is renamed to `as`, and an import of values whose default export is
named `type`, with a star right behind a comma. -/
theorem extract_typed_iff_items_whole :
  (∃ kept, extract "import\ttype \x7btype as as,\x7dfrom\"x\"".toList ".ts".toList
      = { fallback := none, outcome := .ok kept } ∧ kept = [])
    ∧ ∃ kept, extract "\nimport type,*as from from'x' ".toList ".ts".toList
      = { fallback := none, outcome := .ok kept }
      ∧ ∃ record, kept = [record] ∧ record.defaultName = some "type".toList
  := by
  have hspells := @spells_write [(.opening .curly, []), (.word .typing, [' ']), (.word .aliasing, [' ']),
    (.word .aliasing, []), (.comma, []), (.closing .curly, []), (.word .sourcing, []),
    (.quoted ⟨'"', ['x'], rfl, rfl⟩, [])] (by decide)
  have hitems := @Typed.Prints.mk (.importItems ⟨_, _, .cons ⟨.typing, some .aliasing⟩ .nil⟩) ⟨'"', ['x'], rfl, rfl⟩
    [' '] [] ['\t'] _ rfl (by decide) (by decide) (by decide) (by decide) hspells
  have hspells' := @spells_write [(.comma, []), (.star, []), (.word .aliasing, [' ']), (.word .sourcing, [' ']),
    (.word .sourcing, []), (.quoted ⟨'\'', ['x'], rfl, rfl⟩, [' '])] (by decide)
  have hwhole := @Typed.Prints.mk (.defaultWhole .sourcing) ⟨'\'', ['x'], rfl, rfl⟩
    [] ['\n'] [' '] _ (by decide) (by decide) (by decide) rfl (by decide) hspells'
  obtain ⟨kept, hextract, hyields⟩ := @extract_typed_iff _ _ ['x'] _ _ (by decide) (by decide) hitems
  obtain ⟨kept', hextract', hyields'⟩ := @extract_typed_iff _ _ ['x'] _ _ (by decide) (by decide) hwhole
  exact ⟨⟨kept, hextract, hyields.mpr (by simp [Typed.IsTold])⟩, kept', hextract', hyields'.mpr trivial⟩

/-- An import of types with a bracket right behind the word `type` is kept as one of values, and so is one of
a name that begins with `from$`. -/
theorem extract_types_kept :
  Typed.Prints (.importItems ⟨_, _, .last ⟨⟨['a'], rfl⟩, none⟩⟩) ⟨'\'', ['x'], rfl, rfl⟩ []
      "import type\x7ba\x7dfrom'x'".toList
    ∧ extract "import type\x7ba\x7dfrom'x'".toList ".ts".toList
      = { fallback := none, outcome := .ok [{ specifier := ['x'], named := [['a']] }] }
    ∧ Typed.Prints (.importDefault ⟨"from$x".toList, rfl⟩ (by decide)) ⟨'\'', ['x'], rfl, rfl⟩ [' ']
      "import type from$x from'x'".toList
    ∧ extract "import type from$x from'x'".toList ".ts".toList
      = { fallback := none, outcome := .ok [{ specifier := ['x'], defaultName := some "type".toList }] }
  := by
  have hmarkup : holdsMarkup ".ts".toList = false := by decide
  have hspells := @spells_write [(.opening .curly, []), (.word ⟨['a'], rfl⟩, []), (.closing .curly, []),
    (.word .sourcing, []), (.quoted ⟨'\'', ['x'], rfl, rfl⟩, [])] (by decide)
  have hspells' := @spells_write [(.word ⟨"from$x".toList, rfl⟩, [' ']), (.word .sourcing, []),
    (.quoted ⟨'\'', ['x'], rfl, rfl⟩, [])] (by decide)
  refine ⟨?_, extract_of_records hmarkup (by decide +kernel), ?_, extract_of_records hmarkup (by decide +kernel)⟩
  · exact @Typed.Prints.mk _ _ [] [] [' '] _ rfl (by decide) (by decide) rfl (by decide) hspells
  · exact @Typed.Prints.mk _ _ [' '] [] [' '] _ rfl (by decide) (by decide) (by decide) (by decide) hspells'

end ImportCensus.Written
