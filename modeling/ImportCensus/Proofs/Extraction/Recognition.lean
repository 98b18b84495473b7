import ImportCensus.Proofs.Extraction.Spelling

/-!
# Written declarations are found

The scanner passes a declaration of a written module in one step, apart from a dynamic import,
whose brackets it enters and leaves.  Behind the declaration it stands outside of all brackets
again, with one occurrence more.
-/

namespace ImportCensus.Written

open Text Scan
open Segment (of of_append)

/-- The segment of a quoted specifier. -/
def Quoted.segment (q : Quoted) : Segment :=
  Segment.string q.quote q.body

@[simp]
theorem Quoted.text_segment (q : Quoted) :
  q.segment.text = q.text
  := Segment.text_string q.quote q.body

/-! ### Blanks, strings and curly brackets -/

/-- A gap is skipped as spaces. -/
theorem trivia_of_isGap {gap rest : Text} (hg : gap.all isGap = true)
    (hr : isSettled rest = true) :
  Trivia (of .code gap) rest
  := by
  apply trivia_of_isSpace _ hr
  intro c hc
  apply isSpace_of_isGap (List.all_eq_true.mp hg c hc)

theorem Quoted.isSettled_append (q : Quoted) (rest : Text) :
  isSettled (q.text ++ rest) = true
  := (Token.quoted q).isSettled_text rest

theorem Quoted.stops_append (q : Quoted) {p : Char → Bool} (hp : InNames p) (rest : Text) :
  stops p (q.text ++ rest) = true
  := by
  have hstops : stops p (Token.quoted q).text = true := Token.stops_text hp rfl
  exact (Written.stops_append (Token.quoted q).text_ne_nil rest).trans hstops

theorem Quoted.ne_of_quote (q : Quoted) :
  isSpace q.quote = false ∧ q.quote ≠ '.'
  := of_isQuote (p := fun c => isSpace c = false ∧ c ≠ '.') q.isQuote (by decide)

theorem isStringBody_of_isPlain {quote : Char} (hq : isQuote quote = true) {body : Text}
    (hb : body.all isPlain = true) :
  IsStringBody quote body
  := by
  have hn : quote ≠ '\\' := of_isQuote (p := fun c => c ≠ '\\') hq (by decide)
  unfold IsStringBody
  induction body with
  | nil => rw [List.nil_append, stringBody?_cons hn, if_pos rfl]
  | cons c body ih =>
    simp only [List.all_cons, isPlain, Bool.and_eq_true, Bool.not_eq_true', bne_iff_ne] at hb
    obtain ⟨⟨⟨hquote, hbackslash⟩, hbreak⟩, hbody⟩ := hb
    have hc : c ≠ quote := by
      rintro rfl
      rw [hq] at hquote
      cases hquote
    rw [List.cons_append, stringBody?_cons hbackslash, if_neg hc, if_neg (by simp [hbreak]),
      ih hbody]
    rfl

/-- The address of a source may stand in a string. -/
theorem Quoted.isStringBody (q : Quoted) :
  IsStringBody q.quote q.body
  := isStringBody_of_isPlain q.isQuote q.plain

/-- The characters of a block are skipped up to its bracket. -/
theorem braces_of_isItemCharacter {text : Text} (h : ∀ c ∈ text, isItemCharacter c = true)
    (rest : Text) :
  Braces (of .code (text ++ ['}'])) rest
  := by
  rw [Segment.of_append]
  exact .of_forall h (by decide) .close

/-! ### Clauses of imports -/

/-- The tokens that may stand between the word `import` and a specifier. -/
inductive IsClause : List Token → Prop where
  | source :
    IsClause [.word .sourcing]
  | word (name : Name) {tokens : List Token} (h : IsClause tokens) :
    IsClause (.word name :: tokens)
  | star {tokens : List Token} (h : IsClause tokens) :
    IsClause (.star :: tokens)
  | comma {tokens : List Token} (h : IsClause tokens) :
    IsClause (.comma :: tokens)
  | curly {inner tokens : List Token} (hi : ∀ token ∈ inner, token.IsInner) (h : IsClause tokens) :
    IsClause (.opening .curly :: (inner ++ .closing .curly :: tokens))

/-- A block is a clause. -/
theorem IsClause.block (bindings : List Binding) :
  IsClause (blockTokens bindings)
  := by
  apply IsClause.curly _ .source
  intro token
  apply isInner_of_mem_bindingTokens

/-- The text of a clause begins neither with a quotation mark nor with a bracket or a dot. -/
theorem IsClause.exists_cons {tokens : List Token} (h : IsClause tokens) {front : Text}
    (hs : Spells tokens front) :
  ∃ c rest, front = c :: rest ∧ isQuote c = false ∧ c ≠ '(' ∧ c ≠ '.'
  := by
  have hword : ∀ (name : Name) (rest : Text), ∃ c tail, name.text ++ rest = c :: tail
      ∧ isQuote c = false ∧ c ≠ '(' ∧ c ≠ '.' := by
    intro name rest
    obtain ⟨c, tail, ht, hc, -⟩ := name.exists_cons
    refine ⟨c, tail ++ rest, by simp [ht], ?_, ?_, ?_⟩
    · apply isQuote_of_isNamePart (isNamePart_of_isNameStart hc)
    · rintro rfl
      exact absurd hc (by decide)
    · rintro rfl
      exact absurd hc (by decide)
  cases h with
  | source =>
    cases hs
    apply hword
  | word name h =>
    cases hs
    apply hword
  | star h =>
    cases hs
    exact ⟨_, _, rfl, by decide, by decide, by decide⟩
  | comma h =>
    cases hs
    exact ⟨_, _, rfl, by decide, by decide, by decide⟩
  | curly hi h =>
    obtain ⟨_, _, _, _, -, -, -, -, rfl⟩ := hs.exists_of_curly
    exact ⟨_, _, rfl, by decide, by decide, by decide⟩

section

variable {lead gap front : Text} {tokens : List Token} {q : Quoted} {rest : Text}

/-- What the readers ask of a specifier behind a word. -/
theorem reads_quoted (hg : gap.all isGap = true) (q : Quoted) (rest : Text) :
  stops isIdentifierPart ((of .code gap).text ++ (q.segment.text ++ rest)) = true
    ∧ Trivia (of .code gap) (q.segment.text ++ rest)
  := by
  rw [Segment.text_of, q.text_segment]
  constructor
  · apply Spells.nil.stops_behind_word hg (fun h => absurd h (by decide)) inNames_isIdentifierPart
    apply q.stops_append inNames_isIdentifierPart
  · apply trivia_of_isGap hg
    apply q.isSettled_append

/-- The gap in front of the source is skipped. -/
theorem trivia_source (hl : lead.all isGap = true) (rest : Text) :
  Trivia (of .code lead) (fromWord ++ rest)
  := by
  apply trivia_of_isGap hl
  apply (Token.word .sourcing).isSettled_text

/-- The source alone is a clause of an import. -/
theorem importClause_of_source (hl : lead.all isGap = true) (hg : gap.all isGap = true) :
  ImportClause (of .code (lead ++ (fromWord ++ gap)) ++ q.segment) (some q.body) rest
  := by
  obtain ⟨hends, hgap⟩ := reads_quoted hg q rest
  have hword := Name.sourcing.isWord hends
  have hclause := ImportClause.specifier (trivia_source hl _) hword hgap q.isQuote q.isStringBody
  simpa [Quoted.segment] using hclause

/-- A word other than `from` is passed alone, and `from` together with the blanks behind it. -/
theorem importClause_of_word {name : Name} (hl : lead.all isGap = true) (hg : gap.all isGap = true)
    (hw : tokens.head?.any Token.isWord = true → gap ≠ []) (hs : Spells tokens front)
    (hq : beginsQuote (front ++ (q.text ++ rest)) = false)
    (h : ∀ {lead : Text}, lead.all isGap = true →
      ImportClause (of .code (lead ++ front) ++ q.segment) (some q.body) rest) :
  ImportClause (of .code (lead ++ (name.text ++ (gap ++ front))) ++ q.segment) (some q.body) rest
  := by
  have hname : IsWord name.text (gap ++ (front ++ (q.text ++ rest))) := by
    apply name.isWord
    apply hs.stops_behind_word hg hw inNames_isIdentifierPart
    apply q.stops_append inNames_isIdentifierPart
  have hlead : Trivia (of .code lead) (name.text ++ (gap ++ (front ++ (q.text ++ rest)))) := by
    apply trivia_of_isGap hl
    apply (Token.word name).isSettled_text
  by_cases hfrom : name.text = fromWord
  · have hgap : Trivia (of .code gap) (front ++ (q.text ++ rest)) := by
      apply trivia_of_isGap hg
      apply hs.isSettled_append
      apply q.isSettled_append
    have hclause : ImportClause (of .code ([] ++ front) ++ q.segment) (some q.body) rest := h rfl
    rw [hfrom] at hname hlead ⊢
    have hlone := @ImportClause.loneFrom (of .code lead) (of .code gap) _ _ _ (by simpa using hlead)
      (by simpa using hname) (by simpa using hgap) (by simpa using hq) hclause
    simpa using hlone
  · have hclause := @ImportClause.word (of .code lead) _ _ _ _ (by simpa using hlead)
      (by simpa using hname) hfrom (h hg)
    simpa using hclause

/-- A clause goes on behind a star or a comma. -/
theorem importClause_of_mark {c : Char} (hc : c = '*' ∨ c = ',') (hl : lead.all isGap = true)
    (h : ImportClause (of .code (gap ++ front) ++ q.segment) (some q.body) rest) :
  ImportClause (of .code (lead ++ (c :: (gap ++ front))) ++ q.segment) (some q.body) rest
  := by
  have hlead : Trivia (of .code lead) (c :: (gap ++ (front ++ (q.text ++ rest)))) := by
    apply trivia_of_isGap hl
    rcases hc with rfl | rfl
    · apply Token.star.isSettled_text
    · apply Token.comma.isSettled_text
  have hclause := @ImportClause.mark (of .code lead) _ _ _ _ (by simpa using hlead) hc h
  simpa using hclause

/-- A clause goes on behind a block. -/
theorem importClause_of_block {text : Text} (ht : ∀ c ∈ text, isItemCharacter c = true)
    (hl : lead.all isGap = true)
    (h : ImportClause (of .code (gap ++ front) ++ q.segment) (some q.body) rest) :
  ImportClause (of .code (lead ++ ('{' :: (text ++ '}' :: (gap ++ front)))) ++ q.segment)
    (some q.body) rest
  := by
  have hlead : Trivia (of .code lead)
      ('{' :: (text ++ '}' :: (gap ++ (front ++ (q.text ++ rest))))) := by
    apply trivia_of_isGap hl
    apply (Token.opening .curly).isSettled_text
  have hbraces := braces_of_isItemCharacter ht (gap ++ (front ++ (q.text ++ rest)))
  have hclause := @ImportClause.braces (of .code lead) (of .code (text ++ ['}'])) _ _ _
    (by simpa using hlead) (by simpa using hbraces) h
  simpa using hclause

end

/-- The reader of imports passes a written clause and finds its specifier. -/
theorem IsClause.importClause {tokens : List Token} (h : IsClause tokens) {lead front : Text}
    (hl : lead.all isGap = true) (hs : Spells tokens front) (q : Quoted) (rest : Text) :
  ImportClause (of .code (lead ++ front) ++ q.segment) (some q.body) rest
  := by
  induction h generalizing lead front with
  | source =>
    obtain ⟨gap, rfl, hg⟩ := hs.exists_of_singleton
    apply importClause_of_source hl hg
  | @word name tokens h ih =>
    cases hs with
    | @cons _ _ gap front hg hw hs =>
      obtain ⟨c, tail, rfl, hquote, -⟩ := h.exists_cons hs
      apply importClause_of_word hl hg (hw rfl) hs
      · simpa [beginsQuote] using hquote
      · intro lead hl
        apply ih hl hs
  | star h ih =>
    cases hs with
    | cons hg _ hs =>
      apply importClause_of_mark (.inl rfl) hl
      apply ih hg hs
  | comma h ih =>
    cases hs with
    | cons hg _ hs =>
      apply importClause_of_mark (.inr rfl) hl
      apply ih hg hs
  | curly hi h ih =>
    obtain ⟨before, inner, gap, tail, hbefore, hinner, hg, htail, rfl⟩ := hs.exists_of_curly
    have htext := hinner.isItemCharacter_of_mem hi hbefore
    have hclause := importClause_of_block htext hl (ih hg htail)
    simpa using hclause

/-! ### Clauses of exports -/

/-- The tokens that may stand between the word `export` and a specifier. -/
inductive IsExport : List Token → Prop where
  | curly {inner : List Token} (hi : ∀ token ∈ inner, token.IsInner) :
    IsExport (.opening .curly :: (inner ++ [.closing .curly, .word .sourcing]))
  | all :
    IsExport [.star, .word .sourcing]
  | whole (name : Name) :
    IsExport [.star, .word .aliasing, .word name, .word .sourcing]

/-- A block is an export. -/
theorem IsExport.block (bindings : List Binding) :
  IsExport (blockTokens bindings)
  := by
  apply IsExport.curly
  intro token
  apply isInner_of_mem_bindingTokens

section

variable {lead gap : Text} {q : Quoted} {rest : Text}

/-- The source of an export is read. -/
theorem exportSource_of_source (hl : lead.all isGap = true) (hg : gap.all isGap = true) :
  ExportSource (of .code (lead ++ (fromWord ++ gap)) ++ q.segment) (some q.body) rest
  := by
  obtain ⟨hends, hgap⟩ := reads_quoted hg q rest
  have hsource := ExportSource.specifier (trivia_source hl _) hends hgap q.isQuote q.isStringBody
  simpa [Quoted.segment] using hsource

/-- An export of a block is read with its source. -/
theorem exportClause_of_block {text : Text} (ht : ∀ c ∈ text, isItemCharacter c = true)
    (hl : lead.all isGap = true) {source : Segment}
    (h : ExportSource source (some q.body) rest) :
  ExportClause (of .code (lead ++ ('{' :: (text ++ ['}']))) ++ source) (some q.body) rest
  := by
  have hlead : Trivia (of .code lead) ('{' :: (text ++ '}' :: (source.text ++ rest))) := by
    apply trivia_of_isGap hl
    apply (Token.opening .curly).isSettled_text
  have hbraces := braces_of_isItemCharacter ht (source.text ++ rest)
  have hclause := @ExportClause.braces (of .code lead) (of .code (text ++ ['}'])) _ _ _
    (by simpa using hlead) hbraces h
  simpa using hclause

/-- An export of everything is read with its alias and its source. -/
theorem exportClause_of_star {naming source : Segment} (hl : lead.all isGap = true)
    (hg : gap.all isGap = true) (hs : isSettled (naming.text ++ (source.text ++ rest)) = true)
    (ha : Alias naming (source.text ++ rest)) (h : ExportSource source (some q.body) rest) :
  ExportClause (of .code (lead ++ ('*' :: gap)) ++ (naming ++ source)) (some q.body) rest
  := by
  have hlead : Trivia (of .code lead)
      ('*' :: (gap ++ (naming.text ++ (source.text ++ rest)))) := by
    apply trivia_of_isGap hl
    apply Token.star.isSettled_text
  have hgap := trivia_of_isGap hg hs
  have hclause := ExportClause.star (by simpa using hlead) hgap ha h
  simpa using hclause

/-- A name behind the word for an alias is read. -/
theorem alias_of_name (name : Name) (hg : gap.all isGap = true) (hn : gap ≠ [])
    (hr : stops isIdentifierPart rest = true) :
  Alias (of .code (asWord ++ (gap ++ name.text))) rest
  := by
  have hends : stops isIdentifierPart (gap ++ (name.text ++ rest)) = true :=
    stops_gap_append inNames_isIdentifierPart hg hn _
  have hgap : Trivia (of .code gap) (name.text ++ rest) := by
    apply trivia_of_isGap hg
    apply (Token.word name).isSettled_text
  have hquote : beginsQuote (name.text ++ rest) = false := by
    obtain ⟨c, tail, ht, hc, -⟩ := name.exists_cons
    simp [ht, beginsQuote, isQuote_of_isNamePart (isNamePart_of_isNameStart hc)]
  have halias := @Alias.name (of .code gap) _ _ (by simpa using hends) hgap hquote
    name.all_isIdentifierPart hr
  simpa using halias

/-- An export of everything without an alias is read. -/
theorem exportClause_of_all {gap' : Text} (hl : lead.all isGap = true) (hg : gap.all isGap = true)
    (hg' : gap'.all isGap = true) :
  ExportClause (of .code (lead ++ ('*' :: (gap ++ (fromWord ++ gap')))) ++ q.segment) (some q.body)
    rest
  := by
  have hsource : ExportSource (of .code ([] ++ (fromWord ++ gap')) ++ q.segment) (some q.body) rest :=
    exportSource_of_source rfl hg'
  have hsettled : isSettled ((of .code ([] ++ (fromWord ++ gap')) ++ q.segment).text ++ rest)
      = true := by
    rw [List.nil_append, of_append, List.append_assoc, Segment.text_append, Segment.text_of,
      List.append_assoc]
    apply (Token.word .sourcing).isSettled_text
  have hclause := exportClause_of_star hl hg hsettled (.missing rfl) hsource
  simpa using hclause

/-- An export of everything under a name is read. -/
theorem exportClause_of_whole {gap₁ gap₂ gap₃ : Text} (name : Name) (hl : lead.all isGap = true)
    (hg : gap.all isGap = true) (hg₁ : gap₁.all isGap = true) (hn₁ : gap₁ ≠ [])
    (hg₂ : gap₂.all isGap = true) (hn₂ : gap₂ ≠ []) (hg₃ : gap₃.all isGap = true) :
  ExportClause (of .code (lead ++ ('*' :: (gap ++ (asWord ++ (gap₁ ++ (name.text
    ++ (gap₂ ++ (fromWord ++ gap₃)))))))) ++ q.segment) (some q.body) rest
  := by
  have hsource : ExportSource (of .code (gap₂ ++ (fromWord ++ gap₃)) ++ q.segment) (some q.body)
      rest := exportSource_of_source hg₂ hg₃
  have hends : stops isIdentifierPart
      ((of .code (gap₂ ++ (fromWord ++ gap₃)) ++ q.segment).text ++ rest) = true := by
    rw [of_append, List.append_assoc, Segment.text_append, Segment.text_of, List.append_assoc]
    apply stops_gap_append inNames_isIdentifierPart hg₂ hn₂
  have halias := alias_of_name name hg₁ hn₁ hends
  have hsettled : isSettled ((of .code (asWord ++ (gap₁ ++ name.text))).text
      ++ ((of .code (gap₂ ++ (fromWord ++ gap₃)) ++ q.segment).text ++ rest)) = true := by
    rw [Segment.text_of, List.append_assoc]
    apply (Token.word .aliasing).isSettled_text
  have hclause := exportClause_of_star hl hg hsettled halias hsource
  simpa using hclause

end

/-- The reader of exports passes a written clause and finds its specifier. -/
theorem IsExport.exportClause {tokens : List Token} (h : IsExport tokens) {lead front : Text}
    (hl : lead.all isGap = true) (hs : Spells tokens front) (q : Quoted) (rest : Text) :
  ExportClause (of .code (lead ++ front) ++ q.segment) (some q.body) rest
  := by
  cases h with
  | curly hi =>
    obtain ⟨before, inner, gap, behind, hbefore, hinner, hg, hbehind, rfl⟩ := hs.exists_of_curly
    obtain ⟨gap', rfl, hg'⟩ := hbehind.exists_of_singleton
    have htext := hinner.isItemCharacter_of_mem hi hbefore
    have hsource : ExportSource (of .code (gap ++ (fromWord ++ gap')) ++ q.segment) (some q.body)
        rest := exportSource_of_source hg hg'
    have hclause := exportClause_of_block htext hl hsource
    simpa [Token.text, Name.sourcing] using hclause
  | all =>
    cases hs with
    | cons hg _ hs =>
      obtain ⟨gap', rfl, hg'⟩ := hs.exists_of_singleton
      apply exportClause_of_all hl hg hg'
  | whole name =>
    cases hs with
    | cons hg _ hs =>
      cases hs with
      | cons hg₁ hw₁ hs =>
        cases hs with
        | cons hg₂ hw₂ hs =>
          obtain ⟨gap', rfl, hg'⟩ := hs.exists_of_singleton
          apply exportClause_of_whole name hl hg hg₁ (hw₁ rfl rfl) hg₂ (hw₂ rfl rfl) hg'

/-! ### Steps over declarations -/

section

variable {s : State} {front gap : Text} {tokens : List Token}

/-- An import of a source alone is one step. -/
theorem step_of_bare (hf : s.frames = []) (hd : afterDot s.cursor.before = false)
    (hg : gap.all isGap = true) (q : Quoted) (rest : Text) :
  Scan.Step s (of .code (importWord ++ gap) ++ q.segment)
    (s.declared (of .code (importWord ++ gap) ++ q.segment) rest (some q.body) .operator)
  := by
  obtain ⟨hends, hgap⟩ := reads_quoted hg q rest
  have hword := Name.importing.isWord hends
  have hstep := Scan.Step.bare hd hf hword hgap q.isQuote q.isStringBody
  simpa [Quoted.segment] using hstep

/-- An import with a clause is one step. -/
theorem step_of_import (hf : s.frames = []) (hd : afterDot s.cursor.before = false)
    (h : IsClause tokens) (hs : Spells (.word .importing :: tokens) front) (q : Quoted)
    (rest : Text) :
  Scan.Step s (of .code front ++ q.segment)
    (s.declared (of .code front ++ q.segment) rest (some q.body) .operator)
  := by
  cases hs with
  | @cons _ _ gap front hg hw hs =>
    have hclause : ImportClause (of .code ([] ++ front) ++ q.segment) (some q.body) rest :=
      h.importClause rfl hs q rest
    have hword : IsWord importWord (gap ++ (front ++ (q.text ++ rest))) := by
      apply Name.importing.isWord
      apply hs.stops_behind_word hg (hw rfl) inNames_isIdentifierPart
      apply q.stops_append inNames_isIdentifierPart
    have hgap : Trivia (of .code gap) (front ++ (q.text ++ rest)) := by
      apply trivia_of_isGap hg
      apply hs.isSettled_append
      apply q.isSettled_append
    obtain ⟨c, tail, rfl, hquote, hopening, hdot⟩ := h.exists_cons hs
    have hstep := @Scan.Step.importClause s (of .code gap) _ _ _ hd hf (by simpa using hword)
      (by simpa using hgap) (by simpa [beginsQuote] using hquote)
      ⟨by simpa using hopening, by simpa using hdot⟩ hclause
    simpa [Token.text, Name.importing] using hstep

/-- An export is one step. -/
theorem step_of_export (hf : s.frames = []) (hd : afterDot s.cursor.before = false)
    (h : IsExport tokens) (hs : Spells (.word .exporting :: tokens) front) (q : Quoted)
    (rest : Text) :
  Scan.Step s (of .code front ++ q.segment)
    (s.declared (of .code front ++ q.segment) rest (some q.body) .operator)
  := by
  cases hs with
  | @cons _ _ gap front hg hw hs =>
    have hclause := h.exportClause hg hs q rest
    have hword : IsWord exportWord (gap ++ (front ++ (q.text ++ rest))) := by
      apply Name.exporting.isWord
      apply hs.stops_behind_word hg (hw rfl) inNames_isIdentifierPart
      apply q.stops_append inNames_isIdentifierPart
    have hstep := Scan.Step.exportClause hd hf (by simpa using hword) hclause
    simpa [Token.text, Name.exporting, expectsBehindExport] using hstep

end

/-- A declaration other than a dynamic import is passed in one step. -/
theorem Form.step {form : Form} (h : form ≠ .importDynamic) {s : State} (hf : s.frames = [])
    (hd : afterDot s.cursor.before = false) {front : Text}
    (hs : Spells (.word form.firstWord :: form.clause) front) (q : Quoted) (rest : Text) :
  Scan.Step s (of .code front ++ q.segment)
    (s.declared (of .code front ++ q.segment) rest (some q.body) .operator)
  := by
  cases form with
  | importDefault name => apply step_of_import hf hd (.word name .source) hs q rest
  | importWhole whole =>
    apply step_of_import hf hd (.star (.word _ (.word whole .source))) hs q rest
  | importItems items => apply step_of_import hf hd (.block _) hs q rest
  | importDefaultItems name items =>
    apply step_of_import hf hd (.word name (.comma (.block _))) hs q rest
  | importDefaultWhole name whole =>
    apply step_of_import hf hd (.word name (.comma (.star (.word _ (.word whole .source))))) hs q
      rest
  | importBare =>
    obtain ⟨gap, rfl, hg⟩ := hs.exists_of_singleton
    apply step_of_bare hf hd hg q rest
  | exportItems items => apply step_of_export hf hd (.block _) hs q rest
  | exportAll => apply step_of_export hf hd .all hs q rest
  | exportWhole whole => apply step_of_export hf hd (.whole whole) hs q rest
  | importDynamic => exact absurd rfl h

/-! ### Runs over declarations -/

/-- Blanks do not change where the scanner ends. -/
theorem run_of_isGap {s : State} {gap rest : Text} (hg : gap.all isGap = true)
    (hr : s.cursor.rest = gap ++ rest) :
  s.run = (s.moved (of .code gap) rest s.expects).run
  := by
  apply State.run_of_spaces
  · intro passed hp
    obtain ⟨c, hc, rfl⟩ := List.mem_map.mp hp
    exact ⟨rfl, isSpace_of_isGap (List.all_eq_true.mp hg c hc)⟩
  · rw [hr, Segment.text_of]

/-- A string is passed. -/
theorem run_of_quoted {s : State} {q : Quoted} {rest : Text} (hr : s.cursor.rest = q.text ++ rest) :
  s.run = (s.moved q.segment rest .operator).run
  := by
  have hstep : Scan.Step s q.segment (s.moved q.segment rest .operator) :=
    .string q.isQuote q.isStringBody
  apply hstep.run_eq
  rw [q.text_segment, hr]
  rfl

section

variable {s : State} {frame : Frame} {frames : List Frame} {rest : Text}

theorem leave_moved (segment : Segment) (expects : Expectation) (found : List Occurrence) :
  (s.moved segment rest expects).leave frame frames found
    = (s.leave frame frames found).moved segment rest expects
  := rfl

/-- A closing bracket ends the dynamic import that has opened it. -/
theorem run_of_closing (hf : s.frames = frame :: frames) (ho : frame.opener = .bracket .round)
    (hr : s.cursor.rest = ')' :: rest) :
  s.run
    = ((s.leave frame frames (frame.occurrence? s.cursor.before.length).toList).moved
        [(')', .code)] rest .operator).run
  := by
  have hstep : Scan.Step s [(')', .code)]
      ((s.leave frame frames (frame.occurrence? s.cursor.before.length).toList).moved
        [(')', .code)] rest .operator) := .closing hf ho
  apply hstep.run_eq hr

/-- A literal argument is passed with the blanks around it. -/
theorem run_of_argument {lead behind : Text} (hl : lead.all isGap = true)
    (hb : behind.all isGap = true) {q : Quoted}
    (hr : s.cursor.rest = (of .code lead ++ (q.segment ++ of .code behind)).text ++ rest) :
  s.run = (s.moved (of .code lead ++ (q.segment ++ of .code behind)) rest .operator).run
  := by
  have hrest : s.cursor.rest = lead ++ (q.text ++ (behind ++ rest)) := by simpa using hr
  rw [run_of_isGap hl hrest, run_of_quoted rfl, State.moved_moved, run_of_isGap hb rfl,
    State.moved_moved, List.append_assoc]
  rfl

end

/-- The occurrence of a dynamic import whose statement begins at `position`. -/
def dynamicOccurrence (position : Nat) (gap argument : Text) : Occurrence where
  start := position + (importWord ++ (gap ++ ['('])).length
  stop := position + (importWord ++ (gap ++ '(' :: argument)).length
  statementStart := position
  statementStop := position + (importWord ++ (gap ++ '(' :: (argument ++ [')']))).length
  dynamic := true

/-- The segment of a dynamic import. -/
def dynamicSegment (gap lead : Text) (q : Quoted) (behind : Text) : Segment :=
  of .code (importWord ++ (gap ++ '(' :: lead)) ++ (q.segment ++ of .code (behind ++ [')']))

/-- A dynamic import is passed up to and with its closing bracket, and found, if its argument is passed. -/
theorem run_of_call {s : State} (hf : s.frames = []) (hd : afterDot s.cursor.before = false)
    {gap rest : Text} (hg : gap.all isGap = true) {argument : Segment}
    (ha : ∀ s : State, s.cursor.rest = argument.text ++ ')' :: rest →
      s.run = (s.moved argument (')' :: rest) .operator).run)
    (hr : s.cursor.rest = importWord ++ (gap ++ '(' :: (argument.text ++ ')' :: rest))) :
  s.run
    = { s.moved (of .code (importWord ++ (gap ++ ['('])) ++ (argument ++ of .code [')'])) rest
          .operator with
        found := s.found ++ [dynamicOccurrence s.cursor.before.length gap argument.text] }.run
  := by
  have hword : IsWord importWord ((of .code gap).text ++ '(' :: (argument.text ++ ')' :: rest)) := by
    apply Name.importing.isWord
    rw [Segment.text_of]
    apply Spells.nil.stops_behind_word hg (fun h => absurd h (by decide)) inNames_isIdentifierPart
    rfl
  have hgap : Trivia (of .code gap) ('(' :: (argument.text ++ ')' :: rest)) := by
    apply trivia_of_isGap hg
    apply (Token.opening .round).isSettled_text
  have hopening := Scan.Step.dynamic hd hword hgap
  rw [hopening.run_eq (by simpa using hr), ha _ rfl, run_of_closing (s := State.moved _ _ _ _) rfl rfl rfl,
    leave_moved, State.moved_moved]
  have htext : (Opener.bracket .round).text = ['('] := rfl
  congr 1
  simp only [State.moved, State.enter, State.leave, State.goto, Frame.occurrence?, Option.map_some,
    Option.toList_some, List.append_nil, hf, dynamicOccurrence, htext, Trail.add_eq_pass,
    Trail.pass_pass, Trail.length_pass, Segment.of_append, Segment.of_cons, Segment.of_nil,
    Segment.length_of, Segment.length_text, List.append_assoc, List.cons_append, List.nil_append,
    List.length_append, List.length_cons, List.length_nil, State.mk.injEq, Occurrence.mk.injEq,
    List.cons.injEq, List.append_cancel_left_eq, true_and, and_true]
  omega

/-- A dynamic import of a literal is passed up to and with its closing bracket, and found. -/
theorem run_of_dynamic {s : State} (hf : s.frames = []) (hd : afterDot s.cursor.before = false)
    {gap lead behind rest : Text} (hg : gap.all isGap = true) (hl : lead.all isGap = true)
    (hb : behind.all isGap = true) {q : Quoted}
    (hr : s.cursor.rest = (dynamicSegment gap lead q behind).text ++ rest) :
  s.run
    = { s.moved (dynamicSegment gap lead q behind) rest .operator with
        found := s.found
          ++ [dynamicOccurrence s.cursor.before.length gap (lead ++ (q.text ++ behind))] }.run
  := by
  have hsegment : dynamicSegment gap lead q behind
      = of .code (importWord ++ (gap ++ ['(']))
        ++ ((of .code lead ++ (q.segment ++ of .code behind)) ++ of .code [')']) := by
    simp [dynamicSegment]
  have hrun := run_of_call hf hd hg (fun _ => run_of_argument hl hb (q := q))
    (by simpa [dynamicSegment] using hr)
  rw [hrun, hsegment]
  simp

/-! ### What is found -/

/-- A slice between two offsets is the part that stands there. -/
theorem slice_eq {source : Text} {start stop : Nat} (before part rest : Text)
    (hs : source = before ++ (part ++ rest)) (hstart : start = before.length)
    (hstop : stop = before.length + part.length) :
  source.slice start stop = part
  := by
  simp [Text.slice, hs, hstart, hstop]

/-- What a source has at the offsets of an occurrence, when the occurrence is a declaration. -/
inductive Shows (source : Text) (o : Occurrence) (d : Declaration) : Prop where
  | static {front : Text} (hform : d.form ≠ .importDynamic)
      (hs : Spells (.word d.form.firstWord :: d.form.clause) front) (hd : o.dynamic = false)
      (ht : o.text source = d.source.body)
      (hstatement : source.slice o.statementStart o.statementStop = front ++ d.source.text)
      (hfront : source.slice o.statementStart (o.start - 1) = front)
  | dynamic {lead behind statement : Text} (hform : d.form = .importDynamic)
      (hs : Spells d.tokens statement) (hd : o.dynamic = true) (hl : lead.all isGap = true)
      (hb : behind.all isGap = true) (ht : o.text source = lead ++ (d.source.text ++ behind))
      (hstatement : source.slice o.statementStart o.statementStop = statement)

/-- What a source has at the offsets of a declaration that ends in a string. -/
theorem slices_string (before front rest : Text) (quote : Char) (body : Text) {source : Text}
    (hs : source = before ++ (front ++ (quote :: (body ++ [quote]) ++ rest))) {o : Occurrence}
    (ho : o = .ofSpecifier before.length (before.length + (front ++ quote :: (body ++ [quote])).length) body) :
  o.text source = body
    ∧ source.slice o.statementStart o.statementStop = front ++ quote :: (body ++ [quote])
    ∧ source.slice o.statementStart (o.start - 1) = front
  := by
  subst hs
  subst ho
  refine ⟨?_, ?_, ?_⟩
  · apply slice_eq (before ++ (front ++ [quote])) body (quote :: rest)
    · simp
    · simp [Occurrence.ofSpecifier]
      omega
    · simp [Occurrence.ofSpecifier]
      omega
  · apply slice_eq before (front ++ quote :: (body ++ [quote])) rest
    · simp
    · rfl
    · rfl
  · apply slice_eq before front (quote :: (body ++ [quote]) ++ rest)
    · rfl
    · rfl
    · simp [Occurrence.ofSpecifier]
      omega

/-- What a source has at the offsets of a declaration that ends in its specifier. -/
theorem slices_static (before front rest : Text) (q : Quoted) {source : Text}
    (hs : source = before ++ (front ++ (q.text ++ rest))) {o : Occurrence}
    (ho : o = .ofSpecifier before.length (before.length + (front ++ q.text).length) q.body) :
  o.text source = q.body ∧ source.slice o.statementStart o.statementStop = front ++ q.text
    ∧ source.slice o.statementStart (o.start - 1) = front
  := slices_string before front rest q.quote q.body hs ho

/-- The occurrence of a declaration other than a dynamic import shows it. -/
theorem shows_static {d : Declaration} {before front rest : Text}
    (hform : d.form ≠ .importDynamic)
    (hs : Spells (.word d.form.firstWord :: d.form.clause) front) :
  Shows (before ++ (front ++ (d.source.text ++ rest)))
    (.ofSpecifier before.length (before.length + (front ++ d.source.text).length) d.source.body) d
  := by
  obtain ⟨htext, hstatement, hfront⟩ := slices_static before front rest d.source rfl rfl
  apply Shows.static hform hs rfl htext hstatement hfront

/-- A dynamic import is spelled with its gaps. -/
theorem spells_dynamic {d : Declaration} {gap lead behind : Text} (hform : d.form = .importDynamic)
    (hg : gap.all isGap = true) (hl : lead.all isGap = true) (hb : behind.all isGap = true) :
  Spells d.tokens (dynamicSegment gap lead d.source behind).text
  := by
  have hclosing : Spells [.closing .round] ([')'] ++ ([] ++ [])) := .cons rfl (by simp) .nil
  have hquoted : Spells [.quoted d.source, .closing .round]
      (d.source.text ++ (behind ++ ([')'] ++ ([] ++ [])))) := .cons hb nofun hclosing
  have hopening : Spells [.opening .round, .quoted d.source, .closing .round]
      (['('] ++ (lead ++ (d.source.text ++ (behind ++ ([')'] ++ ([] ++ [])))))) :=
    .cons hl nofun hquoted
  have hword : Spells [.word .importing, .opening .round, .quoted d.source, .closing .round]
      (importWord ++ (gap ++ (['('] ++ (lead ++ (d.source.text
        ++ (behind ++ ([')'] ++ ([] ++ [])))))))) := .cons hg nofun hopening
  simpa [Declaration.tokens, hform, Form.firstWord, Form.clause, Form.behind, dynamicSegment]
    using hword

/-- What a source has at the offsets of a dynamic import. -/
theorem slices_dynamic (before gap argument rest : Text) {source : Text}
    (hs : source = before ++ (importWord ++ (gap ++ '(' :: (argument ++ ')' :: rest)))) {o : Occurrence}
    (ho : o = dynamicOccurrence before.length gap argument) :
  o.text source = argument
    ∧ source.slice o.statementStart o.statementStop
      = importWord ++ (gap ++ '(' :: (argument ++ [')']))
  := by
  subst hs
  subst ho
  constructor
  · apply slice_eq (before ++ (importWord ++ (gap ++ ['(']))) argument (')' :: rest)
    · simp
    · simp [dynamicOccurrence]
    · simp [dynamicOccurrence]
      omega
  · apply slice_eq before (importWord ++ (gap ++ '(' :: (argument ++ [')']))) rest
    · simp
    · rfl
    · rfl

/-- The occurrence of a dynamic import shows it. -/
theorem shows_dynamic {d : Declaration} {before gap lead behind rest : Text}
    (hform : d.form = .importDynamic) (hg : gap.all isGap = true) (hl : lead.all isGap = true)
    (hb : behind.all isGap = true) :
  Shows (before ++ ((dynamicSegment gap lead d.source behind).text ++ rest))
    (dynamicOccurrence before.length gap (lead ++ (d.source.text ++ behind))) d
  := by
  have hsegment : (dynamicSegment gap lead d.source behind).text
      = importWord ++ (gap ++ '(' :: (lead ++ (d.source.text ++ behind) ++ [')'])) := by
    simp [dynamicSegment]
  have hs : before ++ ((dynamicSegment gap lead d.source behind).text ++ rest)
      = before ++ (importWord ++ (gap ++ '(' :: (lead ++ (d.source.text ++ behind) ++ ')' :: rest))) := by
    simp [hsegment]
  obtain ⟨htext, hstatement⟩ := slices_dynamic before gap _ rest hs rfl
  rw [← hsegment] at hstatement
  apply Shows.dynamic hform (spells_dynamic hform hg hl hb) rfl hl hb htext hstatement

/-- Behind a character that is neither a space nor a dot there is no dot. -/
theorem afterDot_pass {c : Char} (hs : isSpace c = false) (hc : c ≠ '.') (before : Trail)
    (segment : Segment) (part : Part) :
  afterDot (before.pass (segment ++ [(c, part)])) = false
  := by
  simp [afterDot, Trail.pass, hs, hc]

/-- A state behind a declaration, outside of all brackets, when the declaration has been found. -/
structure Passed (d : Declaration) (s n : State) : Prop where
  run_eq : s.run = n.run
  source_eq : n.cursor.source = s.cursor.source
  frames_eq : n.frames = []
  afterDot_eq : afterDot n.cursor.before = false
  found_eq : ∃ o, n.found = s.found ++ [o] ∧ Shows s.cursor.source o d

/-- A declaration other than a dynamic import is passed in one step. -/
theorem exists_passed_static {d : Declaration} (hform : d.form ≠ .importDynamic) {s : State}
    (hf : s.frames = []) (hd : afterDot s.cursor.before = false) {text rest : Text}
    (hs : Spells d.tokens text) (hr : s.cursor.rest = text ++ rest) :
  ∃ (n : State) (gap : Text), Passed d s n ∧ gap.all isGap = true ∧ n.cursor.rest = gap ++ rest
  := by
  have hbehind : d.form.behind = [] := by
    cases hd : d.form with
    | importDynamic => exact absurd hd hform
    | _ => rfl
  rw [Declaration.tokens, hbehind, ← List.cons_append] at hs
  obtain ⟨front, behind, hfront, hquoted, rfl⟩ := hs.exists_of_append
  obtain ⟨gap, rfl, hg⟩ := hquoted.exists_of_singleton
  have hr : s.cursor.rest = front ++ (d.source.text ++ (gap ++ rest)) := by
    simpa [Token.text] using hr
  have hstep := Form.step hform hf hd hfront d.source (gap ++ rest)
  refine ⟨_, gap, ⟨hstep.run_eq ?_, ?_, hf, ?_, ?_⟩, hg, rfl⟩
  · simp [hr]
  · simp [Cursor.source, hr]
  · obtain ⟨hspace, hdot⟩ := d.source.ne_of_quote
    have hdot := afterDot_pass hspace hdot s.cursor.before (of .code front ++ (d.source.quote, .code)
      :: of (.quoted d.source.quote) d.source.body) .code
    simpa [Quoted.segment, Segment.string] using hdot
  · refine ⟨_, rfl, ?_⟩
    have hposition : (s.cursor.before.pass (of .code front ++ d.source.segment)).length
        = s.cursor.before.length + (front ++ d.source.text).length := by
      rw [Trail.length_pass, ← Segment.length_text, Segment.text_append, Segment.text_of,
        d.source.text_segment,
        Nat.add_comm]
    rw [Cursor.source, hr, hposition, ← Trail.length_text]
    apply shows_static hform hfront

/-- A dynamic import is passed up to its closing bracket. -/
theorem exists_passed_dynamic {d : Declaration} (hform : d.form = .importDynamic) {s : State}
    (hf : s.frames = []) (hd : afterDot s.cursor.before = false) {text rest : Text}
    (hs : Spells d.tokens text) (hr : s.cursor.rest = text ++ rest) :
  ∃ (n : State) (gap : Text), Passed d s n ∧ gap.all isGap = true ∧ n.cursor.rest = gap ++ rest
  := by
  have htokens : d.tokens = [.word .importing, .opening .round, .quoted d.source, .closing .round] := by
    simp [Declaration.tokens, hform, Form.firstWord, Form.clause, Form.behind]
  rw [htokens] at hs
  cases hs with
  | @cons _ _ gap _ hg _ hs =>
    cases hs with
    | @cons _ _ lead _ hl _ hs =>
      cases hs with
      | @cons _ _ behind _ hb _ hs =>
        obtain ⟨tail, rfl, htail⟩ := hs.exists_of_singleton
        have hr : s.cursor.rest = (dynamicSegment gap lead d.source behind).text ++ (tail ++ rest) := by
          rw [hr]
          simp [Token.text, dynamicSegment, Name.importing, Bracket.opening, Bracket.closing]
        refine ⟨_, tail, ⟨run_of_dynamic hf hd hg hl hb hr, ?_, hf, ?_, ?_⟩, htail, rfl⟩
        · simp [Cursor.source, hr, State.moved, State.goto]
        · have hdot := afterDot_pass (c := ')') (by decide) (by decide) s.cursor.before
            (of .code (importWord ++ (gap ++ '(' :: lead)) ++ (d.source.segment ++ of .code behind))
            .code
          simpa [dynamicSegment, State.moved, State.goto] using hdot
        · refine ⟨_, rfl, ?_⟩
          rw [Cursor.source, hr, ← Trail.length_text]
          apply shows_dynamic hform hg hl hb

/-- A declaration is passed, whatever its form. -/
theorem exists_passed (d : Declaration) {s : State} (hf : s.frames = [])
    (hd : afterDot s.cursor.before = false) {text rest : Text} (hs : Spells d.tokens text)
    (hr : s.cursor.rest = text ++ rest) :
  ∃ (n : State) (gap : Text), Passed d s n ∧ gap.all isGap = true ∧ n.cursor.rest = gap ++ rest
  := by
  by_cases hform : d.form = .importDynamic
  · apply exists_passed_dynamic hform hf hd hs hr
  · apply exists_passed_static hform hf hd hs hr

/-- Blanks do not change whether a word stands behind a dot. -/
theorem afterDot_pass_of_isGap {gap : Text} (hg : gap.all isGap = true) (before : Trail) :
  afterDot (before.pass (of .code gap)) = afterDot before
  := by
  have hspace : ∀ passed ∈ (of .code gap).reverse, isSpace passed.1 = true := by
    intro passed hp
    simp only [List.mem_reverse, of, List.mem_map] at hp
    obtain ⟨c, hc, rfl⟩ := hp
    apply isSpace_of_isGap (List.all_eq_true.mp hg c hc)
  unfold afterDot
  rw [Trail.pass, List.dropWhile_append_of_pos hspace]

/-- The marks of declarations are tokens by themselves. -/
theorem isMark_of_mem {c : Char} (h : c ∈ [';', '*', ',']) (rest : Text) :
  IsMark c rest
  := by
  simp only [List.mem_cons, List.not_mem_nil, or_false] at h
  obtain rfl | rfl | rfl := h
  all_goals
    exact ⟨by decide, by decide, by decide, by decide, by decide, by decide, by decide, by simp [State.beginsNumber]⟩

namespace Passed

variable {d : Declaration} {s n : State} {rest : Text}

/-- The blanks behind a declaration change nothing. -/
theorem behind_gap (h : Passed d s n) {gap : Text} (hg : gap.all isGap = true)
    (hr : n.cursor.rest = gap ++ rest) :
  Passed d s (n.moved (of .code gap) rest n.expects)
  := by
  constructor
  · rw [h.run_eq, run_of_isGap hg hr]
  · rw [← h.source_eq]
    simp [Cursor.source, hr]
  · exact h.frames_eq
  · rw [State.cursor_moved, afterDot_pass_of_isGap hg]
    exact h.afterDot_eq
  · exact h.found_eq

/-- The semicolon behind a declaration changes nothing. -/
theorem behind_semicolon (h : Passed d s n) (hr : n.cursor.rest = ';' :: rest) :
  Passed d s (n.moved [(';', .code)] rest .operand)
  := by
  have hstep : Scan.Step n [(';', .code)] (n.moved [(';', .code)] rest .operand) := .mark (isMark_of_mem (by decide) rest)
  constructor
  · rw [h.run_eq, hstep.run_eq hr]
  · rw [← h.source_eq]
    simp [Cursor.source, hr]
  · exact h.frames_eq
  · apply afterDot_pass (by decide) (by decide) _ [] _
  · exact h.found_eq

end Passed

/-- A declaration is passed with what ends it. -/
theorem exists_passed_with_stop (d : Declaration) {s : State} (hf : s.frames = [])
    (hd : afterDot s.cursor.before = false) {text rest : Text} {stop : Char}
    (hs : Spells d.tokens text) (hstop : stop = ';' ∨ stop = '\n')
    (hr : s.cursor.rest = text ++ stop :: rest) :
  ∃ n : State, Passed d s n ∧ n.cursor.rest = rest
  := by
  obtain ⟨n, gap, hn, hg, hrest⟩ := exists_passed d hf hd hs hr
  rcases hstop with rfl | rfl
  · have hgap := hn.behind_gap hg hrest
    exact ⟨_, hgap.behind_semicolon rfl, rfl⟩
  · have hg' : (gap ++ ['\n']).all isGap = true := by
      rw [List.all_append, hg]
      decide
    have hrest : n.cursor.rest = gap ++ ['\n'] ++ rest := by simpa using hrest
    exact ⟨_, hn.behind_gap hg' hrest, rfl⟩

/-- The scanner passes the declarations of a written module and finds one occurrence for each. -/
theorem Prints.exists_run {declarations : List Declaration} {text : Text}
    (h : Prints declarations text) {s : State} (hf : s.frames = [])
    (hd : afterDot s.cursor.before = false) (hr : s.cursor.rest = text) :
  ∃ (f : State) (found : List Occurrence), s.run = .ok f ∧ f.found = s.found ++ found
    ∧ List.Forall₂ (Shows s.cursor.source) found declarations
  := by
  induction h generalizing s with
  | @nil gap hg =>
    have hr : s.cursor.rest = gap ++ [] := by rw [hr, List.append_nil]
    have hfinished : Run (s.moved (of .code gap) [] s.expects) []
        (s.moved (of .code gap) [] s.expects) := .finished rfl hf
    refine ⟨s.moved (of .code gap) [] s.expects, [], ?_, (List.append_nil _).symm, .nil⟩
    rw [run_of_isGap hg hr, hfinished.run_eq]
  | @cons d declarations gap text rest stop hg ht hs h ih =>
    have hsource : (s.moved (of .code gap) (text ++ stop :: rest) s.expects).cursor.source
        = s.cursor.source := by
      simp [Cursor.source, hr]
    have hd' : afterDot (s.moved (of .code gap) (text ++ stop :: rest) s.expects).cursor.before
        = false := by
      rw [State.cursor_moved, afterDot_pass_of_isGap hg, hd]
    obtain ⟨n, hn, hrest⟩ := exists_passed_with_stop d (s := s.moved _ _ _) hf hd' ht hs rfl
    obtain ⟨o, ho, hshows⟩ := hn.found_eq
    obtain ⟨f, found, hrun, hfound, hall⟩ := ih hn.frames_eq hn.afterDot_eq hrest
    rw [hn.source_eq, hsource] at hall
    rw [hsource] at hshows
    refine ⟨f, o :: found, ?_, ?_, .cons hshows hall⟩
    · rw [run_of_isGap hg hr, hn.run_eq, hrun]
    · rw [hfound, ho, State.found_moved, List.append_assoc, List.singleton_append]

/-- The text of a written module does not begin with `#!`. -/
theorem Prints.hashbang {declarations : List Declaration} {text : Text}
    (h : Prints declarations text) :
  Hashbang [] text
  := by
  have hgap : ∀ {gap : Text}, gap.all isGap = true → ∀ {rest : Text}, rest.head? ≠ some '#' →
      (gap ++ rest).head? ≠ some '#' := by
    intro gap hg rest hr
    cases gap with
    | nil => exact hr
    | cons c gap =>
      rw [List.all_cons, Bool.and_eq_true] at hg
      rintro hc
      cases hc
      exact absurd hg.1 (by decide)
  have hhead : text.head? ≠ some '#' := by
    cases h with
    | nil hg =>
      rw [← List.append_nil text]
      apply hgap hg
      simp
    | @cons d _ _ _ _ _ hg ht hs h =>
      apply hgap hg
      cases ht with
      | cons hg' hw ht =>
        obtain ⟨c, tail, htoken, -, -, -, hc⟩ := (Token.word d.form.firstWord).exists_cons
        simpa [htoken] using hc
  exact hashbang_nil hhead

/-- Scanning a written module finds its declarations in order. -/
theorem Prints.scan_eq {declarations : List Declaration} {source : Text}
    (h : Prints declarations source) :
  ∃ found, scan source = .ok found ∧ List.Forall₂ (Shows source) found declarations
  := by
  obtain ⟨f, found, hrun, hfound, hall⟩ :=
    h.exists_run (s := .behindHashbang [] source) rfl rfl rfl
  refine ⟨found, ?_, hall⟩
  have hstart := h.hashbang.start_eq
  rw [Segment.text_nil, List.nil_append] at hstart
  rw [scan, finish, hstart, hrun]
  simp [Except.map, hfound, State.behindHashbang, State.initial]

end ImportCensus.Written
