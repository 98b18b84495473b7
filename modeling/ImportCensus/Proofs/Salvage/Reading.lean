import Mathlib.Data.Bool.AllAny
import Mathlib.Data.List.TakeWhile
import ImportCensus.Proofs.Salvage.Piece
import ImportCensus.Proofs.Salvage.Search

/-!
# Reading pieces

What the two readers of statements make of a piece, and of what begins inside of one.  A piece is read
up to its end.  Behind a word `import` in an address, a static import is read only if the address opens
one, and a dynamic import is read only if a template goes on behind the address.
-/

namespace ImportCensus.Salvage

open Text Scan Written

/-! ### Quotation marks -/

theorem isBlank_of_isQuote {c : Char} (h : isQuote c = true) :
  isBlank c = false
  := of_isQuote (p := fun c => isBlank c = false) h (by decide)

section

variable {quote : Char} {text rest behind : Text}

/-- What has no quotation mark stands before the first one. -/
theorem exists_of_append_quote {word : Text} (hw : ∀ c ∈ word, isQuote c = false)
    (hq : isQuote quote = true) {tail : Text} (h : word ++ tail = text ++ quote :: rest) :
  ∃ middle, text = word ++ middle ∧ tail = middle ++ quote :: rest
  := by
  obtain ⟨middle, rfl, rfl⟩ | ⟨middle, rfl, hrest⟩ := List.append_eq_append_iff.mp h
  · exact ⟨middle, rfl, rfl⟩
  · cases middle with
    | nil => exact ⟨[], by simp, by simpa using hrest.symm⟩
    | cons c middle =>
      obtain rfl : quote = c := (List.cons.inj hrest).1
      have hno := hw quote (by simp)
      rw [hq] at hno
      cases hno

/-- What is behind the first quotation mark of a line is read. -/
theorem behindQuote?_append (hn : ∀ c ∈ text, isQuote c = false ∧ c ≠ '\n')
    (hq : isQuote quote = true) :
  behindQuote? (text ++ quote :: rest) = some rest
  := by
  induction text with
  | nil => rw [List.nil_append, behindQuote?, if_pos hq]
  | cons c text ih =>
    obtain ⟨hquote, hline⟩ := hn c List.mem_cons_self
    rw [List.cons_append, behindQuote?, if_neg (by simp [hquote]), if_neg hline]
    apply ih
    intro d hd
    apply hn d (List.mem_cons_of_mem c hd)

/-- Nothing is read where the line has no quotation mark. -/
theorem behindQuote?_eq_none (h : ∀ c ∈ text.takeWhile (· != '\n'), isQuote c = false) :
  behindQuote? text = none
  := by
  induction text with
  | nil => rfl
  | cons c text ih =>
    rw [behindQuote?]
    by_cases hline : c = '\n'
    · subst hline
      rfl
    · have htake : (c :: text).takeWhile (· != '\n') = c :: text.takeWhile (· != '\n') := by
        simp [hline]
      rw [htake, List.forall_mem_cons] at h
      rw [if_neg (by simp [h.1]), if_neg hline, ih h.2]

/-- Blanks in front of a quotation mark are skipped. -/
theorem skipBlanks_append_quote (hq : isQuote quote = true) :
  skipBlanks (text ++ quote :: rest) = text.dropWhile isBlank ++ quote :: rest
  := by
  induction text with
  | nil => simp [skipBlanks, isBlank_of_isQuote hq]
  | cons c text ih =>
    rw [skipBlanks] at ih ⊢
    rw [List.cons_append, List.dropWhile_cons, List.dropWhile_cons]
    split
    · exact ih
    · rfl

/-- A specifier is read behind blanks. -/
theorem behindSpecifier?_append (hg : text.all isBlank = true) (hq : isQuote quote = true) :
  behindSpecifier? (text ++ quote :: rest) = behindQuote? rest
  := by
  have hdrop : text.dropWhile isBlank = [] := by
    rw [List.dropWhile_eq_nil_iff]
    simpa using hg
  rw [behindSpecifier?, skipBlanks_append_quote hq, hdrop]
  simp only [List.nil_append, hq, if_true]

/-- Nothing but blanks stands before a specifier. -/
theorem of_behindSpecifier? (hn : ∀ c ∈ text, isQuote c = false) (hq : isQuote quote = true)
    (h : behindSpecifier? (text ++ quote :: rest) = some behind) :
  text.all isBlank = true ∧ behindQuote? rest = some behind
  := by
  have hall : text.all isBlank = true := by
    rw [behindSpecifier?, skipBlanks_append_quote hq] at h
    cases hdrop : text.dropWhile isBlank with
    | nil => simpa [List.dropWhile_eq_nil_iff] using hdrop
    | cons c tail =>
      have hc : c ∈ text := by
        apply (List.dropWhile_suffix isBlank).subset
        rw [hdrop]
        exact List.mem_cons_self
      simp [hdrop, hn c hc] at h
  rw [behindSpecifier?_append hall hq] at h
  exact ⟨hall, h⟩

theorem isQuote_of_mem_importWord :
  ∀ c ∈ importWord, isQuote c = false
  := List.all_iff_forall_prop.mp (by decide)

theorem isQuote_of_mem_fromWord :
  ∀ c ∈ fromWord, isQuote c = false
  := List.all_iff_forall_prop.mp (by decide)

/-- Nothing but the word `from` and blanks stands before a specifier with this word. -/
theorem exists_of_behindSource? (hn : ∀ c ∈ text, isQuote c = false) (hq : isQuote quote = true)
    (h : behindSource? (text ++ quote :: rest) = some behind) :
  ∃ gap gap', text = gap ++ (fromWord ++ gap') ∧ gap.all isBlank = true ∧ gap'.all isBlank = true
    ∧ behindQuote? rest = some behind
  := by
  rw [behindSource?, skipBlanks_append_quote hq] at h
  obtain ⟨tail, hafter, hspecifier⟩ := Option.bind_eq_some_iff.mp h
  rw [after?_eq_some_iff] at hafter
  obtain ⟨middle, hdrop, rfl⟩ := exists_of_append_quote isQuote_of_mem_fromWord hq hafter.symm
  have hmiddle : ∀ c ∈ middle, isQuote c = false := by
    intro c hc
    apply hn
    apply (List.dropWhile_suffix isBlank).subset
    rw [hdrop]
    exact List.mem_append_right _ hc
  obtain ⟨hblank, hbehind⟩ := of_behindSpecifier? hmiddle hq hspecifier
  refine ⟨text.takeWhile isBlank, middle, ?_, List.all_takeWhile, hblank, hbehind⟩
  rw [← hdrop, List.takeWhile_append_dropWhile]

/-! ### Clauses before a quotation mark -/

theorem isQuote_of_isClauseCharacter {bindings : Text}
    (h : bindings.all isClauseCharacter = true) :
  ∀ c ∈ bindings, isQuote c = false
  := by
  intro c hc
  have hclause := List.all_eq_true.mp h c hc
  rw [← Bool.not_eq_true]
  intro hquote
  have hno := of_isQuote (p := fun c => isClauseCharacter c = false) hquote (by decide)
  rw [hno] at hclause
  cases hclause

/-- A clause stands before the next quotation mark, if something other than blanks does. -/
theorem ReadsClause.exists_of_append (h : ReadsClause (text ++ quote :: rest) behind)
    (hq : isQuote quote = true) (hn : ∀ c ∈ text, isQuote c = false)
    (hs : ∃ c ∈ text, isBlank c = false) :
  ∃ lead bindings gap gap', text = lead ++ (bindings ++ (gap ++ (fromWord ++ gap')))
    ∧ (lead ++ (gap ++ gap')).all isBlank = true ∧ bindings ≠ []
    ∧ bindings.all isClauseCharacter = true ∧ behindQuote? rest = some behind
  := by
  generalize htext : text ++ quote :: rest = whole at h
  cases h with
  | @intro lead bindings tail _ hl hb hne hsource =>
    obtain ⟨middle, rfl, -⟩ | ⟨middle, rfl, hmiddle⟩ := List.append_eq_append_iff.mp htext
    · -- the opening quotation mark stands in front of the clause
      obtain ⟨c, hc, hblank⟩ := hs
      have hlead := List.all_eq_true.mp hl c (List.mem_append_left _ hc)
      simp [hn c hc, hblank] at hlead
    · obtain ⟨middle', rfl, rfl⟩ := exists_of_append_quote (isQuote_of_isClauseCharacter hb) hq hmiddle
      have hmiddle' : ∀ c ∈ middle', isQuote c = false := by
        intro c hc
        apply hn c
        simp [hc]
      obtain ⟨gap, gap', rfl, hgap, hgap', hbehind⟩ := exists_of_behindSource? hmiddle' hq hsource
      refine ⟨lead, bindings, gap, gap', rfl, ?_, hne, hb, hbehind⟩
      have hlead : lead.all isBlank = true := by
        rw [List.all_eq_true] at hl ⊢
        intro c hc
        simpa [hn c (List.mem_append_left _ hc)] using hl c hc
      rw [List.all_append, List.all_append, hlead, hgap, hgap']
      rfl

/-- A clause behind blanks and a quotation mark stands behind the quotation mark. -/
theorem ReadsClause.of_blank (h : ReadsClause (text ++ quote :: rest) behind)
    (hq : isQuote quote = true) (hg : text.all isBlank = true) :
  ReadsClause rest behind
  := by
  have hn : ∀ c ∈ text, isQuote c = false := by
    intro c hc
    have hblank := List.all_eq_true.mp hg c hc
    rw [← Bool.not_eq_true]
    intro hquote
    rw [isBlank_of_isQuote hquote] at hblank
    cases hblank
  generalize htext : text ++ quote :: rest = whole at h
  cases h with
  | @intro lead bindings tail _ hl hb hne hsource =>
    have hbefore : ∀ {middle : Text}, bindings ++ tail = middle ++ quote :: rest →
        (∀ c ∈ middle, c ∈ text) → ReadsClause rest behind := by
      intro middle hmiddle hsub
      obtain ⟨middle', rfl, rfl⟩ := exists_of_append_quote (isQuote_of_isClauseCharacter hb) hq hmiddle
      have hmiddle' : ∀ c ∈ middle', isQuote c = false :=
        fun c hc => hn c (hsub c (List.mem_append_right _ hc))
      obtain ⟨gap, gap', rfl, -⟩ := exists_of_behindSource? hmiddle' hq hsource
      have hf := List.all_eq_true.mp hg 'f' (hsub 'f' (by simp [fromWord]))
      exact absurd hf (by decide)
    obtain ⟨middle, rfl, hmiddle⟩ | ⟨middle, rfl, hmiddle⟩ := List.append_eq_append_iff.mp htext
    · cases middle with
      | nil => exact @hbefore [] hmiddle.symm (by simp)
      | cons c middle =>
        obtain ⟨rfl, rfl⟩ := List.cons.inj hmiddle
        apply ReadsClause.intro _ hb hne hsource
        rw [List.all_append, Bool.and_eq_true, List.all_cons, Bool.and_eq_true] at hl
        exact hl.2.2
    · apply hbefore hmiddle
      intro c hc
      exact List.mem_append_right lead hc

/-- No clause begins with what is neither blank nor a quotation mark nor in a clause. -/
theorem not_readsClause_cons {c : Char} (hq : isQuote c = false) (hblank : isBlank c = false)
    (hclause : isClauseCharacter c = false) :
  ¬ ReadsClause (c :: rest) behind
  := by
  intro h
  generalize htext : c :: rest = whole at h
  cases h with
  | @intro lead bindings tail _ hl hb hne hsource =>
    cases lead with
    | cons d lead =>
      obtain rfl : c = d := (List.cons.inj htext).1
      simp [hq, hblank] at hl
    | nil =>
      cases bindings with
      | nil => exact absurd rfl hne
      | cons d bindings =>
        obtain rfl : c = d := (List.cons.inj htext).1
        simp [hclause] at hb

/-- Behind a text without blanks and a quotation mark, a statement is read only if the text opens it. -/
theorem behindStatement?_eq_none (hq : isQuote quote = true)
    (hs : ∀ c ∈ text, isQuote c = false ∧ isBlank c = false) (hr : text = [] → ∀ b, ¬ ReadsClause rest b)
    (h : (text = [] ∨ ∃ bindings : Text, bindings ≠ [] ∧ bindings.all isClauseCharacter = true
        ∧ text = bindings ++ fromWord) → behindQuote? rest = none) :
  behindStatement? (text ++ quote :: rest) = none
  := by
  have hnil : ∀ {gap : Text}, gap.all isBlank = true → (∀ c ∈ gap, c ∈ text) → gap = [] := by
    intro gap hg hsub
    cases gap with
    | nil => rfl
    | cons c gap =>
      have hblank := List.all_eq_true.mp hg c List.mem_cons_self
      rw [(hs c (hsub c List.mem_cons_self)).2] at hblank
      cases hblank
  by_cases htext : text = []
  · rw [behindStatement?_of_not_readsClause]
    · rw [htext, behindSpecifier?_append rfl hq, h (.inl htext)]
    · intro b hclause
      apply hr htext b (hclause.of_blank hq (by rw [htext]; rfl))
  · rw [behindStatement?_of_not_readsClause]
    · rw [Option.eq_none_iff_forall_ne_some]
      intro b hspecifier
      obtain ⟨hblank, -⟩ := of_behindSpecifier? (fun c hc => (hs c hc).1) hq hspecifier
      exact htext (hnil hblank fun _ hc => hc)
    · intro b hclause
      obtain ⟨c, hc⟩ := List.exists_mem_of_ne_nil text htext
      obtain ⟨lead, bindings, gap, gap', heq, hblank, hne, hall, hquote⟩ :=
        hclause.exists_of_append hq (fun c hc => (hs c hc).1) ⟨c, hc, (hs c hc).2⟩
      have hempty := hnil hblank (by
        intro d hd
        rw [heq]
        simp only [List.mem_append] at hd ⊢
        tauto)
      simp only [List.append_eq_nil_iff] at hempty
      obtain ⟨rfl, rfl, rfl⟩ := hempty
      rw [h (.inr ⟨bindings, hne, hall, by simpa using heq⟩)] at hquote
      cases hquote

/-! ### Where statements end -/

/-- What is read ends with a quotation mark. -/
theorem exists_of_behindQuote? (h : behindQuote? text = some behind) :
  ∃ inner quote, text = inner ++ quote :: behind ∧ isQuote quote = true
  := by
  fun_induction behindQuote? text with
  | case1 => cases h
  | case2 c rest hc =>
    cases h
    exact ⟨[], c, rfl, hc⟩
  | case3 => cases h
  | case4 c rest _ _ ih =>
    obtain ⟨inner, quote, rfl, hq⟩ := ih h
    exact ⟨c :: inner, quote, rfl, hq⟩

/-- A specifier that is read ends with a quotation mark. -/
theorem exists_of_behindSpecifier? (h : behindSpecifier? text = some behind) :
  ∃ inner quote, text = inner ++ quote :: behind ∧ isQuote quote = true
  := by
  obtain ⟨blanks, hblanks⟩ : skipBlanks text <:+ text := List.dropWhile_suffix _
  unfold behindSpecifier? at h
  split at h
  · cases h
  · rename_i opening rest hskip
    split at h
    · obtain ⟨inner, quote, rfl, hq⟩ := exists_of_behindQuote? h
      rw [hskip] at hblanks
      exact ⟨blanks ++ opening :: inner, quote, by rw [← hblanks]; simp, hq⟩
    · cases h

/-- A statement is read up to and with a quotation mark. -/
theorem exists_of_behindStatement? (h : behindStatement? text = some behind) :
  ∃ inner quote, text = inner ++ quote :: behind ∧ isQuote quote = true
  := by
  rw [behindStatement?] at h
  obtain hrun | ⟨-, hspecifier⟩ := Option.or_eq_some_iff.mp h
  · obtain ⟨hl, hb, hn, hsource⟩ := readsClause_of_longestRun hrun
    rename_i lead bindings rest
    obtain ⟨left, hafter, hspecifier⟩ := Option.bind_eq_some_iff.mp hsource
    obtain ⟨inner, quote, rfl, hq⟩ := exists_of_behindSpecifier? hspecifier
    obtain ⟨blanks, hblanks⟩ : skipBlanks rest <:+ rest := List.dropWhile_suffix _
    rw [after?_eq_some_iff.mp hafter] at hblanks
    refine ⟨lead ++ (bindings ++ (blanks ++ (fromWord ++ inner))), quote, ?_, hq⟩
    rw [← hblanks]
    simp
  · exact exists_of_behindSpecifier? hspecifier

/-- No statement but a dynamic import has a round bracket behind its first word. -/
theorem behindStatement?_round (rest : Text) :
  behindStatement? ('(' :: rest) = none
  := by
  have hstart : (isQuote '(' || isBlank '(') = false := by decide
  have hclause : isClauseCharacter '(' = false := by decide
  have hblank : isBlank '(' = false := by decide
  have hquote : isQuote '(' = false := by decide
  simp [behindStatement?, longestRun, longestRun₁, hclause, behindSpecifier?, skipBlanks, hblank, hquote]

/-! ### Templates -/

/-- What a dynamic import of a literal has behind its first word. -/
theorem exists_of_behindDynamic? (h : behindDynamic? text = some behind) :
  ∃ opening contents closing, text = '(' :: opening :: (contents ++ closing :: ')' :: behind)
    ∧ contents ≠ []
    ∧ ((isQuote opening = true ∧ isQuote closing = true
          ∧ ∀ c ∈ contents, isQuote c = false ∧ c ≠ '\n')
        ∨ opening = '\x60' ∧ closing = '\x60' ∧ '$' ∉ contents ∧ '\x60' ∉ contents)
  := by
  unfold behindDynamic? at h
  split at h
  · rename_i opening rest
    simp only at h
    split at h
    · rename_i hopening
      split at h
      · rename_i c contents closing behind htake hdrop
        split at h
        · rename_i hclosing
          cases h
          have hrest : c :: contents ++ closing :: ')' :: behind = rest := by
            rw [← htake, ← hdrop, List.takeWhile_append_dropWhile]
          refine ⟨opening, c :: contents, closing, by rw [← hrest], List.cons_ne_nil c contents, ?_⟩
          by_cases hbacktick : opening = '\x60'
          · subst hbacktick
            right
            have hclosing : closing = '\x60' := by simpa [show isQuote '\x60' = false from rfl] using hclosing
            have hcontents : ∀ d ∈ c :: contents, d ≠ '$' ∧ d ≠ '\x60' := by
              intro d hd
              rw [← htake] at hd
              simpa using List.mem_takeWhile_imp hd
            refine ⟨rfl, hclosing, ?_, ?_⟩
            · intro hmem
              exact (hcontents _ hmem).1 rfl
            · intro hmem
              exact (hcontents _ hmem).2 rfl
          · left
            have hquote : isQuote opening = true := by simpa [hbacktick] using hopening
            have hclosing : isQuote closing = true := by simpa [hbacktick, hquote] using hclosing
            refine ⟨hquote, hclosing, ?_⟩
            intro d hd
            rw [← htake] at hd
            simpa [hbacktick] using List.mem_takeWhile_imp hd
        · cases h
      · cases h
    · cases h
  · cases h

/-- Where a template begins, a dynamic import is read up to the closing bracket behind it. -/
theorem BeginsTemplate.behindDynamic?_eq (h : BeginsTemplate text behind) :
  behindDynamic? ('(' :: text) = some behind
  := by
  obtain ⟨contents, rfl, hne, hdollar, hbacktick⟩ := h
  have hcontents : contents.all (fun c => !(c == '$' || c == '\x60')) = true := by
    rw [List.all_eq_true]
    intro c hc
    have hd : c ≠ '$' := ne_of_mem_of_not_mem hc hdollar
    have hb : c ≠ '\x60' := ne_of_mem_of_not_mem hc hbacktick
    simp [hd, hb]
  have hstops : stops (fun c => !(c == '$' || c == '\x60')) ('\x60' :: ')' :: behind) = true := by
    simp [stops]
  obtain ⟨c, tail, rfl⟩ := List.exists_cons_of_ne_nil hne
  rw [behindDynamic?]
  simp only [beq_self_eq_true, if_true, Bool.or_true, takeWhile_append_of_stops hcontents hstops,
    dropWhile_append_of_stops hcontents hstops]
  simp

end

/-! ### Addresses -/

namespace Address

variable (address : Address)

/-- An address stands between its quotation marks. -/
theorem text_append (behind : Text) :
  address.text ++ behind = address.quote :: (address.body ++ address.quote :: behind)
  := by
  simp [Quoted.text]

theorem isQuote_of_mem {c : Char} (h : c ∈ address.body) :
  isQuote c = false
  := by
  have hplain := List.all_eq_true.mp address.plain c h
  simp only [isPlain, Bool.and_eq_true, Bool.not_eq_true'] at hplain
  exact hplain.1.1

theorem isBlank_of_mem {c : Char} (h : c ∈ address.body) :
  isBlank c = false
  := by
  simpa using List.all_eq_true.mp address.solid c h

theorem ne_of_mem {c : Char} (h : c ∈ address.body) :
  c ≠ '\n'
  := by
  rintro rfl
  have hblank := address.isBlank_of_mem h
  exact absurd hblank (by decide)

/-- A specifier is read up to its closing quotation mark. -/
theorem behindQuote?_eq (behind : Text) :
  behindQuote? (address.body ++ address.quote :: behind) = some behind
  := by
  apply behindQuote?_append _ address.isQuote
  intro c hc
  exact ⟨address.isQuote_of_mem hc, address.ne_of_mem hc⟩

/-- A dynamic import is read up to its closing bracket. -/
theorem behindDynamic?_eq (behind : Text) :
  behindDynamic? ('(' :: (address.text ++ ')' :: behind)) = some behind
  := by
  have hbacktick : (address.quote == '\x60') = false :=
    of_isQuote (p := fun c => (c == '\x60') = false) address.isQuote (by decide)
  have hbody : address.body.all (fun c => !(isQuote c || c == '\n')) = true := by
    rw [List.all_eq_true]
    intro c hc
    simp [address.isQuote_of_mem hc, address.ne_of_mem hc]
  have hstops : stops (fun c => !(isQuote c || c == '\n')) (address.quote :: ')' :: behind) = true := by
    simp [stops, address.isQuote]
  obtain ⟨c, tail, hcons⟩ := List.exists_cons_of_ne_nil address.nonempty
  rw [text_append, behindDynamic?]
  simp only [hbacktick, Bool.false_eq_true, if_false, takeWhile_append_of_stops hbody hstops,
    dropWhile_append_of_stops hbody hstops]
  rw [hcons]
  simp [address.isQuote, hbacktick]

end Address

/-! ### Static imports -/

theorem isClauseCharacter_of_isNamePart {c : Char} (h : isNamePart c = true) :
  isClauseCharacter c = true
  := by
  have hc := toNat_lt_of_isNamePart h
  revert h
  apply of_ascii (p := fun c => isNamePart c = true → isClauseCharacter c = true) hc
  decide +kernel

/-- The tokens of a clause are written in the characters that a clause may have. -/
theorem isClauseCharacter_of_isClause {tokens : List Token} (h : IsClause tokens) :
  ∀ token ∈ tokens, ∀ c ∈ token.text, isClauseCharacter c = true
  := by
  have hword : ∀ (name : Name), ∀ c ∈ (Token.word name).text, isClauseCharacter c = true := by
    intro name c hc
    apply isClauseCharacter_of_isNamePart (name.isNamePart_of_mem hc)
  induction h with
  | source => simpa using hword .sourcing
  | word name h ih => exact List.forall_mem_cons.mpr ⟨hword name, ih⟩
  | star h ih => exact List.forall_mem_cons.mpr ⟨List.all_eq_true.mp (by decide), ih⟩
  | comma h ih => exact List.forall_mem_cons.mpr ⟨List.all_eq_true.mp (by decide), ih⟩
  | @curly inner tokens hi h ih =>
    refine List.forall_mem_cons.mpr
      ⟨List.all_eq_true.mp (by decide), List.forall_mem_append.mpr ⟨?_, ?_⟩⟩
    · intro token htoken
      rcases hi token htoken with rfl | ⟨name, rfl⟩
      · exact List.all_eq_true.mp (by decide)
      · apply hword name
    · exact List.forall_mem_cons.mpr ⟨List.all_eq_true.mp (by decide), ih⟩

/-- What is written with blanks of the four kinds in the characters of a clause has no others. -/
theorem isClauseCharacter_of_spells {first : Name} {tokens : List Token} {front : Text}
    (ht : ∀ token ∈ tokens, ∀ c ∈ token.text, isClauseCharacter c = true)
    (hs : Spells (.word first :: tokens) front)
    (hn : ∀ c ∈ front, isBlank c = true → c ∈ [' ', '\t', '\n', '\r']) :
  ∀ c ∈ front, isClauseCharacter c = true
  := by
  have hor : ∀ c ∈ front, isClauseCharacter c = true ∨ isBlank c = true := by
    apply hs.forall_mem (p := fun c => isClauseCharacter c = true ∨ isBlank c = true)
    · intro c hc
      exact .inr (isBlank_of_isGap hc)
    · intro token htoken c hc
      left
      rcases List.mem_cons.mp htoken with rfl | htoken
      · apply isClauseCharacter_of_isNamePart (first.isNamePart_of_mem hc)
      · apply ht token htoken c hc
  intro c hc
  obtain hclause | hblank := hor c hc
  · exact hclause
  · have hnarrow : ∀ c ∈ [' ', '\t', '\n', '\r'], isClauseCharacter c = true :=
      List.all_eq_true.mp (by decide)
    apply hnarrow c (hn c hc hblank)

namespace Bindings

variable (bindings : Bindings)

/-- Static imports that bring something into scope are read as imports by the scanner. -/
theorem isClause :
  bindings = .nothing ∨ IsClause bindings.tokens
  := by
  cases bindings with
  | nothing => exact .inl rfl
  | byDefault name => exact .inr (.word name .source)
  | whole name => exact .inr (.star (.word _ (.word name .source)))
  | items bindings => exact .inr (.block bindings)
  | defaultItems name bindings => exact .inr (.word name (.comma (.block bindings)))
  | defaultWhole name naming =>
    exact .inr (.word name (.comma (.star (.word _ (.word naming .source)))))

/-- A clause that brings something into scope ends in the word `from` and has something before it. -/
theorem exists_tokens :
  bindings = .nothing
    ∨ ∃ token tokens, bindings.tokens = token :: (tokens ++ [.word .sourcing])
  := by
  cases bindings with
  | nothing => exact .inl rfl
  | byDefault name => exact .inr ⟨.word name, [], rfl⟩
  | whole name => exact .inr ⟨.star, [.word .aliasing, .word name], rfl⟩
  | items bindings =>
    exact .inr ⟨.opening .curly, bindingTokens bindings ++ [.closing .curly], by
      simp [tokens, blockTokens]⟩
  | defaultItems name bindings =>
    exact .inr ⟨.word name, .comma :: .opening .curly :: (bindingTokens bindings ++ [.closing .curly]), by
      simp [tokens, blockTokens]⟩
  | defaultWhole name naming =>
    exact .inr ⟨.word name, [.comma, .star, .word .aliasing, .word naming], rfl⟩

end Bindings

namespace Static

variable (s : Static)

theorem isClauseCharacter_of_mem {c : Char} (h : c ∈ s.front) :
  isClauseCharacter c = true
  := by
  apply isClauseCharacter_of_spells _ s.spells s.narrow c h
  obtain hnothing | hclause := s.bindings.isClause
  · rw [hnothing]
    nofun
  · apply isClauseCharacter_of_isClause hclause

theorem isQuote_of_mem {c : Char} (h : c ∈ s.front) :
  isQuote c = false
  := by
  apply @isQuote_of_isClauseCharacter s.front _ c h
  rw [List.all_eq_true]
  intro d hd
  apply s.isClauseCharacter_of_mem hd

/-- The word `import`, and what stands between it and the address: blanks alone, or a clause and the
word `from`. -/
theorem exists_front :
  ∃ inner, s.front = importWord ++ inner
    ∧ (inner.all isBlank = true
      ∨ ∃ clause gap, inner = clause ++ (fromWord ++ gap) ∧ clause ≠ [] ∧ gap.all isBlank = true)
  := by
  have hblank : ∀ {gap : Text}, gap.all isGap = true → gap.all isBlank = true := by
    intro gap hg
    rw [List.all_eq_true] at hg ⊢
    intro c hc
    apply isBlank_of_isGap (hg c hc)
  have hspells := s.spells
  generalize s.front = front at hspells
  cases hspells with
  | @cons _ _ gap text hg hw hs =>
    refine ⟨gap ++ text, rfl, ?_⟩
    obtain hnothing | ⟨token, tokens, htokens⟩ := s.bindings.exists_tokens
    · left
      rw [hnothing] at hs
      cases hs
      rw [List.append_nil]
      apply hblank hg
    · right
      rw [htokens, ← List.cons_append] at hs
      obtain ⟨clause, _, hclause, hsource, rfl⟩ := hs.exists_of_append
      obtain ⟨gap', rfl, hg'⟩ := hsource.exists_of_singleton
      refine ⟨gap ++ clause, gap', by simp [Token.text]; rfl, ?_, hblank hg'⟩
      cases hclause with
      | cons _ _ _ =>
        have hne := token.text_ne_nil
        simp [hne]

/-- A static import is read up to the end of its address, where no quotation mark goes on behind it. -/
theorem behindStatement?_eq {inner behind : Text} (hf : s.front = importWord ++ inner)
    (hb : behindQuote? behind = none) :
  behindStatement? (inner ++ (s.address.text ++ behind)) = some behind
  := by
  have hquote : ∀ c ∈ inner, isQuote c = false := by
    intro c hc
    apply s.isQuote_of_mem
    rw [hf]
    exact List.mem_append_right _ hc
  obtain ⟨inner', hf', hinner⟩ := s.exists_front
  obtain rfl := List.append_cancel_left (hf'.symm.trans hf)
  rw [s.address.text_append]
  obtain hblank | ⟨clause, gap, rfl, hne, hgap⟩ := hinner
  · rw [behindStatement?_of_not_readsClause, behindSpecifier?_append hblank s.address.isQuote,
      s.address.behindQuote?_eq]
    -- a clause could only be read out of the address, up to a quotation mark behind it
    intro b hclause
    obtain ⟨c, tail, hbody⟩ := List.exists_cons_of_ne_nil s.address.nonempty
    have hc : c ∈ s.address.body := by simp [hbody]
    have hclause := hclause.of_blank s.address.isQuote hblank
    obtain ⟨_, _, _, _, -, -, -, -, hbehind⟩ := hclause.exists_of_append s.address.isQuote
      (fun _ => s.address.isQuote_of_mem) ⟨c, hc, s.address.isBlank_of_mem hc⟩
    rw [hb] at hbehind
    cases hbehind
  · apply behindStatement?_of_readsClause
    · have hsource : behindSource? (fromWord ++ (gap
          ++ s.address.quote :: (s.address.body ++ s.address.quote :: behind))) = some behind := by
        have hskip : ∀ text, skipBlanks (fromWord ++ text) = fromWord ++ text := fun _ => rfl
        rw [behindSource?, hskip, after?_append, Option.bind_some,
          behindSpecifier?_append hgap s.address.isQuote, s.address.behindQuote?_eq]
      have hall : clause.all isClauseCharacter = true := by
        rw [List.all_eq_true]
        intro c hc
        apply s.isClauseCharacter_of_mem
        rw [hf]
        simp [hc]
      have hreads := @ReadsClause.intro [] _ _ _ rfl hall hne hsource
      simpa using hreads
    · intro b hclause
      obtain ⟨_, _, _, _, -, -, -, -, hbehind⟩ := hclause.exists_of_append s.address.isQuote hquote
        ⟨'f', by simp [fromWord], by decide⟩
      rw [s.address.behindQuote?_eq] at hbehind
      exact (Option.some.inj hbehind).symm

end Static

end ImportCensus.Salvage
