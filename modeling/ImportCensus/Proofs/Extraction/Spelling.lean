import ImportCensus.Proofs.Extraction.Written
import ImportCensus.Proofs.Scan.Run
import ImportCensus.Proofs.Text.Ascii

/-!
# Spelled tokens

What the characters of a written declaration are.  A token begins with a character that is not
blank, and a word ends where a character that is no part of a name follows it.  So the tokens of a
text can be told from its characters, however many blanks there are.
-/

namespace ImportCensus.Written

open Text Scan

/-! ### Characters -/

theorem toNat_lt_of_isNamePart {c : Char} (h : isNamePart c = true) :
  c.toNat < 128
  := by
  simp only [isNamePart, Bool.or_eq_true, beq_iff_eq] at h
  obtain (h | rfl) | rfl := h
  · exact toNat_lt_of_isAlphanum h
  · decide
  · decide

theorem toNat_lt_of_isGap {c : Char} (h : isGap c = true) :
  c.toNat < 128
  := by
  simp only [isGap, Bool.and_eq_true, decide_eq_true_eq] at h
  exact h.2

theorem isBlank_of_isGap {c : Char} (h : isGap c = true) :
  isBlank c = true
  := by
  simp only [isGap, Bool.and_eq_true] at h
  exact h.1

theorem isSpace_of_isGap {c : Char} (h : isGap c = true) :
  isSpace c = true
  := by
  simp [isSpace, isBlank_of_isGap h]

theorem isNamePart_of_isGap {c : Char} (h : isGap c = true) :
  isNamePart c = false
  := by
  have hc := toNat_lt_of_isGap h
  revert h
  apply of_ascii (p := fun c => isGap c = true → isNamePart c = false) hc
  decide +kernel

theorem isBlank_of_isNamePart {c : Char} (h : isNamePart c = true) :
  isBlank c = false
  := by
  have hc := toNat_lt_of_isNamePart h
  revert h
  apply of_ascii (p := fun c => isNamePart c = true → isBlank c = false) hc
  decide +kernel

theorem isSpace_of_isNamePart {c : Char} (h : isNamePart c = true) :
  isSpace c = false
  := by
  have hc := toNat_lt_of_isNamePart h
  revert h
  apply of_ascii (p := fun c => isNamePart c = true → isSpace c = false) hc
  decide +kernel

theorem isNamePart_of_isNameStart {c : Char} (h : isNameStart c = true) :
  isNamePart c = true
  := by
  simp only [isNameStart, isNamePart, Char.isAlphanum, Bool.or_eq_true] at h ⊢
  rcases h with (h | h) | h
  · simp [h]
  · simp [h]
  · simp [h]

theorem isQuote_of_isNamePart {c : Char} (h : isNamePart c = true) :
  isQuote c = false
  := by
  have hc := toNat_lt_of_isNamePart h
  revert h
  apply of_ascii (p := fun c => isNamePart c = true → isQuote c = false) hc
  decide +kernel

/-- Within ASCII the scanner's words and the names of the grammar have the same characters. -/
theorem isIdentifierPart_eq {c : Char} (h : c.toNat < 128) :
  isIdentifierPart c = isNamePart c
  := by
  apply of_ascii (p := fun c => isIdentifierPart c = isNamePart c) h
  decide +kernel

/-- Within ASCII the scanner's words and the names of the grammar begin alike. -/
theorem isIdentifierStart_eq {c : Char} (h : c.toNat < 128) :
  isIdentifierStart c = isNameStart c
  := by
  apply of_ascii (p := fun c => isIdentifierStart c = isNameStart c) h
  decide +kernel

/-- Within ASCII the names of a clause and those of the grammar have the same characters. -/
theorem isNameCharacter_eq {c : Char} (h : c.toNat < 128) :
  Clause.isNameCharacter c = isNamePart c
  := by
  rw [Clause.isNameCharacter, isWordCharacter_of_lt h, isNamePart]

/-- Whether a class of characters holds no character of ASCII apart from those of names. -/
def InNames (p : Char → Bool) : Prop :=
  ∀ ⦃c : Char⦄, c.toNat < 128 → p c = true → isNamePart c = true

theorem inNames_isIdentifierPart :
  InNames isIdentifierPart
  := by
  intro c hc h
  rwa [isIdentifierPart_eq hc] at h

theorem inNames_isNameCharacter :
  InNames Clause.isNameCharacter
  := by
  intro c hc h
  rwa [isNameCharacter_eq hc] at h

theorem inNames_isWordCharacter :
  InNames isWordCharacter
  := by
  intro c hc h
  rw [isWordCharacter_of_lt hc] at h
  simp [isNamePart, h]

/-- What holds of both quotation marks holds of any. -/
theorem of_isQuote {p : Char → Prop} {c : Char} (hc : isQuote c = true) (h : p '\'' ∧ p '"') :
  p c
  := by
  simp only [isQuote, Bool.or_eq_true, beq_iff_eq] at hc
  rcases hc with rfl | rfl
  · exact h.1
  · exact h.2

/-! ### Names -/

namespace Name

variable (name : Name)

/-- A name has a first character and may go on behind it. -/
theorem exists_cons :
  ∃ c rest, name.text = c :: rest ∧ isNameStart c = true ∧ rest.all isNamePart = true
  := by
  have h := name.valid
  cases ht : name.text with
  | nil =>
    rw [ht] at h
    cases h
  | cons c rest =>
    rw [ht] at h
    simp only [isName, Bool.and_eq_true] at h
    exact ⟨c, rest, rfl, h.1, h.2⟩

/-- All characters of a name may stand in one. -/
theorem all_isNamePart :
  name.text.all isNamePart = true
  := by
  obtain ⟨c, rest, ht, hc, hr⟩ := name.exists_cons
  rw [ht, List.all_cons, isNamePart_of_isNameStart hc, hr]
  rfl

theorem isNamePart_of_mem {c : Char} (h : c ∈ name.text) :
  isNamePart c = true
  := List.all_eq_true.mp name.all_isNamePart c h

theorem all_isIdentifierPart :
  name.text.all isIdentifierPart = true
  := by
  rw [List.all_eq_true]
  intro c hc
  have hpart := name.isNamePart_of_mem hc
  rwa [isIdentifierPart_eq (toNat_lt_of_isNamePart hpart)]

/-- A name is a word of the scanner. -/
theorem isWord {rest : Text} (hr : stops isIdentifierPart rest = true) :
  IsWord name.text rest
  := by
  have hall := name.all_isIdentifierPart
  obtain ⟨c, tail, ht, hc, -⟩ := name.exists_cons
  have hpart := isNamePart_of_isNameStart hc
  rw [ht, List.all_cons, Bool.and_eq_true] at hall
  rw [ht]
  apply IsWord.mk _ hall.2 hr
  rw [isIdentifierStart_eq (toNat_lt_of_isNamePart hpart), hc]

end Name

/-- A name ends at a blank. -/
theorem stops_gap_append {p : Char → Bool} (hp : InNames p) {gap : Text}
    (hg : gap.all isGap = true) (hn : gap ≠ []) (rest : Text) :
  stops p (gap ++ rest) = true
  := by
  cases gap with
  | nil => exact absurd rfl hn
  | cons c gap =>
    rw [List.all_cons, Bool.and_eq_true] at hg
    have hc : p c ≠ true := by
      intro hc
      have hpart := hp (toNat_lt_of_isGap hg.1) hc
      rw [isNamePart_of_isGap hg.1] at hpart
      cases hpart
    simpa [stops] using hc

/-! ### Tokens -/

/-- Whether a text goes on is told from what is in front. -/
theorem stops_append {p : Char → Bool} {text : Text} (hn : text ≠ []) (rest : Text) :
  stops p (text ++ rest) = stops p text
  := by
  cases text with
  | nil => exact absurd rfl hn
  | cons c text => rfl

namespace Token

theorem text_ne_nil (token : Token) :
  token.text ≠ []
  := by
  cases token with
  | word name =>
    obtain ⟨c, rest, ht, -⟩ := name.exists_cons
    simp [text, ht]
  | star => simp [text]
  | comma => simp [text]
  | opening b => simp [text]
  | closing b => simp [text]
  | quoted q => simp [text, Quoted.text]

/-- A token that is no word begins with no character of a name. -/
theorem stops_text {p : Char → Bool} (hp : InNames p) {token : Token}
    (h : token.isWord = false) :
  stops p token.text = true
  := by
  have hmark : ∀ (c : Char) (rest : Text), c.toNat < 128 → isNamePart c = false →
      stops p (c :: rest) = true := by
    intro c rest hc hn
    have hcp : p c ≠ true := by
      intro hcp
      rw [hp hc hcp] at hn
      cases hn
    simpa [stops] using hcp
  cases token with
  | word name => cases h
  | star => apply hmark _ _ (by decide) (by decide)
  | comma => apply hmark _ _ (by decide) (by decide)
  | opening b => cases b <;> apply hmark _ _ (by decide) (by decide)
  | closing b => cases b <;> apply hmark _ _ (by decide) (by decide)
  | quoted q =>
    have hquote := of_isQuote (p := fun c => c.toNat < 128 ∧ isNamePart c = false) q.isQuote (by decide)
    apply hmark _ _ hquote.1 hquote.2

/-- No token begins with a blank, a slash or a hash. -/
theorem exists_cons (token : Token) :
  ∃ c rest, token.text = c :: rest ∧ isBlank c = false ∧ isSpace c = false ∧ c ≠ '/' ∧ c ≠ '#'
  := by
  cases token with
  | word name =>
    obtain ⟨c, rest, ht, hstart, -⟩ := name.exists_cons
    have hc := isNamePart_of_isNameStart hstart
    refine ⟨c, rest, ht, isBlank_of_isNamePart hc, isSpace_of_isNamePart hc, ?_, ?_⟩
    · rintro rfl
      exact absurd hc (by decide)
    · rintro rfl
      exact absurd hc (by decide)
  | star => exact ⟨_, _, rfl, by decide, by decide, by decide, by decide⟩
  | comma => exact ⟨_, _, rfl, by decide, by decide, by decide, by decide⟩
  | opening b =>
    cases b <;> exact ⟨_, _, rfl, by decide, by decide, by decide, by decide⟩
  | closing b =>
    cases b <;> exact ⟨_, _, rfl, by decide, by decide, by decide, by decide⟩
  | quoted q =>
    have hquote := of_isQuote (p := fun c => isBlank c = false ∧ isSpace c = false ∧ c ≠ '/' ∧ c ≠ '#')
      q.isQuote (by decide)
    exact ⟨q.quote, _, rfl, hquote⟩

theorem stops_isBlank_text (token : Token) :
  stops isBlank token.text = true
  := by
  obtain ⟨c, rest, ht, hblank, -⟩ := token.exists_cons
  simp [ht, stops, hblank]

/-- A token ends a gap. -/
theorem isSettled_text (token : Token) (rest : Text) :
  isSettled (token.text ++ rest) = true
  := by
  obtain ⟨c, tail, ht, -, hspace, hslash, -⟩ := token.exists_cons
  rw [ht]
  apply isSettled_cons hspace hslash

end Token

/-! ### Spelled tokens -/

namespace Spells

variable {tokens more : List Token} {text gap : Text}

/-- A spelled list of tokens is spelled part by part. -/
theorem exists_of_append (h : Spells (tokens ++ more) text) :
  ∃ front behind, Spells tokens front ∧ Spells more behind ∧ text = front ++ behind
  := by
  induction tokens generalizing text with
  | nil => exact ⟨[], text, .nil, h, rfl⟩
  | cons token tokens ih =>
    cases h with
    | @cons _ _ gap text hg hw h =>
      obtain ⟨front, behind, hfront, hbehind, rfl⟩ := ih h
      refine ⟨token.text ++ (gap ++ front), behind, ?_, hbehind, by simp⟩
      apply cons hg _ hfront
      intro htoken hhead
      apply hw htoken
      cases tokens with
      | nil => cases hhead
      | cons => exact hhead

/-- A single token is spelled with a gap behind it. -/
theorem exists_of_singleton {token : Token} (h : Spells [token] text) :
  ∃ gap, text = token.text ++ gap ∧ gap.all isGap = true
  := by
  cases h with
  | @cons _ _ gap _ hg _ h =>
    cases h
    exact ⟨gap, by simp, hg⟩

/-- A token that is no word may be written right behind others. -/
theorem append_singleton (h : Spells tokens text) (token : Token) (ht : token.isWord = false) :
  Spells (tokens ++ [token]) (text ++ token.text)
  := by
  induction h with
  | nil =>
    have h : Spells [token] (token.text ++ ([] ++ [])) := by
      apply cons rfl _ nil
      simp [ht]
    simpa using h
  | @cons first tokens gap text hg hw h ih =>
    have h : Spells (first :: (tokens ++ [token])) (first.text ++ (gap ++ (text ++ token.text))) := by
      apply cons hg _ ih
      intro hfirst hhead
      apply hw hfirst
      cases tokens with
      | nil => simp [ht] at hhead
      | cons => exact hhead
    simpa using h

/-- What holds of blanks and of the characters of tokens holds of all characters. -/
theorem forall_mem (h : Spells tokens text) {p : Char → Prop} (hg : ∀ c, isGap c = true → p c)
    (ht : ∀ token ∈ tokens, ∀ c ∈ token.text, p c) :
  ∀ c ∈ text, p c
  := by
  induction h with
  | nil => simp
  | @cons token tokens gap text hgap hw h ih =>
    intro c hc
    simp only [List.mem_append] at hc
    rcases hc with hc | hc | hc
    · apply ht token (by simp) c hc
    · apply hg c (List.all_eq_true.mp hgap c hc)
    · apply ih _ c hc
      intro token htoken
      apply ht token (by simp [htoken])

/-- A text begins with its first token. -/
theorem stops_append (h : Spells tokens text) {p : Char → Bool}
    (hp : ∀ token ∈ tokens.head?, stops p token.text = true) {rest : Text}
    (hr : stops p rest = true) :
  stops p (text ++ rest) = true
  := by
  cases h with
  | nil => exact hr
  | @cons token _ gap text hg hw h =>
    rw [List.append_assoc, Written.stops_append token.text_ne_nil]
    apply hp token rfl

/-- A text does not begin with a blank. -/
theorem stops_isBlank (h : Spells tokens text) :
  stops isBlank text = true
  := by
  have hnil : stops isBlank [] = true := rfl
  have hstops := h.stops_append (fun token _ => token.stops_isBlank_text) hnil
  rwa [List.append_nil] at hstops

/-- Tokens in front of something settled are settled. -/
theorem isSettled_append (h : Spells tokens text) {rest : Text} (hr : isSettled rest = true) :
  isSettled (text ++ rest) = true
  := by
  cases h with
  | nil => exact hr
  | @cons token _ gap text hg hw h =>
    rw [List.append_assoc]
    apply token.isSettled_text

/-- A name ends behind a word. -/
theorem stops_behind_word (h : Spells tokens text) (hg : gap.all isGap = true)
    (hw : tokens.head?.any Token.isWord = true → gap ≠ []) {p : Char → Bool} (hp : InNames p)
    {rest : Text} (hr : stops p rest = true) :
  stops p (gap ++ (text ++ rest)) = true
  := by
  cases gap with
  | nil =>
    apply h.stops_append _ hr
    intro token htoken
    apply Token.stops_text hp
    rw [Option.mem_def] at htoken
    simpa [htoken] using hw
  | cons c gap => apply stops_gap_append hp hg (by simp) _

/-- Tokens in curly brackets are spelled between them. -/
theorem exists_of_curly {inner : List Token}
    (h : Spells (.opening .curly :: (inner ++ .closing .curly :: tokens)) text) :
  ∃ lead front gap rest, lead.all isGap = true ∧ Spells inner front
    ∧ gap.all isGap = true ∧ Spells tokens rest
    ∧ text = '{' :: (lead ++ (front ++ '}' :: (gap ++ rest)))
  := by
  cases h with
  | @cons _ _ lead _ hl _ h =>
    obtain ⟨front, _, hfront, hclosing, rfl⟩ := h.exists_of_append
    cases hclosing with
    | @cons _ _ gap rest hg _ hrest =>
      exact ⟨lead, front, gap, rest, hl, hfront, hg, hrest, rfl⟩

end Spells

/-- Tokens written down, each with the blanks that are to stand behind it. -/
def write (tokens : List (Token × Text)) : Text :=
  tokens.flatMap fun written => written.1.text ++ written.2

/-- Whether nothing but blanks stands behind tokens, and some behind a word in front of another. -/
def isSeparated : List (Token × Text) → Bool
  | [] => true
  | (token, gap) :: tokens =>
    gap.all isGap
      && !(token.isWord && (tokens.map Prod.fst).head?.any Token.isWord && gap.isEmpty)
      && isSeparated tokens

/-- Tokens written with gaps between those that need them are spelled. -/
theorem spells_write {tokens : List (Token × Text)} (h : isSeparated tokens = true) :
  Spells (tokens.map Prod.fst) (write tokens)
  := by
  induction tokens with
  | nil => exact .nil
  | cons written tokens ih =>
    obtain ⟨token, gap⟩ := written
    simp only [isSeparated, Bool.and_eq_true, Bool.not_eq_true'] at h
    obtain ⟨⟨hg, hw⟩, hrest⟩ := h
    have hspells : Spells (token :: tokens.map Prod.fst) (token.text ++ (gap ++ write tokens)) := by
      apply Spells.cons hg _ (ih hrest)
      rintro htoken hhead rfl
      rw [htoken, hhead] at hw
      cases hw
    simpa [write] using hspells

/-- The characters of the text between curly brackets. -/
def isItemCharacter (c : Char) : Bool :=
  isGap c || isNamePart c || c == ','

/-- A token that may stand between curly brackets. -/
def Token.IsInner (token : Token) : Prop :=
  token = .comma ∨ ∃ name, token = .word name

/-- The tokens of a binding may stand in a block. -/
theorem Binding.isInner_of_mem_tokens {binding : Binding} {token : Token} (h : token ∈ binding.tokens) :
  token.IsInner
  := by
  right
  unfold Binding.tokens at h
  split at h
  · exact ⟨_, List.mem_singleton.mp h⟩
  · simp only [List.mem_cons, List.not_mem_nil, or_false] at h
    rcases h with rfl | rfl | rfl <;> exact ⟨_, rfl⟩

/-- Nothing but words and commas stands between curly brackets. -/
theorem isInner_of_mem_bindingTokens {bindings : List Binding} {token : Token}
    (h : token ∈ bindingTokens bindings) :
  token.IsInner
  := by
  cases bindings with
  | nil => cases h
  | cons binding bindings =>
    simp only [bindingTokens, List.mem_append, List.mem_flatMap, List.mem_cons] at h
    rcases h with h | ⟨other, -, rfl | h⟩
    · exact Binding.isInner_of_mem_tokens h
    · exact .inl rfl
    · exact Binding.isInner_of_mem_tokens h

/-- Between curly brackets stand the characters of items and blanks. -/
theorem Spells.isItemCharacter_of_mem {inner : List Token}
    (hi : ∀ token ∈ inner, token.IsInner) {text : Text} (h : Spells inner text) {gap : Text}
    (hg : gap.all isGap = true) :
  ∀ c ∈ gap ++ text, isItemCharacter c = true
  := by
  have htext : ∀ c ∈ text, isItemCharacter c = true := by
    apply h.forall_mem (p := fun c => isItemCharacter c = true)
    · intro c hc
      simp [isItemCharacter, hc]
    · intro token htoken c hc
      rcases hi token htoken with rfl | ⟨name, rfl⟩
      · obtain rfl := List.mem_singleton.mp hc
        decide
      · simp [isItemCharacter, name.isNamePart_of_mem hc]
  intro c hc
  rcases List.mem_append.mp hc with hc | hc
  · simp [isItemCharacter, List.all_eq_true.mp hg c hc]
  · apply htext c hc

end ImportCensus.Written
