import ImportCensus.Proofs.Extraction.Spelling
import ImportCensus.Proofs.Scan.Uncommented

/-!
# Imports of types without their comments

An import of types is told from the blanks and the words at its start, with its comments in it.  It stays one
where the comments are taken out, if that brings no words together.
-/

namespace ImportCensus.Clause

open Text Scan
open Segment (of)

/-- The word before a clause of types. -/
def typeWord : Text := ['t', 'y', 'p', 'e']

/-! ### Characters of words -/

section

variable {c : Char}

/-- The code points of the blanks above ASCII. -/
def foreignBlanks : List Nat :=
  [0x85, 0xA0, 0x1680, 0x2000, 0x2001, 0x2002, 0x2003, 0x2004, 0x2005, 0x2006, 0x2007, 0x2008, 0x2009, 0x200A,
   0x2028, 0x2029, 0x202F, 0x205F, 0x3000]

/-- The blanks beyond ASCII are those of the list. -/
theorem toNat_mem_of_isBlank (h : isBlank c = true) (hc : 127 < c.toNat) :
  c.toNat ∈ foreignBlanks
  := by
  simp only [isBlank, Bool.or_eq_true, Bool.and_eq_true, decide_eq_true_eq, beq_iff_eq] at h
  simp only [foreignBlanks, List.mem_cons, List.not_mem_nil, or_false]
  omega

theorem isBlank_of_isWordCharacter (h : isWordCharacter c = true) :
  isBlank c = false
  := by
  by_cases hc : c.toNat < 128
  · revert h
    apply of_ascii (p := fun c => isWordCharacter c = true → isBlank c = false) hc
    decide +kernel
  · rw [← Bool.not_eq_true]
    intro hblank
    have hnone : ∀ n ∈ foreignBlanks, isWordCharacter (Char.ofNat n) = false := by decide +kernel
    have hword := hnone c.toNat (toNat_mem_of_isBlank hblank (by omega))
    rw [c.ofNat_toNat, h] at hword
    cases hword

theorem isIdentifierPart_of_isWordCharacter (h : isWordCharacter c = true) :
  isIdentifierPart c = true
  := by
  by_cases hc : c.toNat < 128
  · rw [isWordCharacter_of_lt hc, Bool.or_eq_true] at h
    obtain h | h := h
    · simp [isIdentifierPart, h]
    · simp [isIdentifierPart, h]
  · have hforeign : isForeign c = true := by
      have hlt : 127 < c.toNat := by omega
      simp [isForeign, hlt, isBlank_of_isWordCharacter h]
    simp [isIdentifierPart, hforeign]

theorem isSpace_of_isWordCharacter (h : isWordCharacter c = true) :
  isSpace c = false
  := by
  have hmark : c ≠ '\uFEFF' := by
    rintro rfl
    have hnone : isWordCharacter '\uFEFF' = false := by decide +kernel
    rw [hnone] at h
    cases h
  simp [isSpace, isBlank_of_isWordCharacter h, hmark]

theorem isIdentifierPart_of_isBlank (h : isBlank c = true) :
  isIdentifierPart c = false
  := by
  rw [← Bool.not_eq_true]
  intro hpart
  rw [isIdentifierPart, Bool.or_eq_true] at hpart
  obtain hname | hforeign := hpart
  · have hpart : Written.isNamePart c = true := by
      simp only [Written.isNamePart, Bool.or_eq_true] at hname ⊢
      tauto
    rw [Written.isBlank_of_isNamePart hpart] at h
    cases h
  · simp [isForeign, h] at hforeign

theorem wordEnds_of_stops {text : Text} (h : stops isIdentifierPart text = true) :
  wordEnds text = true
  := by
  cases text with
  | nil => rfl
  | cons c text =>
    rw [wordEnds, Bool.not_eq_true', ← Bool.not_eq_true]
    intro hc
    simp [stops, isIdentifierPart_of_isWordCharacter hc] at h

/-- A clause begins with a character that is neither a space nor a slash. -/
theorem isSettled_of_beginsClause {text : Text} (h : beginsClause text = true) (more : Text) :
  isSettled (text ++ more) = true
  := by
  cases text with
  | nil => cases h
  | cons c text =>
    rw [beginsClause, Bool.and_eq_true, Bool.or_eq_true, Bool.or_eq_true, isNameCharacter, Bool.or_eq_true,
      beq_iff_eq, beq_iff_eq, beq_iff_eq] at h
    obtain ⟨((hc | rfl) | rfl) | rfl, -⟩ := h
    · apply isSettled_cons (isSpace_of_isWordCharacter hc)
      rintro rfl
      exact absurd hc (by decide)
    · exact isSettled_cons (by decide) (by decide) _
    · exact isSettled_cons (by decide) (by decide) _
    · exact isSettled_cons (by decide) (by decide) _

theorem stops_isBlank_of_beginsClause {text : Text} (h : beginsClause text = true) :
  stops isBlank text = true
  := by
  have hsettled := isSettled_of_beginsClause h []
  rw [List.append_nil, isSettled, Bool.and_eq_true] at hsettled
  cases text with
  | nil => rfl
  | cons c text =>
    have hc : isSpace c = false := by simpa [stops] using hsettled.1
    rw [isSpace, Bool.or_eq_false_iff] at hc
    simp [stops, hc.1]

end

/-! ### Words and blanks -/

section

variable {text rest : Text}

/-- Blanks are skipped where there is one at least, and all of them. -/
theorem skipBlanks₁?_eq_some_iff :
  skipBlanks₁? text = some rest
    ↔ ∃ gap, text = gap ++ rest ∧ gap ≠ [] ∧ gap.all isBlank = true ∧ stops isBlank rest = true
  := by
  constructor
  · intro h
    cases text with
    | nil => cases h
    | cons c text =>
      rw [skipBlanks₁?] at h
      split at h
      · rename_i hc
        obtain rfl := Option.some.inj h
        refine ⟨c :: text.takeWhile isBlank, ?_, List.cons_ne_nil _ _, ?_, stops_dropWhile _ _⟩
        · rw [List.cons_append, skipBlanks, List.takeWhile_append_dropWhile]
        · rw [List.all_cons, hc, List.all_takeWhile]
          rfl
      · cases h
  · rintro ⟨gap, rfl, hn, hg, hr⟩
    obtain ⟨c, gap, rfl⟩ := List.exists_cons_of_ne_nil hn
    rw [List.all_cons, Bool.and_eq_true] at hg
    rw [List.cons_append, skipBlanks₁?, if_pos hg.1, skipBlanks, dropWhile_append_of_stops hg.2 hr]

/-- A word is read with the blanks behind it. -/
theorem behindWord?_eq_some_iff {word : Text} :
  behindWord? word text = some rest
    ↔ ∃ gap, text = word ++ (gap ++ rest) ∧ gap ≠ [] ∧ gap.all isBlank = true ∧ stops isBlank rest = true
  := by
  rw [behindWord?, Option.bind_eq_some_iff]
  constructor
  · rintro ⟨behind, hafter, hbehind⟩
    obtain ⟨gap, rfl, hgap⟩ := skipBlanks₁?_eq_some_iff.mp hbehind
    exact ⟨gap, after?_eq_some_iff.mp hafter, hgap⟩
  · rintro ⟨gap, rfl, hgap⟩
    exact ⟨gap ++ rest, after?_append _ _, skipBlanks₁?_eq_some_iff.mpr ⟨gap, rfl, hgap⟩⟩

/-- An import of types has the word `type` and a clause behind its first word. -/
theorem isTypeOnly_append_iff :
  isTypeOnly (importWord ++ text) = true
    ↔ ∃ gap gap' clause, text = gap ++ (typeWord ++ (gap' ++ clause)) ∧ gap ≠ [] ∧ gap.all isBlank = true
        ∧ gap' ≠ [] ∧ gap'.all isBlank = true ∧ stops isBlank clause = true ∧ beginsClause clause = true
  := by
  have hexport : behindWord? ['e', 'x', 'p', 'o', 'r', 't'] (importWord ++ text) = none := rfl
  have hword : ['i', 'm', 'p', 'o', 'r', 't'] = importWord := rfl
  have htype : ['t', 'y', 'p', 'e'] = typeWord := rfl
  rw [isTypeOnly, behindFirstWord?, hexport, Option.or_none, hword, htype]
  constructor
  · intro h
    split at h
    · cases h
    · rename_i clause hclause
      obtain ⟨behind, hbehind, htypes⟩ := Option.bind_eq_some_iff.mp hclause
      obtain ⟨gap, heq, hn, hg, -⟩ := behindWord?_eq_some_iff.mp hbehind
      obtain ⟨gap', rfl, hn', hg', hstops⟩ := behindWord?_eq_some_iff.mp htypes
      exact ⟨gap, gap', clause, List.append_cancel_left heq, hn, hg, hn', hg', hstops, h⟩
  · rintro ⟨gap, gap', clause, rfl, hn, hg, hn', hg', hstops, hclause⟩
    have hbehind : behindWord? importWord (importWord ++ (gap ++ (typeWord ++ (gap' ++ clause))))
        = some (typeWord ++ (gap' ++ clause)) :=
      behindWord?_eq_some_iff.mpr ⟨gap, rfl, hn, hg, by rfl⟩
    have htypes : behindWord? typeWord (typeWord ++ (gap' ++ clause)) = some clause :=
      behindWord?_eq_some_iff.mpr ⟨gap', rfl, hn', hg', hstops⟩
    simp only [hbehind, Option.bind_some, htypes]
    exact hclause

end

end ImportCensus.Clause

namespace ImportCensus.Scan

open Text Clause
open Segment (of)

section

variable {segment gap : Segment} {body rest : Text}

/-- Spaces in front of a settled text are all that is passed there. -/
theorem Trivia.eq_of_isBlank (h : Trivia gap rest) {blanks text : Text} (hb : blanks.all isBlank = true)
    (hs : Scan.isSettled text = true) (he : gap.text ++ rest = blanks ++ text) :
  gap = of .code blanks ∧ rest = text
  := by
  have hspace : ∀ c ∈ blanks, isSpace c = true := by
    intro c hc
    simp [isSpace, List.all_eq_true.mp hb c hc]
  exact h.unique (trivia_of_isSpace hspace hs) (by simpa using he)

/-- A text begins with one word at most. -/
theorem IsWord.unique {name name' rest' : Text} (h : IsWord name rest) (h' : IsWord name' rest')
    (he : name ++ rest = name' ++ rest') :
  name = name' ∧ rest = rest'
  := by
  have hname : name = name' := by
    cases h with
    | @mk c tail _ hc ht hr =>
      cases h' with
      | @mk c' tail' _ hc' ht' hr' =>
        obtain rfl : c = c' := (List.cons.inj he).1
        have hrest : tail ++ rest = tail' ++ rest' := (List.cons.inj he).2
        rw [← wordOf_append (.mk hc ht hr), hrest, wordOf_append (.mk hc' ht' hr')]
  subst hname
  exact ⟨rfl, List.append_cancel_left he⟩

/-- A word ends in a text cut short. -/
theorem IsWord.of_append {name text : Text} (h : IsWord name (text ++ rest)) :
  IsWord name text
  := by
  cases h with
  | mk hc ht hr =>
    refine .mk hc ht ?_
    cases text with
    | nil => rfl
    | cons c text => exact hr

/-- A clause with a word at its start goes on behind it. -/
theorem ImportClause.exists_of_word (h : ImportClause segment (some body) rest) {name more : Text}
    (hw : IsWord name (more ++ rest)) (hs : stops isSpace name = true) (hf : name ≠ fromWord)
    (ht : segment.text = name ++ more) :
  ∃ behind, segment = of .code name ++ behind ∧ behind.text = more ∧ ImportClause behind (some body) rest
  := by
  have hsettled : isSettled (segment.text ++ rest) = true := by
    rw [ht, List.append_assoc]
    exact hw.isSettled hs
  have hmark : ∀ {c : Char} {tail : Text}, name ++ more = c :: tail → c ≠ '{' ∧ ¬(c = '*' ∨ c = ',') := by
    intro c tail he
    cases hw with
    | mk hc =>
      obtain rfl := (List.cons.inj he).1
      exact ne_mark_of_isIdentifierStart hc
  have hword : ∀ {name' behind : Text}, IsWord name' (behind ++ rest) → name' ++ behind = name ++ more →
      name' = name ∧ behind = more := by
    intro name' behind hw' he
    have hwhole : name' ++ (behind ++ rest) = name ++ (more ++ rest) := by
      rw [← List.append_assoc, he, List.append_assoc]
    obtain ⟨hname, hrest⟩ := hw'.unique hw hwhole
    exact ⟨hname, List.append_cancel_right hrest⟩
  cases h with
  | braces hg =>
    obtain rfl := hg.eq_nil_of_isSettled (by simpa using hsettled)
    exact absurd rfl (hmark ht.symm).1
  | mark hg hm =>
    obtain rfl := hg.eq_nil_of_isSettled (by simpa using hsettled)
    exact absurd hm (hmark ht.symm).2
  | word hg hw' _ h =>
    obtain rfl := hg.eq_nil_of_isSettled (by simpa using hsettled)
    obtain ⟨rfl, hbehind⟩ := hword hw' (by simpa using ht)
    exact ⟨_, rfl, hbehind, h⟩
  | loneFrom hg hw' =>
    obtain rfl := hg.eq_nil_of_isSettled (by simpa using hsettled)
    rw [← List.append_assoc] at hw'
    exact absurd (hword hw' (by simpa using ht)).1.symm hf
  | specifier hg hw' =>
    obtain rfl := hg.eq_nil_of_isSettled (by simpa using hsettled)
    rw [← List.append_assoc] at hw'
    exact absurd (hword hw' (by simpa using ht)).1.symm hf

/-- Where a name other than `from` begins a clause, it does so without the comments. -/
theorem beginsFrom_uncommented {name : Text} (hw : IsWord name (segment.uncommented.text ++ rest))
    (hf : name ≠ fromWord)
    (h : beginsFrom (name ++ segment.text) = false) :
  beginsFrom (name ++ segment.uncommented.text) = false
  := by
  rw [← Bool.not_eq_true]
  intro hfrom
  rw [beginsFrom] at hfrom
  split at hfrom
  · cases hfrom
  · rename_i behind hafter
    have heq : name ++ segment.uncommented.text = fromWord ++ behind := after?_eq_some_iff.mp hafter
    obtain ⟨middle, hmiddle, hrest⟩ | ⟨middle, rfl, rfl⟩ := List.append_eq_append_iff.mp heq
    · -- the name would end within the word
      cases middle with
      | nil => exact hf (by simpa using hmiddle.symm)
      | cons c middle =>
        have hc : isIdentifierPart c = true := by
          have hall : fromWord.all isIdentifierPart = true := by decide
          rw [hmiddle, List.all_append, List.all_cons, Bool.and_eq_true, Bool.and_eq_true] at hall
          exact hall.2.1
        cases hw with
        | mk _ _ hstops => simp [hrest, stops, hc] at hstops
    · cases middle with
      | nil => exact hf (by simp)
      | cons c middle =>
        have hafter' : after? ['f', 'r', 'o', 'm'] (fromWord ++ c :: middle ++ segment.text)
            = some (c :: middle ++ segment.text) := by
          rw [List.append_assoc]
          exact after?_append fromWord _
        rw [beginsFrom, hafter'] at h
        simp only [List.cons_append, wordEnds] at h hfrom
        rw [h] at hfrom
        cases hfrom

/-- Where the word `from` stands at the start, no clause begins. -/
theorem beginsClause_fromWord {text : Text} (hw : IsWord fromWord text) :
  beginsClause (fromWord ++ text) = false
  := by
  have hfrom : beginsFrom (fromWord ++ text) = true := by
    have hafter : after? ['f', 'r', 'o', 'm'] (fromWord ++ text) = some text := after?_append fromWord _
    rw [beginsFrom, hafter]
    cases hw with
    | mk _ _ hr => exact wordEnds_of_stops hr
  rw [fromWord, List.cons_append] at hfrom ⊢
  rw [beginsClause, hfrom]
  simp

/-- A clause of types begins as one without the comments. -/
theorem ImportClause.exists_beginsClause (h : ImportClause segment (some body) rest)
    (hj : segment.joins = false) {blanks clause : Text} (hb : blanks.all isBlank = true)
    (hc : beginsClause clause = true) (ht : segment.text = blanks ++ clause) :
  ∃ clause', segment.uncommented.text = blanks ++ clause' ∧ beginsClause clause' = true
  := by
  have hsettled := isSettled_of_beginsClause hc rest
  -- what stands in front of the first token is the blanks
  have hfirst : ∀ {trivia : Segment} {text : Text}, Trivia trivia (text ++ rest) →
      segment.text = trivia.text ++ text → trivia = of .code blanks ∧ text = clause := by
    intro trivia text htrivia htext
    obtain ⟨rfl, hrest⟩ := htrivia.eq_of_isBlank hb hsettled
      (by rw [← List.append_assoc, ← htext, ht, List.append_assoc])
    exact ⟨rfl, List.append_cancel_right hrest⟩
  cases h with
  | @braces trivia braces segment _ _ hg =>
    obtain ⟨rfl, rfl⟩ := @hfirst _ ('{' :: (braces.text ++ segment.text)) (by simpa using hg) (by simp)
    refine ⟨'{' :: (braces.uncommented.text ++ segment.uncommented.text), by simp, ?_⟩
    simp [beginsClause, beginsFrom, after?]
  | @mark trivia segment c _ _ hg hm =>
    obtain ⟨rfl, rfl⟩ := @hfirst _ (c :: segment.text) (by simpa using hg) (by simp)
    refine ⟨c :: segment.uncommented.text, by simp, ?_⟩
    obtain rfl | rfl := hm
    · simp [beginsClause, beginsFrom, after?]
    · have hname : isNameCharacter ',' = false := by decide
      simp [beginsClause, hname] at hc
  | @word trivia segment name _ _ hg hw hf h =>
    obtain ⟨rfl, rfl⟩ := @hfirst _ (name ++ segment.text) (by simpa using hg) (by simp)
    have hjoins := Segment.joins_of_append hj
    have hword := hw.uncommented hjoins (h.uncommented_ne_nil []) rest
    refine ⟨name ++ segment.uncommented.text, by simp, ?_⟩
    cases hw with
    | mk =>
      rw [List.cons_append, beginsClause, Bool.and_eq_true, Bool.not_eq_true'] at hc ⊢
      exact ⟨hc.1, beginsFrom_uncommented hword hf hc.2⟩
  | @loneFrom trivia gap segment _ _ hg hw =>
    obtain ⟨rfl, rfl⟩ := @hfirst _ (fromWord ++ (gap.text ++ segment.text)) (by simpa using hg) (by simp)
    rw [← List.append_assoc] at hw
    rw [beginsClause_fromWord hw.of_append] at hc
    cases hc
  | @specifier trivia gap quote _ _ hg hw =>
    obtain ⟨rfl, rfl⟩ := @hfirst _ (fromWord ++ (gap.text ++ (Segment.string quote body).text))
      (by simpa using hg) (by simp)
    rw [← List.append_assoc] at hw
    rw [beginsClause_fromWord hw.of_append] at hc
    cases hc

/-- An import of types is one without its comments, if they do not bring words together. -/
theorem Declares.isTypeOnly_uncommented (h : Declares segment body rest) (hj : segment.joins = false)
    (ht : isTypeOnly segment.text = true) :
  isTypeOnly segment.uncommented.text = true
  := by
  have htype : ∀ text : Text, isSettled (typeWord ++ text) = true :=
    fun text => isSettled_cons (by decide) (by decide) _
  cases h with
  | @bare gap quote _ _ hw hg hq hb =>
    rw [Segment.text_append, Segment.text_of, isTypeOnly_append_iff, Segment.text_append] at ht
    obtain ⟨blanks, gap', clause, heq, -, hblanks, -⟩ := ht
    obtain ⟨-, hfirst⟩ := hg.eq_of_isBlank hblanks (htype (gap' ++ clause ++ rest))
      (by rw [← List.append_assoc, heq]; simp)
    obtain rfl : quote = 't' := by simpa [typeWord] using congrArg List.head? hfirst
    exact absurd hq (by decide)
  | @clause gap segment _ _ hw hg hq hr hc =>
    rw [Segment.text_append, Segment.text_of, isTypeOnly_append_iff, Segment.text_append] at ht
    obtain ⟨blanks, blanks', clause, heq, hn, hblanks, hn', hblanks', -, hclause⟩ := ht
    obtain ⟨rfl, hfirst⟩ := hg.eq_of_isBlank hblanks (htype (blanks' ++ clause ++ rest))
      (by rw [← List.append_assoc, heq]; simp)
    have htext : segment.text = typeWord ++ (blanks' ++ clause) := by
      apply @List.append_cancel_right _ _ rest
      rw [hfirst]
      simp
    have hword : IsWord typeWord (blanks' ++ clause ++ rest) := by
      refine .mk (by decide) (by decide) ?_
      obtain ⟨c, blanks', rfl⟩ := List.exists_cons_of_ne_nil hn'
      rw [List.all_cons, Bool.and_eq_true] at hblanks'
      simp [stops, isIdentifierPart_of_isBlank hblanks'.1]
    obtain ⟨behind, rfl, hbehind, hc⟩ := hc.exists_of_word hword (by decide) (by decide) htext
    have hjoins := Segment.joins_of_append (Segment.joins_of_append hj)
    obtain ⟨clause', hclause', hbegins⟩ :=
      hc.exists_beginsClause (Segment.joins_of_append hjoins) hblanks' hclause hbehind
    have htypes : isTypeOnly (importWord ++ (blanks ++ (typeWord ++ (blanks' ++ clause')))) = true :=
      isTypeOnly_append_iff.mpr
        ⟨blanks, blanks', clause', rfl, hn, hblanks, hn', hblanks', stops_isBlank_of_beginsClause hbegins, hbegins⟩
    simpa [hclause'] using htypes

end

end ImportCensus.Scan
