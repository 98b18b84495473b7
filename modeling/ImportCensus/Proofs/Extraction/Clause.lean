import ImportCensus.Proofs.Extraction.Spelling

/-!
# Written clauses are read back

What an import brings into scope is told from the characters in front of its specifier.  On a
written declaration each of the four readings gives what the declaration is made of, whatever the
names are: `type`, `from` and `as` are read as names where they stand for names.
-/

namespace ImportCensus.Written

open Text Scan Clause

/-! ### Words and blanks -/

theorem inNames_isNamePart :
  InNames isNamePart
  := fun _ _ h => h

/-- Blanks in front of something else are skipped. -/
theorem skipBlanks_append {gap rest : Text} (hg : gap.all isGap = true)
    (hr : stops isBlank rest = true) :
  skipBlanks (gap ++ rest) = rest
  := by
  apply dropWhile_append_of_stops _ hr
  rw [List.all_eq_true] at hg ⊢
  intro c hc
  apply isBlank_of_isGap (hg c hc)

/-- Blanks in front of something else are skipped, if there is one at least. -/
theorem skipBlanks₁?_append {gap rest : Text} (hg : gap.all isGap = true)
    (hr : stops isBlank rest = true) :
  skipBlanks₁? (gap ++ rest) = if gap = [] then none else some rest
  := by
  cases gap with
  | nil =>
    cases rest with
    | nil => rfl
    | cons c rest =>
      have hc : isBlank c = false := by simpa [stops] using hr
      simp [skipBlanks₁?, hc]
  | cons c gap =>
    rw [List.all_cons, Bool.and_eq_true] at hg
    simp [skipBlanks₁?, isBlank_of_isGap hg.1, skipBlanks_append hg.2 hr]

/-- A word is read in front of a text only where the text begins with the same word. -/
theorem behindWord?_append {word name rest : Text} (hw : word.all isNamePart = true)
    (hn : name.all isNamePart = true) (hr : stops isNamePart rest = true) :
  behindWord? word (name ++ rest) = if name = word then skipBlanks₁? rest else none
  := by
  induction word generalizing name with
  | nil =>
    cases name with
    | nil => rfl
    | cons c name =>
      rw [List.all_cons, Bool.and_eq_true] at hn
      simp [behindWord?, after?, skipBlanks₁?, isBlank_of_isNamePart hn.1]
  | cons w word ih =>
    rw [List.all_cons, Bool.and_eq_true] at hw
    cases name with
    | nil =>
      cases rest with
      | nil => rfl
      | cons c rest =>
        have hc : w ≠ c := by
          rintro rfl
          simp [stops, hw.1] at hr
        simp [behindWord?, after?, hc]
    | cons c name =>
      rw [List.all_cons, Bool.and_eq_true] at hn
      by_cases hc : w = c
      · have hrest := ih hw.2 hn.2
        simp only [behindWord?] at hrest
        simp [behindWord?, after?, hc, hrest]
      · simp [behindWord?, after?, hc, Ne.symm hc]

/-- A word is read in front of spelled tokens only where it is the first of them, and blanks stand
behind it. -/
theorem behindWord?_of_spells (word : Text) (hw : word.all isNamePart = true) {name : Name}
    {tokens : List Token} {text : Text} (h : Spells (.word name :: tokens) text) :
  ∃ gap rest, text = name.text ++ (gap ++ rest) ∧ gap.all isGap = true ∧ Spells tokens rest
    ∧ (tokens.head?.any Token.isWord = true → gap ≠ [])
    ∧ behindWord? word text = if name.text = word ∧ gap ≠ [] then some rest else none
  := by
  cases h with
  | @cons _ _ gap rest hg hword hs =>
    refine ⟨gap, rest, rfl, hg, hs, hword rfl, ?_⟩
    have hstops : stops isNamePart (gap ++ (rest ++ [])) = true :=
      hs.stops_behind_word hg (hword rfl) inNames_isNamePart rfl
    rw [List.append_nil] at hstops
    rw [Token.text, behindWord?_append hw name.all_isNamePart hstops,
      skipBlanks₁?_append hg hs.stops_isBlank]
    by_cases hgap : gap = []
    · simp [hgap]
    · simp [hgap]

/-- Nothing is read as a word in front of tokens that begin with no word. -/
theorem behindWord?_of_not_isWord {word : Text} (hw : word.all isNamePart = true) (hn : word ≠ [])
    {tokens : List Token} (ht : tokens.head?.any Token.isWord = false) {text : Text}
    (h : Spells tokens text) :
  behindWord? word text = none
  := by
  have hstops : stops isNamePart ([] ++ (text ++ [])) = true :=
    h.stops_behind_word rfl (by simp [ht]) inNames_isNamePart rfl
  rw [List.nil_append, List.append_nil] at hstops
  have hbehind : behindWord? word ([] ++ text) = if [] = word then skipBlanks₁? text else none :=
    behindWord?_append hw rfl hstops
  rwa [List.nil_append, if_neg hn.symm] at hbehind

/-! ### The default export -/

/-- What a clause begins with: the name of the default export, where a comma or the word `from`
follows it. -/
inductive Begins : List Token → Option Name → Prop where
  | other {tokens : List Token} (h : tokens.head?.any Token.isWord = false) :
    Begins tokens none
  | comma (name : Name) (tokens : List Token) :
    Begins (.word name :: .comma :: tokens) (some name)
  | source (name : Name) (tokens : List Token) :
    Begins (.word name :: .word .sourcing :: tokens) (some name)

/-- No name is read where the first token is no word. -/
theorem takeWhile_of_not_isWord {tokens : List Token}
    (ht : tokens.head?.any Token.isWord = false) {text : Text} (h : Spells tokens text) :
  text.takeWhile isNameCharacter = []
  := by
  have hstops : stops isNameCharacter ([] ++ (text ++ [])) = true :=
    h.stops_behind_word rfl (by simp [ht]) inNames_isNameCharacter rfl
  rw [List.nil_append, List.append_nil] at hstops
  have htake : ([] ++ text).takeWhile isNameCharacter = [] := takeWhile_append_of_stops rfl hstops
  exact htake

theorem Name.all_isNameCharacter (name : Name) :
  name.text.all isNameCharacter = true
  := by
  rw [List.all_eq_true]
  intro c hc
  have hpart := name.isNamePart_of_mem hc
  rwa [isNameCharacter_eq (toNat_lt_of_isNamePart hpart)]

/-- The word `from` is read in front of spelled tokens. -/
theorem beginsFrom_of_spells {tokens : List Token} {text : Text}
    (h : Spells (.word .sourcing :: tokens) text) :
  beginsFrom text = true
  := by
  cases h with
  | @cons _ _ gap rest hg hword hs =>
    have hends : stops isWordCharacter (gap ++ (rest ++ [])) = true :=
      hs.stops_behind_word hg (hword rfl) inNames_isWordCharacter rfl
    have hfrom : after? ['f', 'r', 'o', 'm'] (fromWord ++ (gap ++ rest)) = some (gap ++ rest) :=
      after?_append fromWord _
    rw [List.append_nil] at hends
    rw [beginsFrom]
    simp only [Token.text, Name.sourcing, hfrom]
    cases hrest : gap ++ rest with
    | nil => rfl
    | cons c tail => simpa [hrest, stops, wordEnds] using hends

theorem Name.isEmpty_text (name : Name) :
  name.text.isEmpty = false
  := by
  obtain ⟨c, rest, ht, -⟩ := name.exists_cons
  simp [ht]

/-- The default export of an import is read back. -/
theorem defaultName?_eq {first : Name} {tokens : List Token} {default : Option Name}
    (hb : Begins tokens default) (hf : first = .importing ∨ default = none) {text : Text}
    (hs : Spells (.word first :: tokens) text) :
  defaultName? text = default.map Name.text
  := by
  obtain ⟨gap, rest, rfl, hg, hrest, hw, hbehind⟩ :=
    behindWord?_of_spells importWord (by decide) hs
  have hbehind : behindWord? ['i', 'm', 'p', 'o', 'r', 't'] (first.text ++ (gap ++ rest))
      = if first.text = importWord ∧ gap ≠ [] then some rest else none := hbehind
  rw [defaultName?, hbehind]
  cases hb with
  | other ht =>
    have hname := takeWhile_of_not_isWord ht hrest
    by_cases hread : first.text = importWord ∧ gap ≠ []
    · simp [hread, hname]
    · simp [hread]
  | comma name tokens =>
    obtain rfl : first = .importing := by simpa using hf
    rw [if_pos ⟨rfl, hw rfl⟩]
    cases hrest with
    | @cons _ _ gap₁ rest₁ hg₁ hw₁ hs₁ =>
      have hends : stops isNameCharacter (gap₁ ++ (rest₁ ++ [])) = true :=
        hs₁.stops_behind_word hg₁ (hw₁ rfl) inNames_isNameCharacter rfl
      rw [List.append_nil] at hends
      have hskip := skipBlanks_append hg₁ hs₁.stops_isBlank
      have hhead : rest₁.head? = some ',' := by
        cases hs₁
        rfl
      simp only [Token.text, takeWhile_append_of_stops name.all_isNameCharacter hends,
        dropWhile_append_of_stops name.all_isNameCharacter hends, hskip, hhead, name.isEmpty_text]
      rfl
  | source name tokens =>
    obtain rfl : first = .importing := by simpa using hf
    rw [if_pos ⟨rfl, hw rfl⟩]
    cases hrest with
    | @cons _ _ gap₁ rest₁ hg₁ hw₁ hs₁ =>
      have hends : stops isNameCharacter (gap₁ ++ (rest₁ ++ [])) = true :=
        hs₁.stops_behind_word hg₁ (hw₁ rfl) inNames_isNameCharacter rfl
      rw [List.append_nil] at hends
      have hskip : skipBlanks₁? (gap₁ ++ rest₁) = some rest₁ := by
        rw [skipBlanks₁?_append hg₁ hs₁.stops_isBlank, if_neg (hw₁ rfl rfl)]
      simp [Token.text, takeWhile_append_of_stops name.all_isNameCharacter hends,
        dropWhile_append_of_stops name.all_isNameCharacter hends, hskip, beginsFrom_of_spells hs₁,
        name.isEmpty_text]

/-! ### Imports of types -/

/-- Behind the first word of a statement its other tokens are spelled. -/
theorem spells_of_behindFirstWord? {first : Name} {tokens : List Token} {text behind : Text}
    (hs : Spells (.word first :: tokens) text) (h : behindFirstWord? text = some behind) :
  Spells tokens behind
  := by
  have hword : ∀ {word : Text}, word.all isNamePart = true → behindWord? word text = some behind →
      Spells tokens behind := by
    intro word hw h
    obtain ⟨gap, rest, rfl, hg, hrest, -, hbehind⟩ := behindWord?_of_spells word hw hs
    rw [hbehind] at h
    split at h
    · cases h
      exact hrest
    · cases h
  rw [behindFirstWord?, Option.or_eq_some_iff] at h
  rcases h with h | ⟨-, h⟩
  · apply hword (by decide) h
  · apply hword (by decide) h

/-- No clause begins behind a name that a comma or the word `from` follows. -/
theorem beginsClause_of_begins {name : Name} {tokens : List Token} {default : Option Name}
    (hb : Begins (.word name :: tokens) default) {text : Text} (hs : Spells tokens text) :
  beginsClause text = false
  := by
  cases hb with
  | other h => cases h
  | comma =>
    cases hs
    rfl
  | source =>
    have hfrom := beginsFrom_of_spells hs
    cases text with
    | nil => rfl
    | cons c text => simp [beginsClause, hfrom]

/-- A declaration of values is not taken for one of types, even where its default export is named
`type`. -/
theorem isTypeOnly_eq_false {first : Name} {tokens : List Token} {default : Option Name}
    (hb : Begins tokens default) {text : Text} (hs : Spells (.word first :: tokens) text) :
  isTypeOnly text = false
  := by
  unfold isTypeOnly
  split
  · rfl
  · rename_i rest h
    obtain ⟨behind, hbehind, htype⟩ := Option.bind_eq_some_iff.mp h
    have hspells := spells_of_behindFirstWord? hs hbehind
    cases hword : tokens.head?.any Token.isWord with
    | false =>
      rw [behindWord?_of_not_isWord (by decide) (by decide) hword hspells] at htype
      cases htype
    | true =>
      cases tokens with
      | nil => cases hword
      | cons token tokens =>
        cases token with
        | word name =>
          obtain ⟨gap, rest', rfl, -, hrest, -, hread⟩ :=
            behindWord?_of_spells ['t', 'y', 'p', 'e'] (by decide) hspells
          rw [hread] at htype
          split at htype
          · cases htype
            apply beginsClause_of_begins hb hrest
          · cases htype
        | _ => cases hword

/-! ### The whole module -/

/-- A character that is not blank stands in a text where it stands in a token. -/
theorem Spells.mem_iff {tokens : List Token} {text : Text} (hs : Spells tokens text) {c : Char}
    (hc : isGap c = false) :
  c ∈ text ↔ ∃ token ∈ tokens, c ∈ token.text
  := by
  induction hs with
  | nil => simp
  | @cons token tokens gap text hg hw h ih =>
    have hgap : c ∉ gap := by
      intro hmem
      rw [List.all_eq_true.mp hg c hmem] at hc
      cases hc
    simp [hgap, ih]

theorem Name.not_mem_text {c : Char} (hc : isNamePart c = false) (name : Name) :
  c ∉ name.text
  := by
  intro hmem
  rw [name.isNamePart_of_mem hmem] at hc
  cases hc

theorem star_mem_text_iff {token : Token} (h : ∀ q, token ≠ .quoted q) :
  '*' ∈ token.text ↔ token = .star
  := by
  cases token with
  | word name => simpa [Token.text] using name.not_mem_text (by decide)
  | star => simp [Token.text]
  | comma => simp [Token.text]
  | opening b => cases b <;> simp [Token.text, Bracket.opening]
  | closing b => cases b <;> simp [Token.text, Bracket.closing]
  | quoted q => exact absurd rfl (h q)

/-- Bindings hold no tokens but words and commas. -/
theorem not_mem_bindingTokens (token : Token) (hw : token.isWord = false) (hc : token ≠ .comma)
    (bindings : List Binding) :
  token ∉ bindingTokens bindings
  := by
  intro hmem
  rcases isInner_of_mem_bindingTokens hmem with h | ⟨name, rfl⟩
  · apply hc h
  · cases hw

/-- No specifier stands in front of the specifier. -/
theorem Form.quoted_not_mem (form : Form) (q : Quoted) :
  .quoted q ∉ .word form.firstWord :: form.clause
  := by
  have hbindings := not_mem_bindingTokens (.quoted q) rfl nofun
  cases form with
  | _ => simp [Form.clause, blockTokens, hbindings]

/-- The forms that import a module as a whole are those with a star. -/
theorem Form.star_mem_iff (form : Form) :
  .star ∈ .word form.firstWord :: form.clause ↔ form.whole = true
  := by
  have hbindings := not_mem_bindingTokens .star rfl nofun
  cases form with
  | _ => simp [Form.clause, Form.whole, blockTokens, hbindings]

/-- A star is read back. -/
theorem takesAll_eq {form : Form} {text : Text}
    (hs : Spells (.word form.firstWord :: form.clause) text) :
  takesAll text = form.whole
  := by
  rw [Bool.eq_iff_iff, takesAll, List.contains_iff_mem, hs.mem_iff (by decide), ← form.star_mem_iff]
  have hstar : ∀ token ∈ .word form.firstWord :: form.clause,
      ('*' ∈ token.text ↔ token = .star) := by
    intro token htoken
    apply star_mem_text_iff
    rintro q rfl
    apply form.quoted_not_mem q htoken
  constructor
  · rintro ⟨token, htoken, hmem⟩
    rwa [(hstar token htoken).mp hmem] at htoken
  · intro htoken
    exact ⟨.star, htoken, (hstar _ htoken).mpr rfl⟩

/-! ### Curly brackets -/

/-- Nothing is read up to a character that is missing. -/
theorem upToLast?_eq_none {c : Char} {text : Text} (h : c ∉ text) :
  upToLast? c text = none
  := by
  induction text with
  | nil => rfl
  | cons d text ih =>
    rw [List.mem_cons, not_or] at h
    simp [upToLast?, ih h.2, Ne.symm h.1]

/-- The text in front of the last of the characters is read. -/
theorem upToLast?_append {c : Char} (front : Text) {behind : Text} (h : c ∉ behind) :
  upToLast? c (front ++ c :: behind) = some front
  := by
  induction front with
  | nil => simp [upToLast?, upToLast?_eq_none h]
  | cons d front ih => simp [upToLast?, ih]

/-- A token that may stand in front of curly brackets: a word, a comma or a star. -/
def Token.isLoose : Token → Bool
  | word _ => true
  | star => true
  | comma => true
  | _ => false

/-- A character that is passed in search of curly brackets. -/
def isPassed (c : Char) : Bool :=
  isNameCharacter c || isBlank c || c == ',' || c == '*'

/-- Tokens other than brackets are passed on the way to a block. -/
theorem Spells.all_isPassed {tokens : List Token} (ht : tokens.all Token.isLoose = true)
    {text : Text} (hs : Spells tokens text) :
  text.all isPassed = true
  := by
  rw [List.all_eq_true] at ht ⊢
  apply hs.forall_mem (p := fun c => isPassed c = true)
  · intro c hc
    simp [isPassed, isBlank_of_isGap hc]
  · intro token htoken c hc
    have hloose := ht token htoken
    cases token with
    | word name =>
      have hname := List.all_eq_true.mp name.all_isNameCharacter c hc
      simp [isPassed, hname]
    | star =>
      obtain rfl := List.mem_singleton.mp hc
      decide
    | comma =>
      obtain rfl := List.mem_singleton.mp hc
      decide
    | opening b => cases hloose
    | closing b => cases hloose
    | quoted q => cases hloose

/-- No block is read where no bracket is spelled. -/
theorem block?_eq_none {tokens : List Token} (ht : tokens.all Token.isLoose = true) {text : Text}
    (hs : Spells tokens text) :
  block? text = none
  := by
  have hdrop : text.dropWhile (fun c => isNameCharacter c || isBlank c || c == ',' || c == '*')
      = [] := by
    have hall := hs.all_isPassed ht
    rw [← List.append_nil text]
    apply dropWhile_append_of_stops hall rfl
  rw [block?, hdrop]

/-- The block that is read spells the bindings in the brackets. -/
theorem block?_of_spells {tokens : List Token} (ht : tokens.all Token.isLoose = true)
    {bindings : List Binding} {text : Text} (hs : Spells (tokens ++ blockTokens bindings) text) :
  ∃ gap inner, gap.all isGap = true ∧ Spells (bindingTokens bindings) inner
    ∧ block? text = some (gap ++ inner)
  := by
  obtain ⟨front, behind, hfront, hblock, rfl⟩ := hs.exists_of_append
  obtain ⟨gap, inner, gap', rest, hg, hinner, hg', hrest, rfl⟩ := hblock.exists_of_curly
  refine ⟨gap, inner, hg, hinner, ?_⟩
  have hdrop : (front ++ '{' :: (gap ++ (inner ++ '}' :: (gap' ++ rest)))).dropWhile
      (fun c => isNameCharacter c || isBlank c || c == ',' || c == '*')
      = '{' :: (gap ++ (inner ++ '}' :: (gap' ++ rest))) := by
    have hall := hfront.all_isPassed ht
    have hstop : isPassed '{' = false := by decide
    apply dropWhile_append_of_stops hall
    simp [stops, hstop]
  have hlast : '}' ∉ gap' ++ rest := by
    rw [List.mem_append, not_or]
    constructor
    · intro hmem
      have hgap := List.all_eq_true.mp hg' _ hmem
      exact absurd hgap (by decide)
    · rw [hrest.mem_iff (by decide)]
      rintro ⟨token, htoken, hmem⟩
      obtain rfl := List.mem_singleton.mp htoken
      exact absurd hmem (by decide)
  rw [block?, hdrop]
  simp only
  rw [← List.append_assoc]
  apply upToLast?_append _ hlast

end ImportCensus.Written
