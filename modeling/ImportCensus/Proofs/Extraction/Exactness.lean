import ImportCensus.Proofs.Extraction.Items
import ImportCensus.Proofs.Extraction.Recognition

/-!
# Extraction is exact on written modules

A module that is written as a list of declarations is extracted as the list of what the declarations
import, in order and without a second scan.  The scanner finds one occurrence for each declaration,
and the clause, the statement and the specifier at its offsets are read back as they were written.
-/

namespace ImportCensus.Written

open Text Scan Clause Extraction

/-! ### Comments and literals -/

/-- A character that neither begins a comment nor delimits a literal. -/
def IsBare (c : Char) : Prop :=
  c ≠ '/' ∧ Comment.isDelimiter c = false

instance (c : Char) : Decidable (IsBare c) :=
  inferInstanceAs (Decidable (_ ∧ _))

/-- A text without slashes and quotation marks stays. -/
theorem removeFrom_append {text : Text} (h : ∀ c ∈ text, IsBare c) (rest : Text) :
  Comment.removeFrom .code (text ++ rest) = text ++ Comment.removeFrom .code rest
  := by
  induction text with
  | nil => rfl
  | cons c text ih =>
    obtain ⟨hslash, hdelimiter⟩ := h c List.mem_cons_self
    rw [List.cons_append, Comment.removeFrom, hdelimiter]
    · rw [if_neg (by decide), ih, List.cons_append]
      intro d hd
      apply h d (List.mem_cons_of_mem c hd)
    · rintro tail rfl
      exact absurd rfl hslash
    · rintro tail rfl
      exact absurd rfl hslash

/-- A text without slashes and quotation marks has no comments. -/
theorem remove_eq {text : Text} (h : ∀ c ∈ text, IsBare c) :
  Comment.remove text = text
  := by
  have hremove := removeFrom_append h []
  rwa [List.append_nil, Comment.removeFrom, List.append_nil] at hremove

/-- A quoted text stays, whatever it holds. -/
theorem Quoted.removeFrom_append (q : Quoted) (rest : Text) :
  Comment.removeFrom .code (q.text ++ rest) = q.text ++ Comment.removeFrom .code rest
  := by
  have hbody : ∀ body : Text, body.all isPlain = true →
      Comment.removeFrom (.literal q.quote) (body ++ q.quote :: rest)
        = body ++ q.quote :: Comment.removeFrom .code rest := by
    intro body hplain
    induction body with
    | nil =>
      have hbackslash : q.quote ≠ '\\' := of_isQuote (p := fun c => c ≠ '\\') q.isQuote (by decide)
      rw [List.nil_append, Comment.removeFrom, if_pos (.inl rfl), List.nil_append]
      intro c tail hc
      exact absurd hc hbackslash
    | cons c body ih =>
      simp only [List.all_cons, isPlain, isLineBreak, Bool.and_eq_true, Bool.not_eq_true',
        Bool.or_eq_false_iff, bne_iff_ne, beq_eq_false_iff_ne] at hplain
      obtain ⟨⟨⟨hquote, hbackslash⟩, -, hline⟩, hrest⟩ := hplain
      have hc : c ≠ q.quote := by
        rintro rfl
        rw [q.isQuote] at hquote
        cases hquote
      rw [List.cons_append, Comment.removeFrom, if_neg (by simp [hc, hline]), ih hrest, List.cons_append]
      intro d tail hd
      exact absurd hd hbackslash
  obtain ⟨hdelimiter, hslash⟩ := of_isQuote (p := fun c => Comment.isDelimiter c = true ∧ c ≠ '/')
    q.isQuote (by decide)
  rw [Quoted.text, List.cons_append, List.append_assoc, List.singleton_append, Comment.removeFrom,
    hdelimiter, if_pos rfl, hbody q.body q.plain]
  · simp
  · intro tail hc
    exact absurd hc hslash
  · intro tail hc
    exact absurd hc hslash

theorem isBare_of_isItemCharacter {c : Char} (h : isItemCharacter c = true) :
  IsBare c
  := by
  have hc : c.toNat < 128 := by
    simp only [isItemCharacter, Bool.or_eq_true, beq_iff_eq] at h
    rcases h with (h | h) | rfl
    · apply toNat_lt_of_isGap h
    · apply toNat_lt_of_isNamePart h
    · decide
  revert h
  apply of_ascii (p := fun c => isItemCharacter c = true → IsBare c) hc
  decide +kernel

theorem Token.isBare_of_mem {token : Token} (h : ∀ q, token ≠ .quoted q) {c : Char}
    (hc : c ∈ token.text) :
  IsBare c
  := by
  cases token with
  | word name =>
    apply isBare_of_isItemCharacter
    simp [isItemCharacter, name.isNamePart_of_mem hc]
  | star =>
    obtain rfl := List.mem_singleton.mp hc
    decide
  | comma =>
    obtain rfl := List.mem_singleton.mp hc
    decide
  | opening b =>
    obtain rfl := List.mem_singleton.mp hc
    cases b <;> decide
  | closing b =>
    obtain rfl := List.mem_singleton.mp hc
    cases b <;> decide
  | quoted q => exact absurd rfl (h q)

/-- The contents of a written literal are read back. -/
theorem literal?_eq (q : Quoted) {lead behind : Text} (hl : lead.all isGap = true)
    (hb : behind.all isGap = true) :
  literal? (lead ++ (q.text ++ behind)) = some q.body
  := by
  have hskip : skipBlanks (lead ++ (q.text ++ behind)) = q.quote :: (q.body ++ q.quote :: behind) := by
    rw [skipBlanks_append hl]
    · simp [Quoted.text]
    · exact (stops_append (Token.quoted q).text_ne_nil behind).trans
        (Token.quoted q).stops_isBlank_text
  have hbody : q.body.all (fun c => !(isQuote c || c == '\n')) = true := by
    have hplain := q.plain
    rw [List.all_eq_true] at hplain ⊢
    intro c hc
    have hcharacter := hplain c hc
    simp only [isPlain, isLineBreak, Bool.and_eq_true, Bool.not_eq_true', Bool.or_eq_false_iff]
      at hcharacter
    simp [hcharacter.1.1, hcharacter.2.2]
  have hquote : stops (fun c => !(isQuote c || c == '\n')) (q.quote :: behind) = true := by
    simp [stops, q.isQuote]
  unfold literal?
  rw [hskip]
  simp only [dropWhile_append_of_stops hbody hquote, takeWhile_append_of_stops hbody hquote]
  simp only [q.isQuote, beq_self_eq_true, all_isBlank_of_isGap hb, Bool.and_self, if_true]

/-! ### Forms -/

namespace Form

variable (form : Form)

/-- The clause of a form begins with its default name. -/
theorem begins :
  Begins form.clause form.defaultName?
  := by
  cases form with
  | importDefault name => exact .source name []
  | importWhole whole => exact .other rfl
  | importItems items => exact .other rfl
  | importDefaultItems name items => exact .comma name _
  | importDefaultWhole name whole => exact .comma name _
  | importBare => exact .other rfl
  | exportItems items => exact .other rfl
  | exportAll => exact .other rfl
  | exportWhole whole => exact .other rfl
  | importDynamic => exact .other rfl

/-- No export has a default name. -/
theorem firstWord_or :
  form.firstWord = .importing ∨ form.defaultName? = none
  := by
  cases form with
  | exportItems items => exact .inr rfl
  | exportAll => exact .inr rfl
  | exportWhole whole => exact .inr rfl
  | _ => exact .inl rfl

/-- The items of a form are read back. -/
theorem named_eq {form : Form} (h : form ≠ .importDynamic) {text : Text}
    (hs : Spells (.word form.firstWord :: form.clause) text) :
  named text = form.items.map fun item => item.name.text
  := by
  have hblock : ∀ (tokens : List Token) {items : List Item}, tokens.all Token.isLoose = true →
      Spells (tokens ++ blockTokens (items.map Item.toBinding)) text →
      named text = items.map fun item => item.name.text := by
    intro tokens items ht hs
    obtain ⟨gap, inner, hg, hinner, hread⟩ := block?_of_spells ht hs
    rw [named, hread]
    apply names_of_spells hg hinner
  have hnone : ∀ {tokens : List Token}, tokens.all Token.isLoose = true → Spells tokens text →
      named text = [] := by
    intro tokens ht hs
    rw [named, block?_eq_none ht hs]
  cases form with
  | importItems items => apply hblock [.word .importing] rfl hs
  | importDefaultItems name items =>
    apply hblock [.word .importing, .word name, .comma] rfl hs
  | exportItems items => apply hblock [.word .exporting] rfl hs
  | importDynamic => exact absurd rfl h
  | _ => apply hnone rfl hs

/-- The clause of a form has no comments. -/
theorem remove_eq {text : Text} (hs : Spells (.word form.firstWord :: form.clause) text) :
  Comment.remove text = text
  := by
  apply Written.remove_eq
  apply hs.forall_mem (p := IsBare)
  · intro c hc
    apply isBare_of_isItemCharacter
    simp [isItemCharacter, hc]
  · intro token htoken c hc
    apply Token.isBare_of_mem _ hc
    rintro q rfl
    apply form.quoted_not_mem q htoken

end Form

/-! ### Records -/

/-- A source behind a clause does not change what it begins with. -/
theorem Begins.append_quoted {tokens : List Token} {default : Option Name}
    (h : Begins tokens default) (q : Quoted) (more : List Token) :
  Begins (tokens ++ .quoted q :: more) default
  := by
  cases h with
  | other h =>
    apply Begins.other
    cases tokens with
    | nil => rfl
    | cons token tokens => exact h
  | comma name tokens => exact .comma name _
  | source name tokens => exact .source name _

/-- No written declaration imports types only. -/
theorem isTypeOnly_eq {d : Declaration} {text : Text} {more : List Token}
    (hs : Spells (.word d.form.firstWord :: (d.form.clause ++ .quoted d.source :: more)) text) :
  isTypeOnly text = false
  := isTypeOnly_eq_false (d.form.begins.append_quoted d.source more) hs

/-- The record of an occurrence is what the declaration imports. -/
theorem Shows.record?_eq {source : Text} {o : Occurrence} {d : Declaration}
    (h : Shows source o d) :
  Extraction.record? source o = d.record?
  := by
  cases h with
  | @static front hform hs hd ht hstatement hfront =>
    have htype : isTypeOnly (front ++ d.source.text) = false := by
      have hspells := hs.append_singleton (.quoted d.source) rfl
      apply isTypeOnly_eq hspells
    have hspecifier : specifier? source o = some d.source.body := by
      rw [specifier?, hd, ht]
      rfl
    have hdefault := defaultName?_eq d.form.begins d.form.firstWord_or hs
    rw [Extraction.record?, hspecifier, Option.bind_some, Declaration.record?]
    cases Specifier.classify d.source.body with
    | none => rfl
    | some specifier =>
      simp only [hstatement, htype, Bool.or_false, hd, hfront, d.form.remove_eq hs, hdefault,
        takesAll_eq hs, Form.named_eq hform hs, Option.isSome_map, List.isEmpty_map,
        Bool.false_eq_true, if_false, Bool.not_or, Bool.not_not, Option.not_isSome]
  | @dynamic lead behind statement hform hs hd hl hb ht hstatement =>
    have htype : isTypeOnly statement = false := isTypeOnly_eq hs
    have hspecifier : specifier? source o = some d.source.body := by
      rw [specifier?, hd, ht, if_pos rfl, literal?_eq d.source hl hb]
    rw [Extraction.record?, hspecifier, Option.bind_some, Declaration.record?]
    cases Specifier.classify d.source.body with
    | none => rfl
    | some specifier =>
      simp only [hstatement, htype, Bool.or_false, hd, if_true, hform]
      rfl

/-- Occurrences that show declarations have the records of these. -/
theorem filterMap_record?_eq {source : Text} {found : List Occurrence}
    {declarations : List Declaration} (h : List.Forall₂ (Shows source) found declarations) :
  found.filterMap (Extraction.record? source) = declarations.filterMap Declaration.record?
  := by
  induction h with
  | nil => rfl
  | cons ho _ ih => rw [List.filterMap_cons, List.filterMap_cons, ho.record?_eq, ih]

/-- A written module is extracted exactly: each declaration that imports something other than a
macro has its record, in order, and nothing is salvaged. -/
theorem extract_of_prints {declarations : List Declaration} {source : Text}
    (h : Prints declarations source) :
  extract source ".js".toList
    = { fallback := none, outcome := .ok (declarations.filterMap Declaration.record?) }
  := by
  obtain ⟨found, hscan, hshows⟩ := h.scan_eq
  have hrecords : records source = .ok (declarations.filterMap Declaration.record?) := by
    rw [records, hscan, ← filterMap_record?_eq hshows]
    rfl
  have hmarkup : holdsMarkup ".js".toList = false := by decide
  simp only [extract, hmarkup, hrecords]
  rfl

/-- An import whose default export is named `type`, with an item named `from` that is renamed to
`as`, and a dynamic import behind it. -/
theorem extract_of_prints_type_from_as :
  Prints
      [⟨.importDefaultItems ⟨['t', 'y', 'p', 'e'], rfl⟩
          [⟨⟨.sourcing, some .aliasing⟩, fun _ => ⟨by decide, by decide⟩⟩], ⟨'\'', ['x'], rfl, rfl⟩⟩,
        ⟨.importDynamic, ⟨'"', ['y'], rfl, rfl⟩⟩]
      "import type,\x7bfrom as as\x7dfrom'x';import( \"y\" )\n".toList
    ∧ extract "import type,\x7bfrom as as\x7dfrom'x';import( \"y\" )\n".toList ".js".toList
      = {
        fallback := none
        outcome := .ok [
          { specifier := ['x'], defaultName := some "type".toList, named := ["from".toList] },
          { specifier := ['y'], importAll := true }] }
  := by
  have himport : Spells (Declaration.tokens ⟨.importDefaultItems ⟨['t', 'y', 'p', 'e'], rfl⟩
      [⟨⟨.sourcing, some .aliasing⟩, fun _ => ⟨by decide, by decide⟩⟩], ⟨'\'', ['x'], rfl, rfl⟩⟩) _ :=
    @spells_write [(.word .importing, [' ']), (.word ⟨['t', 'y', 'p', 'e'], rfl⟩, []), (.comma, []),
      (.opening .curly, []), (.word .sourcing, [' ']), (.word .aliasing, [' ']),
      (.word .aliasing, []), (.closing .curly, []), (.word .sourcing, []),
      (.quoted ⟨'\'', ['x'], rfl, rfl⟩, [])] (by decide)
  have hdynamic : Spells (Declaration.tokens ⟨.importDynamic, ⟨'"', ['y'], rfl, rfl⟩⟩) _ :=
    @spells_write [(.word .importing, []), (.opening .round, [' ']),
      (.quoted ⟨'"', ['y'], rfl, rfl⟩, [' ']), (.closing .round, [])] (by decide)
  have hend : Prints [] [] := .nil rfl
  have hprints := @Prints.cons _ _ [] _ _ ';' rfl himport (.inl rfl)
    (@Prints.cons _ _ [] _ _ '\n' rfl hdynamic (.inr rfl) hend)
  exact ⟨hprints, (extract_of_prints hprints).trans rfl⟩

end ImportCensus.Written
