import ImportCensus.Proofs.Extraction.Clause
import ImportCensus.Proofs.Text.Parts

/-!
# Written items are read back

The text between curly brackets is cut at its commas and at its aliases, and blanks are taken off
the parts.  An alias is read wherever `as` stands between word boundaries, and a dollar sign is such a boundary
too.  So a name that looks like that word hides behind its alias; every other one is read back.
-/

namespace ImportCensus.Written

open Text Scan Clause

/-- The parts of a text with more characters in front of the first part. -/
def extend (front : Text) : List Text → List Text
  | [] => [front]
  | part :: parts => (front ++ part) :: parts

theorem extend_extend (front front' : Text) (parts : List Text) :
  extend front (extend front' parts) = extend (front ++ front') parts
  := by
  cases parts with
  | nil => rfl
  | cons part parts => simp [extend]

theorem extend_nil {parts : List Text} (h : parts ≠ []) :
  extend [] parts = parts
  := by
  cases parts with
  | nil => exact absurd rfl h
  | cons part parts => rfl

/-- Whether a text is what may stand behind an item: nothing, or a comma and more. -/
def EndsItem (text : Text) : Prop :=
  text = [] ∨ ∃ rest, text = ',' :: rest

/-- Behind an item no name goes on, also behind a gap. -/
theorem EndsItem.stops_gap_append {text : Text} (h : EndsItem text) {p : Char → Bool}
    (hp : InNames p) {gap : Text} (hg : gap.all isGap = true) :
  stops p (gap ++ text) = true
  := by
  have htext : stops p text = true := by
    rcases h with rfl | ⟨rest, rfl⟩
    · rfl
    · exact @Token.stops_text _ hp .comma rfl
  apply Spells.nil.stops_behind_word hg (fun h => absurd h (by decide)) hp htext

/-- An item does not end in front of a blank. -/
theorem EndsItem.stops_isBlank {text : Text} (h : EndsItem text) :
  stops isBlank text = true
  := by
  rcases h with rfl | ⟨rest, rfl⟩
  · rfl
  · rfl

/-! ### Aliases -/

/-- An alias begins with its first letter. -/
theorem behindAlias?_of_ne {c : Char} (hc : c ≠ 'a') (rest : Text) :
  behindAlias? (c :: rest) = none
  := by
  simp [behindAlias?, behindWord?, after?, Ne.symm hc]

section

variable {run text gap : Text}

/-- No alias is read where other characters of a name than `as` stand in front. -/
theorem behindAlias?_of_ne_asWord (hn : run.all isNamePart = true)
    (ht : stops isNamePart text = true) (h : run ≠ asWord) :
  behindAlias? (run ++ text) = none
  := by
  have hbehind : behindWord? ['a', 's'] (run ++ text)
      = if run = asWord then skipBlanks₁? text else none :=
    behindWord?_append (by decide) hn ht
  rw [behindAlias?, hbehind, if_neg h]

/-- The word that names an alias is read with blanks behind it. -/
theorem behindWord?_asWord (hg : gap.all isGap = true) (ht : stops isNamePart (gap ++ text) = true)
    (hb : stops isBlank text = true) :
  behindWord? ['a', 's'] (asWord ++ (gap ++ text)) = if gap = [] then none else some text
  := by
  have hbehind : behindWord? ['a', 's'] (asWord ++ (gap ++ text))
      = if asWord = ['a', 's'] then skipBlanks₁? (gap ++ text) else none :=
    behindWord?_append (by decide) (by decide) ht
  have has : asWord = ['a', 's'] := rfl
  rw [hbehind, if_pos has, skipBlanks₁?_append hg hb]

/-- No alias is read where a comma or the end of the block follows `as`. -/
theorem behindAlias?_asWord_eq_none (hg : gap.all isGap = true) (ht : EndsItem text) :
  behindAlias? (asWord ++ (gap ++ text)) = none
  := by
  rw [behindAlias?, behindWord?_asWord hg (ht.stops_gap_append inNames_isNamePart hg) ht.stops_isBlank]
  by_cases hgap : gap = []
  · rw [if_pos hgap]
  · rw [if_neg hgap]
    rcases ht with rfl | ⟨rest, rfl⟩
    · rfl
    · have hcomma : isNameCharacter ',' = false := by decide
      simp [hcomma]

/-- An alias is read up to the end of its name. -/
theorem behindAlias?_asWord (hg : gap.all isGap = true) (hn : gap ≠ []) (name : Name)
    (ht : stops isNameCharacter text = true) :
  behindAlias? (asWord ++ (gap ++ (name.text ++ text))) = some text
  := by
  have hends : stops isNamePart (gap ++ (name.text ++ text)) = true :=
    stops_gap_append inNames_isNamePart hg hn _
  have hblank : stops isBlank (name.text ++ text) = true :=
    (stops_append (Token.word name).text_ne_nil text).trans (Token.word name).stops_isBlank_text
  have hdrop := dropWhile_append_of_stops name.all_isNameCharacter ht
  rw [behindAlias?, behindWord?_asWord hg hends hblank, if_neg hn]
  obtain ⟨c, rest, hname, hc, -⟩ := name.exists_cons
  have hpart := isNamePart_of_isNameStart hc
  have hcharacter : isNameCharacter c = true := by
    rwa [isNameCharacter_eq (toNat_lt_of_isNamePart hpart)]
  rw [hname, List.cons_append, List.dropWhile_cons_of_pos hcharacter] at hdrop
  simp [hname, hcharacter, hdrop]

end

/-! ### Cutting -/

section

variable {text : Text}

/-- A character that neither is a comma nor begins an alias goes to the first part. -/
theorem cut_cons {boundary : Bool} {c : Char} (hc : c ≠ ',')
    (ha : boundary = true → behindAlias? (c :: text) = none) :
  cut 0 boundary (c :: text) = extend [c] (cut 0 (!isWordCharacter c) text)
  := by
  have halias : (if boundary = true then behindAlias? (c :: text) else none) = none := by
    split
    · apply ha ‹_›
    · rfl
  rw [cut, halias]
  simp only [if_neg hc]
  cases cut 0 (!isWordCharacter c) text with
  | nil => rfl
  | cons part parts => rfl

/-- A comma begins a part. -/
theorem cut_comma (boundary : Bool) :
  cut 0 boundary (',' :: text) = [] :: cut 0 true text
  := by
  have halias : (if boundary = true then behindAlias? (',' :: text) else none) = none := by
    rw [behindAlias?_of_ne (by decide)]
    apply ite_self _
  rw [cut, halias]
  rfl

theorem cut_ne_nil (boundary : Bool) (text : Text) :
  cut 0 boundary text ≠ []
  := by
  cases text with
  | nil => nofun
  | cons c rest =>
    rw [cut]
    split
    · nofun
    · split
      · nofun
      · split <;> nofun

/-- Whether a word may begin behind a text that follows a boundary of words or none. -/
def opens : (boundary : Bool) → Text → Bool
  | boundary, [] => boundary
  | _, c :: rest => opens (!isWordCharacter c) rest

/-- The characters of an alias are left out. -/
theorem cut_skip (run : Text) (boundary : Bool) :
  cut run.length boundary (run ++ text) = cut 0 (opens boundary run) text
  := by
  induction run generalizing boundary with
  | nil => rfl
  | cons c run ih => apply ih _

/-- An alias begins a part behind it. -/
theorem cut_alias {naming behind : Text} (ha : behindAlias? (naming ++ behind) = some behind)
    (hn : naming ≠ []) :
  cut 0 true (naming ++ behind) = [] :: cut 0 (opens true naming) behind
  := by
  cases naming with
  | nil => exact absurd rfl hn
  | cons c rest =>
    have hskip : cut rest.length (!isWordCharacter c) (rest ++ behind)
        = cut 0 (opens (!isWordCharacter c) rest) behind := cut_skip rest _
    have hlength : (c :: (rest ++ behind)).length - behind.length - 1 = rest.length := by
      simp
      omega
    rw [List.cons_append] at ha ⊢
    rw [cut]
    simp only [if_true, ha, hlength, hskip]
    rfl

theorem opens_append_singleton (boundary : Bool) (front : Text) (c : Char) :
  opens boundary (front ++ [c]) = !isWordCharacter c
  := by
  induction front generalizing boundary with
  | nil => rfl
  | cons d front ih => apply ih

/-- A text is kept in which neither a comma stands nor an alias begins. -/
theorem cut_append {run : Text} {boundary : Bool} (hc : ',' ∉ run)
    (ha : ∀ {front behind : Text}, run = front ++ behind → behind ≠ [] → opens boundary front = true →
      behindAlias? (behind ++ text) = none) :
  cut 0 boundary (run ++ text) = extend run (cut 0 (opens boundary run) text)
  := by
  induction run generalizing boundary with
  | nil => exact (extend_nil (cut_ne_nil boundary text)).symm
  | cons c run ih =>
    rw [List.mem_cons, not_or] at hc
    have hread : boundary = true → behindAlias? (c :: (run ++ text)) = none :=
      fun hb => @ha [] (c :: run) rfl (List.cons_ne_nil _ _) hb
    have hrest : cut 0 (!isWordCharacter c) (run ++ text)
        = extend run (cut 0 (opens (!isWordCharacter c) run) text) := by
      apply ih hc.2
      rintro front behind rfl hn ho
      apply ha (List.cons_append ..).symm hn ho
    rw [List.cons_append, cut_cons (Ne.symm hc.1) hread, hrest, extend_extend]
    rfl

/-- A word may begin behind a blank. -/
theorem opens_gap {gap : Text} (hg : gap.all isGap = true) (boundary : Bool) :
  opens boundary gap = (boundary || !gap.isEmpty)
  := by
  cases gap using List.reverseRecOn with
  | nil => simp [opens]
  | append_singleton gap c =>
    have hc : isGap c = true := List.all_eq_true.mp hg c (by simp)
    have hword : isWordCharacter c = false := by
      rw [← Bool.not_eq_true]
      intro h
      have hpart := inNames_isWordCharacter (toNat_lt_of_isGap hc) h
      rw [isNamePart_of_isGap hc] at hpart
      cases hpart
    simp [opens_append_singleton, hword]

/-- Blanks are kept, and a word may begin behind them. -/
theorem cut_gap {gap : Text} (hg : gap.all isGap = true) (boundary : Bool) :
  cut 0 boundary (gap ++ text) = extend gap (cut 0 (boundary || !gap.isEmpty) text)
  := by
  have hmem : ∀ c ∈ gap, isGap c = true := List.all_eq_true.mp hg
  rw [← opens_gap hg]
  apply cut_append
  · intro hcomma
    exact absurd (hmem _ hcomma) (by decide)
  · rintro front behind rfl hn -
    obtain ⟨c, behind, rfl⟩ := List.exists_cons_of_ne_nil hn
    apply behindAlias?_of_ne
    rintro rfl
    exact absurd (hmem 'a' (by simp)) (by decide)

/-- Behind a blank it does not matter what stands in front of it. -/
theorem cut_gap_of_ne_nil {gap : Text} (hg : gap.all isGap = true) (hn : gap ≠ []) (boundary : Bool) :
  cut 0 boundary (gap ++ text) = cut 0 true (gap ++ text)
  := by
  have hempty : gap.isEmpty = false := by simpa using hn
  rw [cut_gap hg, cut_gap hg, hempty, Bool.not_false, Bool.or_true, Bool.true_or]

/-- Whether `as` in front of a text, as a whole word of a name or behind a dollar sign in it, is
read as no alias. -/
def Unaliased (name text : Text) : Prop :=
  behindAlias? (asWord ++ text) = none ∨ name ≠ asWord ∧ ¬ '$' :: asWord <:+ name

/-- The dollar sign is the only character of a name that is no word character. -/
theorem isWordCharacter_eq_false_iff {c : Char} (h : isNamePart c = true) :
  isWordCharacter c = false ↔ c = '$'
  := by
  constructor
  · intro hw
    rw [isWordCharacter_of_lt (toNat_lt_of_isNamePart h)] at hw
    rw [isNamePart, hw, Bool.false_or, beq_iff_eq] at h
    exact h
  · rintro rfl
    decide

/-- Inside of a name a word begins behind a dollar sign only. -/
theorem opens_iff {front : Text} (h : front.all isNamePart = true) :
  opens true front = true ↔ front = [] ∨ ∃ tail, front = tail ++ ['$']
  := by
  cases front using List.reverseRecOn with
  | nil => simp [opens]
  | append_singleton tail c =>
    have hc : isNamePart c = true := List.all_eq_true.mp h c (by simp)
    rw [opens_append_singleton, Bool.not_eq_true', isWordCharacter_eq_false_iff hc]
    simp

theorem comma_not_mem {run : Text} (h : run.all isNamePart = true) :
  ',' ∉ run
  := by
  intro hcomma
  exact absurd (List.all_eq_true.mp h _ hcomma) (by decide)

/-- A name is kept. -/
theorem cut_name (name : Name) (ht : stops isNamePart text = true) (ha : Unaliased name.text text) :
  cut 0 true (name.text ++ text) = extend name.text (cut 0 (opens true name.text) text)
  := by
  apply cut_append (comma_not_mem name.all_isNamePart)
  intro front behind heq hn ho
  have hall := name.all_isNamePart
  rw [heq, List.all_append, Bool.and_eq_true] at hall
  by_cases has : behind = asWord
  · obtain ha | ⟨hne, hsuffix⟩ := ha
    · rw [has, ha]
    · rw [heq, has] at hne hsuffix
      obtain rfl | ⟨tail, rfl⟩ := (opens_iff hall.1).mp ho
      · exact absurd rfl hne
      · exact absurd ⟨tail, by simp⟩ hsuffix
  · apply behindAlias?_of_ne_asWord hall.2 ht has

/-- What stands in front of `as` in a name is kept. -/
theorem cut_front {front : Text} (hf : front.all isNamePart = true) (ht : stops isNamePart text = true) :
  cut 0 true (front ++ (asWord ++ text)) = extend front (cut 0 (opens true front) (asWord ++ text))
  := by
  apply cut_append (comma_not_mem hf)
  rintro tail behind rfl hn -
  rw [List.all_append, Bool.and_eq_true] at hf
  have hall : (behind ++ asWord).all isNamePart = true := by
    rw [List.all_append, hf.2]
    rfl
  rw [← List.append_assoc]
  apply behindAlias?_of_ne_asWord hall ht
  simpa using hn

end

/-! ### Names -/

/-- The names among the parts of a block. -/
def ofParts (parts : List Text) : List Text :=
  (parts.map fun part => strip isQuote (trim part)).filter fun name =>
    !name.isEmpty && !isTypeItem name

/-- The names of a block are those of its parts. -/
theorem names_eq (block : Text) :
  names block = ofParts (cut 0 true block)
  := rfl

theorem ofParts_cons (part : Text) (parts : List Text) :
  ofParts (part :: parts) = ofParts [part] ++ ofParts parts
  := by
  rw [ofParts, List.map_cons, ← List.singleton_append, List.filter_append]
  rfl

theorem stops_of_forall {p : Char → Bool} {text : Text} (h : ∀ c ∈ text, p c = false) :
  stops p text = true
  := by
  cases text with
  | nil => rfl
  | cons c text => simp [stops, h c (by simp)]

/-- Stripping takes off what stands around a text. -/
theorem strip_append {p : Char → Bool} {front text behind : Text} (hf : front.all p = true)
    (hb : behind.all p = true) (hn : text ≠ []) (ht : ∀ c ∈ text, p c = false) :
  strip p (front ++ (text ++ behind)) = text
  := by
  have hfront : stops p (text ++ behind) = true := by
    rw [stops_append hn]
    apply stops_of_forall ht
  have hback : stops p text.reverse = true := by
    apply stops_of_forall
    intro c hc
    apply ht c (List.mem_reverse.mp hc)
  have hbehind : behind.reverse.all p = true := by rw [List.all_reverse, hb]
  rw [strip, dropWhile_append_of_stops hf hfront, List.reverse_append,
    dropWhile_append_of_stops hbehind hback, List.reverse_reverse]

theorem all_isBlank_of_isGap {gap : Text} (hg : gap.all isGap = true) :
  gap.all isBlank = true
  := by
  rw [List.all_eq_true] at hg ⊢
  intro c hc
  apply isBlank_of_isGap (hg c hc)

/-- Blanks between commas are no name. -/
theorem ofParts_gap {gap : Text} (hg : gap.all isGap = true) (parts : List Text) :
  ofParts (gap :: parts) = ofParts parts
  := by
  have hdrop : gap.dropWhile isBlank = [] := by
    rw [← List.append_nil gap]
    apply dropWhile_append_of_stops (all_isBlank_of_isGap hg) rfl
  have htrim : trim gap = [] := by
    rw [trim, strip, hdrop]
    rfl
  have hstrip : strip isQuote [] = [] := rfl
  simp [ofParts, htrim, hstrip]

/-- A name is read with the blanks around it taken off. -/
theorem ofParts_name (name : Name) {lead gap : Text} (hl : lead.all isGap = true)
    (hg : gap.all isGap = true) (parts : List Text) :
  ofParts ((lead ++ (name.text ++ gap)) :: parts) = name.text :: ofParts parts
  := by
  have htrim : trim (lead ++ (name.text ++ gap)) = name.text := by
    apply strip_append (all_isBlank_of_isGap hl) (all_isBlank_of_isGap hg)
      (Token.word name).text_ne_nil
    intro c hc
    apply isBlank_of_isNamePart (name.isNamePart_of_mem hc)
  have hstrip : strip isQuote name.text = name.text := by
    apply strip_eq_self
    intro c hc
    apply isQuote_of_isNamePart (name.isNamePart_of_mem hc)
  have htype : isTypeItem name.text = false := by
    have hbehind : behindWord? ['t', 'y', 'p', 'e'] (name.text ++ [])
        = if name.text = ['t', 'y', 'p', 'e'] then skipBlanks₁? [] else none :=
      behindWord?_append (by decide) name.all_isNamePart rfl
    rw [List.append_nil] at hbehind
    rw [isTypeItem, hbehind]
    split
    · rfl
    · rfl
  simp [ofParts, htrim, hstrip, htype, name.isEmpty_text]

/-! ### Bindings -/

/-- Whether an alias hides what it stands for: the name is `as`, and the alias another one, or `as` stands
at its end behind a dollar sign. -/
def Binding.IsHidden (binding : Binding) : Prop :=
  ∃ naming ∈ binding.naming,
    '$' :: asWord <:+ binding.name.text ∨ binding.name.text = asWord ∧ naming.text ≠ asWord

instance (binding : Binding) : Decidable binding.IsHidden :=
  inferInstanceAs (Decidable (∃ naming ∈ binding.naming,
    '$' :: asWord <:+ binding.name.text ∨ binding.name.text = asWord ∧ naming.text ≠ asWord))

/-- What is read where a binding is listed.  Where its name is `as`, or ends in `as` behind a dollar sign,
the alias is taken for `as`, and for a name what the alias is called. -/
def Binding.listed (binding : Binding) : List Text :=
  match binding.naming with
  | none => [binding.name.text]
  | some naming =>
    if binding.name.text = asWord then [naming.text]
    else if '$' :: asWord <:+ binding.name.text then 
      [binding.name.text.take (binding.name.text.length - asWord.length), naming.text]
    else [binding.name.text]

/-- A binding lists a name at least. -/
theorem Binding.listed_ne_nil (binding : Binding) :
  binding.listed ≠ []
  := by
  unfold listed
  split
  · exact List.cons_ne_nil _ _
  · split_ifs
    · exact List.cons_ne_nil _ _
    · exact List.cons_ne_nil _ _
    · exact List.cons_ne_nil _ _

/-- A binding is listed by its own name alone, unless its alias hides it. -/
theorem Binding.listed_eq_iff (binding : Binding) :
  binding.listed = [binding.name.text] ↔ ¬ binding.IsHidden
  := by
  obtain ⟨name, naming⟩ := binding
  cases naming with
  | none => simp [listed, IsHidden]
  | some naming =>
    by_cases has : name.text = asWord
    · have hsuffix : ¬ '$' :: asWord <:+ asWord := by decide
      simp [listed, IsHidden, has, hsuffix]
    · by_cases hsuffix : '$' :: asWord <:+ name.text
      · simp [listed, IsHidden, has, hsuffix]
      · simp [listed, IsHidden, has, hsuffix]

/-- Names are read behind a comma, or behind the last binding. -/
def ReadsMore (names : List Text) (text : Text) : Prop :=
  ∀ boundary, ∃ parts, cut 0 boundary text = [] :: parts ∧ ofParts parts = names

section

variable {more : List Text} {name naming : Name} {lead gap gap₁ gap₂ rest : Text}

/-- The name of a binding is cut off together with the blanks around it. -/
theorem exists_cut_name_gap (name : Name) (hl : lead.all isGap = true) (hg : gap.all isGap = true)
    (ht : stops isNamePart (gap ++ rest) = true) (ha : Unaliased name.text (gap ++ rest)) :
  ∃ boundary, cut 0 true (lead ++ (name.text ++ (gap ++ rest)))
    = extend (lead ++ (name.text ++ gap)) (cut 0 (boundary || !gap.isEmpty) rest)
  := by
  use opens true name.text
  rw [cut_gap hl, Bool.true_or, cut_name name ht ha, cut_gap hg, extend_extend, extend_extend,
    List.append_assoc]

/-- A name without an alias is read back. -/
theorem ofParts_cut_name (name : Name) (hl : lead.all isGap = true) (hg : gap.all isGap = true)
    (he : EndsItem rest) (hr : ReadsMore more rest) :
  ofParts (cut 0 true (lead ++ (name.text ++ (gap ++ rest)))) = name.text :: more
  := by
  have hstops := he.stops_gap_append inNames_isNamePart hg
  have hunaliased : Unaliased name.text (gap ++ rest) := .inl (behindAlias?_asWord_eq_none hg he)
  obtain ⟨boundary, hcut⟩ := exists_cut_name_gap name hl hg hstops hunaliased
  obtain ⟨parts, hrest, hparts⟩ := hr (boundary || !gap.isEmpty)
  rw [hcut, hrest, extend, List.append_nil, ofParts_name name hl hg, hparts]

/-- A name with an alias is read back without it. -/
theorem ofParts_cut_alias (hl : lead.all isGap = true) (hg : gap.all isGap = true) (hn : gap ≠ [])
    (hg₁ : gap₁.all isGap = true) (hn₁ : gap₁ ≠ []) (hg₂ : gap₂.all isGap = true) (hname : name.renamable)
    (he : EndsItem rest) (hr : ReadsMore more rest) :
  ofParts (cut 0 true
      (lead ++ (name.text ++ (gap ++ (asWord ++ (gap₁ ++ (naming.text ++ (gap₂ ++ rest))))))))
    = name.text :: more
  := by
  have halias := behindAlias?_asWord hg₁ hn₁ naming
    (he.stops_gap_append inNames_isNameCharacter hg₂)
  obtain ⟨boundary, hcut⟩ := exists_cut_name_gap name hl hg
    (stops_gap_append inNames_isNamePart hg hn _) (.inr hname)
  have hskip : cut 0 true (asWord ++ (gap₁ ++ naming.text) ++ (gap₂ ++ rest))
      = [] :: cut 0 (opens true (asWord ++ (gap₁ ++ naming.text))) (gap₂ ++ rest) := by
    apply cut_alias
    · simpa using halias
    · simp [asWord]
  rw [List.append_assoc, List.append_assoc] at hskip
  obtain ⟨parts, hrest, hparts⟩ := hr (opens true (asWord ++ (gap₁ ++ naming.text)) || !gap₂.isEmpty)
  have hgap : (boundary || !gap.isEmpty) = true := by simp [hn]
  rw [hcut, hgap, hskip, cut_gap hg₂, hrest, extend, extend, List.append_nil, List.append_nil,
    ofParts_name name hl hg, ofParts_gap hg₂, hparts]

/-- Where a name ends in `as` and a word may begin there, its alias is taken for `as`, and the name behind
it is read as one of its own. -/
theorem ofParts_cut_hidden (naming : Name) {front : Text} (hf : front.all isNamePart = true) (ho : opens true front = true)
    (hl : lead.all isGap = true) (hg : gap.all isGap = true) (hn : gap ≠ []) (hg₁ : gap₁.all isGap = true)
    (hn₁ : gap₁ ≠ []) (hg₂ : gap₂.all isGap = true) (he : EndsItem rest) (hr : ReadsMore more rest) :
  ofParts (cut 0 true
      (lead ++ (front ++ (asWord ++ (gap ++ (asWord ++ (gap₁ ++ (naming.text ++ (gap₂ ++ rest)))))))))
    = ofParts [lead ++ front] ++ naming.text :: more
  := by
  have halias := behindAlias?_asWord hg hn .aliasing
    (stops_gap_append inNames_isNameCharacter hg₁ hn₁ (naming.text ++ (gap₂ ++ rest)))
  have hskip : cut 0 true (asWord ++ (gap ++ asWord) ++ (gap₁ ++ (naming.text ++ (gap₂ ++ rest))))
      = [] :: cut 0 (opens true (asWord ++ (gap ++ asWord))) (gap₁ ++ (naming.text ++ (gap₂ ++ rest))) := by
    apply cut_alias
    · simpa [Name.aliasing] using halias
    · simp [asWord]
  rw [List.append_assoc, List.append_assoc, cut_gap_of_ne_nil hg₁ hn₁] at hskip
  have hstops := stops_gap_append inNames_isNamePart hg hn
    (asWord ++ (gap₁ ++ (naming.text ++ (gap₂ ++ rest))))
  have hnaming := ofParts_cut_name naming hg₁ hg₂ he hr
  rw [cut_gap hl, Bool.true_or, cut_front hf hstops, ho, hskip, extend, extend, List.append_nil,
    ofParts_cons, hnaming]

end

theorem isName_of_append {front behind : Text} (hn : front ≠ []) (h : isName (front ++ behind) = true) :
  isName front = true
  := by
  obtain ⟨c, front, rfl⟩ := List.exists_cons_of_ne_nil hn
  rw [List.cons_append, isName, List.all_append, Bool.and_eq_true, Bool.and_eq_true] at h
  rw [isName, h.1, h.2.1]
  rfl

/-- The part of a name in front of `as` is read where a word may begin there. -/
theorem ofParts_front {name : Name} {front lead : Text} (hname : name.text = front ++ asWord)
    (ho : opens true front = true) (hl : lead.all isGap = true) (naming : Name) :
  ofParts [lead ++ front] ++ [naming.text] = Binding.listed ⟨name, some naming⟩
  := by
  have hall := name.all_isNamePart
  rw [hname, List.all_append, Bool.and_eq_true] at hall
  obtain rfl | ⟨tail, rfl⟩ := (opens_iff hall.1).mp ho
  · have has : name.text = asWord := hname
    rw [List.append_nil, ofParts_gap hl, Binding.listed]
    simp only [has, if_true]
    rfl
  · have has : name.text ≠ asWord := by
      intro has
      have hlength := congrArg List.length (hname.symm.trans has)
      rw [List.length_append, List.length_append, List.length_singleton] at hlength
      omega
    have hsuffix : '$' :: asWord <:+ name.text := ⟨tail, by simp [hname]⟩
    have htaken : name.text.take (name.text.length - asWord.length) = tail ++ ['$'] := by
      rw [hname, List.length_append, Nat.add_sub_cancel, List.take_left]
    have hvalid : isName (tail ++ ['$'] ++ asWord) = true := by rw [← hname, name.valid]
    have hvalid : isName (tail ++ ['$']) = true := isName_of_append (by simp) hvalid
    have hpart : ofParts [lead ++ (tail ++ ['$'] ++ [])] = [tail ++ ['$']] := ofParts_name ⟨_, hvalid⟩ hl rfl []
    rw [List.append_nil] at hpart
    rw [hpart, Binding.listed]
    simp only [has, hsuffix, htaken, if_true, if_false]
    rfl

/-- A name with an alias is read as it is listed. -/
theorem ofParts_cut_naming {name naming : Name} {more : List Text} {lead gap gap₁ gap₂ rest : Text}
    (hl : lead.all isGap = true) (hg : gap.all isGap = true) (hn : gap ≠ []) (hg₁ : gap₁.all isGap = true)
    (hn₁ : gap₁ ≠ []) (hg₂ : gap₂.all isGap = true) (he : EndsItem rest) (hr : ReadsMore more rest) :
  ofParts (cut 0 true
      (lead ++ (name.text ++ (gap ++ (asWord ++ (gap₁ ++ (naming.text ++ (gap₂ ++ rest))))))))
    = Binding.listed ⟨name, some naming⟩ ++ more
  := by
  have hhidden : ∀ front : Text, name.text = front ++ asWord → opens true front = true →
      ofParts (cut 0 true
          (lead ++ (name.text ++ (gap ++ (asWord ++ (gap₁ ++ (naming.text ++ (gap₂ ++ rest))))))))
        = Binding.listed ⟨name, some naming⟩ ++ more := by
    intro front hname ho
    have hall := name.all_isNamePart
    rw [hname, List.all_append, Bool.and_eq_true] at hall
    have hread := ofParts_cut_hidden naming hall.1 ho hl hg hn hg₁ hn₁ hg₂ he hr
    rw [hname, List.append_assoc, hread, ← ofParts_front hname ho hl naming, List.append_assoc,
      List.singleton_append]
  by_cases has : name.text = asWord
  · exact hhidden [] has rfl
  · by_cases hsuffix : '$' :: asWord <:+ name.text
    · obtain ⟨tail, htail⟩ := hsuffix
      apply hhidden (tail ++ ['$'])
      · simp [← htail]
      · apply opens_append_singleton
    · have hlisted : Binding.listed ⟨name, some naming⟩ = [name.text] := by
        simp [Binding.listed, has, hsuffix]
      rw [hlisted]
      apply ofParts_cut_alias hl hg hn hg₁ hn₁ hg₂ ⟨has, hsuffix⟩ he hr

/-- A binding is read in front of a comma, or as the last one. -/
theorem ofParts_cut_binding {binding : Binding} {tokens : List Token} {more : List Text} {lead text : Text}
    (hl : lead.all isGap = true) (hs : Spells (binding.tokens ++ tokens) text)
    (hr : ∀ {rest : Text}, Spells tokens rest → EndsItem rest ∧ ReadsMore more rest) :
  ofParts (cut 0 true (lead ++ text)) = binding.listed ++ more
  := by
  obtain ⟨name, naming⟩ := binding
  cases naming with
  | none =>
    cases hs with
    | cons hg hw hs =>
      obtain ⟨he, hr⟩ := hr hs
      apply ofParts_cut_name name hl hg he hr
  | some naming =>
    cases hs with
    | cons hg hw hs =>
      cases hs with
      | cons hg₁ hw₁ hs =>
        cases hs with
        | cons hg₂ hw₂ hs =>
          obtain ⟨he, hr⟩ := hr hs
          apply ofParts_cut_naming hl hg (hw rfl rfl) hg₁ (hw₁ rfl rfl) hg₂ he hr

/-- A list of bindings is read binding by binding. -/
theorem names_of_lists {bindings : List Binding} {tokens : List Token} {lead text : Text}
    (h : Lists bindings tokens) (hl : lead.all isGap = true) (hs : Spells tokens text) :
  names (lead ++ text) = bindings.flatMap Binding.listed
  := by
  rw [names_eq]
  induction h generalizing lead text with
  | nil =>
    cases hs
    rw [cut_gap hl, cut, extend, List.append_nil, ofParts_gap hl]
    rfl
  | last binding =>
    rw [List.flatMap_singleton, ← List.append_nil binding.listed]
    rw [← List.append_nil binding.tokens] at hs
    apply ofParts_cut_binding hl hs
    intro rest hrest
    cases hrest
    exact ⟨.inl rfl, fun boundary => ⟨[], rfl, rfl⟩⟩
  | cons binding h ih =>
    rw [List.flatMap_cons]
    apply ofParts_cut_binding hl hs
    intro rest hrest
    cases hrest with
    | cons hg hw hrest =>
      have hmore := ih hg hrest
      exact ⟨.inr ⟨_, rfl⟩, fun boundary => ⟨_, cut_comma boundary, hmore⟩⟩

/-- Lists of which none is empty hold as many elements together as there are lists, or more. -/
theorem length_le_length_flatMap {α β : Type} {f : α → List β} (hf : ∀ a, f a ≠ []) (as : List α) :
  as.length ≤ (as.flatMap f).length
  := by
  induction as with
  | nil => exact Nat.le_refl _
  | cons a as ih =>
    have ha := List.length_pos_of_ne_nil (hf a)
    rw [List.flatMap_cons, List.length_append, List.length_cons]
    omega

/-- Where something is read for every element, one thing each is read only where each element gives it. -/
theorem flatMap_eq_map_iff {α β : Type} {f : α → List β} {g : α → β} (hf : ∀ a, f a ≠ []) {as : List α} :
  as.flatMap f = as.map g ↔ ∀ a ∈ as, f a = [g a]
  := by
  induction as with
  | nil => simp
  | cons a as ih =>
    rw [List.flatMap_cons, List.map_cons, List.forall_mem_cons, ← ih]
    constructor
    · intro h
      have hlength := congrArg List.length h
      have hrest := length_le_length_flatMap hf as
      have ha := List.length_pos_of_ne_nil (hf a)
      rw [List.length_append, List.length_cons, List.length_map] at hlength
      rw [← List.singleton_append] at h
      apply List.append_inj h
      rw [List.length_singleton]
      omega
    · rintro ⟨ha, hrest⟩
      rw [ha, hrest]
      rfl

/-- A list of bindings is read as the list of its names just where no alias hides what it stands for. -/
theorem names_eq_map_iff {bindings : List Binding} {tokens : List Token} {lead text : Text}
    (h : Lists bindings tokens) (hl : lead.all isGap = true) (hs : Spells tokens text) :
  names (lead ++ text) = bindings.map (fun binding => binding.name.text)
    ↔ ∀ binding ∈ bindings, ¬ binding.IsHidden
  := by
  rw [names_of_lists h hl hs, flatMap_eq_map_iff Binding.listed_ne_nil]
  exact forall₂_congr fun binding _ => binding.listed_eq_iff

/-- A word `as` under the same name, a name with a dollar sign in it that is renamed to `type`, and `type`
itself, with a comma behind it. -/
theorem names_eq_map_iff_as_dollar_type :
  Lists [⟨.aliasing, some .aliasing⟩, ⟨⟨"a$b".toList, rfl⟩, some ⟨"type".toList, rfl⟩⟩,
      ⟨⟨"type".toList, rfl⟩, none⟩]
      [.word .aliasing, .word .aliasing, .word .aliasing, .comma, .word ⟨"a$b".toList, rfl⟩,
        .word .aliasing, .word ⟨"type".toList, rfl⟩, .comma, .word ⟨"type".toList, rfl⟩, .comma]
    ∧ names "\tas as\tas ,\na$b as type,type,".toList = ["as".toList, "a$b".toList, "type".toList]
  := by
  have hlists := Lists.cons ⟨.aliasing, some .aliasing⟩
    (.cons ⟨⟨"a$b".toList, rfl⟩, some ⟨"type".toList, rfl⟩⟩ (.cons ⟨⟨"type".toList, rfl⟩, none⟩ .nil))
  have hspells := @spells_write [(.word .aliasing, [' ']), (.word .aliasing, ['\t']), (.word .aliasing, [' ']),
    (.comma, ['\n']), (.word ⟨"a$b".toList, rfl⟩, [' ']), (.word .aliasing, [' ']),
    (.word ⟨"type".toList, rfl⟩, []), (.comma, []), (.word ⟨"type".toList, rfl⟩, []), (.comma, [])] (by decide)
  have hlead : ['\t'].all isGap = true := by decide
  exact ⟨hlists, (names_eq_map_iff hlists hlead hspells).mpr (by decide)⟩

/-- A name `as` is taken for the word in front of an alias, and so is the end of a name behind a dollar
sign: what is read is not what is listed. -/
theorem names_ne_map_as :
  Lists [⟨.aliasing, some ⟨['x'], rfl⟩⟩, ⟨⟨"a$as".toList, rfl⟩, some ⟨['b'], rfl⟩⟩]
      [.word .aliasing, .word .aliasing, .word ⟨['x'], rfl⟩, .comma, .word ⟨"a$as".toList, rfl⟩,
        .word .aliasing, .word ⟨['b'], rfl⟩]
    ∧ Spells [.word .aliasing, .word .aliasing, .word ⟨['x'], rfl⟩, .comma, .word ⟨"a$as".toList, rfl⟩,
        .word .aliasing, .word ⟨['b'], rfl⟩] "as as x, a$as as b".toList
    ∧ names "as as x, a$as as b".toList = [['x'], "a$".toList, ['b']]
  := by
  have hspells := @spells_write [(.word .aliasing, [' ']), (.word .aliasing, [' ']), (.word ⟨['x'], rfl⟩, []),
    (.comma, [' ']), (.word ⟨"a$as".toList, rfl⟩, [' ']), (.word .aliasing, [' ']), (.word ⟨['b'], rfl⟩, [])]
    (by decide)
  exact ⟨.cons _ (.last _), hspells, by decide +kernel⟩

/-! ### Items -/

/-- The tokens of bindings with commas between them list these bindings. -/
theorem lists_bindingTokens (bindings : List Binding) :
  Lists bindings (bindingTokens bindings)
  := by
  cases bindings with
  | nil => exact .nil
  | cons binding bindings =>
    induction bindings generalizing binding with
    | nil =>
      rw [bindingTokens, List.flatMap_nil, List.append_nil]
      exact .last binding
    | cons next bindings ih => exact .cons binding (ih next)

/-- No alias hides the name of an item. -/
theorem Item.not_isHidden (item : Item) :
  ¬ item.IsHidden
  := by
  rintro ⟨naming, hnaming, h⟩
  have hname := item.renamable (Option.isSome_of_mem hnaming)
  obtain hsuffix | ⟨has, -⟩ := h
  · exact hname.2 hsuffix
  · exact hname.1 has

/-- The names of a written block are read back. -/
theorem names_of_spells {items : List Item} {lead text : Text} (hl : lead.all isGap = true)
    (hs : Spells (bindingTokens (items.map Item.toBinding)) text) :
  names (lead ++ text) = items.map fun item => item.name.text
  := by
  rw [names_of_lists (lists_bindingTokens _) hl hs, List.flatMap_map]
  apply (flatMap_eq_map_iff fun item => item.listed_ne_nil).mpr
  intro item hitem
  exact item.listed_eq_iff.mpr item.not_isHidden

end ImportCensus.Written
