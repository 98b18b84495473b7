import ImportCensus.Proofs.PackageName.Grammar
import ImportCensus.Specifier

/-!
# What specifiers name

A specifier names what is left of it without its query string, and without its script extension where a package
name is left then.  Specifiers that begin as a package name does, and have neither, are told apart before
anything is removed, which changes nothing.
-/

namespace ImportCensus.Specifier

open Text

/-! ### Script extensions -/

/-- The small form of a letter.  The long `ſ` is a small form of `S`, as `s` is. -/
def smallLetter (c : Char) : Char :=
  if c = 'ſ' then 's' else c.toLower

/-- A script extension, in small letters, in capitals or in both. -/
def IsScriptExtension (extension : Text) : Prop :=
  extension.map smallLetter ∈ [['.', 'j', 's'], ['.', 'm', 'j', 's']]

instance : DecidablePred IsScriptExtension :=
  fun _ => inferInstanceAs (Decidable (_ ∈ _))

section

variable {c d capital : Char} {text tail extension : Text}

/-- A character has a small letter where it is this letter, its capital or a sign that is folded to it. -/
theorem smallLetter_eq_iff (hd : 97 ≤ d.toNat ∧ d.toNat ≤ 122) (hcapital : capital.toNat + 32 = d.toNat) :
  smallLetter c = d ↔ c = d ∨ c = capital ∨ c = 'ſ' ∧ d = 's'
  := by
  have hlong : 'ſ'.toNat = 383 := rfl
  rw [smallLetter]
  by_cases hc : c = 'ſ'
  · subst hc
    have hne : 'ſ' ≠ d ∧ 'ſ' ≠ capital := by
      rw [Ne, Ne, ← Char.toNat_inj, ← Char.toNat_inj]
      omega
    simp [hne, eq_comm]
  · rw [if_neg hc, toLower_eq_iff (by omega)]
    simp only [hc, false_and, or_false]
    rw [← Char.toNat_inj, ← Char.toNat_inj]
    omega

/-- A line ends with nothing or with one line feed. -/
theorem isLineEnd_iff :
  isLineEnd text = true ↔ text = [] ∨ text = ['\n']
  := by
  unfold isLineEnd
  split
  · simp
  · simp
  · rename_i hnil hfeed
    simp only [Bool.false_eq_true, false_iff, not_or]
    exact ⟨hnil, hfeed⟩

/-- The end of an extension is read in any case. -/
theorem jsTail?_eq_some_iff :
  jsTail? text = some tail
    ↔ isLineEnd tail = true ∧ ∃ j s, text = j :: s :: tail ∧ smallLetter j = 'j' ∧ smallLetter s = 's'
  := by
  have hj (c : Char) : smallLetter c = 'j' ↔ c = 'j' ∨ c = 'J' := by
    simp [@smallLetter_eq_iff c 'j' 'J' (by decide) (by decide)]
  have hs (c : Char) : smallLetter c = 's' ↔ (c = 's' ∨ c = 'S') ∨ c = 'ſ' := by
    simp [@smallLetter_eq_iff c 's' 'S' (by decide) (by decide), or_assoc]
  cases text with
  | nil => simp [jsTail?]
  | cons j text =>
    cases text with
    | nil => simp [jsTail?]
    | cons s text =>
      simp only [jsTail?, Option.ite_none_right_eq_some, Bool.and_eq_true, Bool.or_eq_true, beq_iff_eq,
        Option.some.injEq, ← hj, ← hs]
      constructor
      · rintro ⟨⟨⟨hj, hs⟩, hend⟩, rfl⟩
        exact ⟨hend, j, s, rfl, hj, hs⟩
      · rintro ⟨hend, _, _, heq, hj, hs⟩
        cases heq
        exact ⟨⟨⟨hj, hs⟩, hend⟩, rfl⟩

/-- The extensions of scripts, letter by letter. -/
theorem isScriptExtension_iff :
  IsScriptExtension extension ↔ ∃ j s, (smallLetter j = 'j' ∧ smallLetter s = 's')
    ∧ (extension = ['.', j, s] ∨ ∃ m, smallLetter m = 'm' ∧ extension = ['.', m, j, s])
  := by
  have hdot (c : Char) : smallLetter c = '.' ↔ c = '.' := by
    rw [smallLetter]
    by_cases hc : c = 'ſ'
    · subst hc
      decide
    · rw [if_neg hc, toLower_eq_iff (by decide), ← Char.toNat_inj]
      have hstop : '.'.toNat = 46 := rfl
      omega
  simp only [IsScriptExtension, List.mem_cons, List.not_mem_nil, or_false, List.map_eq_cons_iff,
    List.map_eq_nil_iff, hdot]
  constructor
  · rintro (⟨_, _, rfl, rfl, j, _, rfl, hj, s, _, rfl, hs, rfl⟩
      | ⟨_, _, rfl, rfl, m, _, rfl, hm, j, _, rfl, hj, s, _, rfl, hs, rfl⟩)
    · exact ⟨j, s, ⟨hj, hs⟩, .inl rfl⟩
    · exact ⟨j, s, ⟨hj, hs⟩, .inr ⟨m, hm, rfl⟩⟩
  · rintro ⟨j, s, ⟨hj, hs⟩, rfl | ⟨m, hm, rfl⟩⟩
    · exact .inl ⟨'.', _, rfl, rfl, j, _, rfl, hj, s, _, rfl, hs, rfl⟩
    · exact .inr ⟨'.', _, rfl, rfl, m, _, rfl, hm, j, _, rfl, hj, s, _, rfl, hs, rfl⟩

/-- An extension goes on with an optional letter. -/
theorem extensionTail?_cons_cons (m : Char) (rest : Text) :
  extensionTail? ('.' :: m :: rest) = if smallLetter m = 'm' then jsTail? rest else jsTail? (m :: rest)
  := by
  have hm : (m == 'm' || m == 'M') = true ↔ smallLetter m = 'm' := by
    simp [@smallLetter_eq_iff m 'm' 'M' (by decide) (by decide)]
  simp only [extensionTail?, hm]

/-- What stands behind a script extension at the start of a text, where the text ends there. -/
theorem extensionTail?_eq_some_iff :
  extensionTail? text = some tail
    ↔ isLineEnd tail = true ∧ ∃ extension, IsScriptExtension extension ∧ text = extension ++ tail
  := by
  constructor
  · intro h
    obtain ⟨m, rest, rfl⟩ : ∃ m rest, text = '.' :: m :: rest := by
      unfold extensionTail? at h
      split at h
      · exact ⟨_, _, rfl⟩
      · cases h
    rw [extensionTail?_cons_cons] at h
    split at h
    · rename_i hm
      obtain ⟨hend, j, s, rfl, hletters⟩ := jsTail?_eq_some_iff.mp h
      exact ⟨hend, ['.', m, j, s], isScriptExtension_iff.mpr ⟨j, s, hletters, .inr ⟨m, hm, rfl⟩⟩, rfl⟩
    · obtain ⟨hend, j, s, heq, hletters⟩ := jsTail?_eq_some_iff.mp h
      exact ⟨hend, ['.', j, s], isScriptExtension_iff.mpr ⟨j, s, hletters, .inl rfl⟩, by rw [heq]; rfl⟩
  · rintro ⟨hend, extension, hextension, rfl⟩
    obtain ⟨j, s, hletters, rfl | ⟨m, hm, rfl⟩⟩ := isScriptExtension_iff.mp hextension
    · have hj : smallLetter j ≠ 'm' := by
        rw [hletters.1]
        decide
      have htail := jsTail?_eq_some_iff.mpr ⟨hend, j, s, rfl, hletters⟩
      exact (extensionTail?_cons_cons j (s :: tail)).trans ((if_neg hj).trans htail)
    · have htail := jsTail?_eq_some_iff.mpr ⟨hend, j, s, rfl, hletters⟩
      exact (extensionTail?_cons_cons m (j :: s :: tail)).trans ((if_pos hm).trans htail)

/-- The characters of a script extension, in small letters. -/
theorem IsScriptExtension.mem_of_mem (h : IsScriptExtension extension) (hc : c ∈ extension) :
  smallLetter c ∈ ['.', 'm', 'j', 's']
  := by
  have hsmall : smallLetter c ∈ extension.map smallLetter := List.mem_map_of_mem hc
  simp only [IsScriptExtension, List.mem_cons, List.not_mem_nil, or_false] at h
  obtain h | h := h
  · rw [h] at hsmall
    rw [List.mem_cons] at hsmall ⊢
    exact hsmall.imp_right (List.mem_cons_of_mem 'm')
  · rwa [h] at hsmall

theorem IsScriptExtension.three_le_length (h : IsScriptExtension extension) :
  3 ≤ extension.length
  := by
  obtain ⟨j, s, -, rfl | ⟨m, -, rfl⟩⟩ := isScriptExtension_iff.mp h
  · exact Nat.le_refl 3
  · exact Nat.le_succ 3

/-- No script extension is the end of a longer one. -/
theorem IsScriptExtension.not_cons_append (h : IsScriptExtension extension) (c : Char) (text : Text) :
  ¬IsScriptExtension (c :: text ++ extension)
  := by
  intro hlonger
  have hlength := h.three_le_length
  obtain ⟨j, s, -, heq | ⟨m, hm, heq⟩⟩ := isScriptExtension_iff.mp hlonger
  · have hlonger := congrArg List.length heq
    simp only [List.length_append, List.length_cons, List.length_nil] at hlonger
    omega
  · cases text with
    | nil =>
      -- the second character of the one would be the first of the other
      cases heq
      obtain ⟨_, _, -, heq | ⟨_, -, heq⟩⟩ := isScriptExtension_iff.mp h
      · cases heq
        cases hm
      · cases heq
    | cons d text =>
      have hlonger := congrArg List.length heq
      simp only [List.length_append, List.length_cons, List.length_nil] at hlonger
      omega

/-- A text that ends in a script extension has none that begins before it. -/
theorem extensionTail?_append_eq_none (h : IsScriptExtension extension) (c : Char) (text : Text) :
  extensionTail? (c :: text ++ extension) = none
  := by
  rw [Option.eq_none_iff_forall_ne_some]
  intro tail hsome
  obtain ⟨hend, longer, hlonger, heq⟩ := extensionTail?_eq_some_iff.mp hsome
  obtain rfl | rfl := isLineEnd_iff.mp hend
  · rw [List.append_nil] at heq
    rw [← heq] at hlonger
    exact h.not_cons_append c text hlonger
  · -- a script extension does not end in a line feed
    have hne : extension ≠ [] := by
      rintro rfl
      exact absurd h.three_le_length (by decide)
    have hlast : extension.getLast? = some '\n' := by
      rw [← List.getLast?_append_of_ne_nil (c :: text) hne, heq]
      apply List.getLast?_concat
    exact absurd (h.mem_of_mem (List.mem_of_getLast? hlast)) (by decide)

theorem IsScriptExtension.query_notMem (h : IsScriptExtension extension) :
  '?' ∉ extension
  := by
  intro hc
  exact absurd (h.mem_of_mem hc) (by decide)

/-- A script extension goes whole, and nothing else with it. -/
theorem withoutExtension_append (h : IsScriptExtension extension) (text : Text) :
  withoutExtension (text ++ extension) = text
  := by
  induction text with
  | nil =>
    have htail : extensionTail? extension = some [] :=
      extensionTail?_eq_some_iff.mpr ⟨rfl, extension, h, (List.append_nil extension).symm⟩
    rw [List.nil_append]
    cases extension with
    | nil => rfl
    | cons c extension => rw [withoutExtension, htail, Option.getD_some]
  | cons c text ih =>
    have hnone := extensionTail?_append_eq_none h c text
    rw [List.cons_append] at hnone ⊢
    rw [withoutExtension, hnone, Option.getD_none, ih]

/-- A text without extension stays as it is. -/
theorem withoutExtension_of_not_hasExtension (h : hasExtension text = false) :
  withoutExtension text = text
  := by
  induction text with
  | nil => rfl
  | cons c text ih =>
    rw [hasExtension, Bool.or_eq_false_iff, Option.isSome_eq_false_iff, Option.isNone_iff_eq_none] at h
    rw [withoutExtension, h.1, Option.getD_none, ih h.2]

/-- Taking the extension off leaves the other characters in their order. -/
theorem withoutExtension_sublist (text : Text) :
  (withoutExtension text).Sublist text
  := by
  induction text with
  | nil => exact List.Sublist.refl []
  | cons c text ih =>
    rw [withoutExtension]
    cases htail : extensionTail? (c :: text) with
    | none => exact ih.cons_cons c
    | some tail =>
      obtain ⟨-, extension, -, heq⟩ := extensionTail?_eq_some_iff.mp htail
      rw [heq]
      exact List.sublist_append_right extension tail

end

/-! ### Query strings -/

section

variable {specifier : Text}

/-- What is behind a question mark does not count. -/
theorem withoutQuery_append (specifier query : Text) :
  withoutQuery (specifier ++ '?' :: query) = withoutQuery specifier
  := by
  induction specifier with
  | nil => rfl
  | cons c specifier ih =>
    rw [withoutQuery, withoutQuery] at ih ⊢
    rw [List.cons_append, List.takeWhile_cons, List.takeWhile_cons, ih]

theorem withoutQuery_of_notMem (h : '?' ∉ specifier) :
  withoutQuery specifier = specifier
  := by
  rw [withoutQuery, List.takeWhile_eq_self_iff]
  intro c hc
  rw [bne_iff_ne]
  rintro rfl
  exact h hc

theorem notMem_withoutQuery (specifier : Text) :
  '?' ∉ withoutQuery specifier
  := by
  intro hc
  have hne := List.mem_takeWhile_imp hc
  simp at hne

end

/-! ### What is named -/

/-- What a specifier names, whatever it begins with: what is left of it without its query string, and without
its script extension too where that leaves a valid package name. -/
def classifyInFull (specifier : Text) : Option Text :=
  let cleaned := withoutQuery specifier
  let package := withoutExtension cleaned
  if PackageName.isValid package then some package
  else if cleaned = [] then none
  else some cleaned

/-- A specifier that is told apart by how it begins names what any specifier names. -/
theorem classify_eq_classifyInFull (specifier : Text) :
  classify specifier = classifyInFull specifier
  := by
  rw [classify, classifyInFull]
  split
  · rename_i hbare
    simp only [Bool.and_eq_true, Bool.not_eq_true', List.contains_eq_mem, decide_eq_false_iff_not] at hbare
    obtain ⟨⟨hlooks, hquery⟩, hextension⟩ := hbare
    have hne : specifier ≠ [] := by
      rintro rfl
      cases hlooks
    rw [withoutQuery_of_notMem hquery, withoutExtension_of_not_hasExtension hextension, if_neg hne, ite_self]
  · simp only [List.isEmpty_iff]

/-- A valid name with an extension is classified as the name. -/
theorem classifyInFull_append_extension {name extension : Text} (hn : PackageName.isValid name = true)
    (he : IsScriptExtension extension) :
  classifyInFull (name ++ extension) = some name
  := by
  have hquery : '?' ∉ name ++ extension := by
    rw [List.mem_append, not_or]
    exact ⟨PackageName.query_notMem_of_isValid hn, he.query_notMem⟩
  rw [classifyInFull, withoutQuery_of_notMem hquery, withoutExtension_append he, if_pos hn]

/-- What is classified is not empty and holds no question mark. -/
theorem of_classifyInFull {specifier named : Text} (h : classifyInFull specifier = some named) :
  named ≠ [] ∧ '?' ∉ named
  := by
  rw [classifyInFull] at h
  have hquery := notMem_withoutQuery specifier
  split at h
  · rename_i hvalid
    cases h
    exact ⟨PackageName.ne_nil_of_isValid hvalid, fun hc => hquery ((withoutExtension_sublist _).mem hc)⟩
  · split at h
    · cases h
    · rename_i hne
      cases h
      exact ⟨hne, hquery⟩

/-- What a specifier names is read off it in full, does not depend on a query string, is the package where a
script extension stands behind its name, and is never empty and without a question mark. -/
theorem classify_cleaned :
  (∀ specifier : Text, classify specifier = classifyInFull specifier)
    ∧ (∀ specifier query : Text, classify (specifier ++ '?' :: query) = classify specifier)
    ∧ (∀ name extension : Text, PackageName.isValid name = true → IsScriptExtension extension →
        classify (name ++ extension) = some name)
    ∧ ∀ specifier named : Text, classify specifier = some named → named ≠ [] ∧ '?' ∉ named
  := by
  refine ⟨classify_eq_classifyInFull, ?_, ?_, ?_⟩
  · intro specifier query
    rw [classify_eq_classifyInFull, classify_eq_classifyInFull, classifyInFull, withoutQuery_append]
    rfl
  · intro name extension hn he
    rw [classify_eq_classifyInFull]
    exact classifyInFull_append_extension hn he
  · intro specifier named h
    rw [classify_eq_classifyInFull] at h
    exact of_classifyInFull h

/-- Of two script extensions, one in capitals, the last one goes with the query string; where no package name is
left it stays. -/
theorem classify_cleaned_capitals :
  PackageName.isValid "@scope/pkg.mjs".toList = true ∧ IsScriptExtension ".JS".toList
    ∧ classify "@scope/pkg.mjs.JS".toList = some "@scope/pkg.mjs".toList
    ∧ classify "https://host/a.js?b?c".toList = some "https://host/a.js".toList
    ∧ "https://host/a.js".toList ≠ [] ∧ '?' ∉ "https://host/a.js".toList
  := by
  have hn : PackageName.isValid "@scope/pkg.mjs".toList = true := by decide
  have he : IsScriptExtension ".JS".toList := by decide
  have haddress : classify "https://host/a.js?b?c".toList = some "https://host/a.js".toList := by decide
  exact ⟨hn, he, classify_cleaned.2.2.1 "@scope/pkg.mjs".toList ".JS".toList hn he, haddress,
    classify_cleaned.2.2.2 _ _ haddress⟩

end ImportCensus.Specifier
