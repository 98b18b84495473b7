import ImportCensus.PackageName
import ImportCensus.Proofs.Text.Ascii
import ImportCensus.Proofs.Text.Parts

/-!
# The grammar of package names

A name that a registry accepts for a new package is `P` or `@U/P`.  The package `P` is written in small letters,
digits, dots, underscores and hyphens, and begins with neither of the first two marks; in the scope `U` the other
marks that an address leaves unescaped may stand too.
-/

namespace ImportCensus.PackageName

open Text

/-- A character of a package. -/
def IsPackageCharacter (c : Char) : Prop :=
  c.isLower = true ∨ c.isDigit = true ∨ c ∈ ['.', '_', '-']

instance : DecidablePred IsPackageCharacter :=
  fun _ => inferInstanceAs (Decidable (_ ∨ _ ∨ _))

/-- A character of a scope. -/
def IsScopeCharacter (c : Char) : Prop :=
  IsPackageCharacter c ∨ c ∈ ['~', '!', '*', '\'', '(', ')']

/-- A package without its scope. -/
structure IsPackage (text : Text) : Prop where
  ne_nil : text ≠ []
  written : ∀ c ∈ text, IsPackageCharacter c
  dot : text.head? ≠ some '.'
  underscore : text.head? ≠ some '_'

/-- A scope. -/
structure IsScope (text : Text) : Prop where
  ne_nil : text ≠ []
  written : ∀ c ∈ text, IsScopeCharacter c

/-- A package, or one in a scope. -/
inductive IsName : Text → Prop where
  | package {package : Text} (h : IsPackage package) :
    IsName package
  | inScope {scope package : Text} (hs : IsScope scope) (hp : IsPackage package) :
    IsName ('@' :: scope ++ '/' :: package)

/-! ### Characters -/

section

variable {c : Char}

/-- The characters of a scope are no capital letters and show. -/
theorem toNat_of_isScopeCharacter (h : IsScopeCharacter c) :
  33 ≤ c.toNat ∧ c.toNat ≤ 126 ∧ ¬(65 ≤ c.toNat ∧ c.toNat ≤ 90)
  := by
  obtain (h | h | h) | h := h
  · rw [isLower_iff] at h
    omega
  · rw [isDigit_iff] at h
    omega
  · simp only [List.mem_cons, List.not_mem_nil, or_false] at h
    rcases h with rfl | rfl | rfl <;> decide
  · simp only [List.mem_cons, List.not_mem_nil, or_false] at h
    rcases h with rfl | rfl | rfl | rfl | rfl | rfl <;> decide

/-- The characters of a scope are the address-safe ones that are their own small form. -/
theorem isScopeCharacter_iff :
  IsScopeCharacter c ↔ isAddressSafe c = true ∧ c.toLower = c
  := by
  have hsafe (hupper : c.isUpper = false) : IsScopeCharacter c ↔ isAddressSafe c = true := by
    simp only [IsScopeCharacter, IsPackageCharacter, isAddressSafe, isSpecialMark, isAlphanum_iff, hupper,
      Bool.or_eq_true, beq_iff_eq, List.mem_cons, List.not_mem_nil, or_false]
    grind
  rw [toLower_eq_self_iff]
  constructor
  · intro h
    have hupper : c.isUpper = false := by
      rw [Bool.eq_false_iff, Ne, isUpper_iff]
      apply (toNat_of_isScopeCharacter h).2.2
    exact ⟨(hsafe hupper).mp h, hupper⟩
  · rintro ⟨h, hupper⟩
    exact (hsafe hupper).mpr h

/-- The special marks are those of the list. -/
theorem isSpecialMark_iff :
  isSpecialMark c = true ↔ c ∈ ['~', '!', '*', '\'', '(', ')']
  := by
  simp only [isSpecialMark, Bool.or_eq_true, beq_iff_eq, List.mem_cons, List.not_mem_nil, or_false]
  grind

/-- The characters of a package are those of a scope that are no special marks. -/
theorem isPackageCharacter_iff :
  IsPackageCharacter c ↔ IsScopeCharacter c ∧ isSpecialMark c = false
  := by
  rw [IsScopeCharacter, ← isSpecialMark_iff]
  constructor
  · intro h
    refine ⟨.inl h, ?_⟩
    rw [Bool.eq_false_iff, Ne, isSpecialMark_iff]
    intro hmark
    simp only [List.mem_cons, List.not_mem_nil, or_false] at hmark
    revert h
    rcases hmark with rfl | rfl | rfl | rfl | rfl | rfl <;> decide
  · rintro ⟨h | h, hmark⟩
    · exact h
    · rw [hmark] at h
      cases h

/-- No character of a name is blank. -/
theorem isBlank_of_isScopeCharacter (h : IsScopeCharacter c) :
  isBlank c = false
  := by
  have hc := toNat_of_isScopeCharacter h
  simp only [isBlank, Bool.or_eq_false_iff, Bool.and_eq_false_iff, decide_eq_false_iff_not, beq_eq_false_iff_ne]
  omega

theorem not_isScopeCharacter_slash :
  ¬IsScopeCharacter '/'
  := by
  rw [isScopeCharacter_iff]
  decide

end

/-! ### Parts of names -/

section

variable {text name scope package : Text}

/-- A text begins hidden with a dot or an underscore only. -/
theorem beginsHidden_eq_false_iff :
  beginsHidden text = false ↔ text.head? ≠ some '.' ∧ text.head? ≠ some '_'
  := by
  unfold beginsHidden
  split
  · simp
  · simp
  · rename_i hdot hunderscore
    cases text with
    | nil => simp
    | cons c text =>
      have hc : c ≠ '.' ∧ c ≠ '_' := by
        constructor
        · rintro rfl
          exact hdot text rfl
        · rintro rfl
          exact hunderscore text rfl
      simp [hc]

/-- A text is in lower case where each character is its own small letter. -/
theorem lower_eq_self_iff :
  lower text = text ↔ ∀ c ∈ text, c.toLower = c
  := by
  rw [lower]
  conv_lhs => rhs; rw [← List.map_id text]
  rw [List.map_inj_left]
  rfl

/-- A package is what stands alone in address-safe small letters, without special marks and not hidden. -/
theorem isPackage_iff :
  IsPackage text ↔ text ≠ [] ∧ beginsHidden text = false ∧ text.all isAddressSafe = true
    ∧ (∀ c ∈ text, c.toLower = c) ∧ text.any isSpecialMark = false
  := by
  rw [beginsHidden_eq_false_iff, List.all_eq_true, List.any_eq_false]
  constructor
  · intro h
    have hwritten := fun c hc => isPackageCharacter_iff.mp (h.written c hc)
    refine ⟨h.ne_nil, ⟨h.dot, h.underscore⟩, ?_, ?_, ?_⟩
    · exact fun c hc => (isScopeCharacter_iff.mp (hwritten c hc).1).1
    · exact fun c hc => (isScopeCharacter_iff.mp (hwritten c hc).1).2
    · exact fun c hc => by simp [(hwritten c hc).2]
  · rintro ⟨hne, ⟨hdot, hunderscore⟩, hsafe, hsmall, hmark⟩
    refine ⟨hne, fun c hc => ?_, hdot, hunderscore⟩
    rw [isPackageCharacter_iff, isScopeCharacter_iff]
    exact ⟨⟨hsafe c hc, hsmall c hc⟩, by simpa using hmark c hc⟩

/-- A scope is a text of safe characters in lower case that is not empty. -/
theorem isScope_iff :
  IsScope text ↔ text ≠ [] ∧ text.all isAddressSafe = true ∧ ∀ c ∈ text, c.toLower = c
  := by
  rw [List.all_eq_true]
  constructor
  · intro h
    have hwritten := fun c hc => isScopeCharacter_iff.mp (h.written c hc)
    exact ⟨h.ne_nil, fun c hc => (hwritten c hc).1, fun c hc => (hwritten c hc).2⟩
  · rintro ⟨hne, hsafe, hsmall⟩
    exact ⟨hne, fun c hc => isScopeCharacter_iff.mpr ⟨hsafe c hc, hsmall c hc⟩⟩

/-- A name has a scope where its two parts are not empty and the first begins with an at sign. -/
theorem scoped?_eq_some_iff :
  scoped? name = some (scope, package)
    ↔ splitOn '/' name = ['@' :: scope, package] ∧ scope ≠ [] ∧ package ≠ []
  := by
  constructor
  · intro h
    rw [scoped?] at h
    split at h
    · rename_i scope' package' hsplit
      split at h
      · cases h
      · rename_i hempty
        cases h
        simp only [Bool.or_eq_true, List.isEmpty_iff, not_or] at hempty
        exact ⟨hsplit, hempty⟩
    · cases h
  · rintro ⟨hsplit, hscope, hpackage⟩
    rw [scoped?, hsplit]
    simp [hscope, hpackage]

/-- A scoped name is safe where both its parts are, and the second does not begin hidden. -/
theorem isSafeScoped_iff :
  isSafeScoped name = true ↔ ∃ scope package, scoped? name = some (scope, package)
    ∧ scope.all isAddressSafe = true ∧ beginsHidden package = false ∧ package.all isAddressSafe = true
  := by
  rw [isSafeScoped]
  cases hscoped : scoped? name with
  | none => simp
  | some halves =>
    obtain ⟨scope, package⟩ := halves
    simp only [Bool.and_eq_true, Bool.not_eq_true', Option.some.injEq, Prod.mk.injEq]
    constructor
    · rintro ⟨⟨hhidden, hscope⟩, hpackage⟩
      exact ⟨scope, package, ⟨rfl, rfl⟩, hscope, hhidden, hpackage⟩
    · rintro ⟨_, _, ⟨rfl, rfl⟩, hscope, hhidden, hpackage⟩
      exact ⟨⟨hhidden, hscope⟩, hpackage⟩

/-- A name without slashes is its own last part. -/
theorem lastPart_of_notMem (h : '/' ∉ name) :
  lastPart name = name
  := by
  rw [lastPart, splitOn_of_notMem h]
  rfl

end

/-! ### Names -/

section

variable {name : Text}

/-- The characters of a name. -/
theorem IsName.of_mem (h : IsName name) {c : Char} (hc : c ∈ name) :
  c = '@' ∨ c = '/' ∨ IsScopeCharacter c
  := by
  cases h with
  | package hp => exact .inr (.inr (.inl (hp.written c hc)))
  | inScope hs hp =>
    simp only [List.cons_append, List.mem_cons, List.mem_append] at hc
    obtain rfl | hc | rfl | hc := hc
    · exact .inl rfl
    · exact .inr (.inr (hs.written c hc))
    · exact .inr (.inl rfl)
    · exact .inr (.inr (.inl (hp.written c hc)))

theorem IsName.trim_eq (h : IsName name) :
  trim name = name
  := by
  apply strip_eq_self
  intro c hc
  obtain rfl | rfl | hc := h.of_mem hc
  · decide
  · decide
  · exact isBlank_of_isScopeCharacter hc

theorem IsName.lower_eq (h : IsName name) :
  lower name = name
  := by
  rw [lower_eq_self_iff]
  intro c hc
  obtain rfl | rfl | hc := h.of_mem hc
  · decide
  · decide
  · exact (isScopeCharacter_iff.mp hc).2

theorem IsName.beginsHidden_eq (h : IsName name) :
  beginsHidden name = false
  := by
  cases h with
  | package hp => exact (isPackage_iff.mp hp).2.1
  | inScope hs hp => rfl

theorem IsScope.slash_notMem {scope : Text} (h : IsScope scope) :
  '/' ∉ scope
  := fun hc => not_isScopeCharacter_slash (h.written '/' hc)

theorem IsPackage.slash_notMem {package : Text} (h : IsPackage package) :
  '/' ∉ package
  := fun hc => not_isScopeCharacter_slash (.inl (h.written '/' hc))

/-- A scoped name has two parts. -/
theorem splitOn_scoped {scope package : Text} (hs : IsScope scope) (hp : IsPackage package) :
  splitOn '/' ('@' :: scope ++ '/' :: package) = ['@' :: scope, package]
  := by
  rw [splitOn_eq_pair_iff]
  refine ⟨rfl, ?_, hp.slash_notMem⟩
  rw [List.mem_cons, not_or]
  exact ⟨by decide, hs.slash_notMem⟩

/-- The last part of a name holds no special mark. -/
theorem IsName.any_lastPart (h : IsName name) :
  (lastPart name).any isSpecialMark = false
  := by
  cases h with
  | package hp =>
    rw [lastPart_of_notMem hp.slash_notMem]
    exact (isPackage_iff.mp hp).2.2.2.2
  | inScope hs hp =>
    rw [lastPart, splitOn_scoped hs hp]
    exact (isPackage_iff.mp hp).2.2.2.2

/-- A name is safe, with a scope or without. -/
theorem IsName.isSafe (h : IsName name) :
  (name.all isAddressSafe || isSafeScoped name) = true
  := by
  rw [Bool.or_eq_true]
  cases h with
  | package hp => exact .inl (isPackage_iff.mp hp).2.2.1
  | @inScope scope package hs hp =>
    obtain ⟨hne, hhidden, hsafe, -⟩ := isPackage_iff.mp hp
    obtain ⟨hscope, hall, -⟩ := isScope_iff.mp hs
    have hscoped := scoped?_eq_some_iff.mpr ⟨splitOn_scoped hs hp, hscope, hne⟩
    exact .inr (isSafeScoped_iff.mpr ⟨scope, package, hscoped, hall, hhidden, hsafe⟩)

theorem IsName.ne_nil (h : IsName name) :
  name ≠ []
  := by
  cases h with
  | package hp => exact hp.ne_nil
  | inScope hs hp => exact List.cons_ne_nil _ _

/-- What passes every check is a name of the grammar. -/
theorem isName_of_isValid (h : isValid name = true) :
  IsName name
  := by
  simp only [isValid, Bool.and_eq_true, Bool.not_eq_true', beq_iff_eq, List.isEmpty_eq_false_iff] at h
  obtain ⟨⟨⟨⟨⟨⟨⟨⟨hne, hhidden⟩, -⟩, -⟩, -⟩, -⟩, hlower⟩, hmarks⟩, hsafe⟩ := h
  rw [lower_eq_self_iff] at hlower
  rw [Bool.or_eq_true] at hsafe
  obtain hall | hscoped := hsafe
  · have hslash : '/' ∉ name := by
      intro hc
      exact absurd (List.all_eq_true.mp hall '/' hc) (by decide)
    rw [lastPart_of_notMem hslash] at hmarks
    exact .package (isPackage_iff.mpr ⟨hne, hhidden, hall, hlower, hmarks⟩)
  · obtain ⟨scope, package, hhalves, hall, hbegins, hsafe⟩ := isSafeScoped_iff.mp hscoped
    obtain ⟨hsplit, hscope, hpackage⟩ := scoped?_eq_some_iff.mp hhalves
    rw [lastPart, hsplit] at hmarks
    obtain ⟨rfl, -, -⟩ := splitOn_eq_pair_iff.mp hsplit
    apply IsName.inScope
    · apply isScope_iff.mpr ⟨hscope, hall, fun c hc => hlower c (by simp [hc])⟩
    · apply isPackage_iff.mpr ⟨hpackage, hbegins, hsafe, fun c hc => hlower c (by simp [hc]), hmarks⟩

/-- A valid name does not begin hidden. -/
theorem beginsHidden_of_isValid (h : isValid name = true) :
  beginsHidden name = false
  := (isName_of_isValid h).beginsHidden_eq

theorem query_notMem_of_isValid (h : isValid name = true) :
  '?' ∉ name
  := by
  intro hc
  obtain hc | hc | hc := (isName_of_isValid h).of_mem hc
  · cases hc
  · cases hc
  · rw [isScopeCharacter_iff] at hc
    exact absurd hc (by decide)

theorem ne_nil_of_isValid (h : isValid name = true) :
  name ≠ []
  := (isName_of_isValid h).ne_nil

/-- A package name has one segment, or two of which the first begins with `@`. -/
theorem splitOn_of_isValid (h : isValid name = true) :
  splitOn '/' name = [name] ∨ ∃ scope package, splitOn '/' name = ['@' :: scope, package]
  := by
  cases isName_of_isValid h with
  | package hp => exact .inl (splitOn_of_notMem hp.slash_notMem)
  | inScope hs hp => exact .inr ⟨_, _, splitOn_scoped hs hp⟩

/-- A registry accepts a new name exactly if it is a package or one in a scope, of no more than 214 characters,
and neither kept by the registry nor taken by a module of the run-time system. -/
theorem isValid_iff :
  isValid name = true ↔ name.length ≤ 214 ∧ name.toString ∉ reserved ∧ name.toString ∉ builtins ∧ IsName name
  := by
  constructor
  · intro h
    have hname := isName_of_isValid h
    simp only [isValid, hname.lower_eq, Bool.and_eq_true, Bool.not_eq_true', decide_eq_true_eq,
      List.contains_eq_mem, decide_eq_false_iff_not] at h
    obtain ⟨⟨⟨⟨⟨⟨-, hreserved⟩, hbuiltins⟩, hlength⟩, -⟩, -⟩, -⟩ := h
    exact ⟨hlength, hreserved, hbuiltins, hname⟩
  · rintro ⟨hlength, hreserved, hbuiltins, hname⟩
    rw [isValid, hname.lower_eq, hname.trim_eq, hname.beginsHidden_eq, hname.any_lastPart, hname.isSafe]
    simp [hname.ne_nil, hreserved, hbuiltins, maxLength, hlength]

end

end ImportCensus.PackageName
