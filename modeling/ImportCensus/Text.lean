/-!
# Text

A text is the list of its characters, so an offset into it counts characters.  A reader
of text returns what stands behind the part it has read.  `after?` reads a fixed word, and
`longestRun` reads as many characters of a class as leave a text its continuation accepts.
-/

namespace ImportCensus

/-- A text, character by character. -/
abbrev Text := List Char

namespace Text

/-- What stands behind `word` at the start of a text. -/
def after? : Text → Text → Option Text
  | [], text => some text
  | _ :: _, [] => none
  | c :: word, d :: text => if c = d then after? word text else none

theorem after?_eq_some_iff {word text rest : Text} :
  after? word text = some rest ↔ text = word ++ rest
  := by
  induction word generalizing text with
  | nil => simp [after?]
  | cons c word ih =>
    cases text with
    | nil => simp [after?]
    | cons d text =>
      by_cases h : c = d
      · simp [after?, h, ih]
      · simp [after?, h, Ne.symm h]

@[simp]
theorem after?_append (word rest : Text) :
  after? word (word ++ rest) = some rest
  := after?_eq_some_iff.mpr rfl

/-- The answer of `next` behind the longest run of `p` that leaves it one; the runs are
tried from the longest to the empty one. -/
def longestRun {α : Type} (p : Char → Bool) (next : Text → Option α) : Text → Option α
  | [] => next []
  | c :: rest => if p c then (longestRun p next rest).or (next (c :: rest)) else next (c :: rest)

/-- `longestRun` of at least one character. -/
def longestRun₁ {α : Type} (p : Char → Bool) (next : Text → Option α) : Text → Option α
  | [] => none
  | c :: rest => if p c then longestRun p next rest else none

/-- A text without the characters that `p` holds of at either end. -/
def strip (p : Char → Bool) (text : Text) : Text :=
  ((text.dropWhile p).reverse.dropWhile p).reverse

/-- The first `m` characters behind the first `n`. -/
def slice (text : Text) (start stop : Nat) : Text :=
  (text.drop start).take (stop - start)

/-- The parts of a text around every occurrence of `c`; there is always one.  The text may be a
list of anything that can be compared. -/
def splitOn {α : Type} [DecidableEq α] (c : α) : List α → List (List α)
  | [] => [[]]
  | d :: rest =>
    if d = c then [] :: splitOn c rest
    else match splitOn c rest with
      | [] => [[d]]
      | part :: parts => (d :: part) :: parts

/-- A list in which every `x` that stands before another one is left out. -/
def withoutRepeats {α : Type} [DecidableEq α] (x : α) (list : List α) : List α :=
  list.foldr (fun y rest => if y = x ∧ rest.head? = some x then rest else y :: rest) []

/-- Whether `accepts` holds of a list, or of the rest of it behind elements that `passes` holds
of. -/
def anyRest {α : Type} (passes : α → Bool) (accepts : List α → Bool) : List α → Bool
  | [] => accepts []
  | x :: rest => accepts (x :: rest) || passes x && anyRest passes accepts rest

/-- The number of octets that a text takes in UTF-8. -/
def octetCount (text : Text) : Nat :=
  text.foldl (fun count c => count + c.utf8Size) 0

theorem octetCount_append (a b : Text) :
  octetCount (a ++ b) = octetCount a + octetCount b
  := by
  have hfold (text : Text) (n : Nat) :
      text.foldl (fun count c => count + c.utf8Size) n = n + octetCount text := by
    induction text generalizing n with
    | nil => rfl
    | cons c text ih =>
      rw [octetCount, List.foldl_cons, List.foldl_cons, ih, ih (0 + c.utf8Size), Nat.zero_add,
        Nat.add_assoc]
  rw [octetCount, List.foldl_append, hfold b]
  rfl

/-- The texts of a list with `between` written between neighbours. -/
def join (between : Text) (parts : List Text) : Text :=
  between.intercalate parts

/-- The small letter of a capital ASCII letter; other characters stay. -/
def lower (text : Text) : Text :=
  text.map Char.toLower

/-- Whether a text stands at or before another one, character by character. -/
def isAtOrBefore : Text → Text → Bool
  | [], _ => true
  | _ :: _, [] => false
  | c :: a, d :: b => c.toNat < d.toNat || (c == d && isAtOrBefore a b)

theorem isAtOrBefore_total (a b : Text) :
  isAtOrBefore a b ∨ isAtOrBefore b a
  := by
  induction a generalizing b with
  | nil => exact .inl rfl
  | cons c a ih =>
    cases b with
    | nil => exact .inr rfl
    | cons d b =>
      simp only [isAtOrBefore, Bool.or_eq_true, decide_eq_true_eq, Bool.and_eq_true, beq_iff_eq]
      obtain h | h | h := Nat.lt_trichotomy c.toNat d.toNat
      · exact .inl (.inl h)
      · obtain rfl := Char.toNat_inj.mp h
        obtain hab | hba := ih b
        · exact .inl (.inr ⟨rfl, hab⟩)
        · exact .inr (.inr ⟨rfl, hba⟩)
      · exact .inr (.inl h)

theorem isAtOrBefore_trans {a b c : Text} (hab : isAtOrBefore a b) (hbc : isAtOrBefore b c) :
  isAtOrBefore a c
  := by
  induction a generalizing b c with
  | nil => rfl
  | cons d a ih =>
    cases b with
    | nil => cases hab
    | cons e b =>
      cases c with
      | nil => cases hbc
      | cons f c =>
        simp only [isAtOrBefore, Bool.or_eq_true, decide_eq_true_eq, Bool.and_eq_true, beq_iff_eq]
          at hab hbc ⊢
        obtain hde | ⟨rfl, hab⟩ := hab
        · obtain hef | ⟨rfl, -⟩ := hbc
          · exact .inl (Nat.lt_trans hde hef)
          · exact .inl hde
        · obtain hef | ⟨rfl, hbc⟩ := hbc
          · exact .inl hef
          · exact .inr ⟨rfl, ih hab hbc⟩

theorem eq_of_isAtOrBefore {a b : Text} (hab : isAtOrBefore a b) (hba : isAtOrBefore b a) :
  a = b
  := by
  induction a generalizing b with
  | nil =>
    cases b with
    | nil => rfl
    | cons d b => cases hba
  | cons c a ih =>
    cases b with
    | nil => cases hab
    | cons d b =>
      simp only [isAtOrBefore, Bool.or_eq_true, decide_eq_true_eq, Bool.and_eq_true, beq_iff_eq]
        at hab hba
      obtain hlt | ⟨rfl, hab⟩ := hab
      · obtain hgt | ⟨rfl, -⟩ := hba
        · exact absurd hlt (Nat.not_lt.mpr (Nat.le_of_lt hgt))
        · exact absurd hlt (Nat.lt_irrefl _)
      · obtain hgt | ⟨-, hba⟩ := hba
        · exact absurd hgt (Nat.lt_irrefl _)
        · rw [ih hab hba]

/-- Texts in their order. -/
def sorted (texts : List Text) : List Text :=
  texts.mergeSort isAtOrBefore

/-- A text as a string. -/
def toString (text : Text) : String :=
  String.ofList text

end Text

end ImportCensus
