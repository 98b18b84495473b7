import Mathlib.Data.List.Basic
import ImportCensus.Text

/-!
# ASCII

A property of characters that ASCII decides is checked character by character.  Letters and digits are
characters of ASCII, and of its letters each has a capital and a small form.
-/

namespace ImportCensus.Text

variable {c d : Char}

/-- What holds of the first 128 characters holds of ASCII. -/
theorem of_ascii {p : Char → Prop} (hc : c.toNat < 128) (h : ∀ n < 128, p (Char.ofNat n)) :
  p c
  := by
  rw [← c.ofNat_toNat]
  apply h _ hc

theorem isUpper_iff :
  c.isUpper = true ↔ 65 ≤ c.toNat ∧ c.toNat ≤ 90
  := by
  apply decide_eq_true_iff

theorem isLower_iff :
  c.isLower = true ↔ 97 ≤ c.toNat ∧ c.toNat ≤ 122
  := by
  change (decide (97 ≤ c.toNat) && decide (c.toNat ≤ 122)) = true ↔ _
  rw [Bool.and_eq_true, decide_eq_true_eq, decide_eq_true_eq]

theorem isDigit_iff :
  c.isDigit = true ↔ 48 ≤ c.toNat ∧ c.toNat ≤ 57
  := by
  change (decide (48 ≤ c.toNat) && decide (c.toNat ≤ 57)) = true ↔ _
  rw [Bool.and_eq_true, decide_eq_true_eq, decide_eq_true_eq]

theorem isAlphanum_iff :
  c.isAlphanum = true ↔ (c.isUpper = true ∨ c.isLower = true) ∨ c.isDigit = true
  := by
  change ((c.isUpper || c.isLower) || c.isDigit) = true ↔ _
  rw [Bool.or_eq_true, Bool.or_eq_true]

/-- Letters and digits are in ASCII. -/
theorem toNat_lt_of_isAlphanum (h : c.isAlphanum = true) :
  c.toNat < 128
  := by
  rw [isAlphanum_iff, isUpper_iff, isLower_iff, isDigit_iff] at h
  omega

/-- The small letter of a capital is 32 places behind it. -/
theorem toNat_toLower (c : Char) :
  c.toLower.toNat = if 65 ≤ c.toNat ∧ c.toNat ≤ 90 then c.toNat + 32 else c.toNat
  := by
  by_cases h : 65 ≤ c.toNat ∧ c.toNat ≤ 90
  · have hlower : c.toLower.val = c.val + 32 := congrArg Char.val (dif_pos h)
    rw [if_pos h]
    change c.toLower.val.toNat = c.toNat + 32
    rw [hlower, UInt32.toNat_add]
    change (c.toNat + 32) % 2 ^ 32 = c.toNat + 32
    omega
  · have hlower : c.toLower = c := dif_neg h
    rw [if_neg h, hlower]

/-- What is no capital letter is the small form of itself and of the capital letter 32 places before it. -/
theorem toLower_eq_iff (hd : ¬(65 ≤ d.toNat ∧ d.toNat ≤ 90)) :
  c.toLower = d ↔ c = d ∨ (65 ≤ c.toNat ∧ c.toNat ≤ 90) ∧ c.toNat + 32 = d.toNat
  := by
  rw [← Char.toNat_inj, toNat_toLower, ← Char.toNat_inj]
  split
  · omega
  · omega

/-- All but the capital letters are their own small form. -/
theorem toLower_eq_self_iff :
  c.toLower = c ↔ c.isUpper = false
  := by
  rw [← Char.toNat_inj, toNat_toLower, Bool.eq_false_iff, Ne, isUpper_iff]
  split
  · omega
  · omega

end ImportCensus.Text
