import Mathlib.Data.List.Basic
import Mathlib.Data.List.TakeWhile
import ImportCensus.Text

/-!
# Parts of a text

A text is split on each occurrence of a character.  The parts hold no such character, put together they are the
text again, and there is one more of them than the character occurs.  A text is stripped of the characters of a
class at its two ends.
-/

namespace ImportCensus.Text

/-- A text is split like any list. -/
theorem splitOn_eq {α : Type} [DecidableEq α] (c : α) (list : List α) :
  splitOn c list = list.splitOn c
  := by
  induction list with
  | nil => rfl
  | cons d rest ih =>
    rw [splitOn, ih, List.splitOn_cons_eq_if_modifyHead]
    by_cases h : d = c
    · simp [h]
    · rw [if_neg h, if_neg (by simpa using h)]
      cases hrest : rest.splitOn c with
      | nil => exact absurd hrest (List.splitOn_ne_nil c rest)
      | cons part parts => rfl

theorem splitOn_ne_nil (c : Char) (text : Text) :
  splitOn c text ≠ []
  := by
  rw [splitOn_eq]
  apply List.splitOn_ne_nil

/-- The parts around a separator are those in front of it and those behind it. -/
theorem splitOn_append (c : Char) (before behind : Text) :
  splitOn c (before ++ c :: behind) = splitOn c before ++ splitOn c behind
  := by
  simp only [splitOn_eq, List.splitOn]
  apply List.splitOnP_append_cons
  simp

/-- No part of a text holds what the text is split on. -/
theorem notMem_of_mem_splitOn {c : Char} {text part : Text} (h : part ∈ splitOn c text) :
  c ∉ part
  := by
  induction text generalizing part with
  | nil =>
    rw [splitOn, List.mem_singleton] at h
    simp [h]
  | cons d rest ih =>
    rw [splitOn] at h
    split at h
    · obtain rfl | hpart := List.mem_cons.mp h
      · exact List.not_mem_nil
      · exact ih hpart
    · rename_i hd
      split at h
      · rw [List.mem_singleton] at h
        simp [h, Ne.symm hd]
      · rename_i first parts hrest
        rw [hrest] at ih
        obtain rfl | hpart := List.mem_cons.mp h
        · simp [Ne.symm hd, ih List.mem_cons_self]
        · exact ih (List.mem_cons_of_mem first hpart)

theorem splitOn_of_notMem {c : Char} {text : Text} (h : c ∉ text) :
  splitOn c text = [text]
  := by
  rw [splitOn_eq, List.splitOn]
  apply List.splitOnP_eq_singleton
  intro d hd
  simpa using fun he : d = c => h (he ▸ hd)

/-- The parts of a text are joined to the text. -/
theorem join_splitOn (c : Char) (text : Text) :
  join [c] (splitOn c text) = text
  := by
  rw [splitOn_eq]
  apply List.intercalate_splitOn

/-- A text begins as its first part does, where that is not empty. -/
theorem head?_of_splitOn {c : Char} {text first : Text} {parts : List Text}
    (h : splitOn c text = first :: parts) (hne : first ≠ []) :
  text.head? = first.head?
  := by
  rw [← join_splitOn c text, h]
  obtain ⟨d, first, rfl⟩ := List.exists_cons_of_ne_nil hne
  cases parts with
  | nil => rfl
  | cons second parts => rfl

/-- Joined parts without the separator are split again. -/
theorem splitOn_join {c : Char} {parts : List Text} (h : ∀ part ∈ parts, c ∉ part)
    (hne : parts ≠ []) :
  splitOn c (join [c] parts) = parts
  := by
  rw [splitOn_eq]
  apply List.splitOn_intercalate c h hne

/-- A text is known by its parts. -/
theorem splitOn_injective (c : Char) :
  Function.Injective (splitOn c)
  := by
  intro text text' h
  rw [← join_splitOn c text, h, join_splitOn]

/-- The parts of a text begin with those of another one only if the text is that one, or goes on from it
behind the character that both are split on. -/
theorem eq_or_append_prefix_of_splitOn_prefix {c : Char} {before text : Text}
    (h : splitOn c before <+: splitOn c text) :
  before = text ∨ before ++ [c] <+: text
  := by
  obtain ⟨parts, hparts⟩ := h
  by_cases hnil : parts = []
  · rw [hnil, List.append_nil] at hparts
    exact .inl (splitOn_injective c hparts)
  · have hnone : ∀ part ∈ parts, c ∉ part := by
      intro part hpart
      have hmem : part ∈ splitOn c text := by
        rw [← hparts]
        apply List.mem_append_right _ hpart
      apply notMem_of_mem_splitOn hmem
    have htext : before ++ c :: join [c] parts = text := by
      apply splitOn_injective c
      rw [splitOn_append, splitOn_join hnone hnil, hparts]
    refine .inr ⟨join [c] parts, ?_⟩
    rw [List.append_assoc, List.singleton_append, htext]

/-- A text has two parts exactly if they stand on the two sides of the only character it is split on. -/
theorem splitOn_eq_pair_iff {c : Char} {text before behind : Text} :
  splitOn c text = [before, behind] ↔ text = before ++ c :: behind ∧ c ∉ before ∧ c ∉ behind
  := by
  constructor
  · intro h
    refine ⟨?_, ?_, ?_⟩
    · rw [← join_splitOn c text, h]
      simp [join, List.intercalate]
    · exact notMem_of_mem_splitOn (h ▸ List.mem_cons_self)
    · exact notMem_of_mem_splitOn (h ▸ List.mem_cons_of_mem before List.mem_cons_self)
  · rintro ⟨rfl, hbefore, hbehind⟩
    rw [splitOn_append, splitOn_of_notMem hbefore, splitOn_of_notMem hbehind, List.singleton_append]

/-- A character that the text is not split on goes into the first part. -/
theorem exists_splitOn_cons {c d : Char} (h : d ≠ c) (rest : Text) :
  ∃ part parts, splitOn c rest = part :: parts ∧ splitOn c (d :: rest) = (d :: part) :: parts
  := by
  obtain ⟨part, parts, hrest⟩ := List.exists_cons_of_ne_nil (splitOn_ne_nil c rest)
  refine ⟨part, parts, hrest, ?_⟩
  rw [splitOn, if_neg h, hrest]

/-- There is one part more than there are separators. -/
theorem length_splitOn (c : Char) (text : Text) :
  (splitOn c text).length = text.count c + 1
  := by
  induction text with
  | nil => rfl
  | cons d text ih =>
    by_cases h : d = c
    · rw [splitOn, if_pos h, List.length_cons, ih, h, List.count_cons_self]
    · obtain ⟨part, parts, htext, hcons⟩ := exists_splitOn_cons h text
      rw [htext, List.length_cons] at ih
      rw [hcons, List.length_cons, ih, List.count_cons_of_ne h]

/-- Where no character is of the class nothing is stripped. -/
theorem strip_eq_self {p : Char → Bool} {text : Text} (h : ∀ c ∈ text, p c = false) :
  strip p text = text
  := by
  have hdrop : ∀ t : Text, (∀ c ∈ t, p c = false) → t.dropWhile p = t := by
    intro t ht
    rw [List.dropWhile_eq_self_iff]
    intro hpos
    rw [ht _ (List.getElem_mem hpos)]
    exact Bool.false_ne_true
  have hback : ∀ c ∈ text.reverse, p c = false := by
    intro c hc
    apply h c (List.mem_reverse.mp hc)
  rw [strip, hdrop text h, hdrop _ hback, List.reverse_reverse]

end ImportCensus.Text
