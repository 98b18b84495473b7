import ImportCensus.Proofs.Comment.Left
import ImportCensus.Proofs.Extraction.Listed

/-!
# Comments of declarations

In front of its specifier a declaration has words, spaces, strings and comments.  The comments are removed from
it as the scanner passes them, and with spaces in their place nothing is removed.
-/

namespace ImportCensus.Comment

open Text Scan
open Segment (of closed spaced ListsItems)

/-- A segment without template literals and regular expressions: nothing in it but strings and comments begins
a literal or a comment. -/
inductive Flat : Segment → Prop where
  | nil : Flat []
  | character {c : Char} {part : Part} {segment : Segment} (hp : part ≠ .comment) (hd : isDelimiter c = false)
      (hc : beginsComment (c :: segment.text) = false) (h : Flat segment) :
    Flat ((c, part) :: segment)
  | string {quote : Char} {body : Text} {segment : Segment} (hq : isQuote quote = true)
      (hb : IsStringBody quote body) (h : Flat segment) :
    Flat (Segment.string quote body ++ segment)
  | comment {comment : Text} {segment : Segment} (hc : IsComment comment segment.text) (h : Flat segment) :
    Flat (of .comment comment ++ segment)

/-- What holds of the delimiters of literals holds of each of them. -/
theorem of_isDelimiter {p : Char → Prop} {c : Char} (hc : isDelimiter c = true) (h : p '\'' ∧ p '"' ∧ p '\x60') :
  p c
  := by
  rw [isDelimiter, Bool.or_eq_true, beq_iff_eq] at hc
  obtain hc | rfl := hc
  · exact Written.of_isQuote hc ⟨h.1, h.2.1⟩
  · exact h.2.2

/-- What holds of no delimiter holds of what delimits nothing. -/
theorem isDelimiter_eq_false {p : Char → Bool} {c : Char} (hc : p c = true)
    (h : p '\'' = false ∧ p '"' = false ∧ p '\x60' = false) :
  isDelimiter c = false
  := by
  rw [← Bool.not_eq_true]
  intro hd
  have hp : p c = false := of_isDelimiter (p := fun c => p c = false) hd h
  rw [hp] at hc
  cases hc

section

variable {segment : Segment}

/-- Of a flat segment its characters outside of comments are left. -/
theorem Flat.leaves (h : Flat segment) :
  Leaves segment segment.closed
  := by
  induction h with
  | nil => exact .nil
  | @character c part segment hp hd hc h ih =>
    have hclosed : Segment.closed ((c, part) :: segment) = c :: segment.closed := by
      rw [closed, Segment.uncommented_cons_of_ne hp]
      rfl
    rw [hclosed]
    exact .character hp hd hc ih
  | string hq hb h ih =>
    rw [Segment.closed_append, closed, Segment.uncommented_string]
    exact .string hq hb ih
  | comment hc h ih =>
    rw [Segment.closed_append]
    exact .comment hc ih

/-- A character that neither delimits a literal nor begins a comment. -/
theorem Flat.cons {c : Char} (hc : isDelimiter c = false ∧ c ≠ '/') (h : Flat segment) :
  Flat ((c, .code) :: segment)
  := .character (by simp) hc.1 (beginsComment_of_ne hc.2 _) h

/-- A space may stand in front of a flat segment. -/
theorem Flat.space {c : Char} (hc : isSpace c = true) (h : Flat segment) :
  Flat ((c, .code) :: segment)
  := .cons ⟨isDelimiter_eq_false hc (by decide), ne_of_isSpace hc⟩ h

/-- A run of characters of words in front of a flat segment. -/
theorem Flat.run {text : Text} (ht : text.all isIdentifierPart = true) (h : Flat segment) :
  Flat (of .code text ++ segment)
  := by
  induction text with
  | nil => exact h
  | cons c text ih =>
    rw [List.all_cons, Bool.and_eq_true] at ht
    have hslash : c ≠ '/' := by
      rintro rfl
      exact absurd ht.1 (by decide)
    exact .cons ⟨isDelimiter_eq_false ht.1 (by decide), hslash⟩ (ih ht.2)

/-- With its comments veiled a segment stays flat. -/
theorem Flat.veiled (h : Flat segment) :
  Flat segment.veiled
  := by
  induction h with
  | nil => exact .nil
  | character hp hd hc _ ih =>
    rw [Segment.veiled_cons, Segment.veil_of_ne hp]
    exact .character hp hd (Segment.beginsComment_cons_veiled hc) ih
  | string hq hb _ ih =>
    rw [Segment.veiled_append, Segment.veiled_string]
    exact .string hq hb ih
  | @comment comment segment hc _ ih =>
    have hblank := Segment.isBlank_veiled_comment comment
    rw [Segment.veiled_append]
    generalize (of .comment comment).veiled = blanks at hblank
    induction blanks with
    | nil => exact ih
    | cons passed blanks hblanks =>
      obtain ⟨c, part⟩ := passed
      obtain ⟨rfl, hc⟩ := hblank _ List.mem_cons_self
      exact .space (isSpace_of_blank hc).1 (hblanks hblank.of_cons)

/-- From a flat segment its comments are removed. -/
theorem Flat.remove_eq (h : Flat segment) :
  remove segment.text = segment.closed ∧ remove segment.spaced = segment.spaced
  := by
  refine ⟨h.leaves.remove_eq, ?_⟩
  have hnone : segment.veiled.uncommented = segment.veiled := by
    apply Segment.uncommented_eq
    intro passed hmem
    obtain ⟨⟨c, part⟩, -, rfl⟩ := List.mem_map.mp hmem
    by_cases hp : part = .comment
    · simp [veil, hp]
    · simp [hp]
  have hleaves := h.veiled.leaves.remove_eq
  rwa [closed, hnone] at hleaves

end

end ImportCensus.Comment

namespace ImportCensus.Scan

open Text Comment
open Segment (of closed spaced ListsItems)

section

variable {segment tail : Segment} {rest text : Text}

/-! ### What stands in front of the specifier -/

/-- Where no comment begins, none begins in a text cut short. -/
theorem beginsComment_of_truncated (hp : text <+: rest) (h : beginsComment rest = false) :
  beginsComment text = false
  := by
  obtain ⟨more, rfl⟩ := hp
  rw [← Bool.not_eq_true] at h ⊢
  exact fun htext => h (beginsComment_append htext more)

/-- A comment is one in front of less. -/
theorem IsComment.truncated {comment : Text} (h : IsComment comment rest) (hp : text <+: rest) :
  IsComment comment text
  := by
  obtain ⟨more, rfl⟩ := hp
  cases h with
  | line hb hr =>
    refine .line hb ?_
    cases text with
    | nil => rfl
    | cons c text => exact hr
  | block hb => exact .block hb

/-- Spaces and comments may stand in front of a flat segment. -/
theorem Trivia.flat (h : Trivia segment rest) (hr : tail.text <+: rest) (ht : Flat tail) :
  Flat (segment ++ tail)
  := by
  induction h with
  | settled => exact ht
  | space hc _ ih => exact .space hc (ih hr)
  | comment hc _ ih =>
    rw [List.append_assoc]
    refine .comment (hc.truncated ?_) (ih hr)
    rw [Segment.text_append]
    exact (List.prefix_append_right_inj _).mpr hr

/-- The inside of curly brackets without backticks. -/
theorem Braces.flat (h : Braces segment rest) (hd : ('\x60', .code) ∉ segment) (hr : tail.text <+: rest)
    (ht : Flat tail) :
  Flat (segment ++ tail)
  := by
  induction h with
  | close => exact .cons (by decide) ht
  | string hq hb _ ih =>
    rw [List.mem_append, not_or] at hd
    rw [List.append_assoc]
    exact .string hq hb (ih hd.2 hr)
  | comment hc _ ih =>
    rw [List.mem_append, not_or] at hd
    rw [List.append_assoc]
    refine .comment (hc.truncated ?_) (ih hd.2 hr)
    rw [Segment.text_append]
    exact (List.prefix_append_right_inj _).mpr hr
  | @other c segment rest hq hb hc _ ih =>
    rw [List.mem_cons, not_or] at hd
    have hdelimiter : isDelimiter c = false := by
      have hne : c ≠ '\x60' := by
        rintro rfl
        exact hd.1 rfl
      rw [isDelimiter, ← isQuote, hq, Bool.false_or, beq_eq_false_iff_ne]
      exact hne
    have hprefix : Segment.text (segment ++ tail) <+: segment.text ++ rest := by
      rw [Segment.text_append]
      exact (List.prefix_append_right_inj _).mpr hr
    exact .character (by simp) hdelimiter (beginsComment_of_truncated (List.cons_prefix_cons.mpr ⟨rfl, hprefix⟩) hc)
      (ih hd.2 hr)

/-- The inside of curly brackets ends in the closing one. -/
theorem Braces.exists_inside (h : Braces segment rest) :
  ∃ inside, segment = inside ++ [('}', .code)]
  := by
  induction h with
  | close => exact ⟨[], rfl⟩
  | string _ _ _ ih =>
    obtain ⟨inside, rfl⟩ := ih
    exact ⟨_, (List.append_assoc ..).symm⟩
  | comment _ _ ih =>
    obtain ⟨inside, rfl⟩ := ih
    exact ⟨_, (List.append_assoc ..).symm⟩
  | other _ _ _ _ ih =>
    obtain ⟨inside, rfl⟩ := ih
    exact ⟨_, (List.cons_append ..).symm⟩

/-- Curly brackets in a segment with nothing but items in its curly brackets are flat. -/
theorem Braces.flat_of_listsItems (h : Braces segment rest) {before : Segment}
    (hl : ListsItems (before ++ ('{', .code) :: (segment ++ tail))) (hr : tail.text <+: rest) (ht : Flat tail) :
  Flat (('{', .code) :: (segment ++ tail))
  := by
  have hflat : Flat (segment ++ tail) := by
    apply h.flat _ hr ht
    obtain ⟨inside, rfl⟩ := h.exists_inside
    rw [List.append_assoc, List.singleton_append] at hl
    intro hmem
    obtain hinside | hclosing := List.mem_append.mp hmem
    · have hlisted := hl _ (Segment.mem_inBrackets (by decide) (by decide) hinside)
      exact absurd hlisted (by decide)
    · simp at hclosing
  exact .cons (by decide) hflat

/-- A segment that ends in the string of its specifier and is flat in front of it, where there is nothing but items
in its curly brackets. -/
def FlatUpTo (segment : Segment) (specifier : Option Text) : Prop :=
  ∀ body, specifier = some body → ∃ front quote, segment = front ++ Segment.string quote body
    ∧ ∀ before, ListsItems (before ++ front) → Flat front

/-- A declaration without a specifier is flat up to it. -/
theorem flatUpTo_none :
  FlatUpTo segment none
  := nofun

variable {specifier : Option Text}

/-- The trivia, the word `from` and the specifier behind it. -/
theorem flatUpTo_source {trivia gap : Segment} {quote : Char} {body : Text}
    (ht : Trivia trivia (fromWord ++ (gap.text ++ ((Segment.string quote body).text ++ rest))))
    (hg : Trivia gap ((Segment.string quote body).text ++ rest)) :
  FlatUpTo (trivia ++ (of .code fromWord ++ (gap ++ Segment.string quote body))) (some body)
  := by
  rintro _ ⟨⟩
  refine ⟨trivia ++ (of .code fromWord ++ gap), quote, by simp, fun _ _ => ?_⟩
  have hgap : Flat (gap ++ []) := hg.flat List.nil_prefix .nil
  rw [List.append_nil] at hgap
  apply ht.flat _ (.run (by decide) hgap)
  simp

/-- A clause of an import is flat up to its specifier. -/
theorem ImportClause.flatUpTo (h : ImportClause segment specifier rest) :
  FlatUpTo segment specifier
  := by
  induction h with
  | stop => exact flatUpTo_none
  | @braces trivia braces segment specifier rest ht hb h ih =>
    intro body hbody
    obtain ⟨front, quote, rfl, hflat⟩ := ih body hbody
    refine ⟨trivia ++ ('{', .code) :: (braces ++ front), quote, by simp, ?_⟩
    intro before hl
    have hfront : Flat front := by
      apply hflat (before ++ (trivia ++ ('{', .code) :: braces))
      simpa using hl
    rw [← List.append_assoc] at hl
    apply ht.flat _ (hb.flat_of_listsItems hl _ hfront)
    · simp
    · simp
  | @mark trivia segment c specifier rest ht hm h ih =>
    intro body hbody
    obtain ⟨front, quote, rfl, hflat⟩ := ih body hbody
    refine ⟨trivia ++ (c, .code) :: front, quote, by simp, ?_⟩
    intro before hl
    have hfront : Flat front := by
      apply hflat (before ++ (trivia ++ [(c, .code)]))
      simpa using hl
    have hc : isDelimiter c = false ∧ c ≠ '/' := by
      obtain rfl | rfl := hm
      · decide
      · decide
    apply ht.flat _ (.cons hc hfront)
    simp
  | @word trivia segment name specifier rest ht hw hf h ih =>
    intro body hbody
    obtain ⟨front, quote, rfl, hflat⟩ := ih body hbody
    refine ⟨trivia ++ (of .code name ++ front), quote, by simp, ?_⟩
    intro before hl
    have hfront : Flat front := by
      apply hflat (before ++ (trivia ++ of .code name))
      simpa using hl
    apply ht.flat _ (.run hw.all_isIdentifierPart hfront)
    simp
  | @loneFrom trivia gap segment specifier rest ht hw hg hq h ih =>
    intro body hbody
    obtain ⟨front, quote, rfl, hflat⟩ := ih body hbody
    refine ⟨trivia ++ (of .code fromWord ++ (gap ++ front)), quote, by simp, ?_⟩
    intro before hl
    have hfront : Flat front := by
      apply hflat (before ++ (trivia ++ (of .code fromWord ++ gap)))
      simpa using hl
    have hgap : Flat (gap ++ front) := by
      apply hg.flat _ hfront
      simp
    apply ht.flat _ (.run (by decide) hgap)
    simp
  | specifier ht _ hg => exact flatUpTo_source ht hg

/-- An alias may stand in front of a flat segment. -/
theorem Alias.flat (h : Alias segment rest) (hr : tail.text <+: rest) (ht : Flat tail) :
  Flat (segment ++ tail)
  := by
  cases h with
  | missing => exact ht
  | @string gap quote body _ hw hg hq hb =>
    have hgap : Flat (gap ++ (Segment.string quote body ++ tail)) := by
      apply hg.flat _ (.string hq hb ht)
      rw [Segment.text_append]
      exact (List.prefix_append_right_inj _).mpr hr
    have hflat : Flat (of .code asWord ++ (gap ++ (Segment.string quote body ++ tail))) := .run (by decide) hgap
    simpa using hflat
  | @name gap name _ hw hg hq hn hs =>
    have hgap : Flat (gap ++ (of .code name ++ tail)) := by
      apply hg.flat _ (.run hn ht)
      rw [Segment.text_append, Segment.text_of]
      exact (List.prefix_append_right_inj _).mpr hr
    have hflat : Flat (of .code asWord ++ (gap ++ (of .code name ++ tail))) := .run (by decide) hgap
    simpa using hflat

/-- The source of an export is flat up to its specifier. -/
theorem ExportSource.flatUpTo (h : ExportSource segment specifier rest) :
  FlatUpTo segment specifier
  := by
  cases h with
  | missing => exact flatUpTo_none
  | loneFrom => exact flatUpTo_none
  | specifier ht _ hg => exact flatUpTo_source ht hg

/-- A clause of an export is flat up to its specifier. -/
theorem ExportClause.flatUpTo (h : ExportClause segment specifier rest) :
  FlatUpTo segment specifier
  := by
  cases h with
  | other => exact flatUpTo_none
  | @star trivia gap naming source _ _ ht hg ha hs =>
    intro body hbody
    obtain ⟨front, quote, rfl, hflat⟩ := hs.flatUpTo body hbody
    refine ⟨trivia ++ ('*', .code) :: (gap ++ (naming ++ front)), quote, by simp, ?_⟩
    intro before hl
    have hfront : Flat front := by
      apply hflat (before ++ (trivia ++ ('*', .code) :: (gap ++ naming)))
      simpa using hl
    have hnaming : Flat (naming ++ front) := by
      apply ha.flat _ hfront
      simp
    have hgap : Flat (gap ++ (naming ++ front)) := by
      apply hg.flat _ hnaming
      simp
    apply ht.flat _ (.cons (by decide) hgap)
    simp
  | @braces trivia braces source _ _ ht hb hs =>
    intro body hbody
    obtain ⟨front, quote, rfl, hflat⟩ := hs.flatUpTo body hbody
    refine ⟨trivia ++ ('{', .code) :: (braces ++ front), quote, by simp, ?_⟩
    intro before hl
    have hfront : Flat front := by
      apply hflat (before ++ (trivia ++ ('{', .code) :: braces))
      simpa using hl
    rw [← List.append_assoc] at hl
    apply ht.flat _ (hb.flat_of_listsItems hl _ hfront)
    · simp
    · simp

end

end ImportCensus.Scan
