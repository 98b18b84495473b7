import ImportCensus.Proofs.Scan.Run

/-!
# Veiled comments

A comment is veiled when each of its characters is overwritten by a space, apart from those that
break lines; the spaces are code.  Every relation between a segment and what stands behind it holds
of the veiled segments too, because what stops a reader in front of a comment is the slash that the
comment begins with, and a space stops it as well.
-/

namespace ImportCensus.Scan

open Segment (of)

/-- A character with its comment veiled. -/
def veil (passed : Char × Part) : Char × Part :=
  if passed.2 = .comment then (if isLineBreak passed.1 then passed.1 else ' ', .code) else passed

namespace Segment

/-- A segment with its comments veiled. -/
def veiled (segment : Segment) : Segment :=
  segment.map veil

@[simp]
theorem veiled_nil :
  veiled [] = []
  := rfl

@[simp]
theorem veiled_cons (passed : Char × Part) (segment : Segment) :
  veiled (passed :: segment) = veil passed :: veiled segment
  := rfl

@[simp]
theorem veiled_append (s t : Segment) :
  veiled (s ++ t) = veiled s ++ veiled t
  := List.map_append

@[simp]
theorem length_veiled (segment : Segment) :
  (veiled segment).length = segment.length
  := List.length_map _

@[simp]
theorem veil_of_ne {c : Char} {part : Part} (hp : part ≠ .comment) :
  veil (c, part) = (c, part)
  := if_neg hp

@[simp]
theorem veiled_of {part : Part} (hp : part ≠ .comment) (text : Text) :
  veiled (of part text) = of part text
  := by
  induction text with
  | nil => rfl
  | cons c text ih => rw [of_cons, veiled_cons, veil_of_ne hp, ih]

@[simp]
theorem veiled_string (quote : Char) (body : Text) :
  veiled (string quote body) = string quote body
  := by
  simp [string]

@[simp]
theorem veiled_chunk (contents : Text) (stop : ChunkEnd) :
  veiled (chunk contents stop) = chunk contents stop
  := by
  simp [chunk]

@[simp]
theorem veiled_pattern (body flags : Text) :
  veiled (pattern body flags) = pattern body flags
  := by
  simp [pattern]

/-- A veiled character stays or becomes a space. -/
theorem veil_fst (passed : Char × Part) :
  (veil passed).1 = passed.1 ∨ (veil passed).1 = ' '
  := by
  unfold veil
  split
  · split
    · left
      rfl
    · right
      rfl
  · left
    rfl

/-- Spaces that may take the place of a comment. -/
def IsBlank (segment : Segment) : Prop :=
  ∀ passed ∈ segment, passed.2 = .code ∧ (isLineBreak passed.1 = true ∨ passed.1 = ' ')

/-- Of a veiled comment only blanks are seen. -/
theorem isBlank_veiled_comment (comment : Text) :
  IsBlank (veiled (of .comment comment))
  := by
  intro passed hp
  simp only [veiled, of, List.map_map, List.mem_map, Function.comp_apply] at hp
  obtain ⟨c, -, rfl⟩ := hp
  by_cases hc : isLineBreak c = true
  · simp [veil, hc]
  · simp [veil, hc]

/-- A segment in which every comment begins as one. -/
inductive Marked : Segment → Prop where
  | nil : Marked []
  | cons {c : Char} {part : Part} {segment : Segment} (hp : part ≠ .comment)
      (h : Marked segment) :
    Marked ((c, part) :: segment)
  | comment {comment : Text} {segment : Segment} (hc : beginsComment comment = true)
      (h : Marked segment) :
    Marked (of .comment comment ++ segment)

/-- Marked segments one behind the other are marked. -/
theorem Marked.append {s t : Segment} (hs : Marked s) (ht : Marked t) :
  Marked (s ++ t)
  := by
  induction hs with
  | nil => exact ht
  | cons hp _ ih => exact .cons hp ih
  | comment hc _ ih =>
    rw [List.append_assoc]
    exact .comment hc ih

/-- A segment without comments is marked. -/
theorem marked_of {part : Part} (hp : part ≠ .comment) (text : Text) :
  Marked (of part text)
  := by
  induction text with
  | nil => exact .nil
  | cons c text ih => exact .cons hp ih

/-- A comment is marked. -/
theorem marked_comment {comment rest : Text} (hc : IsComment comment rest) :
  Marked (of .comment comment)
  := by
  rw [← List.append_nil (of .comment comment)]
  apply Marked.comment _ .nil
  cases hc with
  | line => rfl
  | block => rfl

/-- A string is marked. -/
theorem marked_string (quote : Char) (body : Text) :
  Marked (string quote body)
  := by
  apply Marked.cons (by simp)
  apply (marked_of (by simp) body).append
  exact .cons (by simp) .nil

/-- A chunk is marked. -/
theorem marked_chunk (contents : Text) (stop : ChunkEnd) :
  Marked (chunk contents stop)
  := (marked_of (by simp) contents).append (marked_of (by simp) stop.text)

/-- A regular expression is marked. -/
theorem marked_pattern (body flags : Text) :
  Marked (pattern body flags)
  := by
  apply Marked.cons (by simp)
  exact (marked_of (by simp) body).append (marked_of (by simp) ('/' :: flags))

/-! ### What stops in front of a veiled segment -/

section

variable {segment : Segment}

/-- What does not go on with a segment does not go on with the veiled one. -/
theorem stops_veiled {p : Char → Bool} (hp : p ' ' = false)
    (h : stops p segment.text = true) :
  stops p segment.veiled.text = true
  := by
  cases segment with
  | nil => rfl
  | cons passed segment =>
    obtain ⟨c, part⟩ := passed
    obtain hv | hv := veil_fst (c, part)
    · simpa [stops, text, hv] using h
    · simp [stops, text, hv, hp]

/-- A veil lets no comment begin. -/
theorem beginsComment_cons_veiled {c : Char} (h : beginsComment (c :: segment.text) = false) :
  beginsComment (c :: segment.veiled.text) = false
  := by
  cases segment with
  | nil => exact h
  | cons passed segment =>
    have htext : text (passed :: segment) = passed.1 :: text segment := rfl
    have hveiled : text (veiled (passed :: segment)) = (veil passed).1 :: text (veiled segment) := rfl
    rw [htext, beginsComment_cons_cons] at h
    rw [hveiled, beginsComment_cons_cons]
    obtain hv | hv := veil_fst passed
    · rw [hv]
      exact h
    · simp [hv]

/-- A character in front of which no comment begins belongs to none. -/
theorem Marked.exists_cons (h : Marked segment) {c : Char} {rest : Text}
    (ht : segment.text = c :: rest) (hc : beginsComment (c :: rest) = false) :
  ∃ (part : Part) (more : Segment),
    part ≠ .comment ∧ segment = (c, part) :: more ∧ more.text = rest ∧ Marked more
  := by
  cases h with
  | nil => cases ht
  | @cons d part segment hp h =>
    cases ht
    exact ⟨part, segment, hp, rfl, rfl, h⟩
  | @comment comment segment hcomment h =>
    rw [text_append, text_of] at ht
    rw [← ht, beginsComment_append hcomment] at hc
    cases hc

/-- A text that begins with neither a space nor a comment does so behind a veil. -/
theorem Marked.isSettled_veiled (h : Marked segment) (hs : isSettled segment.text = true) :
  isSettled segment.veiled.text = true ∧ segment.veiled.text.head? = segment.text.head?
  := by
  unfold isSettled at hs ⊢
  rw [Bool.and_eq_true, Bool.not_eq_true'] at hs ⊢
  obtain ⟨hspace, hcomment⟩ := hs
  cases ht : segment.text with
  | nil =>
    have hnil : segment = [] := by
      cases segment with
      | nil => rfl
      | cons _ _ => cases ht
    subst hnil
    exact ⟨⟨rfl, rfl⟩, rfl⟩
  | cons c rest =>
    rw [ht] at hspace hcomment
    obtain ⟨part, more, hp, rfl, rfl, hmore⟩ := h.exists_cons ht hcomment
    rw [veiled_cons, veil_of_ne hp, text_cons]
    exact ⟨⟨hspace, beginsComment_cons_veiled hcomment⟩, rfl⟩

/-- A veil brings no character to the front but a space. -/
theorem head?_veiled_ne {c : Char} (hc : c ≠ ' ') (h : segment.text.head? ≠ some c) :
  segment.veiled.text.head? ≠ some c
  := by
  cases segment with
  | nil => exact h
  | cons passed segment =>
    obtain ⟨d, part⟩ := passed
    obtain hv | hv := veil_fst (d, part)
    · simpa [text, hv] using h
    · simpa [text, hv] using hc.symm

/-- What begins with a text without spaces behind a veil does so without it too. -/
theorem prefix_of_veiled {word : Text} (hw : ' ' ∉ word) (h : word <+: segment.veiled.text) :
  word <+: segment.text
  := by
  induction word generalizing segment with
  | nil => exact List.nil_prefix
  | cons c word ih =>
    rw [List.mem_cons, not_or] at hw
    cases segment with
    | nil => exact h
    | cons passed segment =>
      obtain ⟨d, part⟩ := passed
      rw [veiled_cons, text, List.map_cons, List.cons_prefix_cons] at h
      rw [text_cons, List.cons_prefix_cons]
      obtain ⟨hc, h⟩ := h
      refine ⟨?_, ih hw.2 h⟩
      obtain hv | hv := veil_fst (d, part)
      · apply hc.trans hv
      · exact absurd (hc.trans hv).symm hw.1

/-- A veil brings no quotation mark to the front. -/
theorem beginsQuote_veiled (h : beginsQuote segment.text = false) :
  beginsQuote segment.veiled.text = false
  := by
  cases segment with
  | nil => rfl
  | cons passed segment =>
    obtain ⟨c, part⟩ := passed
    obtain hv | hv := veil_fst (c, part)
    · simpa [beginsQuote, text, hv] using h
    · simp [beginsQuote, text, hv, isQuote]

/-- A word behind a veil stands there without it too. -/
theorem Marked.beginsWord_of_veiled {word : Text} (hw : word.all isIdentifierPart = true)
    (h : Marked segment) (hv : beginsWord word segment.veiled.text = true) :
  beginsWord word segment.text = true
  := by
  induction word generalizing segment with
  | nil =>
    cases h with
    | nil => rfl
    | cons hp => simpa [beginsWord, Text.after?, stops, veil_of_ne hp] using hv
    | comment hc =>
      obtain ⟨tail, rfl⟩ := exists_of_beginsComment hc
      rfl
  | cons c word ih =>
    rw [List.all_cons, Bool.and_eq_true] at hw
    cases h with
    | nil => cases hv
    | cons hp h =>
      rw [veiled_cons, veil_of_ne hp, text_cons, beginsWord_cons, Bool.and_eq_true] at hv
      rw [text_cons, beginsWord_cons, Bool.and_eq_true]
      exact ⟨hv.1, ih hw.2 h hv.2⟩
    | comment hc =>
      -- a comment leaves a space, which no word begins with
      obtain ⟨tail, rfl⟩ := exists_of_beginsComment hc
      have hspace : veil ('/', .comment) = (' ', .code) := rfl
      rw [of_cons, List.cons_append, veiled_cons, hspace, text_cons, beginsWord_cons,
        Bool.and_eq_true, decide_eq_true_eq] at hv
      obtain ⟨rfl, -⟩ := hv
      exact absurd hw.1 (by decide)

/-- A veil brings no word to the front. -/
theorem Marked.beginsWord_veiled {word : Text} (hw : word.all isIdentifierPart = true)
    (h : Marked segment) (hb : beginsWord word segment.text = false) :
  beginsWord word segment.veiled.text = false
  := by
  rw [← Bool.not_eq_true] at hb ⊢
  exact fun hv => hb (h.beginsWord_of_veiled hw hv)

/-- A veil lets no number begin. -/
theorem beginsNumber_veiled_eq_false {c : Char}
    (h : State.beginsNumber c segment.text = false) :
  State.beginsNumber c segment.veiled.text = false
  := by
  cases segment with
  | nil => exact h
  | cons passed segment =>
    obtain ⟨d, part⟩ := passed
    unfold State.beginsNumber at h ⊢
    rw [Bool.or_eq_false_iff] at h ⊢
    use h.1
    obtain hv | hv := veil_fst (d, part)
    · simpa [text, hv] using h.2
    · have hspace : Text.isDigit ' ' = false := by decide
      simp [text, hv, hspace]

/-- A number begins behind a veil where it has begun. -/
theorem Marked.beginsNumber_veiled {c : Char} (h : Marked segment)
    (hn : State.beginsNumber c segment.text = true) :
  State.beginsNumber c segment.veiled.text = true
  := by
  unfold State.beginsNumber at hn ⊢
  rw [Bool.or_eq_true] at hn ⊢
  obtain hdigit | hdot := hn
  · left
    exact hdigit
  · right
    cases h with
    | nil => exact hdot
    | cons hp =>
      rw [veiled_cons, veil_of_ne hp]
      exact hdot
    | comment hc =>
      -- no digit begins a comment
      obtain ⟨tail, rfl⟩ := exists_of_beginsComment hc
      have hslash : Text.isDigit '/' = false := by decide
      simp [hslash] at hdot

end

end Segment

/-! ### Blanks in place of comments -/

/-- The blanks of a veil are spaces, and none of them is read otherwise. -/
theorem isSpace_of_blank {c : Char} (hc : isLineBreak c = true ∨ c = ' ') :
  isSpace c = true ∧ isQuote c = false ∧ c ≠ '}' ∧ c ≠ '/'
  := by
  simp only [isLineBreak, Bool.or_eq_true, beq_iff_eq] at hc
  obtain (rfl | rfl) | rfl := hc
  · decide
  · decide
  · decide

/-- Behind a blank there are blanks. -/
theorem Segment.IsBlank.of_cons {passed : Char × Part} {segment : Segment}
    (h : Segment.IsBlank (passed :: segment)) :
  segment.IsBlank
  := fun p hp => h p (List.mem_cons_of_mem _ hp)

/-- Blanks in front of spaces and comments are skipped with them. -/
theorem Trivia.of_isBlank {blanks segment : Segment} {rest : Text} (hb : blanks.IsBlank)
    (h : Trivia segment rest) :
  Trivia (blanks ++ segment) rest
  := by
  induction blanks with
  | nil => exact h
  | cons passed blanks ih =>
    obtain ⟨c, part⟩ := passed
    obtain ⟨rfl, hc⟩ := hb (c, part) List.mem_cons_self
    apply Trivia.space
    · exact (isSpace_of_blank hc).1
    · apply ih hb.of_cons

/-- Blanks may stand in front of what stands between curly brackets. -/
theorem Braces.of_isBlank {blanks segment : Segment} {rest : Text} (hb : blanks.IsBlank)
    (h : Braces segment rest) :
  Braces (blanks ++ segment) rest
  := by
  induction blanks with
  | nil => exact h
  | cons passed blanks ih =>
    obtain ⟨c, part⟩ := passed
    obtain ⟨rfl, hc⟩ := hb (c, part) List.mem_cons_self
    obtain ⟨-, hquote, hbrace, hslash⟩ := isSpace_of_blank hc
    apply Braces.other hquote hbrace
    · apply beginsComment_of_ne hslash _
    · apply ih hb.of_cons

/-! ### Readers behind a veil -/

/-- Spaces and comments are marked. -/
theorem Trivia.marked {segment : Segment} {rest : Text} (h : Trivia segment rest) :
  segment.Marked
  := by
  induction h with
  | settled => exact .nil
  | space _ _ ih => exact .cons (by simp) ih
  | comment hc _ ih => exact (Segment.marked_comment hc).append ih

/-- What stands between curly brackets is marked. -/
theorem Braces.marked {segment : Segment} {rest : Text} (h : Braces segment rest) :
  segment.Marked
  := by
  induction h with
  | close => exact .cons (by simp) .nil
  | string _ _ _ ih => exact (Segment.marked_string _ _).append ih
  | comment hc _ ih => exact (Segment.marked_comment hc).append ih
  | other _ _ _ _ ih => exact .cons (by simp) ih

/-- A clause is marked. -/
theorem ImportClause.marked {segment : Segment} {specifier : Option Text} {rest : Text}
    (h : ImportClause segment specifier rest) :
  segment.Marked
  := by
  induction h with
  | stop ht => exact ht.marked
  | braces ht hb _ ih => apply ht.marked.append (.cons (by simp) (hb.marked.append ih))
  | mark ht _ _ ih => apply ht.marked.append (.cons (by simp) ih)
  | word ht _ _ _ ih => apply ht.marked.append ((Segment.marked_of (by simp) _).append ih)
  | loneFrom ht _ hg _ _ ih =>
    apply ht.marked.append ((Segment.marked_of (by simp) _).append (hg.marked.append ih))
  | specifier ht _ hg =>
    apply ht.marked.append
    apply (Segment.marked_of (by simp) _).append
    apply hg.marked.append (Segment.marked_string _ _)

/-- An alias is marked. -/
theorem Alias.marked {segment : Segment} {rest : Text} (h : Alias segment rest) :
  segment.Marked
  := by
  cases h with
  | missing => exact .nil
  | string _ hg =>
    apply (Segment.marked_of (by simp) _).append
    apply hg.marked.append (Segment.marked_string _ _)
  | name _ hg =>
    apply (Segment.marked_of (by simp) _).append
    apply hg.marked.append (Segment.marked_of (by simp) _)

/-- The source of an export is marked. -/
theorem ExportSource.marked {segment : Segment} {specifier : Option Text} {rest : Text}
    (h : ExportSource segment specifier rest) :
  segment.Marked
  := by
  cases h with
  | missing => exact .nil
  | loneFrom => exact .nil
  | specifier ht _ hg =>
    apply ht.marked.append
    apply (Segment.marked_of (by simp) _).append
    apply hg.marked.append (Segment.marked_string _ _)

/-- An export is marked. -/
theorem ExportClause.marked {segment : Segment} {specifier : Option Text} {rest : Text}
    (h : ExportClause segment specifier rest) :
  segment.Marked
  := by
  cases h with
  | other ht => exact ht.marked
  | star ht hg ha hs =>
    apply ht.marked.append
    exact .cons (by simp) (hg.marked.append (ha.marked.append hs.marked))
  | braces ht hb hs =>
    apply ht.marked.append
    exact .cons (by simp) (hb.marked.append hs.marked)

/-- What a step passes is marked. -/
theorem Step.marked {s n : State} {segment : Segment} (h : Step s segment n) :
  segment.Marked
  := by
  cases h with
  | space => exact .cons (by simp) .nil
  | comment hc => apply Segment.marked_comment hc
  | division => exact .cons (by simp) .nil
  | pattern => apply Segment.marked_pattern _ _
  | string => apply Segment.marked_string _ _
  | literal => exact .cons (by simp) (Segment.marked_chunk _ _)
  | substitution => exact .cons (by simp) (Segment.marked_chunk _ _)
  | opening => exact .cons (by simp) .nil
  | closing => exact .cons (by simp) .nil
  | resumeLiteral => exact .cons (by simp) (Segment.marked_chunk _ _)
  | resumeSubstitution => exact .cons (by simp) (Segment.marked_chunk _ _)
  | name => apply Segment.marked_of (by simp) _
  | dynamic _ _ hg =>
    apply (Segment.marked_of (by simp) _).append
    apply hg.marked.append (.cons (by simp) .nil)
  | property _ _ hg => exact (Segment.marked_of (by simp) _).append hg.marked
  | bare _ _ _ hg =>
    apply (Segment.marked_of (by simp) _).append
    apply hg.marked.append (Segment.marked_string _ _)
  | importClause _ _ _ hg _ _ hc =>
    exact (Segment.marked_of (by simp) _).append (hg.marked.append hc.marked)
  | exportClause _ _ _ hc => exact (Segment.marked_of (by simp) _).append hc.marked
  | number => apply Segment.marked_of (by simp) _
  | mark => exact .cons (by simp) .nil

/-- What a run passes is marked. -/
theorem Run.marked {s f : State} {segment : Segment} (h : Run s segment f) :
  segment.Marked
  := by
  induction h with
  | finished => exact .nil
  | step hs _ _ ih => apply hs.marked.append ih

section

variable {segment tail : Segment} {specifier : Option Text} {rest : Text}

/-- Spaces and comments are skipped behind a veil. -/
theorem Trivia.veiled (h : Trivia segment rest) (hr : rest = tail.text) (ht : tail.Marked) :
  Trivia segment.veiled tail.veiled.text
  := by
  induction h with
  | settled h =>
    subst hr
    exact .settled (ht.isSettled_veiled h).1
  | space hc _ ih => exact .space hc (ih hr)
  | comment _ _ ih =>
    rw [Segment.veiled_append]
    exact (ih hr).of_isBlank (Segment.isBlank_veiled_comment _)

/-- What stands between curly brackets is read as that behind a veil. -/
theorem Braces.veiled (h : Braces segment rest) (hr : rest = tail.text) :
  Braces segment.veiled tail.veiled.text
  := by
  induction h with
  | close => exact .close
  | string hq hb _ ih =>
    rw [Segment.veiled_append, Segment.veiled_string]
    exact .string hq hb (ih hr)
  | comment _ _ ih =>
    rw [Segment.veiled_append]
    exact (ih hr).of_isBlank (Segment.isBlank_veiled_comment _)
  | @other c segment rest hq hb hc _ ih =>
    apply Braces.other hq hb _ (ih hr)
    have htext : segment.text ++ rest = Segment.text (segment ++ tail) := by simp [hr]
    rw [htext] at hc
    simpa using Segment.beginsComment_cons_veiled hc

/-- A word ends behind a veil where it has ended. -/
theorem IsWord.veiled {name : Text} (h : IsWord name rest) (hr : rest = tail.text) :
  IsWord name tail.veiled.text
  := by
  subst hr
  cases h with
  | mk hc ht hr => exact .mk hc ht (Segment.stops_veiled (by decide) hr)

/-- A word ends in front of a veiled gap where it has ended. -/
theorem IsWord.veiled_gap {name : Text} {gap : Segment} (h : IsWord name (gap.text ++ tail.text)) :
  IsWord name (gap.veiled.text ++ tail.veiled.text)
  := by
  have hr : gap.text ++ tail.text = Segment.text (gap ++ tail) := by simp
  simpa using h.veiled hr

/-- A clause is read as one behind a veil, with the same specifier. -/
theorem ImportClause.veiled (h : ImportClause segment specifier rest) (hr : rest = tail.text)
    (ht : tail.Marked) :
  ImportClause segment.veiled specifier tail.veiled.text
  := by
  induction h with
  | @stop trivia c rest htrivia hb hm hi =>
    obtain ⟨-, hhead⟩ := ht.isSettled_veiled (hr ▸ htrivia.isSettled)
    rw [← hr] at hhead
    obtain ⟨rest', hrest'⟩ := List.head?_eq_some_iff.mp hhead
    have htrivia' := htrivia.veiled hr ht
    rw [hrest'] at htrivia' ⊢
    exact .stop htrivia' hb hm hi
  | @braces trivia braces segment specifier rest htrivia hb h ih =>
    subst hr
    have hmarked := hb.marked.append (h.marked.append ht)
    have hbraces : Braces braces.veiled (segment.veiled.text ++ tail.veiled.text) := by
      simpa using hb.veiled (show _ = Segment.text (segment ++ tail) by simp)
    have htrivia' : Trivia trivia.veiled
        ('{' :: (braces.veiled.text ++ (segment.veiled.text ++ tail.veiled.text))) := by
      simpa using htrivia.veiled
        (show _ = Segment.text (('{', .code) :: (braces ++ (segment ++ tail))) by simp)
        (.cons (by simp) hmarked)
    simpa using ImportClause.braces htrivia' hbraces (ih rfl)
  | @mark trivia segment c specifier rest htrivia hm h ih =>
    subst hr
    have htrivia' : Trivia trivia.veiled (c :: (segment.veiled.text ++ tail.veiled.text)) := by
      simpa using htrivia.veiled
        (show _ = Segment.text ((c, .code) :: (segment ++ tail)) by simp)
        (.cons (by simp) (h.marked.append ht))
    simpa using ImportClause.mark htrivia' hm (ih rfl)
  | @word trivia segment name specifier rest htrivia hw hf h ih =>
    subst hr
    have hword := hw.veiled_gap
    have htrivia' : Trivia trivia.veiled
        (name ++ (segment.veiled.text ++ tail.veiled.text)) := by
      simpa using htrivia.veiled
        (show _ = Segment.text (of .code name ++ (segment ++ tail)) by simp)
        ((Segment.marked_of (by simp) name).append (h.marked.append ht))
    simpa using ImportClause.word htrivia' hword hf (ih rfl)
  | @loneFrom trivia gap segment specifier rest htrivia hw hg hq h ih =>
    subst hr
    have hmarked := h.marked.append ht
    have hword : IsWord fromWord
        (gap.veiled.text ++ (segment.veiled.text ++ tail.veiled.text)) := by
      simpa using hw.veiled (show _ = Segment.text (gap ++ (segment ++ tail)) by simp)
    have hgap : Trivia gap.veiled (segment.veiled.text ++ tail.veiled.text) := by
      simpa using hg.veiled (show _ = Segment.text (segment ++ tail) by simp) hmarked
    have htrivia' : Trivia trivia.veiled
        (fromWord ++ (gap.veiled.text ++ (segment.veiled.text ++ tail.veiled.text))) := by
      simpa using htrivia.veiled
        (show _ = Segment.text (of .code fromWord ++ (gap ++ (segment ++ tail))) by simp)
        ((Segment.marked_of (by simp) fromWord).append (hg.marked.append hmarked))
    have hquote : beginsQuote (segment.veiled.text ++ tail.veiled.text) = false := by
      simpa using Segment.beginsQuote_veiled
        (show beginsQuote (Segment.text (segment ++ tail)) = false by simpa using hq)
    simpa using ImportClause.loneFrom htrivia' hword hgap hquote (ih rfl)
  | @specifier trivia gap quote body rest htrivia hw hg hq hb =>
    subst hr
    have hmarked := (Segment.marked_string quote body).append ht
    have hword : IsWord fromWord
        (gap.veiled.text ++ ((Segment.string quote body).text ++ tail.veiled.text)) := by
      simpa using hw.veiled
        (show _ = Segment.text (gap ++ (Segment.string quote body ++ tail)) by simp)
    have hgap : Trivia gap.veiled ((Segment.string quote body).text ++ tail.veiled.text) := by
      simpa using hg.veiled
        (show _ = Segment.text (Segment.string quote body ++ tail) by simp) hmarked
    have htrivia' : Trivia trivia.veiled
        (fromWord ++ (gap.veiled.text
          ++ ((Segment.string quote body).text ++ tail.veiled.text))) := by
      simpa using htrivia.veiled
        (show _ = Segment.text
          (of .code fromWord ++ (gap ++ (Segment.string quote body ++ tail))) by simp)
        ((Segment.marked_of (by simp) fromWord).append (hg.marked.append hmarked))
    simpa using ImportClause.specifier htrivia' hword hgap hq hb

/-- An alias is read as one behind a veil. -/
theorem Alias.veiled (h : Alias segment rest) (hr : rest = tail.text) (ht : tail.Marked) :
  Alias segment.veiled tail.veiled.text
  := by
  subst hr
  cases h with
  | missing h => exact .missing (ht.beginsWord_veiled (by decide) h)
  | @string gap quote body _ hw hg hq hb =>
    have hstops : stops isIdentifierPart
        (gap.veiled.text ++ ((Segment.string quote body).text ++ tail.veiled.text)) = true := by
      simpa using Segment.stops_veiled (by decide)
        (show stops isIdentifierPart
          (Segment.text (gap ++ (Segment.string quote body ++ tail))) = true by simpa using hw)
    have hgap : Trivia gap.veiled ((Segment.string quote body).text ++ tail.veiled.text) := by
      simpa using hg.veiled
        (show _ = Segment.text (Segment.string quote body ++ tail) by simp)
        ((Segment.marked_string quote body).append ht)
    simpa using Alias.string hstops hgap hq hb
  | @name gap name _ hw hg hq hn hr =>
    have hstops : stops isIdentifierPart
        (gap.veiled.text ++ (name ++ tail.veiled.text)) = true := by
      simpa using Segment.stops_veiled (by decide)
        (show stops isIdentifierPart (Segment.text (gap ++ (of .code name ++ tail))) = true by
          simpa using hw)
    have hgap : Trivia gap.veiled (name ++ tail.veiled.text) := by
      simpa using hg.veiled (show _ = Segment.text (of .code name ++ tail) by simp)
        ((Segment.marked_of (by simp) name).append ht)
    have hquote : beginsQuote (name ++ tail.veiled.text) = false := by
      simpa using Segment.beginsQuote_veiled
        (show beginsQuote (Segment.text (of .code name ++ tail)) = false by simpa using hq)
    simpa using Alias.name hstops hgap hquote hn (Segment.stops_veiled (by decide) hr)

end

end ImportCensus.Scan
