import ImportCensus.Proofs.Scan.Uncommented

/-!
# Comments are complete

Every comment that the scanner passes is a whole one, and nothing that begins a comment is brought together
where comments are taken out: a comment stands in front of a token, and what is left of the token and of what
stands behind it begins no comment.
-/

namespace ImportCensus.Scan

open Segment (of)

/-- A segment of whole comments and other characters, in which nothing that begins a comment comes to stand
where comments are taken out. -/
inductive Whole : Segment → Prop where
  | nil :
    Whole []
  | cons {c : Char} {part : Part} {segment : Segment} (hp : part ≠ .comment) (h : Whole segment) :
    Whole ((c, part) :: segment)
  | comment {comment : Text} {segment : Segment} (hc : IsComment comment segment.text)
      (hn : beginsComment segment.uncommented.text = false) (h : Whole segment) :
    Whole (of .comment comment ++ segment)

/-- What a comment may stand in front of. -/
structure Neat (segment : Segment) : Prop where
  whole : Whole segment
  begins : beginsComment segment.uncommented.text = false

/-- Characters outside of comments may stand in front. -/
theorem Whole.append_of {part : Part} (hp : part ≠ .comment) (text : Text) {tail : Segment}
    (h : Whole tail) :
  Whole (of part text ++ tail)
  := by
  induction text with
  | nil => exact h
  | cons c text ih => exact .cons hp ih

/-- A string may stand in front. -/
theorem Whole.append_string (quote : Char) (body : Text) {tail : Segment} (h : Whole tail) :
  Whole (Segment.string quote body ++ tail)
  := by
  have hquote : Whole (of .code [quote] ++ tail) := h.append_of (by simp) _
  have hbody : Whole (of (.quoted quote) body ++ (of .code [quote] ++ tail)) := hquote.append_of (by simp) body
  rw [Segment.string, List.cons_append, List.append_assoc]
  exact .cons (by simp) hbody

/-- Behind anything but a comment the comments are whole ones. -/
theorem Whole.of_append {front tail : Segment} (h : Whole (front ++ tail))
    (hf : ∀ passed ∈ front.getLast?, passed.2 ≠ .comment) :
  Whole tail
  := by
  generalize hs : front ++ tail = segment at h
  induction h generalizing front with
  | nil =>
    obtain ⟨-, rfl⟩ := List.append_eq_nil_iff.mp hs
    exact .nil
  | @cons c part segment hp h ih =>
    cases front with
    | nil =>
      subst hs
      exact .cons hp h
    | cons passed front =>
      apply ih _ (List.cons.inj hs).2
      intro last hlast
      apply hf last
      rw [List.getLast?_cons, Option.mem_def.mp hlast]
      rfl
  | @comment comment segment hc hn h ih =>
    obtain ⟨behind, hfront, hbehind⟩ | ⟨behind, hfront, hbehind⟩ := List.append_eq_append_iff.mp hs
    · cases hfront' : front.getLast? with
      | none =>
        obtain rfl := List.getLast?_eq_none_iff.mp hfront'
        subst hs
        exact .comment hc hn h
      | some last =>
        have hmem : last ∈ of .comment comment := by
          rw [hfront]
          exact List.mem_append_left _ (List.mem_of_getLast? hfront')
        obtain ⟨c, -, rfl⟩ := List.mem_map.mp hmem
        exact absurd rfl (hf _ hfront')
    · apply ih _ hbehind.symm
      intro last hlast
      apply hf last
      rw [hfront, List.getLast?_append, Option.mem_def.mp hlast]
      rfl

/-- What begins no comment does so without the comments behind it. -/
theorem Whole.beginsComment_cons {segment : Segment} (h : Whole segment) {c : Char}
    (hc : beginsComment (c :: segment.text) = false) :
  beginsComment (c :: segment.uncommented.text) = false
  := by
  cases h with
  | nil => exact hc
  | @cons d part segment hp h =>
    rw [Segment.uncommented_cons_of_ne hp, Segment.text_cons, beginsComment_cons_cons]
    rwa [Segment.text_cons, beginsComment_cons_cons] at hc
  | @comment comment segment hcomment hn h =>
    by_cases hslash : c = '/'
    · subst hslash
      obtain ⟨tail, ht⟩ : ∃ tail, comment = '/' :: tail := by
        cases hcomment with
        | line => exact ⟨_, rfl⟩
        | block => exact ⟨_, rfl⟩
      subst ht
      cases hc
    · exact beginsComment_of_ne hslash _

section

variable {segment tail : Segment} {rest : Text}

/-- A comment may stand at the end. -/
theorem Neat.nil :
  Neat []
  := ⟨.nil, rfl⟩

/-- A comment may stand in front of a character that is no slash. -/
theorem Neat.cons {c : Char} {part : Part} (hp : part ≠ .comment) (hc : c ≠ '/') (h : Whole tail) :
  Neat ((c, part) :: tail)
  := by
  refine ⟨.cons hp h, ?_⟩
  rw [Segment.uncommented_cons_of_ne hp]
  exact beginsComment_of_ne hc _

/-- A comment may stand in front of a comment. -/
theorem Neat.comment {comment : Text} (hc : IsComment comment tail.text) (h : Neat tail) :
  Neat (of .comment comment ++ tail)
  := by
  refine ⟨.comment hc h.begins h.whole, ?_⟩
  have hblank := Segment.isBlank_uncommented_comment comment
  rw [Segment.uncommented_append]
  cases hfeeds : (of .comment comment).uncommented with
  | nil => exact h.begins
  | cons passed feeds =>
    rw [hfeeds] at hblank
    obtain ⟨-, -, -, hslash⟩ := isSpace_of_blank (hblank passed List.mem_cons_self).2
    exact beginsComment_of_ne hslash _

/-- A comment may stand in front of a word. -/
theorem Neat.word {name : Text} (hw : IsWord name rest) (h : Whole tail) :
  Neat (of .code name ++ tail)
  := by
  cases hw with
  | mk hc => exact .cons (by simp) (State.ne_of_isIdentifierStart hc).1 (h.append_of (by simp) _)

/-- A comment may stand in front of a string. -/
theorem Neat.string {quote : Char} (hq : isQuote quote = true) (body : Text) (h : Whole tail) :
  Neat (Segment.string quote body ++ tail)
  := by
  refine ⟨h.append_string quote body, ?_⟩
  rw [Segment.uncommented_append, Segment.uncommented_string]
  exact beginsComment_of_ne (State.ne_of_isQuote hq).2 _

/-- A space is no slash. -/
theorem ne_of_isSpace {c : Char} (hc : isSpace c = true) :
  c ≠ '/'
  := by
  rintro rfl
  exact absurd hc (by decide)

/-- Spaces and comments may stand in front of what a comment may stand in front of. -/
theorem Trivia.neat (h : Trivia segment rest) (tail : Segment) (hr : rest = tail.text) (ht : Neat tail) :
  Neat (segment ++ tail)
  := by
  induction h with
  | settled => exact ht
  | space hc _ ih => exact .cons (by simp) (ne_of_isSpace hc) (ih hr).whole
  | comment hc _ ih =>
    rw [List.append_assoc]
    refine .comment ?_ (ih hr)
    rwa [Segment.text_append, ← hr]

/-- A comment may stand in front of what stands between curly brackets. -/
theorem Braces.neat (h : Braces segment rest) (tail : Segment) (hr : rest = tail.text) (ht : Whole tail) :
  Neat (segment ++ tail)
  := by
  induction h with
  | close => exact .cons (by simp) (by decide) ht
  | string hq _ _ ih =>
    rw [List.append_assoc]
    exact .string hq _ (ih hr).whole
  | comment hc _ ih =>
    rw [List.append_assoc]
    refine .comment ?_ (ih hr)
    rwa [Segment.text_append, ← hr]
  | other _ _ hc _ ih =>
    have hrest := (ih hr).whole
    refine ⟨.cons (by simp) hrest, ?_⟩
    rw [List.cons_append, Segment.uncommented_code]
    apply hrest.beginsComment_cons
    rwa [Segment.text_append, ← hr]

/-! ### Clauses -/

/-- A comment may stand in front of a clause. -/
theorem ImportClause.neat {specifier : Option Text} (h : ImportClause segment specifier rest)
    (hr : rest = tail.text) (ht : Neat tail) :
  Neat (segment ++ tail)
  := by
  induction h with
  | stop htrivia => exact htrivia.neat tail hr ht
  | @braces trivia braces segment specifier rest htrivia hb h ih =>
    subst hr
    have hbraces := hb.neat (segment ++ tail) (by simp) (ih rfl).whole
    have hneat := htrivia.neat (('{', .code) :: (braces ++ (segment ++ tail))) (by simp)
      (.cons (by simp) (by decide) hbraces.whole)
    simpa using hneat
  | @mark trivia segment c specifier rest htrivia hm h ih =>
    subst hr
    have hc : c ≠ '/' := by
      rintro rfl
      exact absurd hm (by decide)
    have hneat := htrivia.neat ((c, .code) :: (segment ++ tail)) (by simp)
      (.cons (by simp) hc (ih rfl).whole)
    simpa using hneat
  | @word trivia segment name specifier rest htrivia hw hf h ih =>
    subst hr
    have hneat := htrivia.neat (of .code name ++ (segment ++ tail)) (by simp)
      (.word hw (ih rfl).whole)
    simpa using hneat
  | @loneFrom trivia gap segment specifier rest htrivia hw hg hq h ih =>
    subst hr
    have hgap := hg.neat (segment ++ tail) (by simp) (ih rfl)
    have hneat := htrivia.neat (of .code fromWord ++ (gap ++ (segment ++ tail))) (by simp)
      (.word hw hgap.whole)
    simpa using hneat
  | @specifier trivia gap quote body rest htrivia hw hg hq hb =>
    subst hr
    have hgap := hg.neat (Segment.string quote body ++ tail) (by simp) (.string hq body ht.whole)
    have hneat := htrivia.neat (of .code fromWord ++ (gap ++ (Segment.string quote body ++ tail)))
      (by simp) (.word hw hgap.whole)
    simpa using hneat

/-- A comment may stand in front of an alias. -/
theorem Alias.neat (h : Alias segment rest) (tail : Segment) (hr : rest = tail.text) (ht : Neat tail) :
  Neat (segment ++ tail)
  := by
  subst hr
  cases h with
  | missing => exact ht
  | @string gap quote body _ hw hg hq hb =>
    have hgap := hg.neat (Segment.string quote body ++ tail) (by simp) (.string hq body ht.whole)
    have hneat : Neat (of .code asWord ++ (gap ++ (Segment.string quote body ++ tail))) :=
      .cons (by simp) (by decide) (hgap.whole.append_of (by simp) _)
    simpa using hneat
  | @name gap name _ hw hg hq hn hr =>
    have hname : Neat (of .code name ++ tail) := by
      cases name with
      | nil => exact ht
      | cons c name =>
        rw [List.all_cons, Bool.and_eq_true] at hn
        refine .cons (by simp) ?_ (ht.whole.append_of (by simp) _)
        rintro rfl
        exact absurd hn.1 (by decide)
    have hgap := hg.neat (of .code name ++ tail) (by simp) hname
    have hneat : Neat (of .code asWord ++ (gap ++ (of .code name ++ tail))) :=
      .cons (by simp) (by decide) (hgap.whole.append_of (by simp) _)
    simpa using hneat

/-- A comment may stand in front of the source of an export. -/
theorem ExportSource.neat {specifier : Option Text} (h : ExportSource segment specifier rest)
    (hr : rest = tail.text) (ht : Neat tail) :
  Neat (segment ++ tail)
  := by
  cases h with
  | missing => exact ht
  | loneFrom => exact ht
  | @specifier trivia gap quote body _ htrivia hw hg hq hb =>
    subst hr
    have hgap := hg.neat (Segment.string quote body ++ tail) (by simp) (.string hq body ht.whole)
    have hneat := htrivia.neat (of .code fromWord ++ (gap ++ (Segment.string quote body ++ tail)))
      (by simp) (.cons (by simp) (by decide) (hgap.whole.append_of (by simp) _))
    simpa using hneat

/-- A comment may stand in front of an export. -/
theorem ExportClause.neat {specifier : Option Text} (h : ExportClause segment specifier rest)
    (hr : rest = tail.text) (ht : Neat tail) :
  Neat (segment ++ tail)
  := by
  cases h with
  | other htrivia => exact htrivia.neat tail hr ht
  | @star trivia gap naming source _ _ htrivia hg ha hs =>
    subst hr
    have hsource := hs.neat rfl ht
    have halias := ha.neat (source ++ tail) (by simp) hsource
    have hgap := hg.neat (naming ++ (source ++ tail)) (by simp) halias
    have hneat := htrivia.neat (('*', .code) :: (gap ++ (naming ++ (source ++ tail)))) (by simp)
      (.cons (by simp) (by decide) hgap.whole)
    simpa using hneat
  | @braces trivia braces source _ _ htrivia hb hs =>
    subst hr
    have hbraces := hb.neat (source ++ tail) (by simp) (hs.neat rfl ht).whole
    have hneat := htrivia.neat (('{', .code) :: (braces ++ (source ++ tail))) (by simp)
      (.cons (by simp) (by decide) hbraces.whole)
    simpa using hneat

/-! ### Steps and runs -/

/-- A chunk may stand in front. -/
theorem Whole.append_chunk (contents : Text) (stop : ChunkEnd) (h : Whole tail) :
  Whole (Segment.chunk contents stop ++ tail)
  := by
  rw [Segment.chunk, List.append_assoc]
  exact (h.append_of (by simp) _).append_of (by simp) _

/-- A comment may stand in front of what a step passes. -/
theorem Step.neat {s n : State} (h : Step s segment n) (hr : n.cursor.rest = tail.text) (ht : Neat tail) :
  Neat (segment ++ tail)
  := by
  cases h with
  | space hc => exact .cons (by simp) (ne_of_isSpace hc) ht.whole
  | comment hc =>
    obtain rfl := hr
    exact .comment hc ht
  | division he hc =>
    obtain rfl := hr
    refine ⟨.cons (by simp) ht.whole, ?_⟩
    rw [List.singleton_append, Segment.uncommented_code]
    exact ht.whole.beginsComment_cons hc
  | @pattern body flags rest he hc hb hf hr' =>
    obtain rfl := hr
    have hflags : Whole (of .code ('/' :: flags) ++ tail) := ht.whole.append_of (by simp) _
    have hbody : Whole (of .pattern body ++ (of .code ('/' :: flags) ++ tail)) := hflags.append_of (by simp) body
    rw [Segment.pattern, List.cons_append, List.append_assoc]
    refine ⟨.cons (by simp) hbody, ?_⟩
    rw [Segment.uncommented_code]
    apply hbody.beginsComment_cons
    simpa using hc
  | string hq hb => exact .string hq _ ht.whole
  | literal => exact .cons (by simp) (by decide) (ht.whole.append_chunk _ _)
  | substitution => exact .cons (by simp) (by decide) (ht.whole.append_chunk _ _)
  | opening b => cases b <;> exact .cons (by simp) (by decide) ht.whole
  | @closing b => cases b <;> exact .cons (by simp) (by decide) ht.whole
  | resumeLiteral => exact .cons (by simp) (by decide) (ht.whole.append_chunk _ _)
  | resumeSubstitution => exact .cons (by simp) (by decide) (ht.whole.append_chunk _ _)
  | name hw => exact .word hw ht.whole
  | @dynamic gap rest hd hw hg =>
    obtain rfl : rest = tail.text := hr
    have hround : Neat (('(', .code) :: tail) := .cons (by simp) (by decide) ht.whole
    have hgap := hg.neat _ (by simp) hround
    have hneat : Neat (of .code importWord ++ (gap ++ ('(', .code) :: tail)) := .word hw hgap.whole
    simpa using hneat
  | @property gap rest hd hw hg =>
    obtain rfl : rest = tail.text := hr
    have hneat : Neat (of .code importWord ++ (gap ++ tail)) := .word hw (hg.neat tail rfl ht).whole
    simpa using hneat
  | @bare gap quote body rest hd hf hw hg hq hb =>
    obtain rfl : rest = tail.text := hr
    have hgap := hg.neat (Segment.string quote body ++ tail) (by simp) (.string hq body ht.whole)
    have hneat : Neat (of .code importWord ++ (gap ++ (Segment.string quote body ++ tail))) :=
      .word hw hgap.whole
    simpa using hneat
  | @importClause gap segment specifier rest hd hf hw hg hq hr' hc =>
    obtain rfl : rest = tail.text := hr
    have hgap := hg.neat (segment ++ tail) (by simp) (hc.neat rfl ht)
    have hneat : Neat (of .code importWord ++ (gap ++ (segment ++ tail))) := .word hw hgap.whole
    simpa using hneat
  | @exportClause segment specifier rest hd hf hw hc =>
    obtain rfl : rest = tail.text := hr
    have hneat : Neat (of .code exportWord ++ (segment ++ tail)) := .word hw (hc.neat rfl ht).whole
    simpa using hneat
  | number hc => exact .cons (by simp) (State.ne_of_beginsNumber hc).2.1 (ht.whole.append_of (by simp) _)
  | mark hc => exact .cons (by simp) hc.ne_slash ht.whole

/-- The comments of a run are whole ones. -/
theorem Run.neat {s f : State} (h : Run s segment f) :
  Neat segment
  := by
  induction h with
  | finished => exact .nil
  | step hs _ h ih => exact hs.neat h.rest_eq ih

end

end ImportCensus.Scan
