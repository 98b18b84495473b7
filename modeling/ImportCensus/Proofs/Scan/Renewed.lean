import ImportCensus.Proofs.Scan.Reworded

/-!
# Readers of reworded literals

The contents that take the place of others in a literal are read as its contents too.  Every segment that a
reader passes is framed, and every relation between a segment and what stands behind it holds of the
reworded segment and what has been reworded behind it.  Specifiers change, but not their lengths.
-/

namespace ImportCensus.Scan

open Segment (of)

/-! ### Readers are framed -/

/-- Spaces and comments hold no contents of literals. -/
theorem Trivia.isPlain {segment : Segment} {rest : Text} (h : Trivia segment rest) :
  segment.IsPlain
  := by
  induction h with
  | settled => simp [Segment.IsPlain]
  | space _ _ ih => exact Segment.isPlain_cons.mpr ⟨rfl, ih⟩
  | comment _ _ ih => exact Segment.isPlain_append.mpr ⟨Segment.isPlain_of rfl _, ih⟩

/-- Code holds no contents of literals. -/
theorem isPlain_code (text : Text) :
  (of .code text).IsPlain
  := Segment.isPlain_of rfl text

/-- The strings between curly brackets have their delimiters. -/
theorem Braces.framed {segment : Segment} {rest : Text} (h : Braces segment rest) :
  Framed segment
  := by
  induction h with
  | close => exact .other rfl .nil
  | string hq hb _ ih => exact (Framed.string hq hb).append ih
  | comment _ _ ih => exact (Framed.of_isPlain (Segment.isPlain_of rfl _)).append ih
  | other _ _ _ _ ih => exact .other rfl ih

/-- Spaces and comments are framed, for want of literals. -/
theorem Trivia.framed {segment : Segment} {rest : Text} (h : Trivia segment rest) :
  Framed segment
  := .of_isPlain h.isPlain

/-- Code is framed, for want of literals. -/
theorem framed_code (text : Text) :
  Framed (of .code text)
  := .of_isPlain (isPlain_code text)

/-- The strings of an import, that of its specifier among them, have their delimiters. -/
theorem ImportClause.framed {segment : Segment} {specifier : Option Text} {rest : Text}
    (h : ImportClause segment specifier rest) :
  Framed segment
  := by
  induction h with
  | stop ht => exact ht.framed
  | braces ht hb _ ih => exact ht.framed.append (.other rfl (hb.framed.append ih))
  | mark ht _ _ ih => exact ht.framed.append (.other rfl ih)
  | word ht _ _ _ ih => exact ht.framed.append ((framed_code _).append ih)
  | loneFrom ht _ hg _ _ ih => exact ht.framed.append ((framed_code _).append (hg.framed.append ih))
  | specifier ht _ hg hq hb =>
    exact ht.framed.append ((framed_code _).append (hg.framed.append (.string hq hb)))

/-- The string that may be an alias has its delimiters. -/
theorem Alias.framed {segment : Segment} {rest : Text} (h : Alias segment rest) :
  Framed segment
  := by
  cases h with
  | missing => exact .nil
  | string _ hg hq hb => exact (framed_code _).append (hg.framed.append (.string hq hb))
  | name _ hg => exact (framed_code _).append (hg.framed.append (framed_code _))

/-- The string of the specifier of an export has its delimiters. -/
theorem ExportSource.framed {segment : Segment} {specifier : Option Text} {rest : Text}
    (h : ExportSource segment specifier rest) :
  Framed segment
  := by
  cases h with
  | missing => exact .nil
  | loneFrom => exact .nil
  | specifier ht _ hg hq hb =>
    exact ht.framed.append ((framed_code _).append (hg.framed.append (.string hq hb)))

/-- The strings of an export have their delimiters. -/
theorem ExportClause.framed {segment : Segment} {specifier : Option Text} {rest : Text}
    (h : ExportClause segment specifier rest) :
  Framed segment
  := by
  cases h with
  | other ht => exact ht.framed
  | star ht hg ha hs =>
    exact ht.framed.append (.other rfl (hg.framed.append (ha.framed.append hs.framed)))
  | braces ht hb hs => exact ht.framed.append (.other rfl (hb.framed.append hs.framed))

/-- What a regular expression begins with is no comment. -/
theorem Framed.pattern {body rest flags : Text}
    (hc : beginsComment ('/' :: (body ++ '/' :: rest)) = false) :
  Framed (Segment.pattern body flags)
  := by
  apply Framed.literal _ (framed_code flags)
  cases body with
  | nil => cases hc
  | cons c body =>
    apply Delimited.pattern (by simp)
    rw [List.cons_append, beginsComment_cons_cons] at hc
    rw [beginsComment_cons_cons, hc]

/-- What a step passes has all contents of literals between their delimiters. -/
theorem Step.framed {s n : State} {segment : Segment} (h : Step s segment n) :
  Framed segment
  := by
  cases h with
  | space => exact .other rfl .nil
  | comment => exact .of_isPlain (Segment.isPlain_of rfl _)
  | division => exact .other rfl .nil
  | pattern _ hc => exact .pattern hc
  | string hq hb => exact .string hq hb
  | literal hc => exact .chunk (.inl rfl) hc
  | substitution hc => exact .chunk (.inl rfl) hc
  | opening => exact .other rfl .nil
  | closing => exact .other rfl .nil
  | resumeLiteral _ _ hc => exact .chunk (.inr rfl) hc
  | resumeSubstitution _ _ hc => exact .chunk (.inr rfl) hc
  | name => exact framed_code _
  | dynamic _ _ hg => exact (framed_code _).append (hg.framed.append (.other rfl .nil))
  | property _ _ hg => exact (framed_code _).append hg.framed
  | bare _ _ _ hg hq hb => exact (framed_code _).append (hg.framed.append (.string hq hb))
  | importClause _ _ _ hg _ _ hc => exact (framed_code _).append (hg.framed.append hc.framed)
  | exportClause _ _ _ hc => exact (framed_code _).append hc.framed
  | number => exact framed_code _
  | mark => exact .other rfl .nil

/-- All contents of literals in a source stand between delimiters. -/
theorem Run.framed {s f : State} {segment : Segment} (h : Run s segment f) :
  Framed segment
  := by
  induction h with
  | finished => exact .nil
  | step hs _ _ ih => exact hs.framed.append ih

/-! ### Readers of renewed segments -/

section

variable {segment segment' tail tail' : Segment} {rest : Text}

/-- A comment is one in front of reworded literals. -/
theorem IsComment.renewed {comment : Text} (h : IsComment comment rest) (hr : rest = tail.text)
    (ht : Renewed tail tail') :
  IsComment comment tail'.text
  := by
  subst hr
  cases h with
  | line hb hr => exact .line hb ((ht.stops_eq _).trans hr)
  | block hb => exact .block hb

/-- Spaces and comments end in front of reworded literals where they have ended. -/
theorem Trivia.renewed (h : Trivia segment rest) (hr : rest = tail.text) (ht : Renewed tail tail') :
  Trivia segment tail'.text
  := by
  induction h with
  | settled h =>
    subst hr
    exact .settled (ht.isSettled_eq.trans h)
  | space hc _ ih => exact .space hc (ih hr)
  | @comment comment segment rest hc h ih =>
    apply Trivia.comment _ (ih hr)
    simpa using hc.renewed (show _ = Segment.text (segment ++ tail) by simp [hr])
      (ht.append_left h.isPlain)

/-- A word ends in front of reworded literals where it has ended. -/
theorem IsWord.renewed {name : Text} (h : IsWord name rest) (hr : rest = tail.text)
    (ht : Renewed tail tail') :
  IsWord name tail'.text
  := by
  subst hr
  cases h with
  | mk hc htail hr => exact .mk hc htail ((ht.stops_eq _).trans hr)

/-- Contents at the end of a segment, but for code, are reworded as a whole. -/
theorem Reworded.of_contents_end {part : Part} {contents text : Text} (hp : part.isContents = true)
    (hn : text ≠ []) (h : Reworded (of part contents ++ of .code text) segment') :
  ∃ contents', segment' = of part contents' ++ of .code text ∧ part.Rewords contents contents'
  := by
  cases text with
  | nil => exact absurd rfl hn
  | cons c text =>
    obtain ⟨contents', behind, rfl, hc, hbehind⟩ := h.of_contents hp
    obtain rfl := hbehind.eq_of_isPlain (isPlain_code text)
    exact ⟨contents', rfl, hc⟩

/-- A string in front of a segment is reworded as a string with the same quotation marks. -/
theorem Reworded.of_string {quote : Char} {body : Text}
    (h : Reworded (Segment.string quote body ++ segment) segment') :
  ∃ (body' : Text) (behind : Segment), segment' = Segment.string quote body' ++ behind
    ∧ (Part.quoted quote).Rewords body body' ∧ Reworded segment behind
  := by
  have hstring : Segment.string quote body ++ segment
      = (quote, .code) :: (of (.quoted quote) body ++ (quote, .code) :: segment) := by
    simp [Segment.string]
  rw [hstring] at h
  obtain ⟨_, rfl, hcontents⟩ := h.of_cons rfl
  obtain ⟨body', behind, rfl, hbody, hbehind⟩ := hcontents.of_contents rfl
  exact ⟨body', behind, by simp [Segment.string], hbody, hbehind⟩

/-- A string at the end of a segment is reworded as a string with the same quotation marks. -/
theorem Reworded.of_string_end {quote : Char} {body : Text}
    (h : Reworded (Segment.string quote body) segment') :
  ∃ body', segment' = Segment.string quote body' ∧ (Part.quoted quote).Rewords body body'
  := by
  obtain ⟨_, rfl, hcontents⟩ := h.of_cons rfl
  obtain ⟨body', rfl, hbody⟩ := @Reworded.of_contents_end _ _ body [quote] rfl (by simp) hcontents
  exact ⟨body', rfl, hbody⟩

/-- A chunk is reworded as one that begins and ends with the same characters. -/
theorem Reworded.of_chunk {opening : Char} {contents : Text} {stop : ChunkEnd}
    (h : Reworded ((opening, .code) :: Segment.chunk contents stop) segment') :
  ∃ contents', segment' = (opening, .code) :: Segment.chunk contents' stop
    ∧ Part.chunk.Rewords contents contents'
  := by
  obtain ⟨_, rfl, hcontents⟩ := h.of_cons rfl
  obtain ⟨contents', rfl, hc⟩ := hcontents.of_contents_end rfl (by cases stop <;> simp [ChunkEnd.text])
  exact ⟨contents', rfl, hc⟩

/-- A regular expression is reworded as one with the same flags. -/
theorem Reworded.of_pattern {body flags : Text}
    (h : Reworded (Segment.pattern body flags) segment') :
  ∃ body', segment' = Segment.pattern body' flags ∧ Part.pattern.Rewords body body'
  := by
  obtain ⟨_, rfl, hcontents⟩ := h.of_cons rfl
  obtain ⟨body', rfl, hbody⟩ := hcontents.of_contents_end rfl (by simp)
  exact ⟨body', rfl, hbody⟩

/-- What stands between curly brackets is read as that when its strings are reworded. -/
theorem Braces.renewed (h : Braces segment rest) (hr : rest = tail.text) (ht : Renewed tail tail')
    (hs : Reworded segment segment') :
  Braces segment' tail'.text
  := by
  induction h generalizing segment' with
  | close =>
    obtain rfl := hs.eq_of_isPlain (isPlain_code ['}'])
    exact .close
  | string hq hb _ ih =>
    obtain ⟨body', behind, rfl, hbody, hbehind⟩ := hs.of_string
    exact .string hq (hbody.isStringBody hq hb) (ih hr hbehind)
  | @comment comment segment rest hc h ih =>
    obtain ⟨behind, rfl, hbehind⟩ := hs.of_append (Segment.isPlain_of rfl comment)
    apply Braces.comment _ (ih hr hbehind)
    simpa using hc.renewed (show _ = Segment.text (segment ++ tail) by simp [hr])
      (Renewed.append ⟨h.framed, hbehind⟩ ht)
  | @other c segment rest hq hb hc h ih =>
    obtain ⟨behind, rfl, hbehind⟩ := hs.of_cons rfl
    apply Braces.other hq hb _ (ih hr hbehind)
    have hrenewed := Renewed.append ⟨h.framed, hbehind⟩ ht
    rw [← Segment.text_append, hrenewed.beginsComment_cons]
    simpa [hr] using hc

/-- Whether two specifiers are as long, where there are any. -/
def SameLength (specifier other : Option Text) : Prop :=
  specifier.map List.length = other.map List.length

namespace SameLength

variable {specifier other : Option Text}

/-- Specifiers of the same length are both missing or both there. -/
theorem none_or_some (h : SameLength specifier other) :
  (specifier = none ∧ other = none)
    ∨ ∃ body body', specifier = some body ∧ other = some body' ∧ body.length = body'.length
  := by
  cases specifier with
  | none =>
    cases other with
    | none => exact .inl ⟨rfl, rfl⟩
    | some body' => cases h
  | some body =>
    cases other with
    | none => cases h
    | some body' => exact .inr ⟨body, body', rfl, rfl, Option.some.inj h⟩

/-- Declarations with specifiers of the same length have the same offsets. -/
theorem map_ofSpecifier_eq (h : SameLength specifier other) (start position : Nat) :
  specifier.map (Occurrence.ofSpecifier start position)
    = other.map (Occurrence.ofSpecifier start position)
  := by
  obtain ⟨rfl, rfl⟩ | ⟨body, body', rfl, rfl, hlength⟩ := h.none_or_some
  · rfl
  · simp [Occurrence.ofSpecifier, hlength]

/-- What is expected behind an export depends on whether there is a specifier, not on which. -/
theorem expectsBehindExport_eq (h : SameLength specifier other) :
  expectsBehindExport specifier = expectsBehindExport other
  := by
  obtain ⟨rfl, rfl⟩ | ⟨body, body', rfl, rfl, -⟩ := h.none_or_some
  · rfl
  · rfl

end SameLength

/-- A clause is read as one when its strings are reworded, with a specifier of the same length. -/
theorem ImportClause.renewed {specifier : Option Text} (h : ImportClause segment specifier rest)
    (hr : rest = tail.text) (ht : Renewed tail tail') (hs : Reworded segment segment') :
  ∃ specifier', ImportClause segment' specifier' tail'.text ∧ SameLength specifier' specifier
  := by
  induction h generalizing segment' with
  | @stop trivia c rest htrivia hb hm hi =>
    obtain rfl := hs.eq_of_isPlain htrivia.isPlain
    have hhead := ht.head?_eq
    rw [← hr] at hhead
    obtain ⟨rest', hrest'⟩ := List.head?_eq_some_iff.mp hhead
    have htrivia' := htrivia.renewed hr ht
    rw [hrest'] at htrivia' ⊢
    exact ⟨none, .stop htrivia' hb hm hi, rfl⟩
  | @braces trivia braces segment specifier rest htrivia hb h ih =>
    subst hr
    obtain ⟨_, rfl, hbrace⟩ := hs.of_append htrivia.isPlain
    obtain ⟨_, rfl, hinside⟩ := hbrace.of_cons rfl
    obtain ⟨braces', behind, rfl, hbraces, hbehind⟩ := hb.framed.exists_append hinside
    obtain ⟨specifier', hclause, hlength⟩ := ih rfl hbehind
    have hrenewed := Renewed.append ⟨h.framed, hbehind⟩ ht
    have hbraces' : Braces braces' (behind.text ++ tail'.text) := by
      simpa using hb.renewed (show _ = Segment.text (segment ++ tail) by simp) hrenewed hbraces
    have htrivia' : Trivia trivia ('{' :: (braces'.text ++ (behind.text ++ tail'.text))) := by
      simpa using htrivia.renewed
        (show _ = Segment.text (of .code ['{'] ++ (braces ++ (segment ++ tail))) by simp)
        ((Renewed.append ⟨hb.framed, hbraces⟩ hrenewed).append_left (isPlain_code ['{']))
    exact ⟨specifier', .braces htrivia' hbraces' hclause, hlength⟩
  | @mark trivia segment c specifier rest htrivia hm h ih =>
    subst hr
    obtain ⟨_, rfl, hmark⟩ := hs.of_append htrivia.isPlain
    obtain ⟨behind, rfl, hbehind⟩ := hmark.of_cons rfl
    obtain ⟨specifier', hclause, hlength⟩ := ih rfl hbehind
    have htrivia' : Trivia trivia (c :: (behind.text ++ tail'.text)) := by
      simpa using htrivia.renewed (show _ = Segment.text (of .code [c] ++ (segment ++ tail)) by simp)
        ((Renewed.append ⟨h.framed, hbehind⟩ ht).append_left (isPlain_code [c]))
    exact ⟨specifier', .mark htrivia' hm hclause, hlength⟩
  | @word trivia segment name specifier rest htrivia hw hf h ih =>
    subst hr
    obtain ⟨_, rfl, hname⟩ := hs.of_append htrivia.isPlain
    obtain ⟨behind, rfl, hbehind⟩ := hname.of_append (isPlain_code name)
    obtain ⟨specifier', hclause, hlength⟩ := ih rfl hbehind
    have hrenewed := Renewed.append ⟨h.framed, hbehind⟩ ht
    have hword : IsWord name (behind.text ++ tail'.text) := by
      simpa using hw.renewed (show _ = Segment.text (segment ++ tail) by simp) hrenewed
    have htrivia' : Trivia trivia (name ++ (behind.text ++ tail'.text)) := by
      simpa using htrivia.renewed
        (show _ = Segment.text (of .code name ++ (segment ++ tail)) by simp)
        (hrenewed.append_left (isPlain_code name))
    exact ⟨specifier', .word htrivia' hword hf hclause, hlength⟩
  | @loneFrom trivia gap segment specifier rest htrivia hw hg hq h ih =>
    subst hr
    obtain ⟨_, rfl, hname⟩ := hs.of_append htrivia.isPlain
    obtain ⟨_, rfl, hspace⟩ := hname.of_append (isPlain_code fromWord)
    obtain ⟨behind, rfl, hbehind⟩ := hspace.of_append hg.isPlain
    obtain ⟨specifier', hclause, hlength⟩ := ih rfl hbehind
    have hrenewed := Renewed.append ⟨h.framed, hbehind⟩ ht
    have hword : IsWord fromWord (gap.text ++ (behind.text ++ tail'.text)) := by
      simpa using hw.renewed (show _ = Segment.text (gap ++ (segment ++ tail)) by simp)
        (hrenewed.append_left hg.isPlain)
    have hgap : Trivia gap (behind.text ++ tail'.text) := by
      simpa using hg.renewed (show _ = Segment.text (segment ++ tail) by simp) hrenewed
    have htrivia' : Trivia trivia (fromWord ++ (gap.text ++ (behind.text ++ tail'.text))) := by
      simpa using htrivia.renewed
        (show _ = Segment.text (of .code fromWord ++ (gap ++ (segment ++ tail))) by simp)
        ((hrenewed.append_left hg.isPlain).append_left (isPlain_code fromWord))
    have hquote : beginsQuote (behind.text ++ tail'.text) = false := by
      rw [← Segment.text_append, hrenewed.beginsQuote_eq, Segment.text_append, hq]
    exact ⟨specifier', .loneFrom htrivia' hword hgap hquote hclause, hlength⟩
  | @specifier trivia gap quote body rest htrivia hw hg hq hb =>
    subst hr
    obtain ⟨_, rfl, hname⟩ := hs.of_append htrivia.isPlain
    obtain ⟨_, rfl, hspace⟩ := hname.of_append (isPlain_code fromWord)
    obtain ⟨_, rfl, hstring⟩ := hspace.of_append hg.isPlain
    obtain ⟨body', rfl, hbody⟩ := hstring.of_string_end
    have hrenewed := Renewed.append ⟨.string hq hb, hstring⟩ ht
    have hword : IsWord fromWord
        (gap.text ++ ((Segment.string quote body').text ++ tail'.text)) := by
      simpa using hw.renewed
        (show _ = Segment.text (gap ++ (Segment.string quote body ++ tail)) by simp)
        (hrenewed.append_left hg.isPlain)
    have hgap : Trivia gap ((Segment.string quote body').text ++ tail'.text) := by
      simpa using hg.renewed
        (show _ = Segment.text (Segment.string quote body ++ tail) by simp) hrenewed
    have htrivia' : Trivia trivia
        (fromWord ++ (gap.text ++ ((Segment.string quote body').text ++ tail'.text))) := by
      simpa using htrivia.renewed
        (show _ = Segment.text
          (of .code fromWord ++ (gap ++ (Segment.string quote body ++ tail))) by simp)
        ((hrenewed.append_left hg.isPlain).append_left (isPlain_code fromWord))
    exact ⟨some body', .specifier htrivia' hword hgap hq (hbody.isStringBody hq hb),
      congrArg some hbody.length_eq⟩

/-- An alias is read as one when its string is reworded. -/
theorem Alias.renewed (h : Alias segment rest) (hr : rest = tail.text) (ht : Renewed tail tail')
    (hs : Reworded segment segment') :
  Alias segment' tail'.text
  := by
  subst hr
  cases h with
  | missing h =>
    obtain rfl := hs.of_nil
    exact .missing ((ht.beginsWord_eq (by decide)).trans h)
  | @string gap quote body _ hw hg hq hb =>
    obtain ⟨_, rfl, hspace⟩ := hs.of_append (isPlain_code asWord)
    obtain ⟨_, rfl, hstring⟩ := hspace.of_append hg.isPlain
    obtain ⟨body', rfl, hbody⟩ := hstring.of_string_end
    have hrenewed := Renewed.append ⟨.string hq hb, hstring⟩ ht
    have hstops : stops isIdentifierPart
        (gap.text ++ ((Segment.string quote body').text ++ tail'.text)) = true := by
      simpa using ((hrenewed.append_left hg.isPlain).stops_eq isIdentifierPart).trans
        (by simpa using hw)
    have hgap : Trivia gap ((Segment.string quote body').text ++ tail'.text) := by
      simpa using hg.renewed
        (show _ = Segment.text (Segment.string quote body ++ tail) by simp) hrenewed
    exact .string hstops hgap hq (hbody.isStringBody hq hb)
  | @name gap name _ hw hg hq hn hr =>
    obtain ⟨_, rfl, hspace⟩ := hs.of_append (isPlain_code asWord)
    obtain ⟨_, rfl, hname⟩ := hspace.of_append hg.isPlain
    obtain rfl := hname.eq_of_isPlain (isPlain_code name)
    have hrenewed := ht.append_left (isPlain_code name)
    have hstops : stops isIdentifierPart (gap.text ++ (name ++ tail'.text)) = true := by
      simpa using ((hrenewed.append_left hg.isPlain).stops_eq isIdentifierPart).trans
        (by simpa using hw)
    have hgap : Trivia gap (name ++ tail'.text) := by
      simpa using hg.renewed (show _ = Segment.text (of .code name ++ tail) by simp) hrenewed
    have hquote : beginsQuote (name ++ tail'.text) = false := by
      simpa using hrenewed.beginsQuote_eq.trans (by simpa using hq)
    exact .name hstops hgap hquote hn ((ht.stops_eq _).trans hr)

variable {s f : State}

/-- Whatever a run begins with, the spaces and comments are passed by it as they are. -/
theorem ExportSource.renewed {specifier : Option Text} (h : ExportSource segment specifier rest)
    (hrun : Run s tail f) (hr : s.cursor.rest = rest) (ht : Reworded tail tail')
    (hs : Reworded segment segment') :
  ∃ specifier', ExportSource segment' specifier' tail'.text ∧ SameLength specifier' specifier
  := by
  cases h with
  | missing hg h =>
    obtain rfl := hs.of_nil
    obtain ⟨behind, rfl, rfl, hbehind⟩ := hrun.behind_trivia hg hr
    obtain ⟨behind', rfl, hreworded⟩ := ht.of_append hg.isPlain
    have hrenewed : Renewed behind behind' := ⟨hbehind.framed, hreworded⟩
    refine ⟨none, ?_, rfl⟩
    simpa using ExportSource.missing (hg.renewed rfl hrenewed)
      ((hrenewed.beginsWord_eq (by decide)).trans h)
  | @loneFrom trivia gap rest htrivia hw hg hq =>
    obtain rfl := hs.of_nil
    have hword : IsWord fromWord (gap.text ++ rest) := .mk (by decide) (by decide) hw
    obtain ⟨_, -, rfl, hfrom⟩ := hrun.behind_trivia htrivia hr
    obtain ⟨_, -, rfl, hgap⟩ := hfrom.behind_word hword (by decide) (by decide) (by decide) rfl
    obtain ⟨behind, rfl, rfl, hbehind⟩ := hgap.behind_trivia hg rfl
    obtain ⟨_, rfl, hname⟩ := ht.of_append htrivia.isPlain
    obtain ⟨_, rfl, hspace⟩ := hname.of_append (isPlain_code fromWord)
    obtain ⟨behind', rfl, hreworded⟩ := hspace.of_append hg.isPlain
    have hrenewed : Renewed behind behind' := ⟨hbehind.framed, hreworded⟩
    have hstops : stops isIdentifierPart (gap.text ++ behind'.text) = true := by
      simpa using ((hrenewed.append_left hg.isPlain).stops_eq isIdentifierPart).trans
        (by simpa using hw)
    have htrivia' : Trivia trivia (fromWord ++ (gap.text ++ behind'.text)) := by
      simpa using htrivia.renewed (show _ = Segment.text (of .code fromWord ++ (gap ++ behind)) by simp)
        ((hrenewed.append_left hg.isPlain).append_left (isPlain_code fromWord))
    refine ⟨none, ?_, rfl⟩
    simpa using ExportSource.loneFrom htrivia' hstops (hg.renewed rfl hrenewed)
      (hrenewed.beginsQuote_eq.trans hq)
  | @specifier trivia gap quote body rest htrivia hw hg hq hb =>
    obtain rfl : rest = tail.text := hr.symm.trans hrun.rest_eq
    obtain ⟨_, rfl, hname⟩ := hs.of_append htrivia.isPlain
    obtain ⟨_, rfl, hspace⟩ := hname.of_append (isPlain_code fromWord)
    obtain ⟨_, rfl, hstring⟩ := hspace.of_append hg.isPlain
    obtain ⟨body', rfl, hbody⟩ := hstring.of_string_end
    have hrenewed := Renewed.append ⟨.string hq hb, hstring⟩ ⟨hrun.framed, ht⟩
    have hstops : stops isIdentifierPart
        (gap.text ++ ((Segment.string quote body').text ++ tail'.text)) = true := by
      simpa using ((hrenewed.append_left hg.isPlain).stops_eq isIdentifierPart).trans
        (by simpa using hw)
    have hgap : Trivia gap ((Segment.string quote body').text ++ tail'.text) := by
      simpa using hg.renewed
        (show _ = Segment.text (Segment.string quote body ++ tail) by simp) hrenewed
    have htrivia' : Trivia trivia
        (fromWord ++ (gap.text ++ ((Segment.string quote body').text ++ tail'.text))) := by
      simpa using htrivia.renewed
        (show _ = Segment.text
          (of .code fromWord ++ (gap ++ (Segment.string quote body ++ tail))) by simp)
        ((hrenewed.append_left hg.isPlain).append_left (isPlain_code fromWord))
    exact ⟨some body', .specifier htrivia' hstops hgap hq (hbody.isStringBody hq hb),
      congrArg some hbody.length_eq⟩

/-- An export is read as one when its strings are reworded, with a specifier of the same length. -/
theorem ExportClause.renewed {specifier : Option Text} (h : ExportClause segment specifier rest)
    (hrun : Run s tail f) (hr : s.cursor.rest = rest) (ht : Reworded tail tail')
    (hs : Reworded segment segment') :
  ∃ specifier', ExportClause segment' specifier' tail'.text ∧ SameLength specifier' specifier
  := by
  obtain rfl : rest = tail.text := hr.symm.trans hrun.rest_eq
  have htail : Renewed tail tail' := ⟨hrun.framed, ht⟩
  cases h with
  | @other trivia _ htrivia hstar hbrace =>
    obtain rfl := hs.eq_of_isPlain htrivia.isPlain
    rw [← htail.head?_eq] at hstar hbrace
    exact ⟨none, .other (htrivia.renewed rfl htail) hstar hbrace, rfl⟩
  | @star trivia gap naming source specifier _ htrivia hg ha hsource =>
    obtain ⟨_, rfl, hmark⟩ := hs.of_append htrivia.isPlain
    obtain ⟨_, rfl, hspace⟩ := hmark.of_cons rfl
    obtain ⟨_, rfl, hboth⟩ := hspace.of_append hg.isPlain
    obtain ⟨naming', source', rfl, hnaming, hbehind⟩ := ha.framed.exists_append hboth
    obtain ⟨specifier', hsource', hlength⟩ := hsource.renewed hrun hr ht hbehind
    have hrenewed := Renewed.append ⟨hsource.framed, hbehind⟩ htail
    have hnaming' : Alias naming' (source'.text ++ tail'.text) := by
      simpa using ha.renewed (show _ = Segment.text (source ++ tail) by simp) hrenewed hnaming
    have hrenewed := Renewed.append ⟨ha.framed, hnaming⟩ hrenewed
    have hgap : Trivia gap (naming'.text ++ (source'.text ++ tail'.text)) := by
      simpa using hg.renewed (show _ = Segment.text (naming ++ (source ++ tail)) by simp) hrenewed
    have htrivia' : Trivia trivia
        ('*' :: (gap.text ++ (naming'.text ++ (source'.text ++ tail'.text)))) := by
      simpa using htrivia.renewed
        (show _ = Segment.text (of .code ['*'] ++ (gap ++ (naming ++ (source ++ tail)))) by simp)
        ((hrenewed.append_left hg.isPlain).append_left (isPlain_code ['*']))
    exact ⟨specifier', .star htrivia' hgap hnaming' hsource', hlength⟩
  | @braces trivia braces source specifier _ htrivia hb hsource =>
    obtain ⟨_, rfl, hmark⟩ := hs.of_append htrivia.isPlain
    obtain ⟨_, rfl, hboth⟩ := hmark.of_cons rfl
    obtain ⟨braces', source', rfl, hbraces, hbehind⟩ := hb.framed.exists_append hboth
    obtain ⟨specifier', hsource', hlength⟩ := hsource.renewed hrun hr ht hbehind
    have hrenewed := Renewed.append ⟨hsource.framed, hbehind⟩ htail
    have hbraces' : Braces braces' (source'.text ++ tail'.text) := by
      simpa using hb.renewed (show _ = Segment.text (source ++ tail) by simp) hrenewed hbraces
    have htrivia' : Trivia trivia ('{' :: (braces'.text ++ (source'.text ++ tail'.text))) := by
      simpa using htrivia.renewed
        (show _ = Segment.text (of .code ['{'] ++ (braces ++ (source ++ tail))) by simp)
        ((Renewed.append ⟨hb.framed, hbraces⟩ hrenewed).append_left (isPlain_code ['{']))
    exact ⟨specifier', .braces htrivia' hbraces' hsource', hlength⟩

end

end ImportCensus.Scan
