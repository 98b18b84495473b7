import Mathlib.Logic.Relation
import ImportCensus.Proofs.Extraction.Recognition

/-!
# Sources that go on

A source that is scanned may go on with a line feed and a declaration.  Every reader that saw the end of the
source then sees the line feed and the first word of the declaration instead, and passes what it passed
before, maybe with the line feed.  There is one exception: an export of a star with `as` at the end takes the
first word of the declaration for its alias.
-/

namespace ImportCensus.Scan

open Segment (of)

/-- Whether a text may go on behind a line feed without being taken for the end of what stands before it. -/
structure Continues (text : Text) : Prop where
  settled : isSettled text = true
  not_quote : beginsQuote text = false
  not_as : beginsWord asWord text = false
  not_from : beginsWord fromWord text = false
  not_star : text.head? ≠ some '*'
  not_curly : text.head? ≠ some '{'

/-- With the word `import` nothing in front of it goes on. -/
theorem continues_import (rest : Text) :
  Continues (importWord ++ rest)
  := by
  constructor
  · apply isSettled_cons (by decide) (by decide)
  · rfl
  · rfl
  · rfl
  · rintro ⟨⟩
  · rintro ⟨⟩

/-- With the word `export` nothing in front of it goes on. -/
theorem continues_export (rest : Text) :
  Continues (exportWord ++ rest)
  := by
  constructor
  · apply isSettled_cons (by decide) (by decide)
  · rfl
  · rfl
  · rfl
  · rintro ⟨⟩
  · rintro ⟨⟩

/-! ### Spaces, comments and words -/

section

variable {text rest : Text} {gap segment : Segment} {name : Text}

/-- A run of characters that ends does so with a line feed behind the text. -/
theorem stops_feed {p : Char → Bool} (hp : p '\n' = false) (h : stops p rest = true) (text : Text) :
  stops p (rest ++ '\n' :: text) = true
  := by
  cases rest with
  | nil => simp [stops, hp]
  | cons c rest => exact h

/-- A word that ends does so with a line feed behind the text. -/
theorem ends_feed (h : stops isIdentifierPart rest = true) (text : Text) :
  stops isIdentifierPart (rest ++ '\n' :: text) = true
  := stops_feed (by decide) h text

/-- Whether a comment begins does not depend on a line behind the text. -/
theorem beginsComment_feed (rest text : Text) :
  beginsComment (rest ++ '\n' :: text) = beginsComment rest
  := by
  cases rest with
  | nil => rfl
  | cons c rest =>
    cases rest with
    | nil =>
      rw [List.singleton_append, beginsComment_cons_cons]
      have hend : beginsComment [c] = false := by
        unfold beginsComment
        split <;> simp_all
      simp [hend]
    | cons d rest => simp only [List.cons_append, beginsComment_cons_cons]

/-- Whether a number begins does not depend on a line behind the text. -/
theorem beginsNumber_feed (c : Char) (rest text : Text) :
  State.beginsNumber c (rest ++ '\n' :: text) = State.beginsNumber c rest
  := by
  cases rest with
  | nil =>
    have hfeed : Text.isDigit '\n' = false := by decide
    simp [State.beginsNumber, hfeed]
  | cons d rest => rfl

/-- Spaces and comments end where they have ended, with a line behind the text. -/
theorem isSettled_feed (h : isSettled rest = true) (hn : rest ≠ []) :
  isSettled (rest ++ '\n' :: text) = true
  := by
  rw [isSettled, beginsComment_feed, Written.stops_append hn]
  exact h

/-- A text that is not empty begins alike with a line behind it. -/
theorem head?_feed (hn : rest ≠ []) (text : Text) :
  (rest ++ '\n' :: text).head? = rest.head?
  := by
  cases rest with
  | nil => exact absurd rfl hn
  | cons c rest => rfl

/-- Whether a quotation mark stands in front does not depend on a line behind the text. -/
theorem beginsQuote_feed (hn : rest ≠ []) (text : Text) :
  beginsQuote (rest ++ '\n' :: text) = beginsQuote rest
  := by
  rw [beginsQuote, beginsQuote, head?_feed hn]

/-- A comment is one with a line behind the text. -/
theorem IsComment.feed {comment : Text} (h : IsComment comment rest) (text : Text) :
  IsComment comment (rest ++ '\n' :: text)
  := by
  cases h with
  | line hb hr => exact .line hb (stops_feed rfl hr text)
  | block hb => exact .block hb

/-- A word is one with a line behind the text. -/
theorem IsWord.feed (h : IsWord name rest) (text : Text) :
  IsWord name (rest ++ '\n' :: text)
  := by
  cases h with
  | mk hc ht hr => exact .mk hc ht (ends_feed hr text)

/-- Whether a word stands in front does not depend on a line behind the text. -/
theorem beginsWord_feed {word : Text} (hw : '\n' ∉ word) (hn : word ≠ []) (rest text : Text) :
  beginsWord word (rest ++ '\n' :: text) = beginsWord word rest
  := by
  rw [Bool.eq_iff_iff, beginsWord_iff, beginsWord_iff]
  constructor
  · rintro ⟨behind, he, hends⟩
    obtain ⟨more, rfl, hmore⟩ | ⟨more, rfl, rfl⟩ := List.append_eq_append_iff.mp he
    · -- the word would end in the line feed or behind it
      cases more with
      | nil => exact ⟨[], by simp, rfl⟩
      | cons c more =>
        obtain rfl : '\n' = c := (List.cons.inj hmore).1
        exact absurd (by simp) hw
    · refine ⟨more, rfl, ?_⟩
      cases more with
      | nil => rfl
      | cons c more => exact hends
  · rintro ⟨behind, rfl, hends⟩
    exact ⟨behind ++ '\n' :: text, by simp, ends_feed hends text⟩

/-- Spaces and comments in front of something do not reach the line feed. -/
theorem Trivia.feed (h : Trivia gap rest) (hn : rest ≠ []) (text : Text) :
  Trivia gap (rest ++ '\n' :: text)
  := by
  induction h with
  | settled hs => exact .settled (isSettled_feed hs hn)
  | space hc h ih => exact .space hc (ih hn)
  | comment hc h ih =>
    have hcomment := hc.feed text
    rw [List.append_assoc] at hcomment
    exact .comment hcomment (ih hn)

/-- Spaces and comments at the end of a source go on with the line feed. -/
theorem Trivia.feed_of_nil (h : Trivia gap []) (ht : Scan.isSettled text = true) :
  Trivia (gap ++ [('\n', .code)]) text
  := by
  generalize hrest : ([] : Text) = rest at h
  induction h with
  | settled => exact .space (by decide) (.settled ht)
  | space hc h ih => exact .space hc (ih hrest)
  | comment hc h ih =>
    subst hrest
    have hcomment := hc.feed text
    rw [List.append_nil] at hcomment
    rw [List.append_assoc]
    apply Trivia.comment _ (ih rfl)
    simpa using hcomment

end

/-! ### Clauses -/

section

variable {text rest : Text} {segment : Segment} {specifier : Option Text}

/-- Curly brackets are closed where they have been, with a line behind the text. -/
theorem Braces.feed (h : Braces segment rest) (text : Text) :
  Braces segment (rest ++ '\n' :: text)
  := by
  induction h with
  | close => exact .close
  | string hq hb h ih => exact .string hq hb ih
  | comment hc h ih =>
    have hcomment := hc.feed text
    rw [List.append_assoc] at hcomment
    exact .comment hcomment ih
  | @other c segment rest hq hb hc h ih =>
    apply Braces.other hq hb _ ih
    rw [← List.append_assoc, ← List.cons_append, beginsComment_feed]
    exact hc

/-- The clause of an import ends before the source does. -/
theorem ImportClause.feed (h : ImportClause segment specifier rest) (text : Text) :
  ImportClause segment specifier (rest ++ '\n' :: text)
  := by
  induction h with
  | stop ht hb hm hi => exact .stop (ht.feed nofun text) hb hm hi
  | braces ht hb h ih =>
    have htrivia := ht.feed (by simp) text
    have hbraces := hb.feed text
    apply ImportClause.braces _ _ ih
    · simpa using htrivia
    · simpa using hbraces
  | mark ht hm h ih =>
    have htrivia := ht.feed (by simp) text
    apply ImportClause.mark _ hm ih
    simpa using htrivia
  | word ht hw hf h ih =>
    have htrivia := ht.feed (by cases hw; simp) text
    have hword := hw.feed text
    apply ImportClause.word _ _ hf ih
    · simpa using htrivia
    · simpa using hword
  | loneFrom ht hw hg hq h ih =>
    have htrivia := ht.feed (by simp [fromWord]) text
    have hword := hw.feed text
    have hgap := hg.feed h.ne_nil text
    have hquote := (beginsQuote_feed h.ne_nil text).trans hq
    apply ImportClause.loneFrom _ _ _ _ ih
    · simpa using htrivia
    · simpa using hword
    · simpa using hgap
    · simpa using hquote
  | specifier ht hw hg hq hb =>
    have htrivia := ht.feed (by simp [fromWord]) text
    have hword := hw.feed text
    have hgap := hg.feed (by simp) text
    apply ImportClause.specifier _ _ _ hq hb
    · simpa using htrivia
    · simpa using hword
    · simpa using hgap

/-- Whether an alias is missing behind its `as`. -/
def LacksName (naming : Segment) : Prop :=
  ∃ gap, naming = of .code asWord ++ gap ∧ stops isIdentifierPart gap.text = true ∧ Trivia gap []

/-- An alias is read as one with a line behind the text, unless its name is missing at the end of the text. -/
theorem Alias.feed (h : Alias segment rest) (hn : rest = [] → ¬ LacksName segment) (text : Text) :
  Alias segment (rest ++ '\n' :: text)
  := by
  cases h with
  | missing h => exact .missing ((beginsWord_feed (by decide) (by decide) rest text).trans h)
  | string hw hg hq hb =>
    have hends := ends_feed hw text
    have hgap := hg.feed (by simp) text
    apply Alias.string _ _ hq hb
    · simpa using hends
    · simpa using hgap
  | @name gap name _ hw hg hq ha hr =>
    have hne : name ++ rest ≠ [] := by
      intro he
      obtain ⟨rfl, rfl⟩ := List.append_eq_nil_iff.mp he
      apply hn rfl
      exact ⟨gap, by simp, by simpa using hw, hg⟩
    have hends := ends_feed hw text
    have hgap := hg.feed hne text
    have hquote := (beginsQuote_feed hne text).trans hq
    apply Alias.name _ _ _ ha (ends_feed hr text)
    · simpa using hends
    · simpa using hgap
    · simpa using hquote

/-- The look behind an export's clause may end at the line feed or behind it. -/
theorem ExportSource.feed (h : ExportSource segment specifier rest) (ht : Continues text) :
  ExportSource segment specifier (rest ++ '\n' :: text)
  := by
  cases h with
  | @missing gap rest hg h =>
    cases rest with
    | nil =>
      have hsource := ExportSource.missing (hg.feed_of_nil ht.settled) ht.not_from
      simpa using hsource
    | cons c rest =>
      have hfrom := (beginsWord_feed (by decide) (by decide) (c :: rest) text).trans h
      have hsource := ExportSource.missing (hg.feed nofun text) hfrom
      simpa using hsource
  | @loneFrom trivia gap rest htrivia hw hg hq =>
    have htrivia := htrivia.feed (by simp [fromWord]) text
    have hends := ends_feed hw text
    cases rest with
    | nil =>
      have hgap := hg.feed_of_nil ht.settled
      have hsource := @ExportSource.loneFrom trivia _ _ (by simpa using htrivia) (by simpa using hends) hgap
        ht.not_quote
      simpa using hsource
    | cons c rest =>
      have hgap := hg.feed nofun text
      have hsource := @ExportSource.loneFrom trivia _ _ (by simpa using htrivia) (by simpa using hends) hgap hq
      simpa using hsource
  | specifier htrivia hw hg hq hb =>
    have htrivia := htrivia.feed (by simp [fromWord]) text
    have hends := ends_feed hw text
    have hgap := hg.feed (by simp) text
    apply ExportSource.specifier _ _ _ hq hb
    · simpa using htrivia
    · simpa using hends
    · simpa using hgap

/-- A source of an export without characters has no specifier. -/
theorem ExportSource.eq_of_text (h : ExportSource segment specifier rest) (hs : segment.text = []) :
  segment = [] ∧ specifier = none
  := by
  cases h with
  | missing => exact ⟨rfl, rfl⟩
  | loneFrom => exact ⟨rfl, rfl⟩
  | specifier => simp [fromWord] at hs

/-- Whether the rest of an export is a star with an alias that is missing at the end of the source. -/
def DanglesBehind (rest : Text) : Prop :=
  ∃ trivia gap naming : Segment, rest = trivia.text ++ '*' :: (gap.text ++ naming.text)
    ∧ Trivia trivia ('*' :: (gap.text ++ naming.text)) ∧ Trivia gap naming.text ∧ LacksName naming

/-- Where an export ends with the source in spaces and comments, these go on with the line feed. -/
theorem ExportClause.feed (h : ExportClause segment specifier rest) (ht : Continues text)
    (hd : rest = [] → ¬ DanglesBehind segment.text) :
  ExportClause segment specifier (rest ++ '\n' :: text)
    ∨ rest = [] ∧ specifier = none ∧ ExportClause (segment ++ [('\n', .code)]) none text
  := by
  cases h with
  | other htrivia hs hb =>
    cases rest with
    | nil => exact .inr ⟨rfl, rfl, .other (htrivia.feed_of_nil ht.settled) ht.not_star ht.not_curly⟩
    | cons c rest => exact .inl (.other (htrivia.feed nofun text) hs hb)
  | @star trivia gap naming source _ _ htrivia hg ha hs =>
    have hfront := htrivia.feed nofun text
    by_cases hne : naming.text ++ (source.text ++ rest) = []
    · right
      obtain ⟨hnaming, hbehind⟩ := List.append_eq_nil_iff.mp hne
      obtain ⟨hsource, rfl⟩ := List.append_eq_nil_iff.mp hbehind
      obtain rfl : naming = [] := List.map_eq_nil_iff.mp hnaming
      obtain ⟨rfl, rfl⟩ := hs.eq_of_text hsource
      refine ⟨rfl, rfl, ?_⟩
      have hgap : Trivia gap [] := hg
      have hsource : ExportSource [] none text := .missing (.settled ht.settled) ht.not_from
      have hclause := @ExportClause.star trivia (gap ++ [('\n', .code)]) [] [] _ _
        (by simpa using hfront) (hgap.feed_of_nil ht.settled) (.missing ht.not_as) hsource
      simpa using hclause
    · left
      have hgap := hg.feed hne text
      have halias : Alias naming (source.text ++ rest ++ '\n' :: text) := by
        apply ha.feed
        intro he hlacks
        rw [he, List.append_nil] at htrivia hg
        obtain ⟨hsource, rfl⟩ := List.append_eq_nil_iff.mp he
        apply hd rfl
        exact ⟨trivia, gap, naming, by simp [hsource], htrivia, hg, hlacks⟩
      have hclause := @ExportClause.star trivia gap naming source _ _ (by simpa using hfront)
        (by simpa using hgap) (by simpa using halias) (hs.feed ht)
      simpa using hclause
  | braces htrivia hb hs =>
    left
    have htrivia := htrivia.feed nofun text
    have hbraces := hb.feed text
    apply ExportClause.braces _ _ (hs.feed ht)
    · simpa using htrivia
    · simpa using hbraces

end

/-! ### Steps and runs -/

/-- A state with more text behind its source. -/
def State.more (s : State) (text : Text) : State :=
  { s with cursor := ⟨s.cursor.before, s.cursor.rest ++ text⟩ }

/-- Whether the scanner stands at an export of a star whose alias is missing at the end of the source. -/
def State.Dangles (s : State) : Prop :=
  s.frames = [] ∧ afterDot s.cursor.before = false
    ∧ ∃ rest, s.cursor.rest = exportWord ++ rest ∧ IsWord exportWord rest ∧ DanglesBehind rest

section

variable {s n f : State} {segment : Segment} {text : Text}

/-- A step is taken as before, and passes the line feed only where it went to the end of the source. -/
theorem Step.more (h : Step s segment n) (hr : s.cursor.rest = segment.text ++ n.cursor.rest)
    (hf : n.cursor.rest = [] → n.frames = []) (hd : ¬ s.Dangles) (ht : Continues text) :
  Step (s.more ('\n' :: text)) segment (n.more ('\n' :: text))
    ∨ n.cursor.rest = []
      ∧ Step (s.more ('\n' :: text)) (segment ++ [('\n', .code)])
          (n.moved [('\n', .code)] text n.expects)
  := by
  cases h with
  | space hc => exact .inl (.space hc)
  | comment hc => exact .inl (.comment (hc.feed text))
  | @division rest he hc =>
    have hslash := beginsComment_feed ('/' :: rest) text
    exact .inl (.division he (hslash.trans hc))
  | @pattern body flags rest he hc hb hflags hends =>
    have hslash := beginsComment_feed ('/' :: (body ++ '/' :: (flags ++ rest))) text
    have hc' := hslash.trans hc
    have hends' := ends_feed hends text
    exact .inl (.pattern he (by simpa using hc') hb hflags hends')
  | string hq hb => exact .inl (.string hq hb)
  | literal hc => exact .inl (.literal hc)
  | substitution hc => exact .inl (.substitution hc)
  | opening b => exact .inl (.opening b)
  | closing hframes ho => exact .inl (.closing hframes ho)
  | resumeLiteral hframes ho hc => exact .inl (.resumeLiteral hframes ho hc)
  | resumeSubstitution hframes ho hc => exact .inl (.resumeSubstitution hframes ho hc)
  | name hw hs hi he => exact .inl (.name (hw.feed text) hs hi he)
  | dynamic hdot hw hg =>
    have hword := hw.feed text
    exact .inl (.dynamic hdot (by simpa using hword) (hg.feed nofun text))
  | @property gap rest hdot hw hg hp =>
    left
    have hne : rest ≠ [] := by
      rintro rfl
      obtain hdot | ⟨hframes, -⟩ := hp
      · cases hdot
      · exact hframes (hf rfl)
    have hword := hw.feed text
    apply Step.property (s := s.more _) hdot _ (hg.feed hne text) _
    · simpa using hword
    · rwa [← head?_feed hne text] at hp
  | bare hdot hframes hw hg hq hb =>
    have hword := hw.feed text
    have hgap := hg.feed (by simp) text
    left
    apply Step.bare (s := s.more _) hdot hframes _ _ hq hb
    · simpa using hword
    · simpa using hgap
  | importClause hdot hframes hw hg hq hp hc =>
    have hword := hw.feed text
    have hgap := hg.feed hc.ne_nil text
    have hquote := (beginsQuote_feed hc.ne_nil text).trans hq
    left
    apply Step.importClause (s := s.more _) hdot hframes _ _ _ _ (hc.feed text)
    · simpa using hword
    · simpa using hgap
    · simpa using hquote
    · rw [← head?_feed hc.ne_nil text] at hp
      simpa using hp
  | @exportClause segment specifier rest hdot hframes hw hc =>
    have hword := hw.feed text
    have hdangles : rest = [] → ¬ DanglesBehind segment.text := by
      rintro rfl hdangling
      apply hd
      refine ⟨hframes, hdot, segment.text, ?_, ?_, hdangling⟩
      · simpa using hr
      · simpa using hw
    obtain hclause | ⟨rfl, rfl, hclause⟩ := hc.feed ht hdangles
    · left
      apply Step.exportClause (s := s.more _) hdot hframes _ hclause
      simpa using hword
    · right
      have hstep := @Step.exportClause (s.more ('\n' :: text)) _ _ _ hdot hframes
        (by simpa using hword) hclause
      refine ⟨rfl, ?_⟩
      simpa [State.more, State.declared, State.declare, Declaration.behind, State.moved, State.goto]
        using hstep
  | @number c tail rest hc htail hends =>
    left
    apply Step.number (s := s.more _) _ htail (stops_feed (by decide) hends text)
    rw [← List.append_assoc, beginsNumber_feed]
    exact hc
  | @mark c rest hc =>
    left
    have hnumber := beginsNumber_feed c rest text
    exact Step.mark (s := s.more _) { hc with not_number := hnumber.trans hc.not_number }

/-- Whether the scanner comes from a state to another one in one step. -/
def State.Next (s n : State) : Prop :=
  ∃ segment, Step s segment n ∧ s.cursor.rest = segment.text ++ n.cursor.rest

/-- At the end of a source all levels are closed. -/
theorem Run.frames_eq_nil (h : Run s segment f) (hr : s.cursor.rest = []) :
  s.frames = []
  := by
  cases h with
  | finished _ hf => exact hf
  | step hs hr' _ =>
    obtain ⟨c, rest, hc, -⟩ := hs.step_eq
    rw [← hr', hr] at hc
    cases hc

/-- A run goes on behind the line feed as it ended before it. -/
theorem Run.run_more (h : Run s segment f)
    (hd : ∀ m, Relation.ReflTransGen State.Next s m → ¬ m.Dangles) (ht : Continues text) :
  (s.more ('\n' :: text)).run = (f.moved [('\n', .code)] text f.expects).run
  := by
  induction h with
  | @finished s hr hf =>
    have hstep : Step (s.more ('\n' :: text)) [('\n', .code)] (s.moved [('\n', .code)] text s.expects) :=
      .space (s := s.more _) (by decide)
    apply hstep.run_eq
    simp [State.more, hr]
  | @step s n f segment tail hs hr h ih =>
    have hmore := hs.more hr h.frames_eq_nil (hd s .refl) ht
    have hnext : s.Next n := ⟨segment, hs, hr⟩
    obtain hstep | ⟨hrest, hstep⟩ := hmore
    · rw [hstep.run_eq (by simp [State.more, hr])]
      exact ih fun m hm => hd m (.head hnext hm)
    · -- the run ends with this step
      obtain rfl : n = f := by
        cases h with
        | finished => rfl
        | step hs' hr' _ =>
          obtain ⟨c, rest, hc, -⟩ := hs'.step_eq
          rw [← hr', hrest] at hc
          cases hc
      apply hstep.run_eq
      simp [State.more, hr, hrest]

end

/-! ### Sources -/

/-- An occurrence whose source begins that many characters farther on. -/
def Occurrence.shift (o : Occurrence) (offset : Nat) : Occurrence where
  start := o.start + offset
  stop := o.stop + offset
  statementStart := o.statementStart + offset
  statementStop := o.statementStop + offset
  dynamic := o.dynamic

/-- Whether a source ends in an export of a star whose alias is missing. -/
def Dangling (source : Text) : Prop :=
  ∃ s, Relation.ReflTransGen State.Next (.start source) s ∧ s.Dangles

/-- Going on leaves a suffix of what there was. -/
theorem State.Next.suffix {s n : State} (h : s.Next n) :
  n.cursor.rest <:+ s.cursor.rest
  := by
  obtain ⟨segment, -, hr⟩ := h
  exact ⟨segment.text, hr.symm⟩

/-- The export that a source ends in is written at its end. -/
theorem Dangling.exists_append {source : Text} (h : Dangling source) :
  ∃ before rest, source = before ++ (exportWord ++ rest) ∧ DanglesBehind rest
  := by
  obtain ⟨s, hreaches, -, -, rest, hs, -, hdangles⟩ := h
  have hstart : (State.start source).cursor.rest <:+ source := by
    obtain ⟨hashbang, behind, hh, rfl⟩ := exists_hashbang source
    rw [hh.start_eq]
    exact List.suffix_append _ _
  have hsuffix : s.cursor.rest <:+ source := by
    clear hs
    induction hreaches with
    | refl => exact hstart
    | tail _ hnext ih => exact hnext.suffix.trans ih
  rw [hs] at hsuffix
  obtain ⟨before, hsource⟩ := hsuffix
  exact ⟨before, rest, hsource.symm, hdangles⟩

/-- Without a star no alias lacks its name at the end. -/
theorem not_dangling_of_notMem {source : Text} (h : '*' ∉ source) :
  ¬ Dangling source
  := by
  intro hd
  obtain ⟨before, rest, rfl, trivia, gap, naming, rfl, -⟩ := hd.exists_append
  simp at h

/-- The line in front of a source is one with a line behind the source. -/
theorem Hashbang.feed {hashbang : Segment} {rest : Text} (h : Hashbang hashbang rest) (text : Text) :
  Hashbang hashbang (rest ++ '\n' :: text)
  := by
  cases h with
  | missing h =>
    apply Hashbang.missing
    rintro ⟨behind, hfront⟩
    cases rest with
    | nil => cases hfront
    | cons c rest =>
      cases rest with
      | nil => cases hfront
      | cons d rest =>
        cases hfront
        exact h ⟨rest, rfl⟩
  | line hb hr => exact .line hb (stops_feed rfl hr text)

/-- A word is not behind a dot if the last character that is no space is none. -/
theorem afterDot_eq_false {before : Trail}
    (h : (before.text.reverse.dropWhile isSpace).head? ≠ some '.') :
  afterDot before = false
  := by
  rw [Trail.text, List.reverse_reverse, List.dropWhile_map] at h
  unfold afterDot
  split
  · rfl
  · rename_i hd
    exact absurd (by simp [Function.comp_def, hd]) h
  · rfl

/-- A scanned source goes on in the next line, outside of all brackets and not behind a dot. -/
theorem exists_state_of_scan {source text : Text} {found : List Occurrence} (hs : scan source = .ok found)
    (hdot : (source.reverse.dropWhile isSpace).head? ≠ some '.') (hd : ¬ Dangling source)
    (ht : Continues text) :
  ∃ s : State, finish (source ++ '\n' :: text) = s.run ∧ s.cursor.rest = text ∧ s.frames = []
    ∧ s.found = found ∧ s.cursor.before.length = source.length + 1
    ∧ afterDot s.cursor.before = false
  := by
  obtain ⟨f, hf, rfl⟩ := exists_of_map_eq_ok hs
  obtain ⟨hashbang, segment, hh, rfl, hrun⟩ := finish_eq_ok_iff.mp hf
  have hstart := (hh.feed text).start_eq
  have hmore := hrun.run_more (fun m hm hdangles => hd ⟨m, by rwa [hh.start_eq], hdangles⟩) ht
  have hbefore : f.cursor.before.text = hashbang.text ++ segment.text := by
    rw [hrun.before_eq]
    simp [State.behindHashbang, State.moved, State.goto, State.initial]
  refine ⟨f.moved [('\n', .code)] text f.expects, ?_, rfl, hrun.final.2, rfl, ?_, ?_⟩
  · rw [List.append_assoc, finish, hstart]
    exact hmore
  · rw [← hbefore]
    simp [Nat.add_comm]
  · have hgap : ['\n'].all Written.isGap = true := by decide
    apply (Written.afterDot_pass_of_isGap hgap f.cursor.before).trans
    apply afterDot_eq_false
    rw [hbefore]
    exact hdot

end ImportCensus.Scan
