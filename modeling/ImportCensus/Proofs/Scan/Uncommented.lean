import ImportCensus.Proofs.Scan.Statement
import ImportCensus.Proofs.Scan.Veil

/-!
# Comments taken out

Where comments are taken out of a segment, their line feeds stay.  A declaration is still one, since what
stands around a comment separates its tokens, except for two characters of words with nothing but the comment
between them.
-/

namespace ImportCensus.Scan

open Segment (of)

namespace Segment

/-- A segment without its comments, apart from their line feeds. -/
def uncommented (segment : Segment) : Segment :=
  segment.filterMap fun passed =>
    if passed.2 = .comment then (if passed.1 = '\n' then some ('\n', .code) else none) else some passed

/-- Whether a character goes with its comment. -/
def isHidden (passed : Char × Part) : Bool :=
  passed.2 = .comment && passed.1 != '\n'

/-- Whether a character stands outside of comments and may go on a word. -/
def isNaming (passed : Char × Part) : Bool :=
  passed.2 ≠ .comment && isIdentifierPart passed.1

/-- Whether there is nothing but comments between two characters of words, which are brought together where
the comments are taken out. -/
def joins : Segment → Bool
  | [] => false
  | passed :: segment =>
    isNaming passed && segment.head?.any isHidden && (segment.dropWhile isHidden).head?.any isNaming
      || joins segment

@[simp]
theorem uncommented_nil :
  uncommented [] = []
  := rfl

@[simp]
theorem uncommented_append (s t : Segment) :
  uncommented (s ++ t) = uncommented s ++ uncommented t
  := List.filterMap_append

/-- A character outside of comments stays. -/
theorem uncommented_cons_of_ne {c : Char} {part : Part} (hp : part ≠ .comment) (segment : Segment) :
  uncommented ((c, part) :: segment) = (c, part) :: uncommented segment
  := by
  simp [uncommented, hp]

/-- Of a comment a line feed stays, as one of code. -/
theorem uncommented_cons_comment (c : Char) (segment : Segment) :
  uncommented ((c, .comment) :: segment)
    = if c = '\n' then ('\n', .code) :: uncommented segment else uncommented segment
  := by
  by_cases hc : c = '\n'
  · simp [uncommented, hc]
  · simp [uncommented, hc]

@[simp]
theorem uncommented_code (c : Char) (segment : Segment) :
  uncommented ((c, .code) :: segment) = (c, .code) :: uncommented segment
  := uncommented_cons_of_ne (by simp) segment

@[simp]
theorem uncommented_of {part : Part} (hp : part ≠ .comment) (text : Text) :
  uncommented (of part text) = of part text
  := by
  induction text with
  | nil => rfl
  | cons c text ih => rw [of_cons, uncommented_cons_of_ne hp, ih]

@[simp]
theorem uncommented_string (quote : Char) (body : Text) :
  uncommented (string quote body) = string quote body
  := by
  simp [string]

/-- Nothing changes where there are no comments. -/
theorem uncommented_eq {segment : Segment} (h : ∀ passed ∈ segment, passed.2 ≠ .comment) :
  uncommented segment = segment
  := by
  induction segment with
  | nil => rfl
  | cons passed segment ih =>
    rw [List.forall_mem_cons] at h
    rw [uncommented_cons_of_ne h.1, ih h.2]

/-- Of a comment nothing is left but line feeds. -/
theorem isBlank_uncommented_comment (comment : Text) :
  IsBlank (uncommented (of .comment comment))
  := by
  intro passed hp
  obtain ⟨_, hmem, hfeed⟩ := List.mem_filterMap.mp hp
  obtain ⟨c, -, rfl⟩ := List.mem_map.mp hmem
  simp only [if_true] at hfeed
  split at hfeed
  · cases hfeed
    exact ⟨rfl, .inl (by decide)⟩
  · cases hfeed

/-- Where comments bring no words together, they do not do so in a part of it. -/
theorem joins_of_append {s t : Segment} (h : joins (s ++ t) = false) :
  joins t = false
  := by
  induction s with
  | nil => exact h
  | cons passed s ih =>
    rw [List.cons_append, joins, Bool.or_eq_false_iff] at h
    exact ih h.2

/-- What does not go on a word does not do so without comments, if they do not bring words together. -/
theorem stops_uncommented {word : Text} {segment : Segment} (hw : word.all isIdentifierPart = true)
    (hn : word ≠ []) (hj : joins (of .code word ++ segment) = false)
    (hs : stops isIdentifierPart segment.text = true) :
  stops isIdentifierPart segment.uncommented.text = true
  := by
  obtain ⟨front, c, rfl⟩ := List.eq_nil_or_concat word |>.resolve_left hn
  rw [List.concat_eq_append] at hw hj
  have hc : isNaming (c, .code) = true := by
    simpa [isNaming] using List.all_eq_true.mp hw c (by simp)
  have hjoins : joins ((c, .code) :: segment) = false := by
    apply @joins_of_append (of .code front)
    simpa using hj
  rw [joins, hc, Bool.true_and, Bool.or_eq_false_iff, Bool.and_eq_false_iff] at hjoins
  -- on what is left behind the characters that go with a comment
  have hleft : ∀ rest : Segment, (rest.dropWhile isHidden).head?.any isNaming = false →
      stops isIdentifierPart rest.uncommented.text = true := by
    intro rest hrest
    induction rest with
    | nil => rfl
    | cons passed rest ih =>
      obtain ⟨d, part⟩ := passed
      by_cases hp : part = .comment
      · subst hp
        by_cases hd : d = '\n'
        · subst hd
          rfl
        · have hhidden : isHidden (d, .comment) = true := by simp [isHidden, hd]
          have hcut : uncommented ((d, .comment) :: rest) = uncommented rest := by
            simp [uncommented, hd]
          rw [List.dropWhile_cons_of_pos hhidden] at hrest
          rw [hcut]
          exact ih hrest
      · have hshown : ¬ isHidden (d, part) = true := by simp [isHidden, hp]
        rw [List.dropWhile_cons_of_neg hshown] at hrest
        rw [uncommented_cons_of_ne hp]
        simpa [stops, isNaming, hp] using hrest
  obtain hhead | hrest := hjoins.1
  · cases segment with
    | nil => rfl
    | cons passed segment =>
      obtain ⟨d, part⟩ := passed
      by_cases hp : part = .comment
      · subst hp
        have hd : d = '\n' := by simpa [isHidden] using hhead
        subst hd
        rfl
      · rw [uncommented_cons_of_ne hp]
        exact hs
  · exact hleft segment hrest

end Segment

/-! ### Declarations without comments -/

section

variable {segment gap : Segment} {rest : Text}

/-- A run of characters ends alike whatever stands behind a text that is not empty. -/
theorem stops_append_of_ne_nil {p : Char → Bool} {text : Text} (hn : text ≠ []) (more : Text) :
  stops p (text ++ more) = stops p text
  := by
  cases text with
  | nil => exact absurd rfl hn
  | cons c text => rfl

/-- What is neither a space nor a slash ends spaces and comments whatever stands behind it. -/
theorem isSettled_cons_of_cons {c : Char} {text : Text} (h : isSettled (c :: text) = true) (hc : c ≠ '/')
    (more : Text) :
  isSettled (c :: more) = true
  := by
  apply isSettled_cons _ hc
  simp only [isSettled, stops, List.head?_cons, Option.all_some, Bool.and_eq_true, Bool.not_eq_true'] at h
  exact h.1

/-- Spaces without the comments between them are skipped. -/
theorem Trivia.uncommented (h : Trivia gap rest) {rest' : Text} (hr : Scan.isSettled rest' = true) :
  Trivia gap.uncommented rest'
  := by
  induction h with
  | settled => exact .settled hr
  | space hc _ ih =>
    rw [Segment.uncommented_code]
    exact .space hc ih
  | comment _ _ ih =>
    rw [Segment.uncommented_append]
    exact ih.of_isBlank (Segment.isBlank_uncommented_comment _)

/-- There is something up to a closing bracket. -/
theorem Braces.exists_cons (h : Braces segment rest) :
  ∃ c more, segment.text = c :: more
  := by
  cases h with
  | close => exact ⟨_, _, rfl⟩
  | string => exact ⟨_, _, rfl⟩
  | comment hc =>
    cases hc with
    | line => exact ⟨_, _, rfl⟩
    | block => exact ⟨_, _, rfl⟩
  | other => exact ⟨_, _, rfl⟩

/-- No comment begins where the ones between curly brackets are taken out. -/
theorem Braces.beginsComment_uncommented (h : Braces segment rest) {c : Char}
    (hc : beginsComment (c :: (segment.text ++ rest)) = false) (rest' : Text) :
  beginsComment (c :: (segment.uncommented.text ++ rest')) = false
  := by
  by_cases hslash : c = '/'
  · subst hslash
    obtain ⟨d, more, htext⟩ := h.exists_cons
    rw [htext, List.cons_append, beginsComment_cons_cons] at hc
    -- what stands behind the slash is no comment, and stays
    have hne : d ≠ '/' ∧ d ≠ '*' := by simpa using hc
    obtain ⟨part, behind, hp, rfl, -⟩ := h.marked.exists_cons htext (beginsComment_of_ne hne.1 more)
    rw [Segment.uncommented_cons_of_ne hp, Segment.text_cons, List.cons_append, beginsComment_cons_cons]
    simpa using hne
  · exact beginsComment_of_ne hslash _

/-- What stands between curly brackets is read as that without its comments. -/
theorem Braces.uncommented (h : Braces segment rest) (rest' : Text) :
  Braces segment.uncommented rest'
  := by
  induction h with
  | close => exact .close
  | string hq hb _ ih =>
    rw [Segment.uncommented_append, Segment.uncommented_string]
    exact .string hq hb ih
  | comment _ _ ih =>
    rw [Segment.uncommented_append]
    exact ih.of_isBlank (Segment.isBlank_uncommented_comment _)
  | other hq hb hc h ih =>
    rw [Segment.uncommented_code]
    exact .other hq hb (h.beginsComment_uncommented hc rest') ih

/-- A word ends without the comments behind it, unless these keep two words apart. -/
theorem IsWord.uncommented {name : Text} (h : IsWord name (segment.text ++ rest))
    (hj : (of .code name ++ segment).joins = false) (hn : segment.uncommented ≠ []) (rest' : Text) :
  IsWord name (segment.uncommented.text ++ rest')
  := by
  cases h with
  | mk hc ht hr =>
    refine .mk hc ht ?_
    rw [stops_append_of_ne_nil (by simpa [Segment.text] using hn)]
    apply Segment.stops_uncommented _ (List.cons_ne_nil _ _) hj
    · have hne : segment.text ≠ [] := by
        intro hnil
        have hempty : segment = [] := List.map_eq_nil_iff.mp hnil
        exact hn (by rw [hempty]; rfl)
      rwa [stops_append_of_ne_nil hne] at hr
    · rw [List.all_cons, ht, isIdentifierPart_of_start hc]
      rfl

/-- Spaces and comments in front of a settled text are none. -/
theorem Trivia.eq_nil_of_isSettled (h : Trivia gap rest) (hs : Scan.isSettled (gap.text ++ rest) = true) :
  gap = []
  := (h.unique (.settled hs) rfl).1

/-- A clause that neither a space nor a comment stands before begins with its first token. -/
theorem ImportClause.exists_cons {body : Text} (h : ImportClause segment (some body) rest)
    (hs : isSettled (segment.text ++ rest) = true) :
  ∃ c more, segment = (c, .code) :: more ∧ c ≠ '/'
  := by
  have hslash : ∀ {name behind : Text}, IsWord name behind → ∃ c more, name = c :: more ∧ c ≠ '/' := by
    intro name behind hw
    cases hw with
    | mk hc => exact ⟨_, _, rfl, (State.ne_of_isIdentifierStart hc).1⟩
  cases h with
  | braces ht =>
    obtain rfl := ht.eq_nil_of_isSettled (by simpa using hs)
    exact ⟨_, _, rfl, by decide⟩
  | mark ht hm =>
    obtain rfl := ht.eq_nil_of_isSettled (by simpa using hs)
    refine ⟨_, _, rfl, ?_⟩
    rintro rfl
    exact absurd hm (by decide)
  | word ht hw =>
    obtain rfl := ht.eq_nil_of_isSettled (by simpa using hs)
    obtain ⟨c, more, rfl, hc⟩ := hslash hw
    exact ⟨_, _, rfl, hc⟩
  | loneFrom ht =>
    obtain rfl := ht.eq_nil_of_isSettled (by simpa using hs)
    exact ⟨_, _, rfl, by decide⟩
  | specifier ht =>
    obtain rfl := ht.eq_nil_of_isSettled (by simpa using hs)
    exact ⟨_, _, rfl, by decide⟩

/-- The first character of a clause stays. -/
theorem ImportClause.head?_uncommented {body : Text} (h : ImportClause segment (some body) rest)
    (hs : isSettled (segment.text ++ rest) = true) (rest' : Text) :
  isSettled (segment.uncommented.text ++ rest') = true
    ∧ (segment.uncommented.text ++ rest').head? = (segment.text ++ rest).head?
  := by
  obtain ⟨c, more, rfl, hc⟩ := h.exists_cons hs
  rw [Segment.uncommented_code]
  exact ⟨isSettled_cons_of_cons hs hc _, rfl⟩

/-- A clause with a specifier has more than comments. -/
theorem ImportClause.uncommented_ne_nil {body : Text} (h : ImportClause segment (some body) rest)
    (gap : Segment) :
  Segment.uncommented (gap ++ segment) ≠ []
  := by
  obtain ⟨front, quote, -, rfl⟩ := h.quotes body rfl
  simp [Segment.string]

/-- A word stays one where a comment may stand behind it. -/
theorem IsWord.uncommented_gap {name : Text} (h : IsWord name (gap.text ++ (segment.text ++ rest)))
    (hj : (of .code name ++ (gap ++ segment)).joins = false)
    (hn : Segment.uncommented (gap ++ segment) ≠ []) (rest' : Text) :
  IsWord name (gap.uncommented.text ++ (segment.uncommented.text ++ rest'))
  := by
  have hword : IsWord name ((gap ++ segment).text ++ rest) := by simpa using h
  simpa using hword.uncommented hj hn rest'

/-- A clause in which no comment brings words together is read without its comments. -/
theorem ImportClause.uncommented {body : Text} (h : ImportClause segment (some body) rest)
    (hj : segment.joins = false) (rest' : Text) :
  ImportClause segment.uncommented (some body) rest'
  := by
  generalize hspecifier : some body = specifier at h
  induction h with
  | stop => cases hspecifier
  | @braces trivia braces segment _ rest ht hb h ih =>
    subst hspecifier
    have hjoins : segment.joins = false := by
      apply @Segment.joins_of_append (trivia ++ ('{', .code) :: braces)
      simpa using hj
    have htrivia : Trivia trivia.uncommented
        ('{' :: (braces.uncommented.text ++ (segment.uncommented.text ++ rest'))) :=
      ht.uncommented (isSettled_cons (by decide) (by decide) _)
    simpa using ImportClause.braces htrivia (hb.uncommented _) (ih hjoins rfl)
  | @mark trivia segment c _ rest ht hm h ih =>
    subst hspecifier
    have hjoins : segment.joins = false := by
      apply @Segment.joins_of_append (trivia ++ [(c, .code)])
      simpa using hj
    have hslash : c ≠ '/' := by
      rintro rfl
      exact absurd hm (by decide)
    have htrivia : Trivia trivia.uncommented (c :: (segment.uncommented.text ++ rest')) :=
      ht.uncommented (isSettled_cons_of_cons ht.isSettled hslash _)
    simpa using ImportClause.mark htrivia hm (ih hjoins rfl)
  | @word trivia segment name _ rest ht hw hf h ih =>
    subst hspecifier
    have hword := hw.uncommented (Segment.joins_of_append hj) (h.uncommented_ne_nil []) rest'
    have htrivia : Trivia trivia.uncommented (name ++ (segment.uncommented.text ++ rest')) := by
      apply ht.uncommented
      cases hw with
      | mk hc => exact isSettled_cons_of_cons ht.isSettled (State.ne_of_isIdentifierStart hc).1 _
    have hjoins := Segment.joins_of_append (Segment.joins_of_append hj)
    simpa using ImportClause.word htrivia hword hf (ih hjoins rfl)
  | @loneFrom trivia gap segment _ rest ht hw hg hq h ih =>
    subst hspecifier
    have hjoins := Segment.joins_of_append hj
    obtain ⟨hsettled, hhead⟩ := h.head?_uncommented hg.isSettled rest'
    have hquote : beginsQuote (segment.uncommented.text ++ rest') = false := by
      rw [beginsQuote, hhead]
      exact hq
    have hword := hw.uncommented_gap hjoins (h.uncommented_ne_nil gap) rest'
    have htrivia : Trivia trivia.uncommented
        (fromWord ++ (gap.uncommented.text ++ (segment.uncommented.text ++ rest'))) :=
      ht.uncommented (isSettled_cons (by decide) (by decide) _)
    have hrest := Segment.joins_of_append (Segment.joins_of_append hjoins)
    simpa using ImportClause.loneFrom htrivia hword (hg.uncommented hsettled) hquote (ih hrest rfl)
  | @specifier trivia gap quote _ rest ht hw hg hq hb =>
    cases hspecifier
    have hword := hw.uncommented_gap (Segment.joins_of_append hj) (by simp [Segment.string]) rest'
    have hgap : Trivia gap.uncommented ((Segment.string quote body).text ++ rest') :=
      hg.uncommented (isSettled_cons_of_cons hg.isSettled (State.ne_of_isQuote hq).2 _)
    have htrivia : Trivia trivia.uncommented
        (fromWord ++ (gap.uncommented.text ++ ((Segment.string quote body).text ++ rest'))) :=
      ht.uncommented (isSettled_cons (by decide) (by decide) _)
    simpa using ImportClause.specifier htrivia (by simpa using hword) hgap hq hb

/-- A declaration in which no comment brings words together is one without its comments. -/
theorem Declares.uncommented {body : Text} (h : Declares segment body rest) (hj : segment.joins = false)
    (rest' : Text) :
  Declares segment.uncommented body rest'
  := by
  cases h with
  | @bare gap quote _ _ hw hg hq hb =>
    have hword := hw.uncommented_gap hj (by simp [Segment.string]) rest'
    have hgap : Trivia gap.uncommented ((Segment.string quote body).text ++ rest') :=
      hg.uncommented (isSettled_cons_of_cons hg.isSettled (State.ne_of_isQuote hq).2 _)
    simpa using Declares.bare (by simpa using hword) hgap hq hb
  | @clause gap segment _ _ hw hg hq hr hc =>
    obtain ⟨hsettled, hhead⟩ := hc.head?_uncommented hg.isSettled rest'
    have hword := hw.uncommented_gap hj (hc.uncommented_ne_nil gap) rest'
    have hclause := hc.uncommented (Segment.joins_of_append (Segment.joins_of_append hj)) rest'
    have hquote : beginsQuote (segment.uncommented.text ++ rest') = false := by
      rw [beginsQuote, hhead]
      exact hq
    rw [← hhead] at hr
    simpa using Declares.clause hword (hg.uncommented hsettled) hquote hr hclause

end

end ImportCensus.Scan
