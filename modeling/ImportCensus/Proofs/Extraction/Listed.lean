import ImportCensus.Proofs.Extraction.Spaced

/-!
# Names in curly brackets with and without comments

The items of a block are names and strings with blanks and commas between them.  The same names are read of them
with spaces in the place of the comments, unless a name of theirs has a blank in it, where no item is.
-/

namespace ImportCensus.Scan.Segment

open Text

/-! ### Items -/

/-- Whether a character may stand among items: it is one of a name, a string or a comment, or it separates
items. -/
def isListed (passed : Char × Part) : Bool :=
  passed.2 != .code || isIdentifierPart passed.1 || isBlank passed.1 || isQuote passed.1 || passed.1 == ','

/-- Whether a character is the given one and stands outside of comments. -/
def isMark (c : Char) (passed : Char × Part) : Bool :=
  passed.1 == c && passed.2 != .comment

/-- What stands between the first opening curly bracket of a segment and its last closing one, from back to
front. -/
def inBrackets (segment : Segment) : Segment :=
  ((segment.dropWhile (!isMark '\x7b' ·)).tail.reverse.dropWhile (!isMark '\x7d' ·)).tail

/-- A segment that has nothing but items in its curly brackets. -/
def ListsItems (segment : Segment) : Prop :=
  ∀ passed ∈ segment.inBrackets, isListed passed = true

instance (segment : Segment) : Decidable (ListsItems segment) :=
  inferInstanceAs (Decidable (∀ passed ∈ segment.inBrackets, isListed passed = true))

/-- A shown character other than a line feed is the mark that it looks like. -/
theorem isMark_of_shown {passed : Char × Part} (hp : isHidden passed = false) {c : Char} (hc : passed.1 = c)
    (hn : c ≠ '\n') :
  isMark c passed = true
  := by
  obtain ⟨d, part⟩ := passed
  subst hc
  cases part with
  | comment => exact absurd (eq_of_shown_comment hp) hn
  | _ => simp [isMark]

/-- What stands behind a mark stands behind the first one. -/
theorem suffix_tail_dropWhile {p : Char × Part → Bool} {mark : Char × Part} (hm : p mark = true)
    (front behind : Segment) :
  behind <:+ ((front ++ mark :: behind).dropWhile (!p ·)).tail
  := by
  induction front with
  | nil =>
    rw [List.nil_append, List.dropWhile_cons_of_neg (by simp [hm])]
    exact List.suffix_rfl
  | cons first front ih =>
    rw [List.cons_append]
    by_cases hfirst : p first = true
    · rw [List.dropWhile_cons_of_neg (by simp [hfirst])]
      exact (List.suffix_cons mark behind).trans (List.suffix_append front _)
    · rw [List.dropWhile_cons_of_pos (by simp [hfirst])]
      exact ih

/-- What stands between curly brackets stands between the first and the last. -/
theorem mem_inBrackets {front inside behind : Segment} {opening closing passed : Char × Part}
    (ho : isMark '\x7b' opening = true) (hc : isMark '\x7d' closing = true) (hp : passed ∈ inside) :
  passed ∈ inBrackets (front ++ opening :: (inside ++ closing :: behind))
  := by
  obtain ⟨more, heq⟩ := suffix_tail_dropWhile ho front (inside ++ closing :: behind)
  have hsuffix := suffix_tail_dropWhile hc behind.reverse (inside.reverse ++ more.reverse)
  rw [inBrackets, ← heq, List.reverse_append, List.reverse_append, List.reverse_cons, List.append_assoc,
    List.append_assoc, List.singleton_append]
  exact hsuffix.mem (by simp [hp])

end ImportCensus.Scan.Segment

namespace ImportCensus.Clause

open Text Scan
open Segment (closed spaced isHidden isShown isListed goesOn)

/-! ### Types among the items -/

/-- An item is imported as a type if the word `type` and a blank begin it. -/
theorem isTypeItem_iff {item : Text} :
  isTypeItem item = true ↔ ∃ blank rest, item = typeWord ++ blank :: rest ∧ isBlank blank = true
  := by
  have hword : ['t', 'y', 'p', 'e'] = typeWord := rfl
  rw [isTypeItem, hword, Option.isSome_iff_exists]
  constructor
  · rintro ⟨rest, hrest⟩
    obtain ⟨gap, rfl, hn, hg, -⟩ := behindWord?_eq_some_iff.mp hrest
    obtain ⟨blank, gap, rfl⟩ := List.exists_cons_of_ne_nil hn
    rw [List.all_cons, Bool.and_eq_true] at hg
    exact ⟨blank, gap ++ rest, rfl, hg.1⟩
  · rintro ⟨blank, rest, rfl, hblank⟩
    refine ⟨skipBlanks rest, ?_⟩
    rw [behindWord?, after?_append, Option.bind_some, skipBlanks₁?, if_pos hblank]

theorem isQuote_of_isBlank {c : Char} (h : isBlank c = true) :
  isQuote c = false
  := by
  rw [← Bool.not_eq_true]
  intro hquote
  have hblank : isBlank c = false := Written.of_isQuote (p := fun c => isBlank c = false) hquote (by decide)
  rw [hblank] at h
  cases h

/-- Stripping leaves what is not to be stripped. -/
theorem mem_strip {p : Char → Bool} {c : Char} {text : Text} (hc : c ∈ text) (hp : p c = false) :
  c ∈ strip p text
  := by
  have hdrop : ∀ {text : Text}, c ∈ text → c ∈ text.dropWhile p := by
    intro text hmem
    rw [← List.takeWhile_append_dropWhile (p := p) (l := text), List.mem_append] at hmem
    obtain htake | hdrop := hmem
    · rw [List.all_eq_true.mp List.all_takeWhile c htake] at hp
      cases hp
    · exact hdrop
  rw [strip, List.mem_reverse]
  apply hdrop
  rw [List.mem_reverse]
  exact hdrop hc

/-- Stripping the end of a text leaves it up to a character that is not to be stripped. -/
theorem exists_reverse_dropWhile {p : Char → Bool} {c : Char} (hp : p c = false) (front behind : Text) :
  ∃ rest, ((front ++ c :: behind).reverse.dropWhile p).reverse = front ++ c :: rest
  := by
  rw [List.reverse_append, List.reverse_cons, List.append_assoc, List.singleton_append, List.dropWhile_append]
  split
  · refine ⟨[], ?_⟩
    rw [List.dropWhile_cons_of_neg (by simp [hp])]
    simp
  · exact ⟨(behind.reverse.dropWhile p).reverse, by simp⟩

section

variable {segment : Segment}

/-- The blanks around both texts are those around one part of the segment. -/
theorem exists_trim (segment : Segment) :
  ∃ item : Segment, item <:+: segment ∧ isShown item.reverse = true
    ∧ trim segment.closed = item.closed ∧ trim segment.spaced = item.spaced
  := by
  obtain ⟨front, rest, rfl, hrest, hclosed, hspaced⟩ := exists_dropWhile (fun _ => id) segment
  obtain ⟨behind, item, heq, hitem, hclosed', hspaced'⟩ := exists_dropWhile (fun _ => id) rest.reverse
  obtain rfl : rest = item.reverse ++ behind.reverse := by
    rw [← List.reverse_append, ← heq, List.reverse_reverse]
  refine ⟨item.reverse, ⟨front, behind.reverse, by simp⟩, by simpa using hitem, ?_, ?_⟩
  · rw [trim, strip, hclosed, ← Segment.closed_reverse, hclosed', ← Segment.closed_reverse]
  · rw [trim, strip, hspaced, ← Segment.spaced_reverse, hspaced', ← Segment.spaced_reverse]

/-- Quotation marks are taken off both texts, unless a blank is left in front of the one. -/
theorem exists_dropWhile_isQuote (h : (segment.spaced.dropWhile isQuote).head?.any isBlank = false) :
  ∃ front rest, segment = front ++ rest ∧ rest.isShown = true
    ∧ segment.closed.dropWhile isQuote = rest.closed ∧ segment.spaced.dropWhile isQuote = rest.spaced
  := by
  induction segment with
  | nil => exact ⟨[], [], rfl, rfl, rfl, rfl⟩
  | cons passed segment ih =>
    cases hp : isHidden passed with
    | true =>
      obtain ⟨blank, hblank, hspaced⟩ := Segment.exists_spaced_cons_of_hidden hp
      rw [hspaced, List.dropWhile_cons_of_neg (by simp [isQuote_of_isBlank hblank])] at h
      rw [List.head?_cons, Option.any_some, hblank] at h
      cases h
    | false =>
      have hclosed := Segment.closed_cons_of_shown hp segment
      have hspaced := Segment.spaced_cons_of_shown hp segment
      by_cases hc : isQuote passed.1 = true
      · rw [hspaced, List.dropWhile_cons_of_pos hc] at h
        obtain ⟨front, rest, rfl, hrest, hclosed', hspaced'⟩ := ih h
        refine ⟨passed :: front, rest, rfl, hrest, ?_, ?_⟩
        · rw [hclosed, List.dropWhile_cons_of_pos hc, hclosed']
        · rw [hspaced, List.dropWhile_cons_of_pos hc, hspaced']
      · refine ⟨[], passed :: segment, rfl, by simp [isShown, hp], ?_, ?_⟩
        · rw [hclosed, List.dropWhile_cons_of_neg hc]
        · rw [hspaced, List.dropWhile_cons_of_neg hc]

/-- Where hidden characters stand among items and nothing meets, a blank is what follows them within an item. -/
theorem exists_blank_of_hidden {passed : Char × Part} (h : Segment.meets (passed :: segment) = false)
    (hp : isHidden passed = true) (hl : ∀ passed ∈ segment, isListed passed = true) (hc : ',' ∉ segment.closed) :
  segment.closed = [] ∨ ∃ blank rest, segment.closed = blank :: rest ∧ isBlank blank = true
  := by
  obtain hnil | ⟨front, next, rest, rfl, hclosed, hnext, hgoes⟩ := Segment.exists_of_hidden h hp
  · exact .inl hnil
  · refine .inr ⟨next.1, closed rest, hclosed, ?_⟩
    have hlisted := hl next (by simp)
    rw [hclosed, List.mem_cons, not_or] at hc
    obtain ⟨c, part⟩ := next
    cases part with
    | comment =>
      obtain rfl := Segment.eq_of_shown_comment hnext
      decide
    | code =>
      simp only [goesOn, Bool.or_eq_false_iff] at hgoes
      simpa [isListed, hgoes, Ne.symm hc.1] using hlisted
    | quoted quote => cases hgoes
    | chunk => cases hgoes
    | pattern => cases hgoes

/-- Where the last character of a segment is shown, all that ends there shows something. -/
theorem closed_ne_nil {front behind : Segment} (h : isShown (front ++ behind).reverse = true) (hn : behind ≠ []) :
  closed behind ≠ []
  := by
  obtain ⟨behind, last, rfl⟩ := List.eq_nil_or_concat behind |>.resolve_left hn
  have hlast : isHidden last = false := by simpa [isShown] using h
  simp [Segment.closed_cons_of_shown hlast]

/-- What is a type with spaces in the place of its comments is one without them. -/
theorem isTypeItem_closed (h : segment.welds = false) (hl : ∀ passed ∈ segment, isListed passed = true)
    (hc : ',' ∉ segment.closed) (hs : isShown segment.reverse = true)
    (ht : isTypeItem (strip isQuote segment.spaced) = true) :
  isTypeItem (strip isQuote segment.closed) = true
  := by
  obtain ⟨blank, left, hstrip, hblank⟩ := isTypeItem_iff.mp ht
  have hprefix : strip isQuote segment.spaced <+: segment.spaced.dropWhile isQuote := by
    rw [← List.reverse_suffix, strip, List.reverse_reverse]
    apply List.dropWhile_suffix
  obtain ⟨more, hmore⟩ := hprefix
  rw [hstrip, List.append_assoc] at hmore
  have hfirst : (segment.spaced.dropWhile isQuote).head?.any isBlank = false := by
    rw [← hmore]
    rfl
  obtain ⟨marks, item, rfl, hitem, hclosed, hspaced⟩ := exists_dropWhile_isQuote hfirst
  have hwelds := Segment.welds_of_append h
  -- the word `type` is read in both texts, with a blank behind it
  obtain ⟨-, hnone⟩ | ⟨word, rest, rfl, hrest, hword, hword'⟩ :=
    @after?_or item typeWord (by decide) hwelds (Segment.meets_of_isShown hitem)
  · rw [← hspaced, ← hmore, after?_append] at hnone
    cases hnone
  rw [← hspaced, ← hmore, after?_append] at hword'
  have hbehind : blank :: left ++ more = spaced rest := Option.some.inj hword'
  have hgap : ∃ blank rest', closed rest = blank :: rest' ∧ isBlank blank = true := by
    cases rest with
    | nil => cases hbehind
    | cons passed rest =>
      cases hp : isHidden passed with
      | false =>
        rw [Segment.spaced_cons_of_shown hp] at hbehind
        obtain rfl := (List.cons.inj hbehind).1
        exact ⟨passed.1, closed rest, Segment.closed_cons_of_shown hp rest, hblank⟩
      | true =>
        rw [Segment.closed_cons_of_hidden hp]
        have hlisted : ∀ passed ∈ rest, isListed passed = true := by
          intro passed hmem
          exact hl passed (by simp [hmem])
        have hcomma : ',' ∉ closed rest := by
          intro hmem
          apply hc
          simp [Segment.closed_cons_of_hidden hp, hmem]
        obtain hnil | hsome := exists_blank_of_hidden hrest hp hlisted hcomma
        · have hne := @closed_ne_nil (marks ++ word) (passed :: rest) (by simpa using hs) (List.cons_ne_nil _ _)
          rw [Segment.closed_cons_of_hidden hp] at hne
          exact absurd hnil hne
        · exact hsome
  obtain ⟨gap, rest', hgap, hgap'⟩ := hgap
  have heq := after?_eq_some_iff.mp hword
  rw [hgap] at heq
  obtain ⟨rest'', hrest''⟩ := exists_reverse_dropWhile (isQuote_of_isBlank hgap') typeWord rest'
  rw [strip, hclosed, heq, hrest'']
  exact isTypeItem_iff.mpr ⟨gap, rest'', rfl, hgap'⟩

/-! ### Names -/

/-- A text without blanks is a name of those that have none. -/
def Unbroken (names : List Text) : Prop :=
  ∀ name ∈ names, name.any isBlank = false

instance (names : List Text) : Decidable (Unbroken names) :=
  inferInstanceAs (Decidable (∀ name ∈ names, name.any isBlank = false))

/-- Comments weld nothing within a segment where they weld nothing in the whole. -/
theorem welds_within {s : Segment} (h : segment.welds = false) (hs : s <:+: segment) :
  s.welds = false
  := by
  obtain ⟨front, behind, rfl⟩ := hs
  rw [List.append_assoc] at h
  exact Segment.welds_of_append_left (Segment.welds_of_append h)

/-- The name of an item is the same, if it has no blanks. -/
theorem ofParts_closed (h : segment.welds = false) (hl : ∀ passed ∈ segment, isListed passed = true)
    (hc : ',' ∉ segment.closed) (hn : Unbroken (Written.ofParts [segment.spaced])) :
  Written.ofParts [segment.closed] = Written.ofParts [segment.spaced]
  := by
  obtain ⟨item, hitem, hlast, hclosed, hspaced⟩ := exists_trim segment
  simp only [Written.ofParts, List.map_cons, List.map_nil, hclosed, hspaced] at hn ⊢
  by_cases hblank : ∀ c ∈ item.spaced, isBlank c = false
  · rw [Segment.closed_eq_spaced hblank]
  -- a name with a blank in it is none, so that the item is a type
  push Not at hblank
  obtain ⟨blank, hmem, hblank⟩ := hblank
  rw [ne_eq, Bool.not_eq_false] at hblank
  have hname := mem_strip hmem (isQuote_of_isBlank hblank)
  have htype : isTypeItem (strip isQuote item.spaced) = true := by
    rw [← Bool.not_eq_false]
    intro hvalue
    have hnone := hn (strip isQuote item.spaced) (by simp [hvalue, List.ne_nil_of_mem hname])
    rw [List.any_eq_false] at hnone
    exact hnone blank hname hblank
  have htype' : isTypeItem (strip isQuote item.closed) = true := by
    apply isTypeItem_closed (welds_within h hitem) _ _ hlast htype
    · intro passed hpassed
      exact hl passed (hitem.mem hpassed)
    · obtain ⟨front, behind, rfl⟩ := hitem
      simp at hc
      tauto
  simp [htype, htype']

/-- Taking comments out of the parts of a block leaves the names as they are. -/
theorem ofParts_map_closed {stretches : List Segment}
    (h : ∀ stretch ∈ stretches, stretch.welds = false ∧ (∀ passed ∈ stretch, isListed passed = true)
      ∧ ',' ∉ stretch.closed)
    (hn : Unbroken (Written.ofParts (stretches.map spaced))) :
  Written.ofParts (stretches.map closed) = Written.ofParts (stretches.map spaced)
  := by
  induction stretches with
  | nil => rfl
  | cons stretch stretches ih =>
    rw [List.forall_mem_cons] at h
    obtain ⟨⟨hwelds, hlisted, hcomma⟩, hrest⟩ := h
    rw [List.map_cons, Written.ofParts_cons, Unbroken, List.forall_mem_append] at hn
    rw [List.map_cons, List.map_cons, Written.ofParts_cons, ofParts_closed hwelds hlisted hcomma hn.1, ih hrest hn.2,
      ← Written.ofParts_cons]

/-- The names of items are the same, if they have no blanks. -/
theorem names_eq_names (h : segment.welds = false) (hl : ∀ passed ∈ segment, isListed passed = true)
    (hn : Unbroken (names segment.spaced)) :
  names segment.closed = names segment.spaced
  := by
  obtain ⟨first, others, hcut⟩ := @exists_stretches segment true true h (.inl ⟨rfl, nofun⟩)
  rw [Written.names_eq, hcut.spaced_eq, ← List.map_cons] at hn
  rw [Written.names_eq, Written.names_eq, hcut.closed_eq, hcut.spaced_eq, ← List.map_cons, ← List.map_cons]
  apply ofParts_map_closed _ hn
  intro stretch hstretch
  have hwithin : stretch <:+: segment := by
    obtain rfl | hmem := List.mem_cons.mp hstretch
    · exact hcut.first_prefix.isInfix
    · exact hcut.others_infix stretch hmem
  refine ⟨welds_within h hwithin, ?_, hcut.comma_notMem stretch hstretch⟩
  intro passed hpassed
  exact hl passed (hwithin.mem hpassed)

/-- The names in curly brackets are the same, if there is nothing but items and no name has blanks. -/
theorem named_eq_named (h : segment.welds = false) (hl : segment.ListsItems) (hn : Unbroken (named segment.spaced)) :
  named segment.closed = named segment.spaced
  := by
  rw [named] at hn
  rw [named, named]
  obtain ⟨hclosed, hspaced⟩ | ⟨front, opening, inside, closing, behind, rfl, ho, hc, hclosed, hspaced⟩ :=
    block?_or segment
  · rw [hclosed, hspaced]
  · rw [hspaced] at hn
    rw [hclosed, hspaced]
    have hinside : inside <:+: front ++ opening :: (inside ++ closing :: behind) :=
      ⟨front ++ [opening], closing :: behind, by simp⟩
    apply names_eq_names (welds_within h hinside) _ hn
    intro passed hpassed
    apply hl
    apply Segment.mem_inBrackets _ _ hpassed
    · exact Segment.isMark_of_shown ho.1 ho.2 (by decide)
    · exact Segment.isMark_of_shown hc.1 hc.2 (by decide)

end

end ImportCensus.Clause
