import ImportCensus.Proofs.Extraction.Items
import ImportCensus.Proofs.Extraction.TypeOnly

/-!
# Clauses with and without their comments

A clause is read without its comments.  With spaces in the place of its comments it is read in the same way,
where no comment holds a word apart from what would go on with it: both texts are then cut at the same places,
and what is read of the one is read of the other.
-/

namespace ImportCensus.Scan.Segment

open Text

/-! ### Two texts of one segment -/

/-- The characters of a segment where comments are taken out. -/
def closed (segment : Segment) : Text :=
  segment.uncommented.text

/-- The characters of a segment where comments are overwritten. -/
def spaced (segment : Segment) : Text :=
  segment.veiled.text

/-- Whether a character goes on with a word or an item that stands in front of it. -/
def goesOn (passed : Char × Part) : Bool :=
  match passed.2 with
  | .comment => false
  | .code => isIdentifierPart passed.1 || isQuote passed.1
  | _ => true

/-- Whether there is nothing but comments in front of what goes on with a word. -/
def meets (segment : Segment) : Bool :=
  segment.head?.any isHidden && (segment.dropWhile isHidden).head?.any goesOn

/-- Whether comments are all that holds a word apart from what goes on with it. -/
def welds : Segment → Bool
  | [] => false
  | passed :: segment => isNaming passed && meets segment || welds segment

section

variable {passed : Char × Part} {segment : Segment}

@[simp]
theorem closed_nil :
  closed [] = []
  := rfl

@[simp]
theorem spaced_nil :
  spaced [] = []
  := rfl

@[simp]
theorem closed_append (s t : Segment) :
  closed (s ++ t) = closed s ++ closed t
  := by
  simp [closed]

@[simp]
theorem spaced_append (s t : Segment) :
  spaced (s ++ t) = spaced s ++ spaced t
  := by
  simp [spaced]

/-- A hidden character leaves nothing where comments are taken out. -/
theorem closed_cons_of_hidden (h : isHidden passed = true) (segment : Segment) :
  closed (passed :: segment) = closed segment
  := by
  obtain ⟨c, part⟩ := passed
  simp only [isHidden, Bool.and_eq_true, decide_eq_true_eq, bne_iff_ne] at h
  obtain ⟨rfl, hc⟩ := h
  rw [closed, uncommented_cons_comment, if_neg hc]
  rfl

/-- A hidden character leaves a blank where comments are overwritten. -/
theorem exists_spaced_cons_of_hidden (h : isHidden passed = true) :
  ∃ blank, isBlank blank = true ∧ ∀ segment, spaced (passed :: segment) = blank :: spaced segment
  := by
  obtain ⟨c, part⟩ := passed
  simp only [isHidden, Bool.and_eq_true, decide_eq_true_eq] at h
  obtain ⟨rfl, -⟩ := h
  refine ⟨(veil (c, .comment)).1, ?_, fun _ => rfl⟩
  by_cases hc : isLineBreak c = true
  · simp only [isLineBreak, Bool.or_eq_true, beq_iff_eq] at hc
    obtain rfl | rfl := hc
    · decide
    · decide
  · rw [veil, if_pos rfl, if_neg hc]
    decide

/-- Of a comment only line feeds are shown. -/
theorem eq_of_shown_comment {c : Char} (h : isHidden (c, .comment) = false) :
  c = '\n'
  := by
  simpa [isHidden] using h

/-- A shown character stays where comments are taken out. -/
theorem closed_cons_of_shown (h : isHidden passed = false) (segment : Segment) :
  closed (passed :: segment) = passed.1 :: closed segment
  := by
  obtain ⟨c, part⟩ := passed
  by_cases hp : part = .comment
  · subst hp
    obtain rfl := eq_of_shown_comment h
    rfl
  · rw [closed, uncommented_cons_of_ne hp]
    rfl

/-- A shown character stays where comments are overwritten. -/
theorem spaced_cons_of_shown (h : isHidden passed = false) (segment : Segment) :
  spaced (passed :: segment) = passed.1 :: spaced segment
  := by
  obtain ⟨c, part⟩ := passed
  by_cases hp : part = .comment
  · subst hp
    obtain rfl := eq_of_shown_comment h
    rfl
  · rw [spaced, veiled_cons, veil_of_ne hp]
    rfl

theorem closed_reverse (segment : Segment) :
  closed segment.reverse = (closed segment).reverse
  := by
  simp [closed, uncommented, text, List.filterMap_reverse]

theorem spaced_reverse (segment : Segment) :
  spaced segment.reverse = (spaced segment).reverse
  := by
  simp [spaced, veiled, text]

/-- Where nothing is hidden both texts are the same. -/
theorem closed_eq_spaced (h : ∀ c ∈ segment.spaced, isBlank c = false) :
  segment.closed = segment.spaced
  := by
  induction segment with
  | nil => rfl
  | cons passed segment ih =>
    cases hp : isHidden passed with
    | true =>
      obtain ⟨blank, hblank, hspaced⟩ := exists_spaced_cons_of_hidden hp
      rw [hspaced, List.forall_mem_cons, hblank] at h
      cases h.1
    | false =>
      rw [spaced_cons_of_shown hp, List.forall_mem_cons] at h
      rw [spaced_cons_of_shown hp, closed_cons_of_shown hp, ih h.2]

/-- A segment begins with a character that is not hidden, unless it is empty. -/
def isShown (segment : Segment) : Bool :=
  segment.head?.all fun passed => !isHidden passed

/-- A shown segment begins alike with its comments taken out and with its comments overwritten. -/
theorem head?_spaced_of_isShown (h : segment.isShown = true) :
  segment.spaced.head? = segment.closed.head?
  := by
  cases segment with
  | nil => rfl
  | cons passed segment =>
    have hp : isHidden passed = false := by simpa [isShown] using h
    rw [spaced_cons_of_shown hp, closed_cons_of_shown hp]
    rfl

/-- Nothing goes on behind comments where the first character is shown. -/
theorem meets_of_isShown (h : segment.isShown = true) :
  segment.meets = false
  := by
  cases segment with
  | nil => rfl
  | cons passed segment =>
    have hp : isHidden passed = false := by simpa [isShown] using h
    simp [meets, hp]

/-- A character of a word goes on with what stands in front of it. -/
theorem goesOn_of_isIdentifierPart (hp : isHidden passed = false) (hc : isIdentifierPart passed.1 = true) :
  goesOn passed = true ∧ isNaming passed = true
  := by
  obtain ⟨c, part⟩ := passed
  cases part with
  | comment =>
    obtain rfl := eq_of_shown_comment hp
    exact absurd hc (by decide)
  | code => exact ⟨Bool.or_eq_true_iff.mpr (.inl hc), by simpa [isNaming] using hc⟩
  | quoted quote => exact ⟨rfl, by simpa [isNaming] using hc⟩
  | chunk => exact ⟨rfl, by simpa [isNaming] using hc⟩
  | pattern => exact ⟨rfl, by simpa [isNaming] using hc⟩

/-- Behind hidden characters nothing stands that a word goes on with, where nothing meets. -/
theorem exists_of_hidden (h : meets (passed :: segment) = false) (hp : isHidden passed = true) :
  segment.closed = [] ∨ ∃ front next rest, segment = front ++ next :: rest ∧ segment.closed = next.1 :: closed rest
    ∧ isHidden next = false ∧ goesOn next = false
  := by
  have hmeets : (segment.dropWhile isHidden).head?.any goesOn = false := by
    simpa [meets, hp] using h
  clear h
  induction segment with
  | nil => exact .inl rfl
  | cons next segment ih =>
    cases hn : isHidden next with
    | true =>
      rw [List.dropWhile_cons_of_pos hn] at hmeets
      rw [closed_cons_of_hidden hn]
      obtain hnil | ⟨front, shown, rest, rfl, hclosed, hshown⟩ := ih hmeets
      · exact .inl hnil
      · exact .inr ⟨next :: front, shown, rest, rfl, hclosed, hshown⟩
    | false =>
      rw [List.dropWhile_cons_of_neg (by simp [hn])] at hmeets
      exact .inr ⟨[], next, segment, rfl, closed_cons_of_shown hn segment, hn, by simpa using hmeets⟩

/-- Where nothing meets and a hidden character stands in front, what is left begins with no character of a word. -/
theorem stops_closed (h : meets (passed :: segment) = false) (hp : isHidden passed = true) {p : Char → Bool}
    (hi : ∀ c, p c = true → isIdentifierPart c = true) :
  stops p segment.closed = true
  := by
  obtain hnil | ⟨front, next, rest, -, hclosed, hn, hnext⟩ := exists_of_hidden h hp
  · rw [hnil]
    rfl
  · rw [hclosed]
    have hstop : p next.1 = false := by
      rw [← Bool.not_eq_true]
      intro hc
      rw [(goesOn_of_isIdentifierPart hn (hi _ hc)).1] at hnext
      cases hnext
    simp [stops, hstop]

/-- Nothing goes on behind the comments next to a word, where comments weld nothing. -/
theorem meets_of_welds (h : welds (passed :: segment) = false) (hp : isHidden passed = false)
    (hc : isIdentifierPart passed.1 = true) :
  meets segment = false
  := by
  rw [welds, (goesOn_of_isIdentifierPart hp hc).2, Bool.true_and, Bool.or_eq_false_iff] at h
  exact h.1

/-- Comments weld nothing behind a character where they weld nothing in the whole. -/
theorem welds_of_cons (h : welds (passed :: segment) = false) :
  welds segment = false
  := by
  rw [welds, Bool.or_eq_false_iff] at h
  exact h.2

/-- Comments weld nothing in the end of a segment where they weld nothing in the whole. -/
theorem welds_of_append {s t : Segment} (h : welds (s ++ t) = false) :
  welds t = false
  := by
  induction s with
  | nil => exact h
  | cons passed s ih => exact ih (welds_of_cons h)

/-- What meets does so whatever stands behind it. -/
theorem meets_append {s : Segment} (h : meets s = true) (t : Segment) :
  meets (s ++ t) = true
  := by
  rw [meets, Bool.and_eq_true] at h ⊢
  cases s with
  | nil => cases h.1
  | cons passed s =>
    refine ⟨h.1, ?_⟩
    have hne : (passed :: s).dropWhile isHidden ≠ [] := by
      intro hnil
      rw [hnil] at h
      cases h.2
    rw [List.dropWhile_append]
    rw [if_neg (by simpa using hne)]
    obtain ⟨next, rest, hrest⟩ := List.exists_cons_of_ne_nil hne
    rw [hrest] at h ⊢
    exact h.2

/-- Comments weld nothing in the front of a segment where they weld nothing in the whole. -/
theorem welds_of_append_left {s t : Segment} (h : welds (s ++ t) = false) :
  welds s = false
  := by
  induction s with
  | nil => rfl
  | cons passed s ih =>
    rw [List.cons_append, welds, Bool.or_eq_false_iff, Bool.and_eq_false_iff] at h
    rw [welds, ih h.2, Bool.or_false, Bool.and_eq_false_iff]
    refine h.1.imp id ?_
    intro hmeets
    rw [← Bool.not_eq_true] at hmeets ⊢
    exact fun hs => hmeets (meets_append hs t)

end

end ImportCensus.Scan.Segment

namespace ImportCensus.Clause

open Text Scan
open Segment (closed spaced meets welds isHidden isShown)

/-! ### Readers of two texts -/

section

variable {segment : Segment}

/-- What a run that takes blanks leaves of both texts. -/
theorem exists_dropWhile {p : Char → Bool} (hp : ∀ c, isBlank c = true → p c = true) (segment : Segment) :
  ∃ front rest : Segment, segment = front ++ rest ∧ rest.isShown = true
    ∧ segment.closed.dropWhile p = rest.closed ∧ segment.spaced.dropWhile p = rest.spaced
  := by
  induction segment with
  | nil => exact ⟨[], [], rfl, rfl, rfl, rfl⟩
  | cons passed segment ih =>
    obtain ⟨front, rest, rfl, hrest, hclosed, hspaced⟩ := ih
    cases hpassed : isHidden passed with
    | true =>
      obtain ⟨blank, hblank, heq⟩ := Segment.exists_spaced_cons_of_hidden hpassed
      refine ⟨passed :: front, rest, rfl, hrest, ?_, ?_⟩
      · rw [Segment.closed_cons_of_hidden hpassed, hclosed]
      · rw [heq, List.dropWhile_cons_of_pos (hp _ hblank), hspaced]
    | false =>
      rw [Segment.closed_cons_of_shown hpassed, Segment.spaced_cons_of_shown hpassed]
      by_cases hc : p passed.1 = true
      · refine ⟨passed :: front, rest, rfl, hrest, ?_, ?_⟩
        · rw [List.dropWhile_cons_of_pos hc, hclosed]
        · rw [List.dropWhile_cons_of_pos hc, hspaced]
      · refine ⟨[], passed :: (front ++ rest), rfl, by simp [isShown, hpassed], ?_, ?_⟩
        · rw [List.dropWhile_cons_of_neg hc, Segment.closed_cons_of_shown hpassed]
        · rw [List.dropWhile_cons_of_neg hc, Segment.spaced_cons_of_shown hpassed]

/-- A word is read at the start of both texts or of neither. -/
theorem after?_or {word : Text} (hw : word.all isIdentifierPart = true) (h : segment.welds = false)
    (hm : segment.meets = false) :
  (after? word segment.closed = none ∧ after? word segment.spaced = none)
    ∨ ∃ front rest : Segment, segment = front ++ rest ∧ rest.meets = false
      ∧ after? word segment.closed = some rest.closed ∧ after? word segment.spaced = some rest.spaced
  := by
  induction word generalizing segment with
  | nil => exact .inr ⟨[], segment, rfl, hm, rfl, rfl⟩
  | cons d word ih =>
    rw [List.all_cons, Bool.and_eq_true] at hw
    cases segment with
    | nil => exact .inl ⟨rfl, rfl⟩
    | cons passed segment =>
      cases hp : isHidden passed with
      | true =>
        left
        obtain ⟨blank, hblank, hspaced⟩ := Segment.exists_spaced_cons_of_hidden hp
        have hstops := Segment.stops_closed hm hp fun _ => id
        rw [Segment.closed_cons_of_hidden hp, hspaced]
        constructor
        · cases hclosed : closed segment with
          | nil => rfl
          | cons c rest =>
            have hne : d ≠ c := by
              rintro rfl
              simp [hclosed, stops, hw.1] at hstops
            rw [after?, if_neg hne]
        · have hne : d ≠ blank := by
            rintro rfl
            rw [isIdentifierPart_of_isBlank hblank] at hw
            cases hw.1
          rw [after?, if_neg hne]
      | false =>
        rw [Segment.closed_cons_of_shown hp, Segment.spaced_cons_of_shown hp]
        by_cases hc : d = passed.1
        · rw [after?, if_pos hc, after?, if_pos hc]
          rw [hc] at hw
          obtain hnone | ⟨front, rest, rfl, hrest⟩ :=
            ih hw.2 (Segment.welds_of_cons h) (Segment.meets_of_welds h hp hw.1)
          · exact .inl hnone
          · exact .inr ⟨passed :: front, rest, rfl, hrest⟩
        · rw [after?, if_neg hc, after?, if_neg hc]
          exact .inl ⟨rfl, rfl⟩

/-- Blanks are skipped in both texts, or the one has none and the other goes on with no word behind them. -/
theorem skipBlanks₁?_or (hm : segment.meets = false) :
  (∃ front rest : Segment, segment = front ++ rest ∧ rest.isShown = true
      ∧ skipBlanks₁? segment.closed = some rest.closed ∧ skipBlanks₁? segment.spaced = some rest.spaced)
    ∨ skipBlanks₁? segment.closed = none
      ∧ ∀ text, skipBlanks₁? segment.spaced = some text → stops isIdentifierPart text = true
  := by
  obtain ⟨front, rest, heq, hrest, hclosed, hspaced⟩ := exists_dropWhile (fun _ => id) segment
  cases segment with
  | nil =>
    refine .inr ⟨rfl, fun text htext => ?_⟩
    cases htext
  | cons passed segment =>
    cases hp : isHidden passed with
    | true =>
      obtain ⟨blank, hblank, hcons⟩ := Segment.exists_spaced_cons_of_hidden hp
      have hsome : skipBlanks₁? (spaced (passed :: segment)) = some rest.spaced := by
        rw [hcons, skipBlanks₁?, if_pos hblank, ← hspaced, hcons, List.dropWhile_cons_of_pos hblank, skipBlanks]
      have hstops := Segment.stops_closed hm hp fun _ => id
      rw [Segment.closed_cons_of_hidden hp] at hclosed ⊢
      cases hleft : closed segment with
      | nil =>
        right
        rw [hleft] at hclosed
        refine ⟨rfl, fun text htext => ?_⟩
        obtain rfl := Option.some.inj (htext.symm.trans hsome)
        rw [stops, Segment.head?_spaced_of_isShown hrest, ← hclosed]
        rfl
      | cons c left =>
        rw [hleft] at hclosed hstops
        by_cases hc : isBlank c = true
        · left
          refine ⟨front, rest, heq, hrest, ?_, hsome⟩
          rw [skipBlanks₁?, if_pos hc, ← hclosed, List.dropWhile_cons_of_pos hc, skipBlanks]
        · right
          rw [List.dropWhile_cons_of_neg hc] at hclosed
          refine ⟨by rw [skipBlanks₁?, if_neg hc], fun text htext => ?_⟩
          obtain rfl := Option.some.inj (htext.symm.trans hsome)
          rwa [stops, Segment.head?_spaced_of_isShown hrest, ← hclosed]
    | false =>
      rw [Segment.closed_cons_of_shown hp, Segment.spaced_cons_of_shown hp] at *
      by_cases hc : isBlank passed.1 = true
      · left
        refine ⟨front, rest, heq, hrest, ?_, ?_⟩
        · rw [skipBlanks₁?, if_pos hc, ← hclosed, List.dropWhile_cons_of_pos hc, skipBlanks]
        · rw [skipBlanks₁?, if_pos hc, ← hspaced, List.dropWhile_cons_of_pos hc, skipBlanks]
      · right
        rw [skipBlanks₁?, if_neg hc, skipBlanks₁?, if_neg hc]
        exact ⟨rfl, by simp⟩

/-- A word with blanks behind it is read in both texts, or not in the one, and goes on with no word in the other. -/
theorem behindWord?_or {word : Text} (hw : word.all isIdentifierPart = true) (h : segment.welds = false)
    (hm : segment.meets = false) :
  (∃ front rest : Segment, segment = front ++ rest ∧ rest.isShown = true
      ∧ behindWord? word segment.closed = some rest.closed ∧ behindWord? word segment.spaced = some rest.spaced)
    ∨ behindWord? word segment.closed = none
      ∧ ∀ text, behindWord? word segment.spaced = some text → stops isIdentifierPart text = true
  := by
  rw [behindWord?, behindWord?]
  obtain ⟨hclosed, hspaced⟩ | ⟨front, rest, rfl, hrest, hclosed, hspaced⟩ := after?_or hw h hm
  · rw [hclosed, hspaced]
    exact .inr ⟨rfl, by simp⟩
  · rw [hclosed, hspaced, Option.bind_some, Option.bind_some]
    obtain ⟨gap, behind, rfl, hbehind⟩ | hnone := skipBlanks₁?_or hrest
    · exact .inl ⟨front ++ gap, behind, by simp, hbehind⟩
    · exact .inr hnone

theorem isIdentifierPart_of_isNameCharacter {c : Char} (h : isNameCharacter c = true) :
  isIdentifierPart c = true
  := by
  rw [isNameCharacter, Bool.or_eq_true, beq_iff_eq] at h
  obtain h | rfl := h
  · exact isIdentifierPart_of_isWordCharacter h
  · decide

/-- A name is read at the start of both texts. -/
theorem exists_name (h : segment.welds = false) (hm : segment.meets = false) :
  ∃ name rest : Segment, segment = name ++ rest ∧ rest.meets = false
    ∧ segment.closed.takeWhile isNameCharacter = segment.spaced.takeWhile isNameCharacter
    ∧ segment.closed.dropWhile isNameCharacter = rest.closed
    ∧ segment.spaced.dropWhile isNameCharacter = rest.spaced
    ∧ (name = [] ∨ ∃ front last, name = front ++ [last] ∧ isHidden last = false ∧ isNameCharacter last.1 = true)
  := by
  have hname : ∀ c, isNameCharacter c = true → isIdentifierPart c = true := fun _ => isIdentifierPart_of_isNameCharacter
  induction segment with
  | nil => exact ⟨[], [], rfl, rfl, rfl, rfl, rfl, .inl rfl⟩
  | cons passed segment ih =>
    cases hp : isHidden passed with
    | true =>
      obtain ⟨blank, hblank, hspaced⟩ := Segment.exists_spaced_cons_of_hidden hp
      have hstops := Segment.stops_closed hm hp hname
      have hstop : ¬ isNameCharacter blank = true := by
        intro hc
        have hpart := hname _ hc
        rw [isIdentifierPart_of_isBlank hblank] at hpart
        cases hpart
      have hclosed := @takeWhile_append_of_stops isNameCharacter [] _ rfl hstops
      have hclosed' := @dropWhile_append_of_stops isNameCharacter [] _ rfl hstops
      rw [List.nil_append] at hclosed hclosed'
      refine ⟨[], passed :: segment, rfl, hm, ?_, ?_, ?_, .inl rfl⟩
      · rw [Segment.closed_cons_of_hidden hp, hclosed, hspaced, List.takeWhile_cons_of_neg hstop]
      · rw [Segment.closed_cons_of_hidden hp, hclosed']
      · rw [hspaced, List.dropWhile_cons_of_neg hstop]
    | false =>
      rw [Segment.closed_cons_of_shown hp, Segment.spaced_cons_of_shown hp]
      by_cases hc : isNameCharacter passed.1 = true
      · obtain ⟨name, rest, rfl, hrest, htake, hclosed, hspaced, hlast⟩ :=
          ih (Segment.welds_of_cons h) (Segment.meets_of_welds h hp (hname _ hc))
        refine ⟨passed :: name, rest, rfl, hrest, ?_, ?_, ?_, .inr ?_⟩
        · rw [List.takeWhile_cons_of_pos hc, List.takeWhile_cons_of_pos hc, htake]
        · rw [List.dropWhile_cons_of_pos hc, hclosed]
        · rw [List.dropWhile_cons_of_pos hc, hspaced]
        · obtain rfl | ⟨front, last, rfl, hshown⟩ := hlast
          · exact ⟨[], passed, rfl, hp, hc⟩
          · exact ⟨passed :: front, last, rfl, hshown⟩
      · refine ⟨[], passed :: segment, rfl, hm, ?_, ?_, ?_, .inl rfl⟩
        · rw [List.takeWhile_cons_of_neg hc, List.takeWhile_cons_of_neg hc]
        · rw [List.dropWhile_cons_of_neg hc, Segment.closed_cons_of_shown hp]
        · rw [List.dropWhile_cons_of_neg hc, Segment.spaced_cons_of_shown hp]

/-- The word `from` is told in both texts or in neither. -/
theorem beginsFrom_eq (h : segment.welds = false) (hm : segment.meets = false) :
  beginsFrom segment.closed = beginsFrom segment.spaced
  := by
  rw [beginsFrom, beginsFrom]
  obtain ⟨hclosed, hspaced⟩ | ⟨front, rest, rfl, hrest, hclosed, hspaced⟩ :=
    @after?_or segment fromWord (by decide) h hm
  · have hclosed : after? ['f', 'r', 'o', 'm'] segment.closed = none := hclosed
    have hspaced : after? ['f', 'r', 'o', 'm'] segment.spaced = none := hspaced
    rw [hclosed, hspaced]
  · have hclosed : after? ['f', 'r', 'o', 'm'] (closed (front ++ rest)) = some rest.closed := hclosed
    have hspaced : after? ['f', 'r', 'o', 'm'] (spaced (front ++ rest)) = some rest.spaced := hspaced
    rw [hclosed, hspaced]
    cases rest with
    | nil => rfl
    | cons passed rest =>
      cases hp : isHidden passed with
      | true =>
        obtain ⟨blank, hblank, heq⟩ := Segment.exists_spaced_cons_of_hidden hp
        have hstops : stops isIdentifierPart (blank :: spaced rest) = true := by
          simp [stops, isIdentifierPart_of_isBlank hblank]
        have hends := wordEnds_of_stops (Segment.stops_closed hrest hp fun _ => id)
        rw [Segment.closed_cons_of_hidden hp, heq]
        exact hends.trans (wordEnds_of_stops hstops).symm
      | false =>
        rw [Segment.closed_cons_of_shown hp, Segment.spaced_cons_of_shown hp]
        rfl

theorem isNameCharacter_of_stops {text : Text} (h : stops isIdentifierPart text = true) :
  stops isNameCharacter text = true
  := by
  cases text with
  | nil => rfl
  | cons c text =>
    have hc : isIdentifierPart c = false := by simpa [stops] using h
    have hname : isNameCharacter c = false := by
      rw [← Bool.not_eq_true]
      intro hname
      rw [isIdentifierPart_of_isNameCharacter hname] at hc
      cases hc
    simp [stops, hname]

theorem beginsFrom_of_stops {text : Text} (h : stops isIdentifierPart text = true) :
  beginsFrom text = false
  := by
  cases text with
  | nil => rfl
  | cons c text =>
    have hne : 'f' ≠ c := by
      rintro rfl
      exact absurd h (by simp [stops, isIdentifierPart])
    simp [beginsFrom, after?, hne]

/-! ### What is read of a clause -/

/-- The default of a clause is the same. -/
theorem defaultName?_eq (h : segment.welds = false) (hm : segment.meets = false) :
  defaultName? segment.closed = defaultName? segment.spaced
  := by
  rw [defaultName?, defaultName?]
  obtain ⟨front, rest, rfl, hrest, hclosed, hspaced⟩ | ⟨hclosed, hspaced⟩ :=
    @behindWord?_or segment importWord (by decide) h hm
  · have hclosed : behindWord? ['i', 'm', 'p', 'o', 'r', 't'] (closed (front ++ rest)) = some rest.closed := hclosed
    have hspaced : behindWord? ['i', 'm', 'p', 'o', 'r', 't'] (spaced (front ++ rest)) = some rest.spaced := hspaced
    obtain ⟨name, behind, rfl, hbehind, htake, hclosed', hspaced', -⟩ :=
      exists_name (Segment.welds_of_append h) (Segment.meets_of_isShown hrest)
    rw [← List.append_assoc] at h
    have hwelds := Segment.welds_of_append h
    obtain ⟨_, next, -, hnext, hskip, hskip'⟩ := exists_dropWhile (fun _ => id) behind
    have hcomma : (skipBlanks behind.closed).head? = (skipBlanks behind.spaced).head? := by
      rw [skipBlanks, skipBlanks, hskip, hskip', Segment.head?_spaced_of_isShown hnext]
    simp only [hclosed, hspaced, htake, hclosed', hspaced', hcomma]
    obtain ⟨gap, next, rfl, hnext, hgap, hgap'⟩ | ⟨hnone, hstops⟩ := skipBlanks₁?_or hbehind
    · have hfrom := beginsFrom_eq (Segment.welds_of_append hwelds) (Segment.meets_of_isShown hnext)
      simp only [hgap, hgap', hfrom]
    · cases hgap : skipBlanks₁? behind.spaced with
      | none => simp only [hnone]
      | some text => simp only [hnone, beginsFrom_of_stops (hstops text hgap)]
  · have hclosed : behindWord? ['i', 'm', 'p', 'o', 'r', 't'] segment.closed = none := hclosed
    rw [hclosed]
    cases hbehind : behindWord? ['i', 'm', 'p', 'o', 'r', 't'] segment.spaced with
    | none => rfl
    | some text =>
      have hstops := isNameCharacter_of_stops (hspaced text hbehind)
      have htake := @takeWhile_append_of_stops isNameCharacter [] text rfl hstops
      rw [List.nil_append] at htake
      simp [htake]

/-- A clause takes the whole module with or without its comments. -/
theorem takesAll_eq (segment : Segment) :
  takesAll segment.closed = takesAll segment.spaced
  := by
  rw [takesAll, takesAll]
  induction segment with
  | nil => rfl
  | cons passed segment ih =>
    cases hp : isHidden passed with
    | true =>
      obtain ⟨blank, hblank, hspaced⟩ := Segment.exists_spaced_cons_of_hidden hp
      have hne : '*' ≠ blank := by
        rintro rfl
        exact absurd hblank (by decide)
      rw [Segment.closed_cons_of_hidden hp, hspaced, List.contains_cons, ih]
      simp [hne]
    | false =>
      rw [Segment.closed_cons_of_shown hp, Segment.spaced_cons_of_shown hp, List.contains_cons, List.contains_cons, ih]

/-- Up to the last of the shown characters that are alike, a segment is read with its comments taken out as with
its comments overwritten. -/
theorem upToLast?_or {c : Char} (hc : isBlank c = false) (segment : Segment) :
  (upToLast? c segment.closed = none ∧ upToLast? c segment.spaced = none)
    ∨ ∃ inside closing behind, segment = inside ++ closing :: behind
      ∧ (isHidden closing = false ∧ closing.1 = c)
      ∧ upToLast? c segment.closed = some (closed inside) ∧ upToLast? c segment.spaced = some (spaced inside)
  := by
  induction segment with
  | nil => exact .inl ⟨rfl, rfl⟩
  | cons passed segment ih =>
    cases hp : isHidden passed with
    | true =>
      obtain ⟨blank, hblank, hspaced⟩ := Segment.exists_spaced_cons_of_hidden hp
      have hne : blank ≠ c := by
        rintro rfl
        rw [hblank] at hc
        cases hc
      rw [Segment.closed_cons_of_hidden hp, hspaced, upToLast?]
      obtain ⟨hnone, hnone'⟩ | ⟨inside, closing, behind, rfl, hclosing, hsome, hsome'⟩ := ih
      · rw [hnone, hnone']
        exact .inl ⟨rfl, if_neg hne⟩
      · rw [hsome, hsome']
        exact .inr ⟨passed :: inside, closing, behind, rfl, hclosing,
          by rw [Segment.closed_cons_of_hidden hp], by rw [hspaced]⟩
    | false =>
      rw [Segment.closed_cons_of_shown hp, Segment.spaced_cons_of_shown hp, upToLast?, upToLast?]
      obtain ⟨hnone, hnone'⟩ | ⟨inside, closing, behind, rfl, hclosing, hsome, hsome'⟩ := ih
      · rw [hnone, hnone']
        by_cases heq : passed.1 = c
        · exact .inr ⟨[], passed, segment, rfl, ⟨hp, heq⟩, if_pos heq, if_pos heq⟩
        · exact .inl ⟨if_neg heq, if_neg heq⟩
      · rw [hsome, hsome']
        exact .inr ⟨passed :: inside, closing, behind, rfl, hclosing,
          by rw [Segment.closed_cons_of_shown hp], by rw [Segment.spaced_cons_of_shown hp]⟩

/-- The curly brackets of a clause are found at the same places. -/
theorem block?_or (segment : Segment) :
  (block? segment.closed = none ∧ block? segment.spaced = none)
    ∨ ∃ front opening inside closing behind, segment = front ++ opening :: (inside ++ closing :: behind)
      ∧ (isHidden opening = false ∧ opening.1 = '\x7b') ∧ (isHidden closing = false ∧ closing.1 = '\x7d')
      ∧ block? segment.closed = some (closed inside) ∧ block? segment.spaced = some (spaced inside)
  := by
  obtain ⟨front, rest, rfl, hrest, hclosed, hspaced⟩ :=
    @exists_dropWhile (fun c => isNameCharacter c || isBlank c || c == ',' || c == '*') (fun c hc => by simp [hc]) segment
  rw [block?, block?, hclosed, hspaced]
  cases rest with
  | nil => exact .inl ⟨rfl, rfl⟩
  | cons opening rest =>
    have hp : isHidden opening = false := by simpa [isShown] using hrest
    rw [Segment.closed_cons_of_shown hp, Segment.spaced_cons_of_shown hp]
    by_cases hopening : opening.1 = '\x7b'
    · rw [hopening]
      obtain hnone | ⟨inside, closing, behind, rfl, hclosing, hinside⟩ := @upToLast?_or '\x7d' (by decide) rest
      · exact .inl hnone
      · exact .inr ⟨front, opening, inside, closing, behind, rfl, ⟨hp, hopening⟩, hclosing, hinside⟩
    · left
      constructor
      · split
        · rename_i heq
          exact absurd (List.cons.inj heq).1 hopening
        · rfl
      · split
        · rename_i heq
          exact absurd (List.cons.inj heq).1 hopening
        · rfl

/-! ### What is read of a block -/

/-- An alias is read in both texts or in neither. -/
theorem behindAlias?_or (h : segment.welds = false) (hm : segment.meets = false) :
  (behindAlias? segment.closed = none ∧ behindAlias? segment.spaced = none)
    ∨ ∃ front last rest, segment = front ++ last :: rest ∧ isHidden last = false ∧ isNameCharacter last.1 = true
      ∧ meets rest = false ∧ behindAlias? segment.closed = some (closed rest)
      ∧ behindAlias? segment.spaced = some (spaced rest)
  := by
  rw [behindAlias?, behindAlias?]
  obtain ⟨front, rest, rfl, hrest, hclosed, hspaced⟩ | ⟨hclosed, hspaced⟩ :=
    @behindWord?_or segment asWord (by decide) h hm
  · have hclosed : behindWord? ['a', 's'] (closed (front ++ rest)) = some rest.closed := hclosed
    have hspaced : behindWord? ['a', 's'] (spaced (front ++ rest)) = some rest.spaced := hspaced
    rw [hclosed, hspaced]
    cases rest with
    | nil => exact .inl ⟨rfl, rfl⟩
    | cons first rest =>
      have hp : isHidden first = false := by simpa [isShown] using hrest
      rw [Segment.closed_cons_of_shown hp, Segment.spaced_cons_of_shown hp]
      by_cases hc : isNameCharacter first.1 = true
      · have hwelds := Segment.welds_of_append h
        obtain ⟨name, behind, rfl, hbehind, -, hclosed', hspaced', hname⟩ :=
          exists_name (Segment.welds_of_cons hwelds)
            (Segment.meets_of_welds hwelds hp (isIdentifierPart_of_isNameCharacter hc))
        right
        simp only [if_pos hc, hclosed', hspaced']
        obtain rfl | ⟨tail, last, rfl, hlast⟩ := hname
        · exact ⟨front, first, behind, rfl, hp, hc, hbehind, rfl, rfl⟩
        · exact ⟨front ++ first :: tail, last, behind, by simp, hlast.1, hlast.2, hbehind, rfl, rfl⟩
      · left
        exact ⟨if_neg hc, if_neg hc⟩
  · left
    have hclosed : behindWord? ['a', 's'] segment.closed = none := hclosed
    rw [hclosed]
    refine ⟨rfl, ?_⟩
    cases hbehind : behindWord? ['a', 's'] segment.spaced with
    | none => rfl
    | some text =>
      have hstops := isNameCharacter_of_stops (hspaced text hbehind)
      cases text with
      | nil => rfl
      | cons c text =>
        have hc : isNameCharacter c = false := by simpa [stops] using hstops
        simp [hc]

/-- Two lists of parts are what both texts have of the same stretches of a segment. -/
structure Stretches (segment : Segment) (parts parts' : List Text) (first : Segment) (others : List Segment) : Prop where
  closed_eq : parts = first.closed :: others.map closed
  spaced_eq : parts' = first.spaced :: others.map spaced
  first_prefix : first <+: segment
  others_infix : ∀ stretch ∈ others, stretch <:+: segment
  comma_notMem : ∀ stretch ∈ first :: others, ',' ∉ stretch.closed

section

variable {first : Segment} {others : List Segment} {parts parts' : List Text} {passed : Char × Part}

/-- One more character goes with the first stretch. -/
theorem Stretches.cons (h : Stretches segment parts parts' first others) {front front' : Text}
    (hclosed : ∀ rest : Segment, closed (passed :: rest) = front ++ closed rest)
    (hspaced : ∀ rest : Segment, spaced (passed :: rest) = front' ++ spaced rest) (hc : ',' ∉ front) :
  Stretches (passed :: segment) (Written.extend front parts) (Written.extend front' parts') (passed :: first) others
  := by
  constructor
  · rw [h.closed_eq, hclosed]
    rfl
  · rw [h.spaced_eq, hspaced]
    rfl
  · exact List.cons_prefix_cons.mpr ⟨rfl, h.first_prefix⟩
  · intro stretch hmem
    exact (h.others_infix stretch hmem).trans (List.suffix_cons passed segment).isInfix
  · have hcomma := h.comma_notMem
    rw [List.forall_mem_cons] at hcomma ⊢
    rw [hclosed, List.mem_append, not_or]
    exact ⟨⟨hc, hcomma.1⟩, hcomma.2⟩

/-- Behind a comma or an alias the stretches begin anew. -/
theorem Stretches.behind (h : Stretches segment parts parts' first others) (front : Segment) :
  Stretches (front ++ segment) ([] :: parts) ([] :: parts') [] (first :: others)
  := by
  have hsuffix := (List.suffix_append front segment).isInfix
  constructor
  · rw [h.closed_eq]
    rfl
  · rw [h.spaced_eq]
    rfl
  · exact List.nil_prefix
  · rw [List.forall_mem_cons]
    refine ⟨h.first_prefix.isInfix.trans hsuffix, ?_⟩
    intro stretch hmem
    exact (h.others_infix stretch hmem).trans hsuffix
  · rw [List.forall_mem_cons]
    exact ⟨nofun, h.comma_notMem⟩

end

/-- Both texts are cut into the same stretches.  A word may begin in the one where it does in the other, unless
hidden characters stand there, and then no alias begins behind them. -/
theorem exists_stretches {boundary boundary' : Bool} (h : segment.welds = false)
    (hb : boundary = boundary' ∧ (boundary = false → segment.meets = false) ∨ segment.closed.head? ≠ some 'a') :
  ∃ first others,
    Stretches segment (cut 0 boundary segment.closed) (cut 0 boundary' segment.spaced) first others
  := by
  induction hn : segment.length using Nat.strong_induction_on generalizing segment boundary boundary' with
  | _ n ih =>
    subst hn
    cases segment with
    | nil => exact ⟨[], [], rfl, rfl, List.nil_prefix, by simp, by simp⟩
    | cons passed segment =>
      have hwelds := Segment.welds_of_cons h
      have hlength : segment.length < (passed :: segment).length := Nat.lt_succ_self _
      cases hp : isHidden passed with
      | true =>
        obtain ⟨blank, hblank, hspaced⟩ := Segment.exists_spaced_cons_of_hidden hp
        have hclosed := Segment.closed_cons_of_hidden hp
        have hb' : boundary = true ∧ (boundary = false → meets segment = false) ∨ (closed segment).head? ≠ some 'a' := by
          obtain ⟨-, hmeets⟩ | hne := hb
          · cases boundary with
            | true => exact .inl ⟨rfl, by simp⟩
            | false =>
              right
              intro hhead
              have hstops := Segment.stops_closed (hmeets rfl) hp fun _ => id
              rw [stops, hhead] at hstops
              exact absurd hstops (by decide)
          · right
            rwa [hclosed] at hne
        obtain ⟨first, others, hcut⟩ := ih _ hlength hwelds hb' rfl
        have hcomma : blank ≠ ',' := by
          rintro rfl
          exact absurd hblank (by decide)
        have ha : blank ≠ 'a' := by
          rintro rfl
          exact absurd hblank (by decide)
        have hword : isWordCharacter blank = false := by
          rw [← Bool.not_eq_true]
          intro hword
          rw [isBlank_of_isWordCharacter hword] at hblank
          cases hblank
        have hcons := @Stretches.cons _ _ _ _ _ passed hcut [] [blank] hclosed hspaced (by simp)
        rw [Written.extend_nil (Written.cut_ne_nil _ _)] at hcons
        refine ⟨passed :: first, others, ?_⟩
        rw [hclosed, hspaced, Written.cut_cons hcomma fun _ => Written.behindAlias?_of_ne ha _, hword, Bool.not_false]
        exact hcons
      | false =>
        have hclosed := Segment.closed_cons_of_shown hp
        have hspaced := Segment.spaced_cons_of_shown hp
        by_cases hcomma : passed.1 = ','
        · obtain ⟨first, others, hcut⟩ := @ih _ hlength segment true true hwelds (.inl ⟨rfl, by simp⟩) rfl
          refine ⟨[], first :: others, ?_⟩
          rw [hclosed, hspaced, hcomma, Written.cut_comma, Written.cut_comma]
          exact hcut.behind [passed]
        -- an alias begins in both texts, or in neither
        have halias : (boundary = true → behindAlias? (closed (passed :: segment)) = none)
              ∧ (boundary' = true → behindAlias? (spaced (passed :: segment)) = none)
            ∨ boundary = true ∧ boundary' = true ∧ ∃ front last rest, passed :: segment = front ++ last :: rest
              ∧ isHidden last = false ∧ isNameCharacter last.1 = true ∧ meets rest = false
              ∧ behindAlias? (closed (passed :: segment)) = some (closed rest)
              ∧ behindAlias? (spaced (passed :: segment)) = some (spaced rest) := by
          by_cases ha : passed.1 = 'a'
          · obtain ⟨rfl, -⟩ | hne := hb
            · have hm : meets (passed :: segment) = false := Segment.meets_of_isShown (by simp [isShown, hp])
              obtain ⟨hnone, hnone'⟩ | hsome := behindAlias?_or h hm
              · exact .inl ⟨fun _ => hnone, fun _ => hnone'⟩
              · cases boundary with
                | false => exact .inl ⟨by simp, by simp⟩
                | true => exact .inr ⟨rfl, rfl, hsome⟩
            · rw [hclosed, ha] at hne
              exact absurd rfl hne
          · left
            rw [hclosed, hspaced]
            exact ⟨fun _ => Written.behindAlias?_of_ne ha _, fun _ => Written.behindAlias?_of_ne ha _⟩
        obtain ⟨hnone, hnone'⟩ | ⟨rfl, rfl, front, last, rest, heq, hlast, hname, hrest, halias, halias'⟩ := halias
        · have hb' : (!isWordCharacter passed.1) = (!isWordCharacter passed.1)
              ∧ ((!isWordCharacter passed.1) = false → meets segment = false) := by
            refine ⟨rfl, fun hword => ?_⟩
            exact Segment.meets_of_welds h hp (isIdentifierPart_of_isWordCharacter (by simpa using hword))
          obtain ⟨first, others, hcut⟩ := ih _ hlength hwelds (.inl hb') rfl
          rw [hclosed] at hnone
          rw [hspaced] at hnone'
          refine ⟨passed :: first, others, ?_⟩
          rw [hclosed, hspaced, Written.cut_cons hcomma hnone, Written.cut_cons hcomma hnone']
          exact hcut.cons hclosed hspaced (by simpa using Ne.symm hcomma)
        · rw [heq] at h hlength halias halias' ⊢
          have hrests := Segment.welds_of_cons (Segment.welds_of_append h)
          have hshort : rest.length < (front ++ last :: rest).length := by
            rw [List.length_append, List.length_cons]
            omega
          have hends : ∀ text : Text, Written.opens true (text ++ [last.1]) = !isWordCharacter last.1 :=
            fun text => Written.opens_append_singleton true text last.1
          have hb' : (!isWordCharacter last.1) = (!isWordCharacter last.1)
              ∧ ((!isWordCharacter last.1) = false → meets rest = false) := ⟨rfl, fun _ => hrest⟩
          have hlength' : (front ++ last :: rest).length = (passed :: segment).length := by rw [heq]
          obtain ⟨first, others, hcut⟩ := ih rest.length (by omega) hrests (.inl hb') rfl
          have hclosed : closed (front ++ last :: rest) = closed front ++ [last.1] ++ closed rest := by
            simp [Segment.closed_cons_of_shown hlast]
          have hspaced : spaced (front ++ last :: rest) = spaced front ++ [last.1] ++ spaced rest := by
            simp [Segment.spaced_cons_of_shown hlast]
          rw [hclosed] at halias ⊢
          rw [hspaced] at halias' ⊢
          refine ⟨[], first :: others, ?_⟩
          rw [Written.cut_alias halias (by simp), Written.cut_alias halias' (by simp), hends, hends]
          simpa using hcut.behind (front ++ [last])

end

end ImportCensus.Clause
