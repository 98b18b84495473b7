import ImportCensus.Proofs.Comment.Flat
import ImportCensus.Proofs.Salvage.Agreement

/-!
# Statements with their comments overwritten

What an import brings into scope is the same with spaces in the place of the comments of its statement, unless a
comment stands where the text is read as it is, in front of the clause of a declaration or between the brackets of
a dynamic import, or is all that holds two words apart.
-/

namespace ImportCensus.Scan.Segment

open Text Clause
open Segment (of)

section

variable {segment : Segment}

theorem isShown_of_append {s t : Segment} (h : isShown (s ++ t) = true) :
  isShown s = true
  := by
  cases s with
  | nil => rfl
  | cons passed s => exact h

/-! ### Types -/

/-- A text in front of a comment is no part of it. -/
theorem Marked.exists_append (h : Marked segment) {front rest : Text} (hf : '/' ∉ front)
    (ht : segment.text = front ++ rest) :
  ∃ lead more : Segment, segment = lead ++ more ∧ lead.text = front ∧ more.text = rest
    ∧ (∀ passed ∈ lead, passed.2 ≠ .comment) ∧ Marked more
  := by
  induction front generalizing segment with
  | nil => exact ⟨[], segment, rfl, rfl, ht, nofun, h⟩
  | cons c front ih =>
    rw [List.mem_cons, not_or] at hf
    obtain ⟨part, more, hp, rfl, hmore, hmarked⟩ := h.exists_cons ht (beginsComment_of_ne (Ne.symm hf.1) _)
    obtain ⟨lead, more, rfl, rfl, hrest, hlead, hmarked⟩ := ih hmarked hf.2 hmore
    exact ⟨(c, part) :: lead, more, rfl, rfl, hrest, List.forall_mem_cons.mpr ⟨hp, hlead⟩, hmarked⟩

/-- What is behind code is marked where the whole is. -/
theorem Marked.of_append {lead : Segment} (h : Marked (lead ++ segment)) (hl : ∀ passed ∈ lead, passed.2 ≠ .comment) :
  Marked segment
  := by
  induction lead with
  | nil => exact h
  | cons passed lead ih =>
    rw [List.forall_mem_cons] at hl
    apply ih _ hl.2
    generalize hsegment : passed :: lead ++ segment = whole at h
    cases h with
    | nil => cases hsegment
    | cons _ h =>
      obtain rfl := (List.cons.inj hsegment).2
      exact h
    | comment hc =>
      obtain ⟨tail, rfl⟩ := exists_of_beginsComment hc
      obtain rfl := (List.cons.inj hsegment).1
      exact absurd rfl hl.1

@[simp]
theorem length_spaced (segment : Segment) :
  segment.spaced.length = segment.length
  := by
  simp [spaced]

/-- What is not in a comment stays where comments are overwritten. -/
theorem spaced_eq_text (h : ∀ passed ∈ segment, passed.2 ≠ .comment) :
  segment.spaced = segment.text
  := by
  have hveil : ∀ passed ∈ segment, veil passed = passed := fun _ hpassed => veil_of_ne (h _ hpassed)
  rw [spaced, veiled, List.map_congr_left hveil, List.map_id']

/-- A word stands in front of comments, whether they are overwritten or not. -/
theorem Marked.after?_or {word : Text} (hw : word.all isIdentifierPart = true) (h : Marked segment) :
  (after? word segment.text = none ∧ after? word segment.spaced = none)
    ∨ ∃ rest : Segment, Marked rest ∧ after? word segment.text = some rest.text
      ∧ after? word segment.spaced = some rest.spaced
  := by
  induction word generalizing segment with
  | nil => exact .inr ⟨segment, h, rfl, rfl⟩
  | cons d word ih =>
    rw [List.all_cons, Bool.and_eq_true] at hw
    cases h with
    | nil => exact .inl ⟨rfl, rfl⟩
    | @cons c part segment hp h =>
      rw [spaced, veiled_cons, veil_of_ne hp, text_cons, text_cons, after?, after?]
      by_cases hc : d = c
      · rw [if_pos hc, if_pos hc]
        exact ih hw.2 h
      · exact .inl ⟨if_neg hc, if_neg hc⟩
    | comment hc =>
      obtain ⟨tail, rfl⟩ := exists_of_beginsComment hc
      have hslash : d ≠ '/' := by
        rintro rfl
        exact absurd hw.1 (by decide)
      have hspace : d ≠ ' ' := by
        rintro rfl
        exact absurd hw.1 (by decide)
      exact .inl ⟨if_neg hslash, if_neg hspace⟩

/-- Whether the source comes next is told alike where comments are overwritten. -/
theorem Marked.beginsFrom_eq (h : Marked segment) :
  beginsFrom segment.text = beginsFrom segment.spaced
  := by
  rw [beginsFrom, beginsFrom]
  obtain ⟨htext, hspaced⟩ | ⟨rest, hrest, htext, hspaced⟩ := @Marked.after?_or _ fromWord (by decide) h
  · have htext : after? ['f', 'r', 'o', 'm'] segment.text = none := htext
    have hspaced : after? ['f', 'r', 'o', 'm'] segment.spaced = none := hspaced
    rw [htext, hspaced]
  · have htext : after? ['f', 'r', 'o', 'm'] segment.text = some rest.text := htext
    have hspaced : after? ['f', 'r', 'o', 'm'] segment.spaced = some rest.spaced := hspaced
    rw [htext, hspaced]
    cases hrest with
    | nil => rfl
    | cons hp =>
      rw [spaced, veiled_cons, veil_of_ne hp]
      rfl
    | comment hc =>
      obtain ⟨tail, rfl⟩ := exists_of_beginsComment hc
      have hslash : isWordCharacter '/' = false := by decide
      have hspace : isWordCharacter ' ' = false := by decide
      exact (congrArg not hslash).trans (congrArg not hspace).symm

/-- Whether a clause comes next is told alike where comments are overwritten. -/
theorem Marked.beginsClause_eq (h : Marked segment) :
  beginsClause segment.text = beginsClause segment.spaced
  := by
  have hfrom := h.beginsFrom_eq
  cases h with
  | nil => rfl
  | cons hp =>
    rw [spaced, veiled_cons, veil_of_ne hp, text_cons, text_cons] at hfrom ⊢
    rw [beginsClause, beginsClause, hfrom]
  | comment hc =>
    obtain ⟨tail, rfl⟩ := exists_of_beginsComment hc
    have hslash : isNameCharacter '/' = false := by decide
    have hspace : isNameCharacter ' ' = false := by decide
    have hveil : veil ('/', .comment) = (' ', .code) := rfl
    rw [spaced, of_cons, List.cons_append, veiled_cons, hveil, text_cons, text_cons, beginsClause, beginsClause,
      hslash, hspace]
    rfl

end

end ImportCensus.Scan.Segment

namespace ImportCensus.Clause

open Text Scan
open Segment (of closed spaced)

/-- What stands in front of the clause of an import of types. -/
def IsLead (lead : Text) : Prop :=
  ∃ word gap gap', lead = word ++ (gap ++ (typeWord ++ gap')) ∧ (word = importWord ∨ word = exportWord)
    ∧ gap ≠ [] ∧ gap.all isBlank = true ∧ gap' ≠ [] ∧ gap'.all isBlank = true

/-- The clause of an import of types. -/
def typeClause? (statement : Text) : Option Text :=
  ((behindFirstWord? statement).bind (behindWord? typeWord)).filter beginsClause

section

variable {text rest clause : Text}

/-- A statement is of types only where a clause behind the word for types is read. -/
theorem isTypeOnly_eq_isSome (text : Text) :
  isTypeOnly text = (typeClause? text).isSome
  := by
  have hword : ['t', 'y', 'p', 'e'] = typeWord := rfl
  rw [isTypeOnly, typeClause?, hword]
  cases (behindFirstWord? text).bind (behindWord? typeWord) with
  | none => rfl
  | some clause =>
    cases hclause : beginsClause clause <;> simp [Option.filter, hclause]

/-- The first word of a statement is read with the blanks behind it. -/
theorem behindFirstWord?_eq_some_iff :
  behindFirstWord? text = some rest
    ↔ ∃ word gap, text = word ++ (gap ++ rest) ∧ (word = importWord ∨ word = exportWord) ∧ gap ≠ []
      ∧ gap.all isBlank = true ∧ stops isBlank rest = true
  := by
  have himport : ['i', 'm', 'p', 'o', 'r', 't'] = importWord := rfl
  have hexport : ['e', 'x', 'p', 'o', 'r', 't'] = exportWord := rfl
  rw [behindFirstWord?, himport, hexport, Option.or_eq_some_iff]
  constructor
  · rintro (h | ⟨-, h⟩)
    · obtain ⟨gap, rfl, hgap⟩ := behindWord?_eq_some_iff.mp h
      exact ⟨importWord, gap, rfl, .inl rfl, hgap⟩
    · obtain ⟨gap, rfl, hgap⟩ := behindWord?_eq_some_iff.mp h
      exact ⟨exportWord, gap, rfl, .inr rfl, hgap⟩
  · rintro ⟨word, gap, rfl, rfl | rfl, hgap⟩
    · exact .inl (behindWord?_eq_some_iff.mpr ⟨gap, rfl, hgap⟩)
    · exact .inr ⟨rfl, behindWord?_eq_some_iff.mpr ⟨gap, rfl, hgap⟩⟩

/-- A clause of types stands behind the lead that announces it. -/
theorem typeClause?_eq_some_iff :
  typeClause? text = some clause ↔ ∃ lead, text = lead ++ clause ∧ IsLead lead ∧ beginsClause clause = true
  := by
  rw [typeClause?, Option.filter_eq_some_iff, Option.bind_eq_some_iff]
  constructor
  · rintro ⟨⟨behind, hbehind, htypes⟩, hclause⟩
    obtain ⟨word, gap, rfl, hword, hn, hg, -⟩ := behindFirstWord?_eq_some_iff.mp hbehind
    obtain ⟨gap', rfl, hn', hg', -⟩ := behindWord?_eq_some_iff.mp htypes
    exact ⟨word ++ (gap ++ (typeWord ++ gap')), by simp, ⟨word, gap, gap', rfl, hword, hn, hg, hn', hg'⟩, hclause⟩
  · rintro ⟨lead, rfl, ⟨word, gap, gap', rfl, hword, hn, hg, hn', hg'⟩, hclause⟩
    refine ⟨⟨typeWord ++ (gap' ++ clause), ?_, ?_⟩, hclause⟩
    · exact behindFirstWord?_eq_some_iff.mpr ⟨word, gap, by simp, hword, hn, hg, rfl⟩
    · exact behindWord?_eq_some_iff.mpr ⟨gap', rfl, hn', hg', stops_isBlank_of_beginsClause hclause⟩

theorem IsLead.slash_notMem {lead : Text} (h : IsLead lead) :
  '/' ∉ lead
  := by
  obtain ⟨word, gap, gap', rfl, hword, -, hg, -, hg'⟩ := h
  have hblank : ∀ {gap : Text}, gap.all isBlank = true → '/' ∉ gap := by
    intro gap hg hmem
    exact absurd (List.all_eq_true.mp hg '/' hmem) (by decide)
  simp only [List.mem_append, not_or]
  refine ⟨?_, hblank hg, by decide, hblank hg'⟩
  obtain rfl | rfl := hword
  · decide
  · decide

/-- A declaration is one of types with its comments and with spaces in their place, if no comment stands in front of
the clause that it has then. -/
theorem isTypeOnly_spaced {segment : Segment} (h : segment.Marked)
    (ht : ∀ clause ∈ typeClause? segment.spaced,
      ∀ passed ∈ segment.take (segment.length - clause.length), passed.2 ≠ .comment) :
  isTypeOnly segment.text = isTypeOnly segment.spaced
  := by
  rw [isTypeOnly_eq_isSome, isTypeOnly_eq_isSome, Bool.eq_iff_iff, Option.isSome_iff_exists, Option.isSome_iff_exists]
  constructor
  · rintro ⟨clause, hclause⟩
    obtain ⟨lead, htext, hlead, hbegins⟩ := typeClause?_eq_some_iff.mp hclause
    obtain ⟨front, behind, rfl, rfl, rfl, hfront, hbehind⟩ := h.exists_append hlead.slash_notMem htext
    use behind.spaced
    rw [hbehind.beginsClause_eq] at hbegins
    rw [Segment.spaced_append, Segment.spaced_eq_text hfront]
    exact typeClause?_eq_some_iff.mpr ⟨_, rfl, hlead, hbegins⟩
  · rintro ⟨clause, hclause⟩
    obtain ⟨lead, hspaced, hlead, hbegins⟩ := typeClause?_eq_some_iff.mp hclause
    have hcomments := ht clause hclause
    have hlength : segment.length = lead.length + clause.length := by
      rw [← List.length_append, ← hspaced, Segment.length_spaced]
    rw [hlength, Nat.add_sub_cancel] at hcomments
    -- the same characters stand in front of the clause in both texts
    have hsplit := List.take_append_drop lead.length segment
    rw [← hsplit] at h
    rw [← hsplit, Segment.spaced_append] at hspaced
    have htake : (spaced (segment.take lead.length)).length = lead.length := by
      rw [Segment.length_spaced, List.length_take, hlength]
      omega
    obtain ⟨hfront, hbehind⟩ := List.append_inj hspaced htake
    rw [← hbehind, ← (h.of_append hcomments).beginsClause_eq] at hbegins
    rw [Segment.spaced_eq_text hcomments] at hfront
    use Segment.text (segment.drop lead.length)
    apply typeClause?_eq_some_iff.mpr ⟨lead, _, hlead, hbegins⟩
    have htext := congrArg Segment.text hsplit
    rw [Segment.text_append, hfront] at htext
    exact htext.symm

end

end ImportCensus.Clause

namespace ImportCensus.Scan

open Text Extraction Clause
open Segment (of closed spaced)

section

variable {segment argument : Segment} {position : Nat} {o : Occurrence}

/-! ### Arguments -/

/-- What is read as a literal has blanks around its quotation marks. -/
theorem exists_of_literal? {text contents : Text} (h : literal? text = some contents) :
  ∃ gap quote gap', text = gap ++ quote :: (contents ++ quote :: gap') ∧ isQuote quote = true
    ∧ gap.all isBlank = true ∧ gap'.all isBlank = true ∧ ∀ c ∈ contents, isQuote c = false
  := by
  have htext := List.takeWhile_append_dropWhile (p := isBlank) (l := text)
  rw [literal?, skipBlanks] at h
  split at h
  · cases h
  · rename_i quote rest hrest
    rw [hrest] at htext
    simp only at h
    split at h
    · cases h
    · rename_i c behind hbehind
      split at h
      · rename_i hliteral
        simp only [Bool.and_eq_true, beq_iff_eq] at hliteral
        obtain ⟨⟨hquote, rfl⟩, hgap'⟩ := hliteral
        obtain rfl := Option.some.inj h
        refine ⟨text.takeWhile isBlank, c, behind, ?_, hquote, List.all_takeWhile, hgap', ?_⟩
        · rw [← hbehind, List.takeWhile_append_dropWhile, htext]
        · intro d hd
          have hstop := List.all_eq_true.mp List.all_takeWhile d hd
          simp only [Bool.not_eq_true', Bool.or_eq_false_iff] at hstop
          exact hstop.1
      · cases h

/-- An argument that is read as a literal has no comments. -/
theorem Tokens.ne_comment (h : Tokens argument) {contents : Text} (hl : literal? argument.text = some contents) :
  ∀ passed ∈ argument, passed.2 ≠ .comment
  := by
  obtain ⟨gap, quote, gap', htext, hquote, hgap, hgap', hcontents⟩ := exists_of_literal? hl
  obtain ⟨more, rfl, hmore, hrest⟩ := h.exists_of_isBlank hgap htext
  obtain ⟨body, behind, rfl, hbody, hbehind⟩ := hmore.exists_string hquote hrest
  have hright : ∀ c ∈ gap', isQuote c = false := by
    intro c hc
    exact isQuote_of_isBlank (List.all_eq_true.mp hgap' c hc)
  have heq : body ++ quote :: behind.text = contents ++ quote :: gap' := by
    simpa using hrest
  obtain ⟨rfl, -, hleft⟩ := eq_of_append_quote hquote hcontents hright heq
  obtain ⟨none, rfl, -, hnone⟩ := hbehind.exists_of_isBlank hgap' (by rw [hleft, List.append_nil])
  obtain rfl : none = [] := List.map_eq_nil_iff.mp hnone
  have hof : ∀ {part : Part} {text : Text}, part ≠ .comment → ∀ passed ∈ of part text, passed.2 ≠ .comment := by
    intro part text hp passed hpassed
    obtain ⟨c, -, rfl⟩ := List.mem_map.mp hpassed
    exact hp
  have hstring : ∀ passed ∈ Segment.string quote body, passed.2 ≠ .comment := by
    rw [Segment.string, List.forall_mem_cons, List.forall_mem_append]
    exact ⟨by simp, hof (by simp), by simp⟩
  rw [List.append_nil, List.forall_mem_append, List.forall_mem_append]
  exact ⟨hof (by simp), hstring, hof (by simp)⟩

/-- An argument is read as the same literal with its comments overwritten, unless it becomes one. -/
theorem Tokens.literal?_spaced (h : Tokens argument)
    (hl : (literal? argument.spaced).isSome = true → ∀ passed ∈ argument, passed.2 ≠ .comment) :
  literal? argument.text = literal? argument.spaced
  := by
  cases htext : literal? argument.text with
  | some contents => rw [Segment.spaced_eq_text (h.ne_comment htext), htext]
  | none =>
    cases hspaced : literal? argument.spaced with
    | none => rfl
    | some contents =>
      have hcomments := hl (by rw [hspaced]; rfl)
      rw [Segment.spaced_eq_text hcomments, htext] at hspaced
      cases hspaced

/-! ### Statements -/

theorem Tokens.marked (h : Tokens segment) :
  segment.Marked
  := by
  induction h with
  | nil => exact .nil
  | cons hstep _ ih => exact hstep.marked.append ih

theorem Declares.marked {body rest : Text} (h : Declares segment body rest) :
  segment.Marked
  := by
  cases h with
  | bare hw hg hq hb =>
    exact (Segment.marked_of (by simp) _).append (hg.marked.append (Segment.marked_string _ _))
  | clause hw hg hq hr hc => exact (Segment.marked_of (by simp) _).append (hg.marked.append hc.marked)

/-- Every comment of a statement begins as one. -/
theorem IsStatement.marked (h : IsStatement position segment o) :
  segment.Marked
  := by
  cases h with
  | declaration h => exact h.marked
  | onward h => exact (Segment.marked_of (by simp) _).append h.marked
  | call hg ha =>
    apply (Segment.marked_of (by simp) _).append
    apply hg.marked.append
    apply Segment.Marked.cons (by simp)
    exact ha.marked.append (.cons (by simp) .nil)

/-- A statement begins with a word. -/
theorem IsStatement.isShown (h : IsStatement position segment o) :
  segment.isShown = true
  := by
  cases h with
  | declaration h =>
    cases h with
    | bare => rfl
    | clause => rfl
  | onward => rfl
  | call => rfl

/-- A declaration is flat in front of its specifier, where there is nothing but items in its curly brackets. -/
theorem Declares.flatUpTo {body rest : Text} (h : Declares segment body rest) :
  ∃ front quote, segment = front ++ Segment.string quote body ∧ (front.ListsItems → Comment.Flat front)
  := by
  cases h with
  | @bare gap quote _ _ hw hg hq hb =>
    refine ⟨of .code importWord ++ gap, quote, by simp, fun _ => ?_⟩
    have hgap : Comment.Flat (gap ++ []) := hg.flat List.nil_prefix .nil
    rw [List.append_nil] at hgap
    exact .run (by decide) hgap
  | @clause gap segment _ _ hw hg hq hr hc =>
    obtain ⟨front, quote, rfl, hflat⟩ := hc.flatUpTo _ rfl
    refine ⟨of .code importWord ++ (gap ++ front), quote, by simp, fun hl => .run (by decide) ?_⟩
    apply hg.flat _ (hflat (of .code importWord ++ gap) (by simpa using hl))
    simp

/-- The statement of an import that is not dynamic ends in its specifier. -/
theorem IsStatement.flatUpTo (h : IsStatement position segment o) (hd : o.dynamic = false) :
  ∃ front quote body, segment = front ++ Segment.string quote body
    ∧ o = .ofSpecifier position (position + segment.length) body ∧ (front.ListsItems → Comment.Flat front)
  := by
  cases h with
  | declaration h =>
    obtain ⟨front, quote, rfl, hflat⟩ := h.flatUpTo
    exact ⟨front, quote, _, rfl, by rw [Nat.add_comm], hflat⟩
  | @onward segment body rest h =>
    obtain ⟨front, quote, rfl, hflat⟩ := h.flatUpTo _ rfl
    exact ⟨of .code exportWord ++ front, quote, body, by simp, by rw [Nat.add_comm],
      fun hl => .run (by decide) (hflat _ hl)⟩
  | call => cases hd

end

end ImportCensus.Scan

namespace ImportCensus.Extraction

open Text Scan Clause
open Segment (of closed spaced)

/-! ### Records -/

/-- The clause of a declaration, in front of its specifier. -/
def clauseOf (code : Text) (o : Occurrence) : Text :=
  Comment.remove (code.slice o.statementStart (o.start - 1))

/-- A record is told from the specifier, from whether there are types only, and from what the clause names. -/
theorem record?_eq_record? {code code' : Text} {o : Occurrence} (hs : specifier? code o = specifier? code' o)
    (ht : isTypeOnly (code.slice o.statementStart o.statementStop)
      = isTypeOnly (code'.slice o.statementStart o.statementStop))
    (hc : o.dynamic = false → defaultName? (clauseOf code o) = defaultName? (clauseOf code' o)
      ∧ takesAll (clauseOf code o) = takesAll (clauseOf code' o) ∧ named (clauseOf code o) = named (clauseOf code' o)) :
  record? code o = record? code' o
  := by
  rw [record?, record?, hs]
  simp only [ht]
  cases hd : o.dynamic with
  | true => rfl
  | false =>
    obtain ⟨hdefault, hwhole, hnamed⟩ := hc hd
    rw [clauseOf, clauseOf] at hdefault hwhole hnamed
    simp only [hdefault, hwhole, hnamed]

end ImportCensus.Extraction

namespace ImportCensus.Scan

open Text Extraction Clause
open Segment (of closed spaced)

/-- A segment whose comments are overwritten from one offset up to another. -/
def Segment.veiledWithin (segment : Segment) (start stop : Nat) : Segment :=
  segment.take start ++ ((segment.slice start stop).veiled ++ segment.drop stop)

/-- The comments of a statement stand where nothing is read of them.  None stands in front of a clause of types,
none in the brackets of a dynamic import of a literal, and none is all that holds two words of a clause apart.  In
its curly brackets a clause has nothing but items, and no name that is read there has a blank in it. -/
structure Occurrence.Indifferent (o : Occurrence) (passed : Segment) : Prop where
  types : ∀ clause ∈ typeClause? (passed.slice o.statementStart o.statementStop).spaced,
    ∀ c ∈ (passed.slice o.statementStart o.statementStop).take (o.statementStop - o.statementStart - clause.length),
      c.2 ≠ .comment
  bare : o.dynamic = true → (literal? (passed.slice o.start o.stop).spaced).isSome = true →
    ∀ c ∈ passed.slice o.start o.stop, c.2 ≠ .comment
  apart : o.dynamic = false → (passed.slice o.statementStart (o.start - 1)).welds = false
  items : o.dynamic = false → (passed.slice o.statementStart (o.start - 1)).ListsItems
  names : o.dynamic = false → Unbroken (named (passed.slice o.statementStart (o.start - 1)).spaced)

instance (o : Occurrence) (passed : Segment) : Decidable (o.Indifferent passed) :=
  decidable_of_iff
    ((∀ clause ∈ typeClause? (passed.slice o.statementStart o.statementStop).spaced,
        ∀ c ∈ (passed.slice o.statementStart o.statementStop).take
          (o.statementStop - o.statementStart - clause.length), c.2 ≠ .comment)
      ∧ (o.dynamic = true → (literal? (passed.slice o.start o.stop).spaced).isSome = true →
        ∀ c ∈ passed.slice o.start o.stop, c.2 ≠ .comment)
      ∧ (o.dynamic = false → (passed.slice o.statementStart (o.start - 1)).welds = false)
      ∧ (o.dynamic = false → (passed.slice o.statementStart (o.start - 1)).ListsItems)
      ∧ (o.dynamic = false → Unbroken (named (passed.slice o.statementStart (o.start - 1)).spaced)))
    ⟨fun h => ⟨h.1, h.2.1, h.2.2.1, h.2.2.2.1, h.2.2.2.2⟩, fun h => ⟨h.types, h.bare, h.apart, h.items, h.names⟩⟩

section

variable {o : Occurrence} {before statement behind : Segment}

/-- Veiling the comments of a statement leaves what stands around it. -/
theorem IsStatement.veiledWithin_eq (h : IsStatement before.length statement o) :
  (before ++ (statement ++ behind)).veiledWithin o.statementStart o.statementStop
    = before ++ (statement.veiled ++ behind)
  := by
  have hslice := @IsStatement.slice_eq _ _ behind _ h
  obtain ⟨hstart, hstop⟩ := h.offsets
  have hdrop : (before ++ (statement ++ behind)).drop o.statementStop = behind := by
    rw [hstop, ← List.append_assoc, ← List.length_append, List.drop_left]
  rw [Segment.veiledWithin, hslice, hdrop, hstart, List.take_left]

/-- A declaration has the same record with its comments overwritten. -/
theorem IsStatement.record?_declaration (h : IsStatement before.length statement o) (hd : o.dynamic = false)
    (hi : o.Indifferent (before ++ (statement ++ behind))) :
  record? (before ++ (statement ++ behind)).text o = record? (before ++ (statement.veiled ++ behind)).text o
  := by
  have hmarked := h.marked
  have hshown := h.isShown
  have htypes := hi.types
  have hapart := hi.apart hd
  have hitems := hi.items hd
  have hnames := hi.names hd
  obtain ⟨hstart, hstop⟩ := h.offsets
  rw [h.slice_eq, hstart, hstop, Nat.add_sub_cancel_left] at htypes
  obtain ⟨front, quote, body, rfl, ho, hflat⟩ := h.flatUpTo hd
  have hslice : (before ++ (front ++ Segment.string quote body ++ behind)).slice o.statementStart (o.start - 1)
      = front := by
    apply Segment.slice_eq before front (Segment.string quote body ++ behind)
    · simp
    · exact hstart
    · simp [ho, Occurrence.ofSpecifier]
      omega
  rw [hslice] at hapart hitems hnames
  obtain ⟨hremove, hremove'⟩ := (hflat hitems).remove_eq
  obtain ⟨htext, hstatement, hfront⟩ := @Salvage.slices_declaration before.text front behind.text quote body
    (before ++ (front ++ Segment.string quote body ++ behind)).text (by simp) o (by simpa using ho)
  obtain ⟨htext', hstatement', hfront'⟩ := @Salvage.slices_declaration before.text front.veiled behind.text quote body
    (before ++ ((front ++ Segment.string quote body).veiled ++ behind)).text (by simp) o (by simpa using ho)
  apply record?_eq_record?
  · rw [specifier?, specifier?, hd, htext, htext']
  · rw [hstatement, hstatement']
    have hspaced := isTypeOnly_spaced hmarked htypes
    rw [spaced, Segment.veiled_append, Segment.veiled_string] at hspaced
    exact hspaced
  · intro _
    rw [clauseOf, clauseOf, hfront, hfront', hremove]
    have hremove' : Comment.remove front.veiled.text = front.spaced := hremove'
    rw [hremove']
    have hmeets := Segment.meets_of_isShown (Segment.isShown_of_append hshown)
    exact ⟨defaultName?_eq hapart hmeets, takesAll_eq front, named_eq_named hapart hitems hnames⟩

/-- A dynamic import has the same record with its comments overwritten. -/
theorem IsStatement.record?_call (h : IsStatement before.length statement o) (hd : o.dynamic = true)
    (hi : o.Indifferent (before ++ (statement ++ behind))) :
  record? (before ++ (statement ++ behind)).text o = record? (before ++ (statement.veiled ++ behind)).text o
  := by
  have hmarked := h.marked
  have htypes := hi.types
  have hbare := hi.bare hd
  obtain ⟨hstart, hstop⟩ := h.offsets
  rw [h.slice_eq, hstart, hstop, Nat.add_sub_cancel_left] at htypes
  cases h with
  | declaration => cases hd
  | onward => cases hd
  | @call gap argument _ hg ha =>
    rw [Segment.slice_eq (before ++ (of .code importWord ++ (gap ++ [('(', .code)]))) argument
      ((')', .code) :: behind) (by simp) (by simp; omega) (by simp; omega)] at hbare
    have hcall : ∀ gap argument : Segment, Segment.text (before ++ (of .code importWord
          ++ (gap ++ ('(', Part.code) :: (argument ++ [(')', Part.code)])) ++ behind))
        = before.text ++ (Scan.importWord ++ (gap.text ++ '(' :: (argument.text ++ ')' :: behind.text))) := by
      intro gap argument
      simp
    obtain ⟨htext, hstatement⟩ := Written.slices_dynamic before.text gap.text argument.text behind.text (hcall gap argument)
      (Salvage.dynamicOccurrence_text before gap argument).symm
    obtain ⟨htext', hstatement'⟩ := Written.slices_dynamic before.text gap.veiled.text argument.veiled.text behind.text
      (hcall gap.veiled argument.veiled) (Salvage.dynamicOccurrence_text before gap.veiled argument.veiled).symm
    simp only [Segment.length_veiled] at htext' hstatement'
    have hveiled : Segment.veiled (of .code importWord ++ (gap ++ ('(', .code) :: (argument ++ [(')', .code)])))
        = of .code importWord ++ (gap.veiled ++ ('(', .code) :: (argument.veiled ++ [(')', .code)])) := by
      simp
    have hspaced := isTypeOnly_spaced hmarked htypes
    rw [spaced, hveiled] at hspaced
    rw [hveiled]
    apply record?_eq_record?
    · rw [specifier?, specifier?, if_pos rfl, if_pos rfl, htext, htext']
      exact ha.literal?_spaced hbare
    · rw [hstatement, hstatement']
      simpa using hspaced
    · intro hdeclaration
      cases hdeclaration

end

/-- A source that is scanned is one of whose statements each has the same record with its comments overwritten, where
they stand so that nothing is read of them. -/
theorem record?_veiledWithin {source : Text} {occurrences : List Occurrence} (hs : scan source = .ok occurrences) :
  ∃ passed : Segment, parts source = .ok passed ∧ passed.text = source
    ∧ ∀ o ∈ occurrences, o.Indifferent passed →
      record? (passed.veiledWithin o.statementStart o.statementStop).text o = record? source o
  := by
  obtain ⟨f, hf, -⟩ := exists_of_map_eq_ok hs
  have hp : parts source = .ok f.cursor.before.characters.reverse := by
    rw [parts, hf]
    rfl
  obtain ⟨htext, hstands⟩ := standsIn_of_scan hs hp
  refine ⟨_, hp, htext, ?_⟩
  intro o ho hi
  obtain ⟨before, statement, behind, heq, hstatement⟩ := hstands o ho
  rw [← htext]
  rw [heq] at hi ⊢
  rw [hstatement.veiledWithin_eq]
  cases hd : o.dynamic with
  | true => exact (hstatement.record?_call hd hi).symm
  | false => exact (hstatement.record?_declaration hd hi).symm

/-- Comments in a declaration and in the brackets of a dynamic import. -/
def remarked : Segment :=
  of .code "import ".toList ++ (of .comment "/* a */".toList ++ (of .code " React, \x7bb ".toList
    ++ (of .comment "/* c */".toList ++ (of .code ", type D\x7d from ".toList ++ (of .comment "/* e */".toList
    ++ (of .code [' '] ++ (Segment.string '\'' ['x'] ++ (of .code "\nimport(n ".toList
    ++ (of .comment "/* f */".toList ++ of .code ")\n".toList)))))))))

/-- The records of a source with remarks in its statements stay without them. -/
theorem record?_veiledWithin_remarked :
  let occurrences := [⟨56, 57, 0, 58, false⟩, ⟨66, 75, 59, 76, true⟩]
  scan remarked.text = .ok occurrences ∧ parts remarked.text = .ok remarked
    ∧ (∀ o ∈ occurrences, o.Indifferent remarked)
    ∧ ∀ o ∈ occurrences,
      record? (remarked.veiledWithin o.statementStart o.statementStop).text o = record? remarked.text o
  := by
  intro occurrences
  have hs : scan remarked.text = .ok occurrences := by decide +kernel
  have hp : parts remarked.text = .ok remarked := by decide +kernel
  have hi : ∀ o ∈ occurrences, o.Indifferent remarked := by decide +kernel
  obtain ⟨passed, hparts, -, hrecord⟩ := record?_veiledWithin hs
  obtain rfl := Except.ok.inj (hp.symm.trans hparts)
  exact ⟨hs, hp, hi, fun o ho => hrecord o ho (hi o ho)⟩

/-- A comment keeps the literal of a dynamic import from being read, and an import of types from being told.  Where
it is taken out the words around it become one, and where it is overwritten the item around it grows. -/
theorem record?_ne_veiledWithin :
  (scan "import(/**/'x')".toList = .ok [⟨7, 14, 0, 15, true⟩]
      ∧ record? "import(/**/'x')".toList ⟨7, 14, 0, 15, true⟩ = none
      ∧ (parts "import(/**/'x')".toList).map
          (fun passed : Segment => record? (passed.veiledWithin 0 15).text ⟨7, 14, 0, 15, true⟩)
        = .ok (some { specifier := ['x'], importAll := true }))
    ∧ (scan "import /**/ type T from 'x'".toList = .ok [⟨25, 26, 0, 27, false⟩]
      ∧ record? "import /**/ type T from 'x'".toList ⟨25, 26, 0, 27, false⟩
        = some { specifier := ['x'], importAll := true }
      ∧ (parts "import /**/ type T from 'x'".toList).map
          (fun passed : Segment => record? (passed.veiledWithin 0 27).text ⟨25, 26, 0, 27, false⟩)
        = .ok none)
    ∧ (scan "import/**/a from 'x'".toList = .ok [⟨18, 19, 0, 20, false⟩]
      ∧ record? "import/**/a from 'x'".toList ⟨18, 19, 0, 20, false⟩
        = some { specifier := ['x'], importAll := true }
      ∧ (parts "import/**/a from 'x'".toList).map
          (fun passed : Segment => record? (passed.veiledWithin 0 20).text ⟨18, 19, 0, 20, false⟩)
        = .ok (some { specifier := ['x'], defaultName := some ['a'] }))
    ∧ scan "import \x7ba /**/ b\x7d from 'x'".toList = .ok [⟨24, 25, 0, 26, false⟩]
      ∧ record? "import \x7ba /**/ b\x7d from 'x'".toList ⟨24, 25, 0, 26, false⟩
        = some { specifier := ['x'], named := ["a  b".toList] }
      ∧ (parts "import \x7ba /**/ b\x7d from 'x'".toList).map
          (fun passed : Segment => record? (passed.veiledWithin 0 26).text ⟨24, 25, 0, 26, false⟩)
        = .ok (some { specifier := ['x'], named := ["a      b".toList] })
  := by
  refine ⟨⟨?_, ?_, ?_⟩, ⟨?_, ?_, ?_⟩, ⟨?_, ?_, ?_⟩, ?_, ?_, ?_⟩ <;> decide +kernel

end ImportCensus.Scan
