import ImportCensus.Proofs.Extraction.TypeOnly
import ImportCensus.Proofs.Salvage.Lines

/-!
# Agreement with the scanner

The searches for statements read a source as text.  What they find need not be an import to the scanner: it
may stand in a string, in a template, in a regular expression or behind a dot.  Where each of the finds can be
scanned by itself, they are extracted one by one.  Those that are statements of imports that the scanner finds
too, apart from comments, name nothing that is not scanned, and the order is the same; whatever else is salvaged
comes from what only reads like an import.
-/

namespace ImportCensus

open Text
open Scan.Segment (of)

namespace Comment

/-- A character of a literal stays. -/
theorem removeFrom_literal_prefix (delimiter c : Char) (text : Text) :
  [c] <+: removeFrom (.literal delimiter) (c :: text)
  := by
  generalize hcontext : Context.literal delimiter = context
  generalize hwhole : c :: text = whole
  fun_cases removeFrom context whole with
  | case1 => cases hwhole
  | case5 => cases hwhole; exact List.cons_prefix_cons.mpr ⟨rfl, List.nil_prefix⟩
  | case6 => cases hwhole; exact List.cons_prefix_cons.mpr ⟨rfl, List.nil_prefix⟩
  | case7 => cases hwhole; exact List.cons_prefix_cons.mpr ⟨rfl, List.nil_prefix⟩
  | _ => cases hcontext

section

variable {front behind : Text} (hb : ∀ c ∈ behind.head?, c ≠ '/' ∧ c ≠ '*')

include hb

/-- Where no mark of a comment is made of two characters, none is made with what stands behind. -/
theorem append_ne_mark {c first second : Char} (hm : second = '/' ∨ second = '*')
    (h : ∀ rest, c = first → front = second :: rest → False) :
  ∀ rest, c = first → front ++ behind = second :: rest → False
  := by
  intro rest hc hrest
  cases front with
  | nil =>
    obtain ⟨hslash, hstar⟩ := hb second (by rw [← List.nil_append behind, hrest]; rfl)
    exact hm.elim hslash hstar
  | cons d front =>
    obtain rfl := (List.cons.inj hrest).1
    exact h front hc rfl

/-- What is left of the front of a text is left of the whole, where no mark of a comment begins behind it. -/
theorem removeFrom_prefix (context : Context) :
  removeFrom context front <+: removeFrom context (front ++ behind)
  := by
  fun_induction removeFrom context front with
  | case1 => exact List.nil_prefix
  | case2 rest ih => exact ih
  | case3 rest ih => exact ih
  | case4 c rest hline hblock ih =>
    rw [List.cons_append, removeFrom]
    · exact List.cons_prefix_cons.mpr ⟨rfl, ih⟩
    · exact append_ne_mark hb (.inl rfl) hline
    · exact append_ne_mark hb (.inr rfl) hblock
  | case5 delimiter c rest ih =>
    exact List.cons_prefix_cons.mpr ⟨rfl, List.cons_prefix_cons.mpr ⟨rfl, ih⟩⟩
  | case6 delimiter c rest hescape hends ih =>
    cases rest with
    | nil => exact removeFrom_literal_prefix delimiter c behind
    | cons d rest =>
      have hwhole : removeFrom (.literal delimiter) (c :: (d :: rest ++ behind))
          = c :: removeFrom .code (d :: rest ++ behind) := by
        rw [removeFrom, if_pos hends]
        intro _ _ hc _
        exact hescape d rest hc rfl
      rw [List.cons_append, hwhole]
      exact List.cons_prefix_cons.mpr ⟨rfl, ih⟩
  | case7 delimiter c rest hescape hends ih =>
    cases rest with
    | nil => exact removeFrom_literal_prefix delimiter c behind
    | cons d rest =>
      have hwhole : removeFrom (.literal delimiter) (c :: (d :: rest ++ behind))
          = c :: removeFrom (.literal delimiter) (d :: rest ++ behind) := by
        rw [removeFrom, if_neg hends]
        intro _ _ hc _
        exact hescape d rest hc rfl
      rw [List.cons_append, hwhole]
      exact List.cons_prefix_cons.mpr ⟨rfl, ih⟩
  | case8 rest ih => exact List.cons_prefix_cons.mpr ⟨rfl, ih⟩
  | case9 c rest hc ih =>
    rw [List.cons_append, removeFrom, if_neg hc]
    exact ih
  | case10 rest ih => exact ih
  | case11 rest _ ih => exact List.cons_prefix_cons.mpr ⟨rfl, ih⟩
  | case12 c rest hblock hc ih =>
    rw [List.cons_append, removeFrom, if_neg hc]
    · exact ih
    · exact append_ne_mark hb (.inl rfl) hblock

end

end Comment

namespace Scan

/-- The characters of a segment from one offset up to another. -/
def Segment.slice (segment : Segment) (start stop : Nat) : Segment :=
  (segment.drop start).take (stop - start)

/-- Whether a text and the offset at which it is found in the source without its comments are an occurrence's
statement, without its comments, and the place that it then has.  No comment may bring two words of a declaration
together, and none may stand in the brackets of a dynamic import. -/
structure Occurrence.ReadsAs (o : Occurrence) (passed : Segment) (found : Nat × Text) : Prop where
  place : found.1 = (Comment.remove (passed.text.take o.statementStart)).length
  text_eq : found.2 = (passed.slice o.statementStart o.statementStop).uncommented.text
  apart : o.dynamic = false → (passed.slice o.statementStart o.statementStop).joins = false
  bare : o.dynamic = true → ∀ c ∈ passed.slice o.start o.stop, c.2 ≠ .comment

instance (o : Occurrence) (passed : Segment) (found : Nat × Text) : Decidable (o.ReadsAs passed found) :=
  decidable_of_iff (found.1 = (Comment.remove (passed.text.take o.statementStart)).length
      ∧ found.2 = (passed.slice o.statementStart o.statementStop).uncommented.text
      ∧ (o.dynamic = false → (passed.slice o.statementStart o.statementStop).joins = false)
      ∧ (o.dynamic = true → ∀ c ∈ passed.slice o.start o.stop, c.2 ≠ .comment))
    ⟨fun h => ⟨h.1, h.2.1, h.2.2.1, h.2.2.2⟩, fun h => ⟨h.place, h.text_eq, h.apart, h.bare⟩⟩

/-- A slice between two offsets is the segment that stands there. -/
theorem Segment.slice_eq {segment : Segment} {start stop : Nat} (before part rest : Segment)
    (hs : segment = before ++ (part ++ rest)) (hstart : start = before.length)
    (hstop : stop = before.length + part.length) :
  segment.slice start stop = part
  := by
  simp [Segment.slice, hs, hstart, hstop]

section

variable {front statement behind : Segment} {o : Occurrence}

/-- The offsets of a statement are those of its segment. -/
theorem IsStatement.offsets (h : IsStatement front.length statement o) :
  o.statementStart = front.length ∧ o.statementStop = front.length + statement.length
  := by
  cases h with
  | declaration => exact ⟨rfl, Nat.add_comm _ _⟩
  | onward => exact ⟨rfl, Nat.add_comm _ _⟩
  | call =>
    refine ⟨rfl, ?_⟩
    simp
    omega

/-- The slice of a statement is its segment. -/
theorem IsStatement.slice_eq (h : IsStatement front.length statement o) :
  (front ++ (statement ++ behind)).slice o.statementStart o.statementStop = statement
  := by
  obtain ⟨hstart, hstop⟩ := h.offsets
  exact Segment.slice_eq front statement behind rfl hstart hstop

/-- No mark of a comment begins where a statement does. -/
theorem Occurrence.WrittenIn.ne_of_mem_head? {source : Text} (h : o.WrittenIn source) :
  ∀ c ∈ (source.drop o.statementStart).head?, c ≠ '/' ∧ c ≠ '*'
  := by
  obtain ⟨rest, hword⟩ | ⟨-, rest, hword⟩ := h.keyword
  · rw [← hword]
    rintro _ ⟨⟩
    decide
  · rw [← hword]
    rintro _ ⟨⟩
    decide

end

/-- Of two occurrences that are found one behind the other, the statement of the first begins before that of
the second. -/
theorem Occurrence.ReadsAs.statementStart_lt {o o' : Occurrence} {passed : Segment} {found found' : Nat × Text}
    (h : o.ReadsAs passed found) (h' : o'.ReadsAs passed found') (hw : o'.WrittenIn passed.text)
    (hlt : found.1 < found'.1) :
  o.statementStart < o'.statementStart
  := by
  apply Nat.lt_of_not_le
  intro hle
  obtain ⟨n, hn⟩ := Nat.le.dest hle
  have hbehind : ∀ c ∈ ((passed.text.drop o'.statementStart).take n).head?, c ≠ '/' ∧ c ≠ '*' := by
    intro c hc
    apply hw.ne_of_mem_head? c
    rw [List.head?_take] at hc
    split at hc
    · cases hc
    · exact hc
  have hprefix := @Comment.removeFrom_prefix (passed.text.take o'.statementStart) _ hbehind .code
  rw [← List.take_add, hn] at hprefix
  have hlength := hprefix.length_le
  rw [h.place, h'.place] at hlt
  exact Nat.not_le_of_lt hlt hlength

end Scan

namespace Extraction

open Scan

/-- The specifier of a record is what an import names, unless that is a macro or the import is one of types. -/
theorem map_specifier_record? (code : Text) (o : Occurrence) :
  (record? code o).map ImportRecord.specifier
    = ((specifier? code o).bind Specifier.classify).filter fun specifier =>
        !(Specifier.isMacro specifier || Clause.isTypeOnly (code.slice o.statementStart o.statementStop))
  := by
  rw [record?]
  cases (specifier? code o).bind Specifier.classify with
  | none => rfl
  | some specifier =>
    rw [Option.filter_some]
    by_cases h : (Specifier.isMacro specifier
        || Clause.isTypeOnly (code.slice o.statementStart o.statementStop)) = true
    · simp only [h]
      rfl
    · simp only [h]
      cases o.dynamic with
      | true => rfl
      | false => rfl

/-- An import with the specifier of another one names no more than this, if it is one of types where this is. -/
theorem specifiers_sublist {code code' : Text} {o o' : Occurrence} (hd : o.dynamic = o'.dynamic)
    (ht : o.text code = o'.text code')
    (hs : Clause.isTypeOnly (code'.slice o'.statementStart o'.statementStop) = true →
      Clause.isTypeOnly (code.slice o.statementStart o.statementStop) = true) :
  ((record? code o).toList.map ImportRecord.specifier).Sublist
    ((record? code' o').toList.map ImportRecord.specifier)
  := by
  have hspecifier : specifier? code o = specifier? code' o' := by rw [specifier?, specifier?, hd, ht]
  rw [← Option.toList_map, ← Option.toList_map, map_specifier_record?, map_specifier_record?, hspecifier,
    Option.toList_filter, Option.toList_filter]
  apply List.monotone_filter_right
  intro specifier hnamed
  simp only [Bool.not_eq_true', Bool.or_eq_false_iff] at hnamed ⊢
  refine ⟨hnamed.1, ?_⟩
  rw [← Bool.not_eq_true]
  intro htypes
  rw [hs htypes] at hnamed
  cases hnamed.2

end Extraction

namespace Salvage

open Scan Written Extraction

/-! ### What the searches find -/

/-- What the two searches find in a source, with the offsets in the source without its comments. -/
def finds (source : Text) : List (Nat × Text) :=
  find behindStatement? 0 0 true (Comment.remove source)
    ++ find behindDynamic? 0 0 true (Comment.remove source)

section

variable {source text : Text} {found : Nat × Text}

/-- The text in front of another one is what is taken without it. -/
theorem take_append_sub (text left : Text) :
  (text ++ left).take ((text ++ left).length - left.length) = text
  := by
  rw [List.length_append, Nat.add_sub_cancel, List.take_left]

/-- A static import that is found ends in a quotation mark. -/
theorem exists_of_mem_static (h : found ∈ find behindStatement? 0 0 true text) :
  ∃ inner quote, found.2 = importWord ++ (inner ++ [quote]) ∧ isQuote quote = true
  := by
  obtain ⟨before, rest, left, -, -, hread, htake⟩ := exists_of_mem_find h
  obtain ⟨inner, quote, rfl, hq⟩ := exists_of_behindStatement? hread
  have hrest : importWord ++ (inner ++ quote :: left) = importWord ++ (inner ++ [quote]) ++ left := by simp
  rw [hrest, take_append_sub] at htake
  exact ⟨inner, quote, htake, hq⟩

/-- A dynamic import that is found has a literal in its brackets. -/
theorem exists_of_mem_dynamic (h : found ∈ find behindDynamic? 0 0 true text) :
  ∃ opening contents closing, found.2 = importWord ++ '(' :: opening :: (contents ++ [closing, ')'])
    ∧ ((isQuote opening = true ∧ isQuote closing = true ∧ ∀ c ∈ contents, isQuote c = false ∧ c ≠ '\n')
      ∨ opening = '\x60' ∧ closing = '\x60' ∧ '$' ∉ contents ∧ '\x60' ∉ contents)
  := by
  obtain ⟨before, rest, left, -, -, hread, htake⟩ := exists_of_mem_find h
  obtain ⟨opening, contents, closing, rfl, -, hliteral⟩ := exists_of_behindDynamic? hread
  have hrest : importWord ++ '(' :: opening :: (contents ++ closing :: ')' :: left)
      = importWord ++ '(' :: opening :: (contents ++ [closing, ')']) ++ left := by
    simp
  rw [hrest, take_append_sub] at htake
  exact ⟨opening, contents, closing, htake, hliteral⟩

/-- What is found begins with the word `import`. -/
theorem exists_of_mem_finds (h : found ∈ finds source) :
  ∃ inner, found.2 = importWord ++ inner
  := by
  obtain h | h := List.mem_append.mp h
  · obtain ⟨inner, quote, heq, -⟩ := exists_of_mem_static h
    exact ⟨_, heq⟩
  · obtain ⟨_, _, _, heq, -⟩ := exists_of_mem_dynamic h
    exact ⟨_, heq⟩

/-- The two searches find nothing at the same place. -/
theorem ne_of_mem_find {statement call : Nat × Text} (hs : statement ∈ find behindStatement? 0 0 true text)
    (hd : call ∈ find behindDynamic? 0 0 true text) :
  statement.1 ≠ call.1
  := by
  intro heq
  obtain ⟨before, rest, left, htext, hoffset, hread, -⟩ := exists_of_mem_find hs
  obtain ⟨before', rest', left', htext', hoffset', hread', -⟩ := exists_of_mem_find hd
  have hlength : before.length = before'.length := by omega
  have hrest := (List.append_inj (htext.symm.trans htext') hlength).2
  obtain rfl := List.append_cancel_left hrest
  obtain ⟨opening, contents, closing, rfl, -, -⟩ := exists_of_behindDynamic? hread'
  rw [behindStatement?_round] at hread
  cases hread

/-- What is found in a source goes on in the next line, if it can be scanned by itself. -/
theorem exists_goesOn_of_scan (h : found ∈ finds source) (hs : ∃ own, scan found.2 = .ok own)
    (hd : ¬ Dangling found.2) :
  ∃ own, GoesOn found.2 own
  := by
  obtain ⟨own, hown⟩ := hs
  refine ⟨own, goesOn_of_scan hown ?_ hd⟩
  -- it ends in a quotation mark or a bracket
  obtain h | h := List.mem_append.mp h
  · obtain ⟨inner, quote, heq, hq⟩ := exists_of_mem_static h
    have hspace : isSpace quote = false ∧ quote ≠ '.' :=
      of_isQuote (p := fun c => isSpace c = false ∧ c ≠ '.') hq (by decide)
    simp [heq, hspace.1, hspace.2]
  · obtain ⟨opening, contents, closing, heq, -⟩ := exists_of_mem_dynamic h
    have hspace : isSpace ')' = false := by decide
    simp [heq, hspace]

/-- What the searches find in a source, in the order in which it is salvaged. -/
def ordered (source : Text) : List (Nat × Text) :=
  List.merge (find behindStatement? 0 0 true (Comment.remove source))
    (find behindDynamic? 0 0 true (Comment.remove source)) fun a b => a.1 ≤ b.1

theorem reduce_eq (source : Text) :
  reduce source = join ['\n'] ((ordered source).map Prod.snd)
  := rfl

theorem mem_finds_of_mem_ordered (h : found ∈ ordered source) :
  found ∈ finds source
  := (List.merge_perm_append _).subset h

/-- What is found is in order, and nothing is found twice. -/
theorem pairwise_ordered (source : Text) :
  (ordered source).Pairwise fun a b => a.1 < b.1
  := by
  have hapart : (finds source).Pairwise fun a b => a.1 ≠ b.1 := by
    refine List.pairwise_append.mpr ⟨pairwise_find.imp Nat.ne_of_lt, pairwise_find.imp Nat.ne_of_lt, ?_⟩
    intro a ha b hb
    exact ne_of_mem_find ha hb
  have hmerged := (List.merge_perm_append fun a b : Nat × Text => decide (a.1 ≤ b.1)).symm.pairwise hapart
    fun hne => hne.symm
  apply (pairwise_merge pairwise_find pairwise_find).imp₂ _ hmerged
  intro a b
  exact Nat.lt_of_le_of_ne

end

/-! ### What is found as a sentence -/

/-- A sentence that is written as a text with the word `import` at its start, and names no more than an
occurrence of a source. -/
structure Sentence.Salvages (sentence : Sentence) (text source : Text) (o : Occurrence) : Prop where
  text_eq : sentence.text = text
  exists_text : ∃ inner, sentence.text = importWord ++ inner
  sublist : (sentence.records.map ImportRecord.specifier).Sublist
    ((record? source o).toList.map ImportRecord.specifier)

section

variable {gap argument segment passed : Segment} {body rest source : Text} {o : Occurrence}
  {found : Nat × Text}

/-- What a source has at the offsets of a declaration. -/
theorem slices_of_declares (h : Declares segment body rest) (before after : Text) {source : Text}
    (hs : source = before ++ (segment.text ++ after))
    (ho : o = .ofSpecifier before.length (before.length + segment.length) body) :
  o.text source = body ∧ source.slice o.statementStart o.statementStop = segment.text
  := by
  obtain ⟨lead, quote, -, rfl⟩ := h.quotes body rfl
  obtain ⟨htext, hstatement, -⟩ := slices_declaration before lead after quote body hs ho
  exact ⟨htext, hstatement⟩

/-- A declaration without its comments names no more than the declaration. -/
theorem exists_salvages_declaration (h : Declares segment body rest) (hj : segment.joins = false)
    (ht : ∃ inner, segment.uncommented.text = importWord ++ inner) (before after : Text) :
  ∃ sentence : Sentence, sentence.Salvages segment.uncommented.text (before ++ (segment.text ++ after))
    (.ofSpecifier before.length (before.length + segment.length) body)
  := by
  refine ⟨.ofDeclaration segment.uncommented body fun rest' => h.uncommented hj rest', rfl, ht, ?_⟩
  obtain ⟨htext, hstatement⟩ := slices_of_declares h before after rfl rfl
  obtain ⟨htext', hstatement'⟩ :=
    slices_of_declares (h.uncommented hj []) [] [] (List.append_nil _).symm rfl
  refine specifiers_sublist rfl (htext'.trans htext.symm) ?_
  intro htypes
  rw [hstatement] at htypes
  exact (congrArg Clause.isTypeOnly hstatement').trans (h.isTypeOnly_uncommented hj htypes)

/-- A dynamic import is none of types. -/
theorem isTypeOnly_call (hg : Trivia gap ('(' :: rest)) (text : Text) :
  Clause.isTypeOnly (Scan.importWord ++ (gap.text ++ '(' :: text)) = false
  := by
  rw [← Bool.not_eq_true]
  intro htypes
  obtain ⟨blanks, blanks', clause, heq, -, hblanks, -⟩ := Clause.isTypeOnly_append_iff.mp htypes
  -- the bracket stands where the word `type` would have to stand
  have hbracket : isBlank '(' = false := by decide
  obtain ⟨middle, rfl, hmiddle⟩ | ⟨middle, hgap, hmiddle⟩ := List.append_eq_append_iff.mp heq
  · cases middle with
    | nil => cases hmiddle
    | cons c middle =>
      obtain rfl : '(' = c := (List.cons.inj hmiddle).1
      simp [hbracket] at hblanks
  · cases middle with
    | nil => cases hmiddle
    | cons c middle =>
      obtain rfl : 't' = c := (List.cons.inj hmiddle).1
      have htext : gap.text ++ '(' :: rest = blanks ++ 't' :: (middle ++ '(' :: rest) := by simp [hgap]
      obtain ⟨-, hrest⟩ := hg.eq_of_isBlank hblanks (isSettled_cons (by decide) (by decide) _) htext
      cases hrest

/-- A dynamic import of a literal without comments in its brackets names no more than the dynamic import. -/
theorem exists_salvages_call (hg : Trivia gap ('(' :: rest)) {token : Segment}
    (ha : ∀ {s : State} {rest : Text}, s.cursor.rest = token.text ++ rest →
      s.run = (s.moved token rest .operator).run) (before after : Text) :
  ∃ sentence : Sentence, sentence.Salvages (Scan.importWord ++ '(' :: (token.text ++ [')']))
    (before ++ (Scan.importWord ++ (gap.text ++ '(' :: (token.text ++ ')' :: after))))
    (dynamicOccurrence before.length gap.text token.text)
  := by
  have htext : (Sentence.ofCall token ha).text = Scan.importWord ++ '(' :: (token.text ++ [')']) := by
    simp [Sentence.text, Sentence.ofCall]
  refine ⟨.ofCall token ha, htext, ⟨_, htext⟩, ?_⟩
  obtain ⟨hargument, hstatement⟩ := slices_dynamic before gap.text token.text after rfl rfl
  obtain ⟨hargument', -⟩ := slices_dynamic [] [] token.text [] htext rfl
  refine specifiers_sublist rfl (hargument'.trans hargument.symm) ?_
  intro htypes
  rw [hstatement, isTypeOnly_call hg] at htypes
  cases htypes

/-- Where a dynamic import is found, nothing but comments stands before its brackets, and a literal in them. -/
theorem exists_literal (hf : found ∈ finds source) (hg : Trivia gap ('(' :: rest))
    (ht : found.2 = Scan.importWord ++ (gap.uncommented.text ++ '(' :: (argument.text ++ [')']))) :
  gap.uncommented = [] ∧ ∃ opening contents closing, argument.text = opening :: (contents ++ [closing])
    ∧ ((isQuote opening = true ∧ isQuote closing = true ∧ ∀ c ∈ contents, isQuote c = false ∧ c ≠ '\n')
      ∨ opening = '\x60' ∧ closing = '\x60' ∧ '$' ∉ contents ∧ '\x60' ∉ contents)
  := by
  obtain hstatic | hdynamic := List.mem_append.mp hf
  · obtain ⟨inner, quote, heq, hq⟩ := exists_of_mem_static hstatic
    have hlast : importWord ++ inner ++ [quote]
        = Scan.importWord ++ (gap.uncommented.text ++ '(' :: argument.text) ++ [')'] := by
      simpa using heq.symm.trans ht
    obtain rfl : quote = ')' := List.singleton_inj.mp (List.append_inj_right' hlast rfl)
    exact absurd hq (by decide)
  · obtain ⟨opening, contents, closing, heq, hliteral⟩ := exists_of_mem_dynamic hdynamic
    have hbracket : ∀ text : Text, isSettled ('(' :: text) = true :=
      isSettled_cons (by decide) (by decide)
    have hcall : gap.uncommented.text ++ '(' :: (argument.text ++ [')'])
        = '(' :: opening :: (contents ++ [closing, ')']) :=
      List.append_cancel_left (ht.symm.trans heq)
    have hnil : gap.uncommented = [] := by
      apply (hg.uncommented (hbracket (argument.text ++ [')']))).eq_nil_of_isSettled
      rw [hcall]
      exact hbracket _
    refine ⟨hnil, opening, contents, closing, ?_, hliteral⟩
    rw [hnil] at hcall
    apply @List.append_cancel_right _ _ [')']
    simpa using hcall

/-- A dynamic import that is found is salvaged, and names no more than where it is scanned. -/
theorem exists_salvages_found (hf : found ∈ finds source) (hg : Trivia gap ('(' :: rest))
    (ha : Tokens argument) (ht : found.2
      = Scan.importWord ++ (gap.uncommented.text ++ '(' :: (argument.text ++ [')']))) (before after : Text) :
  ∃ sentence : Sentence, sentence.Salvages found.2
    (before ++ (Scan.importWord ++ (gap.text ++ '(' :: (argument.text ++ ')' :: after))))
    (dynamicOccurrence before.length gap.text argument.text)
  := by
  obtain ⟨hnil, opening, contents, closing, hargument, hliteral⟩ := exists_literal hf hg ht
  rw [hnil] at ht
  obtain ⟨hopening, -, hcontents⟩ | ⟨rfl, rfl, hdollar, hbacktick⟩ := hliteral
  · obtain ⟨rfl, hbody⟩ := ha.isStringBody hopening (fun c hc => (hcontents c hc).1) hargument
    have htoken : (Segment.string closing contents).text = argument.text := by simp [hargument]
    rw [ht, ← htoken]
    exact exists_salvages_call hg (fun hr => (Step.string hopening hbody).run_eq hr) before after
  · have hchunk := ha.isChunk hdollar hbacktick hargument
    have htoken : (Template.literal ⟨contents, hchunk⟩).text = argument.text := by
      simp [hargument, Template.literal, ChunkEnd.text]
    rw [ht, ← htoken]
    exact exists_salvages_call hg (Template.run_eq ⟨contents, hchunk⟩) before after

theorem dynamicOccurrence_text (front gap argument : Segment) :
  dynamicOccurrence front.text.length gap.text argument.text = {
    start := front.length + Scan.importWord.length + gap.length + 1
    stop := front.length + Scan.importWord.length + gap.length + 1 + argument.length
    statementStart := front.length
    statementStop := front.length + Scan.importWord.length + gap.length + 1 + argument.length + 1
    dynamic := true }
  := by
  simp only [dynamicOccurrence, Segment.length_text, List.length_append, List.length_cons, List.length_nil,
    Occurrence.mk.injEq, true_and, and_true]
  omega

/-- What is found is salvaged, and names no more than the occurrence whose statement it is. -/
theorem exists_salvages (hf : found ∈ finds source) (hs : o.StandsIn passed) (hr : o.ReadsAs passed found) :
  ∃ sentence : Sentence, sentence.Salvages found.2 passed.text o
  := by
  obtain ⟨front, statement, behind, rfl, hstatement⟩ := hs
  have hslice := @IsStatement.slice_eq _ _ behind _ hstatement
  have htext := hr.text_eq
  rw [hslice] at htext
  obtain ⟨inner, hword⟩ := exists_of_mem_finds hf
  cases hstatement with
  | declaration h =>
    have hjoins := hr.apart rfl
    rw [hslice] at hjoins
    rw [htext] at hword ⊢
    have hsalvages := exists_salvages_declaration h hjoins ⟨inner, hword⟩ front.text behind.text
    simpa [Nat.add_comm] using hsalvages
  | onward =>
    rw [htext] at hword
    simp [exportWord, importWord] at hword
  | @call gap argument _ hg ha =>
    have hbare := hr.bare rfl
    rw [Segment.slice_eq (front ++ (of .code Scan.importWord ++ (gap ++ [('(', .code)]))) argument
      ((')', .code) :: behind) (by simp) (by simp; omega) (by simp; omega)] at hbare
    have hargument := Segment.uncommented_eq hbare
    have hcall : found.2
        = Scan.importWord ++ (gap.uncommented.text ++ '(' :: (argument.text ++ [')'])) := by
      rw [htext]
      simp [hargument]
    have hsalvages := exists_salvages_found hf hg ha hcall front.text behind.text
    rw [dynamicOccurrence_text] at hsalvages
    simpa using hsalvages

end

/-! ### What is found in order -/

section

variable {passed : Segment} {found : List (Nat × Text)} {occurrences : List Occurrence}

/-- Finds in the order of their places are the statements of occurrences in the order of these. -/
theorem exists_sublist_readsAs (h : ∀ f ∈ found, ∃ o ∈ occurrences, o.ReadsAs passed f)
    (hw : ∀ o ∈ occurrences, o.WrittenIn passed.text) (hf : found.Pairwise fun a b => a.1 < b.1)
    (ho : occurrences.Pairwise Occurrence.Precedes) :
  ∃ read, read.Sublist occurrences ∧ List.Forall₂ (fun f o => Occurrence.ReadsAs o passed f) found read
  := by
  induction found generalizing occurrences with
  | nil => exact ⟨[], List.nil_sublist _, .nil⟩
  | cons f found ih =>
    rw [List.forall_mem_cons] at h
    rw [List.pairwise_cons] at hf
    obtain ⟨⟨o, hmem, hreads⟩, hrest⟩ := h
    obtain ⟨earlier, later, rfl⟩ := List.append_of_mem hmem
    obtain ⟨-, hlater, hbetween⟩ := List.pairwise_append.mp ho
    -- what is found farther on is the statement of a later occurrence
    have hbehind : ∀ f' ∈ found, ∃ o' ∈ later, o'.ReadsAs passed f' := by
      intro f' hf'
      obtain ⟨o', hmem', hreads'⟩ := hrest f' hf'
      have hlt : o.statementStart < o'.statementStart :=
        hreads.statementStart_lt hreads' (hw o' hmem') (hf.1 f' hf')
      refine ⟨o', ?_, hreads'⟩
      obtain hearlier | hmem' := List.mem_append.mp hmem'
      · have hprecedes := (hbetween o' hearlier o List.mem_cons_self).statementStart_lt
        omega
      · obtain rfl | hmem' := List.mem_cons.mp hmem'
        · omega
        · exact hmem'
    have hwritten : ∀ o' ∈ later, o'.WrittenIn passed.text := fun o' h => hw o' (by simp [h])
    obtain ⟨read, hsublist, hread⟩ := ih hbehind hwritten hf.2 (List.pairwise_cons.mp hlater).2
    exact ⟨o :: read, (hsublist.cons_cons o).trans (List.sublist_append_right _ _), .cons hreads hread⟩

/-- What is found and scanned names no more than the occurrences do whose statements it is. -/
theorem specifiers_sublist_of_readsAs {source : Text} {own : Text → List ImportRecord} {read : List Occurrence}
    (h : List.Forall₂ (fun f o => Occurrence.ReadsAs o passed f) found read) (hf : ∀ f ∈ found, f ∈ finds source)
    (hs : ∀ o ∈ read, o.StandsIn passed) (ho : ∀ f ∈ found, Extraction.records f.2 = .ok (own f.2)) :
  ((found.flatMap fun f => own f.2).map ImportRecord.specifier).Sublist
    ((read.filterMap (record? passed.text)).map ImportRecord.specifier)
  := by
  rw [List.filterMap_eq_flatMap_toList]
  induction h with
  | nil => exact List.Sublist.refl _
  | @cons f o found read hreads _ ih =>
    rw [List.forall_mem_cons] at hf hs ho
    obtain ⟨sentence, hsalvages⟩ := exists_salvages hf.1 hs.1 hreads
    have hown : own f.2 = sentence.records := by
      have hrecords := Sentence.records_eq hsalvages.exists_text
      rw [hsalvages.text_eq, ho.1] at hrecords
      exact Except.ok.inj hrecords
    rw [List.flatMap_cons, List.flatMap_cons, List.map_append, List.map_append, hown]
    exact hsalvages.sublist.append (ih hf.2 hs.2 ho.2)

end

/-- Where each find can be scanned by itself, a source is salvaged find by find.  The finds that are statements
of scanned imports, apart from comments, name nothing that is not scanned, and the order is the same. -/
theorem extract_sublist {source : Text} {occurrences : List Occurrence} {passed : Segment}
    (hs : scan source = .ok occurrences) (hp : parts source = .ok passed)
    (hf : ∀ found ∈ finds source, (∃ o ∈ occurrences, o.ReadsAs passed found)
      ∨ (∃ own, scan found.2 = .ok own) ∧ ¬ Dangling found.2) :
  ∃ (scanned : List ImportRecord) (own : Text → List ImportRecord),
    extract source ".ts".toList = { fallback := none, outcome := .ok scanned }
    ∧ (∀ found ∈ ordered source, extract found.2 ".ts".toList = { fallback := none, outcome := .ok (own found.2) })
    ∧ extract source ".tsx".toList
      = { fallback := none, outcome := .ok ((ordered source).flatMap fun found => own found.2) }
    ∧ ((((ordered source).filter fun found => ∃ o ∈ occurrences, o.ReadsAs passed found).flatMap
        fun found => own found.2).map ImportRecord.specifier).Sublist (scanned.map ImportRecord.specifier)
  := by
  obtain ⟨rfl, hstands⟩ := standsIn_of_scan hs hp
  have hlevel := level_of_scan hs
  let own := fun text => ((Extraction.records text).toOption).getD []
  have hgoes : ∀ found ∈ ordered passed.text, ∃ own, GoesOn found.2 own := by
    intro found hfound
    have hmem := mem_finds_of_mem_ordered hfound
    obtain ⟨o, ho, hreads⟩ | ⟨hown, hdangling⟩ := hf found hmem
    · obtain ⟨sentence, hsalvages⟩ := exists_salvages hmem (hstands o ho) hreads
      rw [← hsalvages.text_eq]
      exact ⟨_, sentence.goesOn hsalvages.exists_text⟩
    · exact exists_goesOn_of_scan hmem hown hdangling
  have hown : ∀ found ∈ ordered passed.text, Extraction.records found.2 = .ok (own found.2) := by
    intro found hfound
    obtain ⟨_, hfound⟩ := hgoes found hfound
    simp [own, hfound.records_eq, Except.toOption]
  refine ⟨occurrences.filterMap (record? passed.text), own, ?_, ?_, ?_, ?_⟩
  · have hrecords : Extraction.records passed.text
        = .ok (occurrences.filterMap (record? passed.text)) := by
      rw [Extraction.records, hs]
      rfl
    exact extract_of_records (by decide) hrecords
  · intro found hfound
    exact extract_of_records (by decide) (hown found hfound)
  · rw [extract_of_holdsMarkup (by decide), reduce_eq, records_join _ hgoes hown]
    intro found hfound
    exact exists_of_mem_finds (mem_finds_of_mem_ordered hfound)
  · have hfilter : ∀ found ∈ (ordered passed.text).filter fun found => ∃ o ∈ occurrences, o.ReadsAs passed found,
        ∃ o ∈ occurrences, o.ReadsAs passed found := by
      intro found hfound
      simpa using (List.mem_filter.mp hfound).2
    obtain ⟨read, hread, hreads⟩ := exists_sublist_readsAs hfilter hlevel.written
      ((pairwise_ordered passed.text).filter _) hlevel.ordered
    have hsublist := specifiers_sublist_of_readsAs hreads
      (fun found h => mem_finds_of_mem_ordered (List.mem_of_mem_filter h)) (fun o h => hstands o (hread.subset h))
      fun found h => hown found (List.mem_of_mem_filter h)
    exact hsublist.trans ((hread.filterMap _).map _)

/-- Imports with comments in them and around them, behind a hashbang, with the word `import` in other places and
an import in a string. -/
def commented : Segment :=
  of .comment "#!/usr/bin/env node".toList ++ (of .code "\nimport \x7b a ".toList
    ++ (of .comment "/* one */".toList ++ (of .code " \x7d from ".toList
    ++ (Segment.string '\'' ['x'] ++ (of .code [' '] ++ (of .comment "// two".toList
    ++ (of .code "\nconst s = \x60".toList ++ (of .chunk "import it".toList
    ++ (of .code "\x60, t = a.imports(".toList ++ (Segment.string '\'' ['u']
    ++ (of .code ")\nimport type B from ".toList ++ (Segment.string '\'' "./b".toList
    ++ (of .code "\nconst v = ".toList ++ (Segment.string '"' "import 'z'".toList
    ++ (of .code "\nimport(".toList ++ (Segment.string '\'' ['y']
    ++ of .code ")\n".toList))))))))))))))))

/-- The finds in a source that has an import with comments, one of types, one in a string and a dynamic one. -/
theorem extract_sublist_commented :
  let occurrences := [⟨49, 50, 20, 51, false⟩, ⟨121, 124, 101, 125, false⟩, ⟨156, 159, 149, 160, true⟩]
  scan commented.text = .ok occurrences ∧ parts commented.text = .ok commented
    ∧ (∀ found ∈ finds commented.text, (∃ o ∈ occurrences, o.ReadsAs commented found)
      ∨ (∃ own, scan found.2 = .ok own) ∧ ¬ Dangling found.2)
    ∧ ∃ (scanned : List ImportRecord) (own : Text → List ImportRecord),
      extract commented.text ".ts".toList = { fallback := none, outcome := .ok scanned }
      ∧ (∀ found ∈ ordered commented.text,
        extract found.2 ".ts".toList = { fallback := none, outcome := .ok (own found.2) })
      ∧ extract commented.text ".tsx".toList
        = { fallback := none, outcome := .ok ((ordered commented.text).flatMap fun found => own found.2) }
      ∧ ((((ordered commented.text).filter fun found => ∃ o ∈ occurrences, o.ReadsAs commented found).flatMap
          fun found => own found.2).map ImportRecord.specifier).Sublist (scanned.map ImportRecord.specifier)
  := by
  intro occurrences
  have hs : scan commented.text = .ok occurrences := by decide +kernel
  have hp : parts commented.text = .ok commented := by decide +kernel
  have hfinds : ∀ found ∈ finds commented.text, (∃ o ∈ occurrences, o.ReadsAs commented found)
      ∨ found.2 = "import 'z'".toList := by decide +kernel
  have hown : scan "import 'z'".toList = .ok [⟨8, 9, 0, 10, false⟩] := by decide +kernel
  have hd : ¬ Dangling "import 'z'".toList := not_dangling_of_notMem (by decide)
  have hf : ∀ found ∈ finds commented.text, (∃ o ∈ occurrences, o.ReadsAs commented found)
      ∨ (∃ own, scan found.2 = .ok own) ∧ ¬ Dangling found.2 := by
    intro found hfound
    apply (hfinds found hfound).imp_right
    intro htext
    rw [htext]
    exact ⟨⟨_, hown⟩, hd⟩
  exact ⟨hs, hp, hf, extract_sublist hs hp hf⟩

/-- What reads like an import is salvaged from a string, a template, a regular expression, a comment behind a
regular expression with a quotation mark, and a call of a method.  So is a dynamic import with a comment in its
brackets, and an import of types in which a comment parts the word `from`. -/
theorem extract_lookalikes :
  ((extract "x = \"import 'y'\"".toList ".ts".toList).outcome = .ok []
      ∧ (extract "x = \"import 'y'\"".toList ".tsx".toList).outcome
        = .ok [{ specifier := ['y'], importAll := true }])
    ∧ ((extract "x = \x60import 'y'\x60".toList ".ts".toList).outcome = .ok []
      ∧ (extract "x = \x60import 'y'\x60".toList ".tsx".toList).outcome
        = .ok [{ specifier := ['y'], importAll := true }])
    ∧ ((extract "x = /import 'y'/".toList ".ts".toList).outcome = .ok []
      ∧ (extract "x = /import 'y'/".toList ".tsx".toList).outcome
        = .ok [{ specifier := ['y'], importAll := true }])
    ∧ ((extract "/'/ // import 'y'".toList ".ts".toList).outcome = .ok []
      ∧ (extract "/'/ // import 'y'".toList ".tsx".toList).outcome
        = .ok [{ specifier := ['y'], importAll := true }])
    ∧ ((extract "a.import('y')".toList ".ts".toList).outcome = .ok []
      ∧ (extract "a.import('y')".toList ".tsx".toList).outcome
        = .ok [{ specifier := ['y'], importAll := true }])
    ∧ ((extract "import(/**/'x')".toList ".ts".toList).outcome = .ok []
      ∧ (extract "import(/**/'x')".toList ".tsx".toList).outcome
        = .ok [{ specifier := ['x'], importAll := true }])
    ∧ (extract "import type f/**/rom from 'x'".toList ".ts".toList).outcome = .ok []
      ∧ (extract "import type f/**/rom from 'x'".toList ".tsx".toList).outcome
        = .ok [{ specifier := ['x'], defaultName := some ['t', 'y', 'p', 'e'] }]
  := by
  refine ⟨⟨?_, ?_⟩, ⟨?_, ?_⟩, ⟨?_, ?_⟩, ⟨?_, ?_⟩, ⟨?_, ?_⟩, ⟨?_, ?_⟩, ?_, ?_⟩
  · decide +kernel
  · rw [@extract_salvaged _ [(5, "import 'y'".toList)] [] rfl rfl (.inr rfl)]
    decide +kernel
  · decide +kernel
  · rw [@extract_salvaged _ [(5, "import 'y'".toList)] [] rfl rfl (.inr rfl)]
    decide +kernel
  · decide +kernel
  · rw [@extract_salvaged _ [(5, "import 'y'".toList)] [] rfl rfl (.inr rfl)]
    decide +kernel
  · decide +kernel
  · rw [@extract_salvaged _ [(7, "import 'y'".toList)] [] rfl rfl (.inr rfl)]
    decide +kernel
  · decide +kernel
  · rw [@extract_salvaged _ [] [(2, "import('y')".toList)] rfl rfl (.inl rfl)]
    decide +kernel
  · decide +kernel
  · rw [@extract_salvaged _ [] [(0, "import('x')".toList)] rfl rfl (.inl rfl)]
    decide +kernel
  · decide +kernel
  · rw [@extract_salvaged _ [(0, "import type from from 'x'".toList)] [] rfl rfl (.inr rfl)]
    decide +kernel

end Salvage

end ImportCensus
