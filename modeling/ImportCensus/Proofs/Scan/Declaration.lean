import ImportCensus.Proofs.Scan.Reading

/-!
# What the readers of declarations accept

The relations of this module go on where those for spaces, strings and words end.  Each tells the
segment of a declaration, or of a part of it, and the specifier found there, if any.  The offsets
of an occurrence follow from the length of the segment.
-/

namespace ImportCensus.Scan

open Segment (of)

/-! ### Declarations -/

/-- The occurrence of a declaration that ends with its specifier right before `position`. -/
def Occurrence.ofSpecifier (statementStart position : Nat) (specifier : Text) : Occurrence where
  start := position - 1 - specifier.length
  stop := position - 1
  statementStart
  statementStop := position
  dynamic := false

/-- The answer of a declaration's reader that has passed `before` and found this specifier. -/
def Declaration.behind (statementStart : Nat) (before : Trail) (rest : Text)
    (specifier : Option Text) (expects : Expectation) : Declaration where
  cursor := ⟨before, rest⟩
  occurrence := specifier.map (Occurrence.ofSpecifier statementStart before.length)
  expects

/-- A specifier is read where a string stands, and the declaration ends with the string. -/
theorem readSpecifier_eq_ok_iff {statementStart : Nat} {before : Trail} {quote : Char}
    {text : Text} {d : Declaration} :
  readSpecifier statementStart before quote text = .ok d
    ↔ ∃ body rest, IsStringBody quote body ∧ text = body ++ quote :: rest
        ∧ d = .behind statementStart (before.pass (Segment.string quote body)) rest (some body)
          .operator
  := by
  have hoffset : ∀ (body : Text), before.length + 1
      = (before.pass (Segment.string quote body)).length - 1 - body.length := by
    intro body
    simp only [Trail.length_pass, Segment.length_string]
    omega
  unfold readSpecifier
  constructor
  · intro h
    split at h
    · cases h
    · rename_i cursor hc
      obtain ⟨body, rest, hb, rfl, rfl⟩ := readString_eq_ok_iff.mp hc
      cases h
      refine ⟨body, rest, hb, rfl, ?_⟩
      simp only [Declaration.behind, Occurrence.ofSpecifier, Cursor.position, Option.map_some,
        hoffset body]
  · rintro ⟨body, rest, hb, rfl, rfl⟩
    rw [readString_eq_ok_iff.mpr ⟨body, rest, hb, rfl, rfl⟩]
    simp only [Declaration.behind, Occurrence.ofSpecifier, Cursor.position, Option.map_some,
      hoffset body]

/-- The rest of an import declaration behind its first word, with the specifier that is found. -/
inductive ImportClause : Segment → Option Text → Text → Prop where
  | stop {trivia : Segment} {c : Char} {rest : Text} (ht : Trivia trivia (c :: rest))
      (hb : c ≠ '{') (hm : ¬(c = '*' ∨ c = ',')) (hi : isIdentifierStart c = false) :
    ImportClause trivia none (c :: rest)
  | braces {trivia braces segment : Segment} {specifier : Option Text} {rest : Text}
      (ht : Trivia trivia ('{' :: (braces.text ++ (segment.text ++ rest))))
      (hb : Braces braces (segment.text ++ rest)) (h : ImportClause segment specifier rest) :
    ImportClause (trivia ++ ('{', .code) :: (braces ++ segment)) specifier rest
  | mark {trivia segment : Segment} {c : Char} {specifier : Option Text} {rest : Text}
      (ht : Trivia trivia (c :: (segment.text ++ rest))) (hm : c = '*' ∨ c = ',')
      (h : ImportClause segment specifier rest) :
    ImportClause (trivia ++ (c, .code) :: segment) specifier rest
  | word {trivia segment : Segment} {name : Text} {specifier : Option Text} {rest : Text}
      (ht : Trivia trivia (name ++ (segment.text ++ rest)))
      (hw : IsWord name (segment.text ++ rest)) (hf : name ≠ fromWord)
      (h : ImportClause segment specifier rest) :
    ImportClause (trivia ++ (of .code name ++ segment)) specifier rest
  | loneFrom {trivia gap segment : Segment} {specifier : Option Text} {rest : Text}
      (ht : Trivia trivia (fromWord ++ (gap.text ++ (segment.text ++ rest))))
      (hw : IsWord fromWord (gap.text ++ (segment.text ++ rest)))
      (hg : Trivia gap (segment.text ++ rest)) (hq : beginsQuote (segment.text ++ rest) = false)
      (h : ImportClause segment specifier rest) :
    ImportClause (trivia ++ (of .code fromWord ++ (gap ++ segment))) specifier rest
  | specifier {trivia gap : Segment} {quote : Char} {body rest : Text}
      (ht : Trivia trivia
        (fromWord ++ (gap.text ++ ((Segment.string quote body).text ++ rest))))
      (hw : IsWord fromWord (gap.text ++ ((Segment.string quote body).text ++ rest)))
      (hg : Trivia gap ((Segment.string quote body).text ++ rest)) (hq : isQuote quote = true)
      (hb : IsStringBody quote body) :
    ImportClause (trivia ++ (of .code fromWord ++ (gap ++ Segment.string quote body)))
      (some body) rest

section

variable {statementStart : Nat} {before before' behind : Trail} {text rest : Text}

/-- A clause ends in front of what neither opens curly brackets nor is a mark nor begins a word. -/
theorem importClause_stop {c : Char}
    (ht : skipTrivia before text = .ok ⟨before', c :: rest⟩) (hb : c ≠ '{')
    (hm : ¬(c = '*' ∨ c = ',')) (hi : isIdentifierStart c = false) :
  importClause statementStart before text
    = .ok (.behind statementStart before' (c :: rest) none .operator)
  := by
  rw [importClause, Declaration.behind]
  split <;> simp_all

/-- Behind curly brackets the clause goes on. -/
theorem importClause_braces {cursor : Cursor}
    (ht : skipTrivia before text = .ok ⟨before', '{' :: rest⟩)
    (hc : skipClause before'.length (before'.add .code ['{']) rest = .ok cursor) :
  importClause statementStart before text
    = importClause statementStart cursor.before cursor.rest
  := by
  rw [importClause]
  split
  · simp_all
  · simp_all
  · rename_i b c r h
    rw [ht] at h
    cases h
    rw [if_pos rfl]
    split
    · simp_all
    · simp_all

/-- Behind a star or a comma the clause goes on. -/
theorem importClause_mark {c : Char}
    (ht : skipTrivia before text = .ok ⟨before', c :: rest⟩) (hm : c = '*' ∨ c = ',') :
  importClause statementStart before text
    = importClause statementStart (before'.add .code [c]) rest
  := by
  have hb : c ≠ '{' := by
    rintro rfl
    simp at hm
  rw [importClause]
  split <;> simp_all

/-- A word begins with no mark of a clause. -/
theorem ne_mark_of_isIdentifierStart {c : Char} (h : isIdentifierStart c = true) :
  c ≠ '{' ∧ ¬(c = '*' ∨ c = ',')
  := by
  constructor
  · rintro rfl
    exact absurd h (by decide)
  · rintro (rfl | rfl)
    · exact absurd h (by decide)
    · exact absurd h (by decide)

/-- Behind a word other than `from` the clause goes on. -/
theorem importClause_word {name : Text}
    (ht : skipTrivia before text = .ok ⟨before', name ++ rest⟩) (hw : IsWord name rest)
    (hf : name ≠ fromWord) :
  importClause statementStart before text
    = importClause statementStart (before'.add .code name) rest
  := by
  cases hw with
  | @mk c tail _ hc htail hr =>
    obtain ⟨hb, hm⟩ := ne_mark_of_isIdentifierStart hc
    have hname := wordOf_append (.mk hc htail hr)
    have hbehind := behindWord_append (.mk hc htail hr)
    rw [List.cons_append] at ht
    rw [importClause]
    split <;> simp_all

/-- Behind the word `from` a string ends the declaration, and anything else goes on with it. -/
theorem importClause_from {next : Text}
    (ht : skipTrivia before text = .ok ⟨before', fromWord ++ rest⟩) (hw : IsWord fromWord rest)
    (hg : skipTrivia (before'.add .code fromWord) rest = .ok ⟨behind, next⟩) :
  importClause statementStart before text
    = match next with
      | [] => importClause statementStart behind []
      | q :: tail =>
        if isQuote q then readSpecifier statementStart behind q tail
        else importClause statementStart behind (q :: tail)
  := by
  have hname : wordOf 'f' (List.append ['r', 'o', 'm'] rest) = fromWord := wordOf_append hw
  have hbehind : behindWord (List.append ['r', 'o', 'm'] rest) = rest := behindWord_append hw
  rw [importClause]
  split
  · simp_all
  · simp_all [fromWord]
  · rename_i b d r h
    rw [ht] at h
    cases h
    rw [if_neg (by decide), if_neg (by decide), if_pos (by decide), if_pos hname]
    split
    · rename_i h
      rw [hname, hbehind, hg] at h
      cases h
    · rename_i h
      rw [hname, hbehind, hg] at h
      cases h
      rfl
    · rename_i h
      rw [hname, hbehind, hg] at h
      cases h
      rfl

/-- Behind the word `from` without a string the clause goes on. -/
theorem importClause_loneFrom {next : Text}
    (ht : skipTrivia before text = .ok ⟨before', fromWord ++ rest⟩) (hw : IsWord fromWord rest)
    (hg : skipTrivia (before'.add .code fromWord) rest = .ok ⟨behind, next⟩)
    (hq : beginsQuote next = false) :
  importClause statementStart before text = importClause statementStart behind next
  := by
  rw [importClause_from ht hw hg]
  cases next with
  | nil => rfl
  | cons q tail =>
    have hq : isQuote q = false := by simpa [beginsQuote] using hq
    simp [hq]

/-- Behind the word `from` a string is the specifier. -/
theorem importClause_specifier {quote : Char} {tail : Text}
    (ht : skipTrivia before text = .ok ⟨before', fromWord ++ rest⟩) (hw : IsWord fromWord rest)
    (hg : skipTrivia (before'.add .code fromWord) rest = .ok ⟨behind, quote :: tail⟩)
    (hq : isQuote quote = true) :
  importClause statementStart before text = readSpecifier statementStart behind quote tail
  := by
  rw [importClause_from ht hw hg]
  simp [hq]

end

/-- The relation `ImportClause` gives what is read of a clause, wherever it stands. -/
theorem ImportClause.importClause_eq {segment : Segment} {specifier : Option Text} {rest : Text}
    (h : ImportClause segment specifier rest) (statementStart : Nat) (before : Trail) :
  importClause statementStart before (segment.text ++ rest)
    = .ok (.behind statementStart (before.pass segment) rest specifier .operator)
  := by
  induction h generalizing before with
  | @stop trivia c rest ht hb hm hi =>
    apply importClause_stop (ht.skipTrivia_eq before) hb hm hi
  | @braces trivia braces segment specifier rest ht hb h ih =>
    have hskip := hb.skipClause_eq (before.pass trivia).length
      ((before.pass trivia).add .code ['{'])
    have htrivia := ht.skipTrivia_eq before
    simp only [Segment.text_append, Segment.text_cons, List.append_assoc, List.cons_append]
    rw [importClause_braces htrivia hskip, ih]
    simp
  | @mark trivia segment c specifier rest ht hm h ih =>
    simp only [Segment.text_append, Segment.text_cons, List.append_assoc, List.cons_append]
    rw [importClause_mark (ht.skipTrivia_eq before) hm, ih]
    simp
  | @word trivia segment name specifier rest ht hw hf h ih =>
    simp only [Segment.text_append, Segment.text_of, List.append_assoc]
    rw [importClause_word (ht.skipTrivia_eq before) hw hf, ih]
    simp
  | @loneFrom trivia gap segment specifier rest ht hw hg hq h ih =>
    have hgap := hg.skipTrivia_eq ((before.pass trivia).add .code fromWord)
    simp only [Segment.text_append, Segment.text_of, List.append_assoc]
    rw [importClause_loneFrom (ht.skipTrivia_eq before) hw hgap hq, ih]
    simp
  | @specifier trivia gap quote body rest ht hw hg hq hb =>
    have hgap := hg.skipTrivia_eq ((before.pass trivia).add .code fromWord)
    have htrivia := ht.skipTrivia_eq before
    simp only [Segment.text_append, Segment.text_of, List.append_assoc]
    simp only [Segment.text_string, List.cons_append, List.append_assoc, List.nil_append]
      at htrivia hgap hw ⊢
    rw [importClause_specifier htrivia hw hgap hq,
      readSpecifier_eq_ok_iff.mpr ⟨body, rest, hb, rfl, rfl⟩]
    simp

/-- What stands before and behind a word `from` that has been read. -/
theorem exists_of_from {before before' behind : Trail} {c : Char} {text rest next : Text}
    (ht : skipTrivia before text = .ok ⟨before', c :: rest⟩) (hi : isIdentifierStart c = true)
    (hw : wordOf c rest = fromWord)
    (hf : skipTrivia (before'.add .code (wordOf c rest)) (behindWord rest) = .ok ⟨behind, next⟩) :
  ∃ trivia gap : Segment, Trivia trivia (fromWord ++ (gap.text ++ next))
    ∧ IsWord fromWord (gap.text ++ next) ∧ Trivia gap next
    ∧ text = trivia.text ++ (fromWord ++ (gap.text ++ next))
    ∧ behind = before.pass (trivia ++ (of .code fromWord ++ gap))
  := by
  obtain ⟨trivia, _, htrivia, rfl, he⟩ := exists_of_skipTrivia ht
  cases he
  obtain ⟨gap, _, hgap, hg, he⟩ := exists_of_skipTrivia hf
  cases he
  have hword := isWord_wordOf hi rest
  have hparts := wordOf_append_behindWord c rest
  rw [hw, hg] at hword hparts
  rw [← hparts] at htrivia ⊢
  exact ⟨trivia, gap, htrivia, hword, hgap, rfl, by simp [hw]⟩

/-- A clause that is read passes a segment for which `ImportClause` holds. -/
theorem exists_of_importClause {statementStart : Nat} {before : Trail} {text : Text}
    {d : Declaration} (h : importClause statementStart before text = .ok d) :
  ∃ segment specifier rest, ImportClause segment specifier rest ∧ text = segment.text ++ rest
    ∧ d = .behind statementStart (before.pass segment) rest specifier .operator
  := by
  fun_induction importClause statementStart before text with
  | case1 => cases h
  | case2 => cases h
  | case3 => cases h
  | case4 before text before' tail cursor ht hc ih =>
    obtain ⟨trivia, _, htrivia, rfl, he⟩ := exists_of_skipTrivia ht
    cases he
    obtain ⟨braces, _, hbraces, rfl, rfl⟩ := exists_of_skipClause hc
    obtain ⟨segment, specifier, behind, hclause, rfl, rfl⟩ := ih h
    exact ⟨_, _, _, .braces htrivia hbraces hclause, by simp, by simp⟩
  | case5 before text before' c rest ht hb hm ih =>
    obtain ⟨trivia, _, htrivia, rfl, he⟩ := exists_of_skipTrivia ht
    cases he
    obtain ⟨segment, specifier, behind, hclause, rfl, rfl⟩ := ih h
    exact ⟨_, _, _, .mark htrivia (by simpa using hm) hclause, by simp, by simp⟩
  | case6 => cases h
  | case7 before text before' c rest ht hb hm hi passed hw b hf ih =>
    obtain ⟨trivia, gap, htrivia, hword, hgap, rfl, rfl⟩ := exists_of_from ht hi hw hf
    obtain ⟨segment, specifier, behind, hclause, hs, rfl⟩ := ih h
    rw [hs] at htrivia hword hgap ⊢
    refine ⟨_, _, _, .loneFrom htrivia hword hgap ?_ hclause, by simp, by simp⟩
    rw [← hs]
    rfl
  | case8 before text before' c rest ht hb hm hi passed hw b q tail hf hq =>
    obtain ⟨trivia, gap, htrivia, hword, hgap, rfl, rfl⟩ := exists_of_from ht hi hw hf
    obtain ⟨body, behind, hbody, rfl, rfl⟩ := readSpecifier_eq_ok_iff.mp h
    have hs : q :: (body ++ q :: behind) = (Segment.string q body).text ++ behind := by simp
    rw [hs] at htrivia hword hgap
    exact ⟨_, _, _, .specifier htrivia hword hgap hq hbody, by simp, by simp⟩
  | case9 before text before' c rest ht hb hm hi passed hw b q tail hf hq ih =>
    obtain ⟨trivia, gap, htrivia, hword, hgap, rfl, rfl⟩ := exists_of_from ht hi hw hf
    obtain ⟨segment, specifier, behind, hclause, hs, rfl⟩ := ih h
    rw [hs] at htrivia hword hgap ⊢
    refine ⟨_, _, _, .loneFrom htrivia hword hgap ?_ hclause, by simp, by simp⟩
    rw [← hs]
    simpa [beginsQuote] using hq
  | case10 before text before' c rest ht hb hm hi passed hw ih =>
    obtain ⟨trivia, _, htrivia, rfl, he⟩ := exists_of_skipTrivia ht
    cases he
    obtain ⟨segment, specifier, behind, hclause, hs, rfl⟩ := ih h
    have hword := isWord_wordOf hi rest
    have hparts := wordOf_append_behindWord c rest
    rw [hs] at hword hparts
    rw [← hparts] at htrivia
    exact ⟨_, _, _, .word htrivia hword hw hclause, by simp [← hparts], by simp [passed]⟩
  | case11 before text before' c rest ht hb hm hi =>
    obtain ⟨trivia, _, htrivia, rfl, he⟩ := exists_of_skipTrivia ht
    cases he
    cases h
    exact ⟨_, _, _, .stop htrivia hb (by simpa using hm) (by simpa using hi), rfl, rfl⟩

/-! ### Exports -/

/-- The alias behind the star of an export, which may be missing. -/
inductive Alias : Segment → Text → Prop where
  | missing {rest : Text} (h : beginsWord asWord rest = false) :
    Alias [] rest
  | string {gap : Segment} {quote : Char} {body rest : Text}
      (hw : stops isIdentifierPart (gap.text ++ ((Segment.string quote body).text ++ rest)) = true)
      (hg : Trivia gap ((Segment.string quote body).text ++ rest)) (hq : isQuote quote = true)
      (hb : IsStringBody quote body) :
    Alias (of .code asWord ++ (gap ++ Segment.string quote body)) rest
  | name {gap : Segment} {name rest : Text}
      (hw : stops isIdentifierPart (gap.text ++ (name ++ rest)) = true)
      (hg : Trivia gap (name ++ rest)) (hq : beginsQuote (name ++ rest) = false)
      (hn : name.all isIdentifierPart = true) (hr : stops isIdentifierPart rest = true) :
    Alias (of .code asWord ++ (gap ++ of .code name)) rest

/-- The source of an export behind its clause.  Where none is found nothing is passed. -/
inductive ExportSource : Segment → Option Text → Text → Prop where
  | missing {gap : Segment} {rest : Text} (hg : Trivia gap rest)
      (h : beginsWord fromWord rest = false) :
    ExportSource [] none (gap.text ++ rest)
  | loneFrom {trivia gap : Segment} {rest : Text}
      (ht : Trivia trivia (fromWord ++ (gap.text ++ rest)))
      (hw : stops isIdentifierPart (gap.text ++ rest) = true)
      (hg : Trivia gap rest) (hq : beginsQuote rest = false) :
    ExportSource [] none (trivia.text ++ (fromWord ++ (gap.text ++ rest)))
  | specifier {trivia gap : Segment} {quote : Char} {body rest : Text}
      (ht : Trivia trivia
        (fromWord ++ (gap.text ++ ((Segment.string quote body).text ++ rest))))
      (hw : stops isIdentifierPart (gap.text ++ ((Segment.string quote body).text ++ rest)) = true)
      (hg : Trivia gap ((Segment.string quote body).text ++ rest)) (hq : isQuote quote = true)
      (hb : IsStringBody quote body) :
    ExportSource (trivia ++ (of .code fromWord ++ (gap ++ Segment.string quote body)))
      (some body) rest

/-- The rest of an export behind its first word, with the specifier that is found. -/
inductive ExportClause : Segment → Option Text → Text → Prop where
  | other {trivia : Segment} {rest : Text} (ht : Trivia trivia rest)
      (hs : rest.head? ≠ some '*') (hb : rest.head? ≠ some '{') :
    ExportClause trivia none rest
  | star {trivia gap naming source : Segment} {specifier : Option Text} {rest : Text}
      (ht : Trivia trivia ('*' :: (gap.text ++ (naming.text ++ (source.text ++ rest)))))
      (hg : Trivia gap (naming.text ++ (source.text ++ rest)))
      (ha : Alias naming (source.text ++ rest)) (hs : ExportSource source specifier rest) :
    ExportClause (trivia ++ ('*', .code) :: (gap ++ (naming ++ source))) specifier rest
  | braces {trivia braces source : Segment} {specifier : Option Text} {rest : Text}
      (ht : Trivia trivia ('{' :: (braces.text ++ (source.text ++ rest))))
      (hb : Braces braces (source.text ++ rest)) (hs : ExportSource source specifier rest) :
    ExportClause (trivia ++ ('{', .code) :: (braces ++ source)) specifier rest

/-- Nothing is skipped where the word `as` does not stand. -/
theorem skipAlias_missing {text : Text} (h : beginsWord asWord text = false) (before : Trail) :
  skipAlias ⟨before, text⟩ = .ok ⟨before, text⟩
  := by
  unfold skipAlias
  split
  · rfl
  · rename_i rest hr
    simp only at hr
    obtain rfl := Text.after?_eq_some_iff.mp hr
    rw [beginsWord_append] at h
    rw [if_neg (by simp [identifierEnds_eq_stops, h])]

section

variable {gap : Segment} {next : Text}

/-- Behind the word `as` a string is skipped. -/
theorem skipAlias_string {quote : Char} {tail : Text}
    (hw : stops isIdentifierPart (gap.text ++ quote :: tail) = true)
    (hg : Trivia gap (quote :: tail)) (hq : isQuote quote = true) (before : Trail) :
  skipAlias ⟨before, asWord ++ (gap.text ++ quote :: tail)⟩
    = readString (before.pass (of .code asWord ++ gap)) quote tail
  := by
  simp [skipAlias, identifierEnds_eq_stops, hw, hg.skipTrivia_eq, hq]

/-- Behind the word `as` a name is skipped, also one without characters. -/
theorem skipAlias_name (hw : stops isIdentifierPart (gap.text ++ next) = true)
    (hg : Trivia gap next) (hq : beginsQuote next = false) (before : Trail) :
  skipAlias ⟨before, asWord ++ (gap.text ++ next)⟩
    = .ok ⟨before.pass (of .code asWord ++ (gap ++ of .code (next.takeWhile isIdentifierPart))),
        next.dropWhile isIdentifierPart⟩
  := by
  cases next with
  | nil =>
    have hgap := hg.skipTrivia_eq (before.pass (of .code asWord))
    rw [List.append_nil] at hw hgap
    simp [skipAlias, identifierEnds_eq_stops, hw, hgap]
  | cons q tail =>
    have hq : isQuote q = false := by simpa [beginsQuote] using hq
    simp [skipAlias, identifierEnds_eq_stops, hw, hg.skipTrivia_eq, hq, behindWord]

end

/-- The relation `Alias` gives what is skipped, wherever it stands. -/
theorem Alias.skipAlias_eq {segment : Segment} {rest : Text} (h : Alias segment rest)
    (before : Trail) :
  skipAlias ⟨before, segment.text ++ rest⟩ = .ok ⟨before.pass segment, rest⟩
  := by
  cases h with
  | missing h =>
    simpa using skipAlias_missing h before
  | @string gap quote body _ hw hg hq hb =>
    simp only [Segment.text_append, Segment.text_of, Segment.text_string, List.append_assoc,
      List.cons_append, List.nil_append] at hw hg ⊢
    rw [skipAlias_string hw hg hq, readString_eq_ok_iff.mpr ⟨body, rest, hb, rfl, rfl⟩]
    simp
  | @name gap name _ hw hg hq hn hr =>
    simp only [Segment.text_append, Segment.text_of, List.append_assoc]
    rw [skipAlias_name hw hg hq, takeWhile_append_of_stops hn hr, dropWhile_append_of_stops hn hr]

/-- What is skipped for an alias is a segment for which `Alias` holds. -/
theorem exists_of_skipAlias {before : Trail} {text : Text} {c : Cursor}
    (h : skipAlias ⟨before, text⟩ = .ok c) :
  ∃ segment rest, Alias segment rest ∧ text = segment.text ++ rest
    ∧ c = ⟨before.pass segment, rest⟩
  := by
  by_cases hw : beginsWord asWord text = true
  · obtain ⟨behind, rfl, hends⟩ := beginsWord_iff.mp hw
    cases ht : skipTrivia (before.pass (of .code asWord)) behind with
    | error e => simp [skipAlias, identifierEnds_eq_stops, hends, ht] at h
    | ok cursor =>
      obtain ⟨gap, next, hg, rfl, -⟩ := exists_of_skipTrivia ht
      by_cases hq : beginsQuote next = true
      · obtain ⟨quote, tail, rfl, hq⟩ := exists_of_beginsQuote hq
        rw [skipAlias_string hends hg hq] at h
        obtain ⟨body, rest, hb, rfl, rfl⟩ := readString_eq_ok_iff.mp h
        have hs : quote :: (body ++ quote :: rest) = (Segment.string quote body).text ++ rest := by
          simp
        rw [hs] at hends hg
        exact ⟨_, _, .string hends hg hq hb, by simp, by simp⟩
      · rw [Bool.not_eq_true] at hq
        rw [skipAlias_name hends hg hq] at h
        cases h
        have hparts : next.takeWhile isIdentifierPart ++ next.dropWhile isIdentifierPart = next :=
          List.takeWhile_append_dropWhile
        rw [← hparts] at hends hg hq
        exact ⟨_, _, .name hends hg hq List.all_takeWhile (stops_dropWhile _ _), by simp, rfl⟩
  · rw [Bool.not_eq_true] at hw
    rw [skipAlias_missing hw] at h
    cases h
    exact ⟨[], text, .missing hw, rfl, by simp⟩

section

variable {statementStart : Nat} {before : Trail} {gap : Segment} {text next : Text}

/-- Without the word `from` an export has no specifier, and no space in front of the word is passed. -/
theorem exportSource_missing (hg : Trivia gap next) (h : beginsWord fromWord next = false) :
  exportSource statementStart ⟨before, gap.text ++ next⟩
    = .ok (.behind statementStart before (gap.text ++ next) none .operand)
  := by
  unfold exportSource
  simp only [hg.skipTrivia_eq]
  split
  · rfl
  · rename_i rest hr
    obtain rfl := Text.after?_eq_some_iff.mp hr
    rw [beginsWord_append] at h
    rw [if_neg (by simp [identifierEnds_eq_stops, h])]
    rfl

/-- With the word `from` but without a string behind it an export has no specifier, and nothing is passed. -/
theorem exportSource_loneFrom {trivia : Segment}
    (ht : Trivia trivia (fromWord ++ (gap.text ++ next)))
    (hw : stops isIdentifierPart (gap.text ++ next) = true) (hg : Trivia gap next)
    (hq : beginsQuote next = false) :
  exportSource statementStart ⟨before, trivia.text ++ (fromWord ++ (gap.text ++ next))⟩
    = .ok (.behind statementStart before (trivia.text ++ (fromWord ++ (gap.text ++ next))) none
        .operand)
  := by
  cases next with
  | nil =>
    have htrivia := ht.skipTrivia_eq before
    have hgap := hg.skipTrivia_eq (before.pass (trivia ++ of .code fromWord))
    rw [List.append_nil] at hw htrivia hgap
    simp [exportSource, htrivia, identifierEnds_eq_stops, hw, hgap, Declaration.behind]
  | cons q tail =>
    have hq : isQuote q = false := by simpa [beginsQuote] using hq
    simp [exportSource, ht.skipTrivia_eq, identifierEnds_eq_stops, hw, hg.skipTrivia_eq, hq,
      Declaration.behind]

/-- Behind the word `from` a string is the specifier of an export. -/
theorem exportSource_specifier {trivia : Segment} {quote : Char} {tail : Text}
    (ht : Trivia trivia (fromWord ++ (gap.text ++ quote :: tail)))
    (hw : stops isIdentifierPart (gap.text ++ quote :: tail) = true)
    (hg : Trivia gap (quote :: tail)) (hq : isQuote quote = true) :
  exportSource statementStart ⟨before, trivia.text ++ (fromWord ++ (gap.text ++ quote :: tail))⟩
    = readSpecifier statementStart (before.pass (trivia ++ (of .code fromWord ++ gap))) quote tail
  := by
  simp [exportSource, ht.skipTrivia_eq, identifierEnds_eq_stops, hw, hg.skipTrivia_eq, hq]

end

/-- What may come behind an export, by whether it has a specifier. -/
def expectsBehindExport (specifier : Option Text) : Expectation :=
  match specifier with
  | none => .operand
  | some _ => .operator

/-- The relation `ExportSource` gives what is read of the source of an export, wherever it stands. -/
theorem ExportSource.exportSource_eq {segment : Segment} {specifier : Option Text} {rest : Text}
    (h : ExportSource segment specifier rest) (statementStart : Nat) (before : Trail) :
  exportSource statementStart ⟨before, segment.text ++ rest⟩
    = .ok (.behind statementStart (before.pass segment) rest specifier
        (expectsBehindExport specifier))
  := by
  cases h with
  | missing hg h => simpa [expectsBehindExport] using exportSource_missing hg h
  | loneFrom ht hw hg hq => simpa [expectsBehindExport] using exportSource_loneFrom ht hw hg hq
  | @specifier trivia gap quote body _ ht hw hg hq hb =>
    simp only [Segment.text_append, Segment.text_of, Segment.text_string, List.append_assoc,
      List.cons_append, List.nil_append] at ht hw hg ⊢
    rw [exportSource_specifier ht hw hg hq,
      readSpecifier_eq_ok_iff.mpr ⟨body, rest, hb, rfl, rfl⟩]
    simp [expectsBehindExport]

/-- The source of an export that is read passes a segment for which `ExportSource` holds. -/
theorem exists_of_exportSource {statementStart : Nat} {before : Trail} {text : Text}
    {d : Declaration} (h : exportSource statementStart ⟨before, text⟩ = .ok d) :
  ∃ segment specifier rest, ExportSource segment specifier rest ∧ text = segment.text ++ rest
    ∧ d = .behind statementStart (before.pass segment) rest specifier
      (expectsBehindExport specifier)
  := by
  cases ht : skipTrivia before text with
  | error e => simp [exportSource, ht] at h
  | ok cursor =>
    obtain ⟨trivia, next, htrivia, rfl, rfl⟩ := exists_of_skipTrivia ht
    by_cases hw : beginsWord fromWord next = true
    · obtain ⟨behind, rfl, hends⟩ := beginsWord_iff.mp hw
      cases hf : skipTrivia (before.pass (trivia ++ of .code fromWord)) behind with
      | error e => simp [exportSource, ht, identifierEnds_eq_stops, hends, hf] at h
      | ok cursor =>
        obtain ⟨gap, next, hg, rfl, -⟩ := exists_of_skipTrivia hf
        by_cases hq : beginsQuote next = true
        · obtain ⟨quote, tail, rfl, hq⟩ := exists_of_beginsQuote hq
          rw [exportSource_specifier htrivia hends hg hq] at h
          obtain ⟨body, rest, hb, rfl, rfl⟩ := readSpecifier_eq_ok_iff.mp h
          have hs : quote :: (body ++ quote :: rest) = (Segment.string quote body).text ++ rest := by
            simp
          rw [hs] at htrivia hends hg
          exact ⟨_, _, _, .specifier htrivia hends hg hq hb, by simp,
            by simp [expectsBehindExport]⟩
        · rw [Bool.not_eq_true] at hq
          rw [exportSource_loneFrom htrivia hends hg hq] at h
          cases h
          exact ⟨[], none, _, .loneFrom htrivia hends hg hq, rfl, by simp [expectsBehindExport]⟩
    · rw [Bool.not_eq_true] at hw
      rw [exportSource_missing htrivia hw] at h
      cases h
      exact ⟨[], none, _, .missing htrivia hw, rfl, by simp [expectsBehindExport]⟩

/-- The relation `ExportClause` gives what is read of an export, wherever it stands. -/
theorem ExportClause.exportClause_eq {segment : Segment} {specifier : Option Text} {rest : Text}
    (h : ExportClause segment specifier rest) (statementStart : Nat) (before : Trail) :
  exportClause statementStart before (segment.text ++ rest)
    = .ok (.behind statementStart (before.pass segment) rest specifier
        (expectsBehindExport specifier))
  := by
  unfold exportClause
  cases h with
  | @other trivia _ ht hs hb =>
    rw [ht.skipTrivia_eq]
    cases rest with
    | nil => rfl
    | cons c tail =>
      simp only [List.head?_cons, ne_eq, Option.some.injEq] at hs hb
      simp [hs, hb, Declaration.behind, expectsBehindExport]
  | @star trivia gap naming source _ _ ht hg ha hs =>
    simp only [Segment.text_append, Segment.text_cons, List.append_assoc, List.cons_append]
    rw [ht.skipTrivia_eq]
    simp [hg.skipTrivia_eq, ha.skipAlias_eq, hs.exportSource_eq]
  | @braces trivia braces source _ _ ht hb hs =>
    simp only [Segment.text_append, Segment.text_cons, List.append_assoc, List.cons_append]
    rw [ht.skipTrivia_eq]
    simp [hb.skipClause_eq, hs.exportSource_eq]

/-- An export that is read passes a segment for which `ExportClause` holds. -/
theorem exists_of_exportClause {statementStart : Nat} {before : Trail} {text : Text}
    {d : Declaration} (h : exportClause statementStart before text = .ok d) :
  ∃ segment specifier rest, ExportClause segment specifier rest ∧ text = segment.text ++ rest
    ∧ d = .behind statementStart (before.pass segment) rest specifier
      (expectsBehindExport specifier)
  := by
  unfold exportClause at h
  split at h
  · cases h
  · rename_i before' ht
    obtain ⟨trivia, next, htrivia, rfl, he⟩ := exists_of_skipTrivia ht
    cases he
    cases h
    exact ⟨trivia, none, [], .other htrivia (by simp) (by simp), rfl, rfl⟩
  · rename_i before' c rest ht
    obtain ⟨trivia, next, htrivia, rfl, he⟩ := exists_of_skipTrivia ht
    cases he
    split at h
    · rename_i hc
      subst hc
      split at h
      · cases h
      · rename_i star hs
        obtain ⟨gap, next, hg, rfl, rfl⟩ := exists_of_skipTrivia hs
        split at h
        · cases h
        · rename_i clause ha
          obtain ⟨naming, next, hnaming, rfl, rfl⟩ := exists_of_skipAlias ha
          obtain ⟨source, specifier, behind, hsource, rfl, rfl⟩ := exists_of_exportSource h
          exact ⟨_, _, _, .star htrivia hg hnaming hsource, by simp, by simp⟩
    · rename_i hs
      split at h
      · rename_i hc
        subst hc
        split at h
        · cases h
        · rename_i clause hb
          obtain ⟨braces, next, hbraces, rfl, rfl⟩ := exists_of_skipClause hb
          obtain ⟨source, specifier, behind, hsource, rfl, rfl⟩ := exists_of_exportSource h
          exact ⟨_, _, _, .braces htrivia hbraces hsource, by simp, by simp⟩
      · rename_i hb
        cases h
        exact ⟨trivia, none, _, .other htrivia (by simpa using hs) (by simpa using hb), rfl, rfl⟩

end ImportCensus.Scan
