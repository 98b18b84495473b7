import ImportCensus.Proofs.Salvage.Lines
import ImportCensus.Proofs.Salvage.Merging

/-!
# Imports and re-exports

Static imports, dynamic imports and re-exports, each on a line of its own.  The scanner extracts all of them.
Where such a source is not scanned as it is, the imports are salvaged, in order, and the re-exports are not.
-/

namespace ImportCensus.Salvage

open Text Scan Written Extraction
open Segment (of)

/-- A re-export as it is written: `front` stands before its address.  The blanks are spaces, tabs and line
breaks. -/
structure Reexport where
  exports : Exports
  address : Address
  front : Text
  spells : Spells (Link.onward exports).tokens front
  narrow : ∀ c ∈ front, isBlank c = true → c ∈ [' ', '\t', '\n', '\r']

/-- A declaration on a line of its own. -/
inductive Line where
  | piece (piece : Piece)
  | reexport (r : Reexport)

namespace Line

/-- The characters of a declaration. -/
def text : Line → Text
  | piece p => p.text
  | reexport r => r.front ++ r.address.text

/-- Whether a declaration is an import. -/
def isImport : Line → Bool
  | piece _ => true
  | reexport _ => false

/-- Whether the word `from` stands before the address of a declaration. -/
def HasSource : Line → Prop
  | piece (.static s) => s.bindings ≠ .nothing
  | piece (.dynamic _) => False
  | reexport _ => True

/-- The characters of lines. -/
def textOf : List Line → Text
  | [] => []
  | line :: lines => line.text ++ '\n' :: textOf lines

/-- The characters from the next dynamic import on. -/
def fromDynamic : List Line → Text
  | [] => []
  | piece (.dynamic address) :: lines => textOf (piece (.dynamic address) :: lines)
  | _ :: lines => fromDynamic lines

/-- Whether nothing in a declaration is taken for an import: no name in a re-export that begins with the word
`import` or has it behind a dollar sign, no address of a re-export that ends in this word where the next line
has the word `from`, and no template literal that begins in an address and takes up a dynamic import. -/
def IsClear (lines : List Line) : Line → Prop
  | piece (.static s) => s.address.TemplatesEndBefore ('\n' :: textOf lines) (fromDynamic lines)
  | piece (.dynamic _) => True
  | reexport r =>
    (∀ before behind, r.front = before ++ (importWord ++ behind) → ¬ endsOutsideWord before)
      ∧ (∀ before, r.address.body = before ++ importWord → endsOutsideWord before →
        ∀ line ∈ lines.head?, ¬ line.HasSource)
      ∧ r.address.TemplatesEndBefore ('\n' :: textOf lines) (fromDynamic lines)

/-- Whether nothing in declarations one per line is taken for an import, apart from the imports. -/
def AllClear : List Line → Prop
  | [] => True
  | line :: lines => line.IsClear lines ∧ AllClear lines

end Line

/-! ### Searching a re-export -/

namespace Reexport

variable (r : Reexport)

theorem isClauseCharacter_of_mem :
  ∀ c ∈ r.front, isClauseCharacter c = true
  := by
  apply isClauseCharacter_of_spells _ r.spells r.narrow
  apply isClauseCharacter_of_isClause
  cases r.exports with
  | items bindings => exact .block bindings
  | all => exact .star .source
  | whole name => exact .star (.word _ (.word name .source))

/-- No static import is found in a re-export whose names and address do not open one. -/
theorem quiet {behind : Text}
    (hf : ∀ before behind, r.front = before ++ (importWord ++ behind) → ¬ endsOutsideWord before)
    (ha : ∀ before, r.address.body = before ++ importWord → endsOutsideWord before →
      ∀ b, ¬ ReadsClause ('\n' :: behind) b) :
  Quiet behindStatement? true (r.front ++ r.address.text) ('\n' :: behind)
  := by
  apply Admits.append
  · intro front tail rest left htext _ hfront htail
    rw [r.address.text_append] at htail
    obtain ⟨middle, rfl, rfl⟩ :=
      exists_of_append_quote isQuote_of_mem_importWord r.address.isQuote htail.symm
    exact absurd (outsideWord_eq_true_iff.mp hfront) (hf front middle htext)
  · apply r.address.admits
    intro before inner left hbody hbefore hread
    rw [behindStatement?_eq_none r.address.isQuote] at hread
    · cases hread
    · intro c hc
      have hmem : c ∈ r.address.body := by simp [hbody, hc]
      exact ⟨r.address.isQuote_of_mem hmem, r.address.isBlank_of_mem hmem⟩
    · rintro rfl
      apply ha before (by simpa using hbody) hbefore
    · intro _
      rfl

end Reexport

/-! ### Searching lines -/

namespace Line

/-- What ends in the word `import` does not end in the word `from`. -/
theorem import_ne_from {before before' gap gap' : Text} (hg : gap.all isBlank = true)
    (hg' : gap'.all isBlank = true) :
  before ++ (importWord ++ gap) ≠ before' ++ (fromWord ++ gap')
  := by
  have hblank : ∀ {gap : Text}, gap.all isBlank = true → ∀ c ∈ gap.reverse, isBlank c = true := by
    intro gap hg c hc
    exact List.all_eq_true.mp hg c (List.mem_reverse.mp hc)
  intro heq
  have hlast : (before ++ (importWord ++ gap)).reverse.dropWhile isBlank
      = (before' ++ (fromWord ++ gap')).reverse.dropWhile isBlank := by
    rw [heq]
  simp only [List.reverse_append, List.append_assoc] at hlast
  rw [List.dropWhile_append_of_pos (hblank hg), List.dropWhile_append_of_pos (hblank hg')] at hlast
  cases hlast

/-- A line feed alone is no clause. -/
theorem not_readsClause_feed (b : Text) :
  ¬ ReadsClause ['\n'] b
  := by
  intro hclause
  generalize htext : ['\n'] = text at hclause
  cases hclause with
  | @intro lead bindings rest _ hl hb hn hsource =>
    have hlength := congrArg List.length htext
    have hpos := List.length_pos_iff.mpr hn
    obtain rfl : rest = [] := by
      rw [← List.length_eq_zero_iff]
      simp only [List.length_cons, List.length_nil, List.length_append] at hlength
      omega
    cases hsource

/-- An import without bindings in the next line is no clause. -/
theorem not_readsClause_bare {s : Static} (hs : s.bindings = .nothing) (behind b : Text) :
  ¬ ReadsClause ('\n' :: (s.front ++ s.address.text) ++ behind) b
  := by
  intro hclause
  have hspells := s.spells
  rw [hs] at hspells
  obtain ⟨gap, hfront, hg⟩ := hspells.exists_of_singleton
  have hgap : gap.all isBlank = true := by
    rw [List.all_eq_true] at hg ⊢
    intro c hc
    apply isBlank_of_isGap (hg c hc)
  have htext : '\n' :: (s.front ++ s.address.text) ++ behind
      = (['\n'] ++ s.front) ++ s.address.quote :: (s.address.body ++ s.address.quote :: behind) := by
    simp [s.address.text_append]
  rw [htext] at hclause
  have hquote : ∀ c ∈ ['\n'] ++ s.front, isQuote c = false := by
    rw [List.forall_mem_append]
    exact ⟨List.all_iff_forall_prop.mp (by decide), fun _ => s.isQuote_of_mem⟩
  have hsolid : ∃ c ∈ ['\n'] ++ s.front, isBlank c = false :=
    ⟨'i', by simp [hfront, Token.text, Name.importing, Scan.importWord], by decide⟩
  obtain ⟨lead, bindings, between, gap', heq, hblank, -⟩ :=
    hclause.exists_of_append s.address.isQuote hquote hsolid
  simp only [List.all_append, Bool.and_eq_true] at hblank
  have hword : (Token.word Name.importing).text = importWord := rfl
  rw [hfront, hword] at heq
  have hends : ['\n'] ++ (importWord ++ gap) = (lead ++ (bindings ++ between)) ++ (fromWord ++ gap') := by
    rw [heq]
    simp
  exact import_ne_from hgap hblank.2.2 hends

/-- A dynamic import in the next line is no clause. -/
theorem not_readsClause_dynamic (address : Address) (behind b : Text) :
  ¬ ReadsClause ('\n' :: (Piece.dynamic address).text ++ behind) b
  := by
  intro hclause
  have htext : '\n' :: (Piece.dynamic address).text ++ behind
      = (['\n'] ++ importWord ++ ['(']) ++ address.quote :: (address.body ++ address.quote :: ')' :: behind) := by
    simp [Piece.text, Quoted.text]
  rw [htext] at hclause
  obtain ⟨lead, bindings, between, gap', heq, hblank, -, hbindings, -⟩ :=
    hclause.exists_of_append address.isQuote (List.all_iff_forall_prop.mp (by decide))
      ⟨'i', by decide, by decide⟩
  -- an opening bracket is neither a blank nor a character of a clause
  have hmem : '(' ∈ lead ++ (bindings ++ (between ++ (fromWord ++ gap'))) := by
    rw [← heq]
    simp
  have hall : ∀ c ∈ lead ++ (bindings ++ (between ++ (fromWord ++ gap'))), c ≠ '(' := by
    have hno : ∀ {p : Char → Bool} {text : Text}, p '(' = false → text.all p = true → ∀ c ∈ text, c ≠ '(' := by
      rintro p text hp ht c hc rfl
      rw [List.all_eq_true.mp ht _ hc] at hp
      cases hp
    simp only [List.all_append, Bool.and_eq_true] at hblank
    have hblank' : isBlank '(' = false := by decide
    simp only [List.forall_mem_append]
    exact ⟨hno hblank' hblank.1, hno (by decide) hbindings, hno hblank' hblank.2.1,
      List.all_iff_forall_prop.mp (by decide), hno hblank' hblank.2.2⟩
  exact hall '(' hmem rfl

/-- No clause goes on into a line without the word `from`. -/
theorem not_readsClause {lines : List Line} (h : ∀ line ∈ lines.head?, ¬ line.HasSource) (b : Text) :
  ¬ ReadsClause ('\n' :: textOf lines) b
  := by
  cases lines with
  | nil => apply not_readsClause_feed
  | cons line lines =>
    have hline : ¬ line.HasSource := h line rfl
    rcases line with (s | address) | r
    · apply not_readsClause_bare (not_not.mp hline)
    · apply not_readsClause_dynamic
    · exact absurd trivial hline

/-- Lines as stretches of a source. -/
def stretches : List Line → List Stretch
  | [] => []
  | piece p :: lines => .piece p :: .other ['\n'] :: stretches lines
  | reexport r :: lines => .other (r.front ++ r.address.text) :: .other ['\n'] :: stretches lines

theorem textOf_stretches (lines : List Line) :
  Stretch.textOf (stretches lines) = textOf lines
  := by
  induction lines with
  | nil => rfl
  | cons line lines ih =>
    cases line with
    | piece p =>
      rw [stretches, Stretch.textOf_cons, Stretch.textOf_cons, ih]
      rfl
    | reexport r =>
      rw [stretches, Stretch.textOf_cons, Stretch.textOf_cons, ih]
      rfl

theorem fromNext_stretches (lines : List Line) :
  Stretch.fromNext Piece.isDynamic (stretches lines) = fromDynamic lines
  := by
  induction lines with
  | nil => rfl
  | cons line lines ih =>
    rcases line with (s | address) | r
    · rw [stretches, Stretch.fromNext, Stretch.fromNext, ih]
      rfl
    · have htext := textOf_stretches (.piece (.dynamic address) :: lines)
      rw [stretches] at htext ⊢
      rw [Stretch.fromNext, htext]
      rfl
    · rw [stretches, Stretch.fromNext, Stretch.fromNext, ih]
      rfl

/-- No backtick in lines is behind a backslash. -/
theorem unescaped_textOf (lines : List Line) :
  Unescaped (textOf lines)
  := by
  induction lines with
  | nil => exact .nil
  | cons line lines ih =>
    have hline : '\\' ∉ line.text := by
      cases line with
      | piece p => apply p.backslash_notMem_text
      | reexport r =>
        rw [text, List.mem_append, not_or]
        refine ⟨?_, r.address.backslash_notMem_text⟩
        intro hmem
        have hclause := r.isClauseCharacter_of_mem _ hmem
        exact absurd hclause (by decide)
    apply Unescaped.append hline
    apply Unescaped.append (by decide : '\\' ∉ ['\n']) ih

section

variable {behind? : Text → Option Text} {isSought : Piece → Bool} {lines : List Line}

/-- A line feed may stand in front of what has been searched. -/
theorem searched_feed (h : Searched behind? isSought true (stretches lines)) {boundary : Bool} :
  Searched behind? isSought boundary (.other ['\n'] :: stretches lines)
  := by
  apply Searched.other (quiet_of_notMem (by decide)).admits
  exact h

theorem textOf_feed (lines : List Line) :
  Stretch.textOf (.other ['\n'] :: stretches lines) = '\n' :: textOf lines
  := by
  rw [Stretch.textOf_cons, textOf_stretches]
  rfl

/-- A piece fits behind nothing and in front of a line feed. -/
theorem fitsBetween_feed (piece : Piece) (text : Text) :
  piece.FitsBetween [] ('\n' :: text)
  := by
  cases piece with
  | static s => exact ⟨nofun, .inl (List.prefix_append ['\n'] text)⟩
  | dynamic address => exact nofun

/-- A piece that is clear of the lines behind it ends before them. -/
theorem endsBefore_of_isClear {piece : Piece} (h : (Line.piece piece).IsClear lines) :
  piece.EndsBefore ('\n' :: textOf lines) (fromDynamic lines)
  := by
  cases piece with
  | static s => exact h
  | dynamic address =>
    intro _ c hc
    rw [List.takeWhile_cons_of_neg (by decide)] at hc
    cases hc

/-- The search for static imports finds those among the lines. -/
theorem searched_static (h : AllClear lines) :
  Searched behindStatement? Piece.isStatic true (stretches lines)
  := by
  induction lines with
  | nil => exact .nil
  | cons line lines ih =>
    obtain ⟨hclear, hrest⟩ := h
    cases line with
    | piece p =>
      apply Searched.piece _ (searched_feed (ih hrest))
      rw [textOf_feed]
      exact Piece.meets_static (fitsBetween_feed p _) (endsBefore_of_isClear hclear) _
    | reexport r =>
      apply Searched.other _ (searched_feed (ih hrest))
      rw [textOf_feed]
      apply (r.quiet hclear.1 _).admits
      intro before hbody hbefore
      apply not_readsClause (hclear.2.1 before hbody hbefore)

/-- The search for dynamic imports finds those among the lines, and maybe dynamic imports of a template. -/
theorem searched_dynamic (h : AllClear lines) :
  Searched behindDynamic? Piece.isDynamic true (stretches lines)
  := by
  induction lines with
  | nil => exact .nil
  | cons line lines ih =>
    obtain ⟨hclear, hrest⟩ := h
    have hunescaped : Unescaped ('\n' :: textOf lines) :=
      Unescaped.append (by decide : '\\' ∉ ['\n']) (unescaped_textOf lines)
    cases line with
    | piece p =>
      apply Searched.piece _ (searched_feed (ih hrest))
      rw [textOf_feed, Stretch.fromNext, fromNext_stretches]
      exact Piece.meets_dynamic (fitsBetween_feed p _) (endsBefore_of_isClear hclear) hunescaped
    | reexport r =>
      apply Searched.other _ (searched_feed (ih hrest))
      rw [textOf_feed, Stretch.fromNext, fromNext_stretches]
      apply r.address.admits_template r.isClauseCharacter_of_mem rfl hclear.2.2 hunescaped

/-- Lines have no comments. -/
theorem remove_textOf (lines : List Line) :
  Comment.remove (textOf lines) = textOf lines
  := by
  rw [Comment.remove]
  induction lines with
  | nil => rfl
  | cons line lines ih =>
    have hfeed : Comment.removeFrom .code ('\n' :: textOf lines) = '\n' :: textOf lines := by
      have hbare : ∀ c ∈ ['\n'], IsBare c := List.all_iff_forall_prop.mp (by decide)
      have hremove := Written.removeFrom_append hbare (textOf lines)
      rw [ih] at hremove
      exact hremove
    cases line with
    | piece p =>
      rw [textOf, text, p.removeFrom_append, hfeed]
    | reexport r =>
      rw [textOf, text, r.address.removeFrom_append r.isClauseCharacter_of_mem, hfeed]

end

/-! ### Extraction -/

/-- A declaration as a sentence. -/
def sentence : Line → Sentence
  | piece p => (Statement.piece p).sentence
  | reexport r => .ofLink (.onward r.exports) r.front r.spells r.address.toQuoted

/-- What a declaration imports. -/
def records (line : Line) : List ImportRecord :=
  line.sentence.records

theorem text_sentence (line : Line) :
  line.sentence.text = line.text
  := by
  cases line with
  | piece p => apply Statement.text_sentence
  | reexport r => exact Sentence.text_ofLink (.onward r.exports) r.front r.spells r.address.toQuoted

theorem head?_text_append (line : Line) (rest : Text) :
  (line.text ++ rest).head? ≠ some '#'
  := by
  cases line with
  | piece p =>
    obtain ⟨inner, htext⟩ := p.exists_text
    rw [text, htext]
    rintro ⟨⟩
  | reexport r =>
    rw [text, List.append_assoc]
    apply Link.head?_ne _ r.spells

/-- Lines are extracted one by one where they are scanned as they are. -/
theorem records_textOf (lines : List Line) :
  Extraction.records (textOf lines) = .ok (lines.flatMap records)
  := by
  have hprose : prose (lines.map fun line => (line.sentence, ['\n'])) = textOf lines := by
    induction lines with
    | nil => rfl
    | cons line lines ih =>
      rw [List.map_cons, prose, ih, text_sentence]
      rfl
  have hgap : ∀ written ∈ lines.map fun line => (line.sentence, ['\n']), written.2.all isGap = true := by
    rw [List.forall_mem_map]
    intro line _
    rfl
  have hhead : (textOf lines).head? ≠ some '#' := by
    cases lines with
    | nil => rintro ⟨⟩
    | cons line lines => apply line.head?_text_append
  have hrecords := records_prose hgap (by rwa [hprose])
  rw [hprose, List.flatMap_map] at hrecords
  exact hrecords

/-- The records of a line are those of its text. -/
theorem records_text (line : Line) :
  Extraction.records line.text = .ok line.records
  := by
  have hprose : prose [(line.sentence, [])] = line.text := by
    simp [prose, text_sentence]
  have hhead : (prose [(line.sentence, [])]).head? ≠ some '#' := by
    rw [prose, text_sentence]
    apply line.head?_text_append
  have hrecords := records_prose (by simp) hhead
  rw [hprose] at hrecords
  simpa [records] using hrecords

/-- The records of the pieces are those of the lines that import. -/
theorem flatMap_stretches (lines : List Line) :
  ((stretches lines).filterMap Stretch.piece?).flatMap (fun p => (Statement.piece p).records)
    = (lines.filter isImport).flatMap records
  := by
  have hother : ∀ text, (Stretch.other text).piece? = none := fun _ => rfl
  induction lines with
  | nil => rfl
  | cons line lines ih =>
    cases line with
    | piece p =>
      have hsome : (Stretch.piece p).piece? = some p := rfl
      rw [stretches, List.filterMap_cons_some hsome, List.filterMap_cons_none (hother _), List.flatMap_cons,
        ih, List.filter_cons_of_pos rfl, List.flatMap_cons]
      rfl
    | reexport r =>
      rw [stretches, List.filterMap_cons_none (hother _), List.filterMap_cons_none (hother _), ih,
        List.filter_cons_of_neg Bool.false_ne_true]

/-- What is salvaged from lines is what the imports among them import. -/
theorem records_reduce {lines : List Line} (h : AllClear lines) :
  Extraction.records (reduce (textOf lines)) = .ok ((lines.filter isImport).flatMap records)
  := by
  have hremove : Comment.remove (Stretch.textOf (stretches lines)) = Stretch.textOf (stretches lines) := by
    rw [textOf_stretches, remove_textOf]
  obtain ⟨found, hfound, hpieces⟩ := exists_statements hremove (searched_static h) (searched_dynamic h)
  rw [textOf_stretches] at hfound
  have hreduce : reduce (textOf lines) = Salvage.lines found := by
    rw [reduce, hfound, Salvage.lines]
  rw [hreduce, records_lines, Statement.flatMap_records, hpieces]
  exact congrArg Except.ok (flatMap_stretches lines)

end Line

/-- From declarations one per line, all are extracted where they are scanned as they are, and the imports
among them where they are not: the re-exports are lost. -/
theorem extract_textOf {lines : List Line} (h : Line.AllClear lines) :
  ∃ records : Line → List ImportRecord,
    (∀ line : Line, extract line.text ".ts".toList = { fallback := none, outcome := .ok (records line) })
    ∧ extract (Line.textOf lines) ".ts".toList
      = { fallback := none, outcome := .ok (lines.flatMap records) }
    ∧ extract (Line.textOf lines) ".tsx".toList
      = { fallback := none, outcome := .ok ((lines.filter Line.isImport).flatMap records) }
  := by
  refine ⟨Line.records, ?_, ?_, ?_⟩
  · intro line
    exact extract_of_records (by decide) line.records_text
  · exact extract_of_records (by decide) (Line.records_textOf lines)
  · rw [extract_of_holdsMarkup (by decide), Line.records_reduce h]

theorem Address.templatesEndBefore_of_notMem {address : Address} (h : '(' ∉ address.body) (behind next : Text) :
  address.TemplatesEndBefore behind next
  := by
  intro before inner left hbody
  exact absurd (by simp [hbody]) h

/-- A static import, a re-export whose address might open another one, and a dynamic import. -/
def threeLines : List Line := [
  .piece (.static {
    bindings := .defaultItems ⟨['a'], by decide⟩ [⟨⟨['b'], by decide⟩, some ⟨['c'], rfl⟩⟩]
    address := ⟨⟨'\'', ['x'], by decide, by decide⟩, by decide, rfl⟩
    front := "import a, \x7bb as c\x7d from ".toList
    spells := @spells_write [(.word .importing, [' ']), (.word ⟨['a'], by decide⟩, []), (.comma, [' ']),
      (.opening .curly, []), (.word ⟨['b'], by decide⟩, [' ']), (.word .aliasing, [' ']),
      (.word ⟨['c'], rfl⟩, []), (.closing .curly, [' ']), (.word .sourcing, [' '])] (by decide)
    narrow := List.all_iff_forall_prop.mp (by decide) }),
  .reexport {
    exports := .whole ⟨['d'], rfl⟩
    address := ⟨⟨'"', "./import".toList, by decide, rfl⟩, by decide, rfl⟩
    front := "export * as d from ".toList
    spells := @spells_write [(.word .exporting, [' ']), (.star, [' ']), (.word .aliasing, [' ']),
      (.word ⟨['d'], rfl⟩, [' ']), (.word .sourcing, [' '])] (by decide)
    narrow := List.all_iff_forall_prop.mp (by decide) },
  .piece (.dynamic ⟨⟨'\'', ['y'], by decide, by decide⟩, by decide, rfl⟩)]

/-- Three lines of an import, a re-export and a dynamic import. -/
theorem extract_textOf_three :
  Line.textOf threeLines
      = "import a, \x7bb as c\x7d from 'x'\nexport * as d from \"./import\"\nimport('y')\n".toList
    ∧ Line.AllClear threeLines
    ∧ ∃ records : Line → List ImportRecord,
      (∀ line : Line, extract line.text ".ts".toList = { fallback := none, outcome := .ok (records line) })
      ∧ extract (Line.textOf threeLines) ".ts".toList
        = { fallback := none, outcome := .ok (threeLines.flatMap records) }
      ∧ extract (Line.textOf threeLines) ".tsx".toList
        = { fallback := none, outcome := .ok ((threeLines.filter Line.isImport).flatMap records) }
  := by
  have hclear : Line.AllClear threeLines := by
    refine ⟨Address.templatesEndBefore_of_notMem (by decide) _ _, ⟨?_, ?_, ?_⟩, trivial, trivial⟩
    · intro before behind hfront
      have hmem : 'i' ∈ "export * as d from ".toList := by
        rw [show "export * as d from ".toList = before ++ (importWord ++ behind) from hfront]
        simp [importWord]
      exact absurd hmem (by decide)
    · rintro _ _ _ _ ⟨⟩
      exact id
    · exact Address.templatesEndBefore_of_notMem (by decide) _ _
  exact ⟨rfl, hclear, extract_textOf hclear⟩

/-- The export of a name from another module. -/
def onwardName (name : Name) (address : Address) : Reexport where
  exports := .items [⟨name, none⟩]
  address := address
  front := "export \x7b".toList ++ (name.text ++ "\x7d from ".toList)
  spells := by
    have hspells := @spells_write [(.word .exporting, [' ']), (.opening .curly, []), (.word name, []),
      (.closing .curly, [' ']), (.word .sourcing, [' '])] rfl
    simp only [write, List.flatMap_cons, List.append_nil] at hspells
    exact hspells
  narrow := by
    simp only [List.forall_mem_append]
    refine ⟨List.all_iff_forall_prop.mp (by decide), ?_, List.all_iff_forall_prop.mp (by decide)⟩
    intro c hc hblank
    rw [isBlank_of_isNamePart (name.isNamePart_of_mem hc)] at hblank
    cases hblank

/-- The export of another module. -/
def onwardAll (address : Address) : Reexport where
  exports := .all
  address := address
  front := "export * from ".toList
  spells := @spells_write [(.word .exporting, [' ']), (.star, [' ']), (.word .sourcing, [' '])] rfl
  narrow := List.all_iff_forall_prop.mp (by decide)

/-- The address of a module. -/
def plainAddress : Address :=
  ⟨⟨'\'', ['x'], by decide, by decide⟩, by decide, rfl⟩

/-- A re-export. -/
def lost : List Line :=
  [.reexport (onwardName ⟨['a'], by decide⟩ plainAddress)]

/-- A re-export of a name that begins with the word `import`. -/
def misread : List Line :=
  [.reexport (onwardName ⟨"importMap".toList, rfl⟩ plainAddress)]

/-- Two re-exports, of which the first has an address that ends in the word `import`. -/
def openedBelow : List Line := [
  .reexport (onwardAll ⟨⟨'\'', "./import".toList, by decide, rfl⟩, by decide, rfl⟩),
  .reexport (onwardAll plainAddress)]

/-- Two re-exports with a dynamic import between them.  A dynamic import of a template begins in the first
address and ends in the second. -/
def enclosed : List Line := [
  .reexport (onwardAll ⟨⟨'\'', "import(\x60".toList, by decide, by decide +kernel⟩, by decide, rfl⟩),
  .piece (.dynamic plainAddress),
  .reexport (onwardAll ⟨⟨'\'', "\x60)".toList, by decide, by decide +kernel⟩, by decide, rfl⟩)]

/-- Re-exports are lost where a source is not scanned as it is.  A name or an address that reads like the
beginning of an import makes the salvaged imports fail, or hides one. -/
theorem extract_reexports :
  (Line.textOf lost = "export \x7ba\x7d from 'x'\n".toList
      ∧ (extract (Line.textOf lost) ".ts".toList).outcome = .ok [{ specifier := ['x'], named := [['a']] }]
      ∧ (extract (Line.textOf lost) ".tsx".toList).outcome = .ok [])
    ∧ (Line.textOf misread = "export \x7bimportMap\x7d from 'x'\n".toList
      ∧ (extract (Line.textOf misread) ".tsx".toList).outcome = .error (.unexpected .curly 9))
    ∧ (Line.textOf openedBelow = "export * from './import'\nexport * from 'x'\n".toList
      ∧ (extract (Line.textOf openedBelow) ".tsx".toList).outcome = .error (.unterminatedString 6))
    ∧ Line.textOf enclosed = "export * from 'import(\x60'\nimport('x')\nexport * from '\x60)'\n".toList
      ∧ (extract (Line.textOf enclosed) ".tsx".toList).outcome = .ok []
  := by
  refine ⟨⟨rfl, ?_, ?_⟩, ⟨rfl, ?_⟩, ⟨rfl, ?_⟩, rfl, ?_⟩
  · rw [extract_of_records (by decide) (Line.records_textOf lost)]
    decide +kernel
  · rw [@extract_salvaged _ [] [] rfl rfl (.inl rfl)]
    decide +kernel
  · rw [@extract_salvaged _ [(8, "importMap\x7d from 'x'".toList)] [] rfl rfl (.inr rfl)]
    decide +kernel
  · rw [@extract_salvaged _ [(17, "import'\nexport * from 'x'".toList)] [] rfl rfl (.inr rfl)]
    decide +kernel
  · rw [@extract_salvaged _ [] [(15, "import(\x60'\nimport('x')\nexport * from '\x60)".toList)] rfl rfl (.inl rfl)]
    decide +kernel

end ImportCensus.Salvage
