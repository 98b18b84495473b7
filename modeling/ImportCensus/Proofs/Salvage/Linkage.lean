import ImportCensus.Proofs.Scan.Continuation
import ImportCensus.Proofs.Salvage.Reading

/-!
# Links to modules

The declarations that link a source to another module: static imports, and exports that pass on what another
module exports.  The scanner finds such a declaration behind any source that it accepts, and finds in the
source what it found before.
-/

namespace ImportCensus.Salvage

open Text Scan Written
open Segment (of)

/-- What an export passes on of another module. -/
inductive Exports where
  | items (bindings : List Binding)
  | all
  | whole (name : Name)

/-- The tokens of an export between its first word and its address. -/
def Exports.tokens : Exports → List Token
  | items bindings => blockTokens bindings
  | all => [.star, .word .sourcing]
  | whole name => [.star, .word .aliasing, .word name, .word .sourcing]

theorem Exports.isExport (exports : Exports) :
  IsExport exports.tokens
  := by
  cases exports with
  | items bindings => exact .block bindings
  | all => exact .all
  | whole name => exact .whole name

/-- A link to another module: what a static import brings into scope, or what an export passes on. -/
inductive Link where
  | inward (bindings : Bindings)
  | onward (exports : Exports)

namespace Link

/-- The tokens of a link before its address. -/
def tokens : Link → List Token
  | inward bindings => .word .importing :: bindings.tokens
  | onward exports => .word .exporting :: exports.tokens

variable (link : Link)

/-- A link is passed in one step. -/
theorem step {s : State} (hf : s.frames = []) (hd : afterDot s.cursor.before = false) {front : Text}
    (hs : Spells link.tokens front) (q : Quoted) (rest : Text) :
  Scan.Step s (of .code front ++ q.segment)
    (s.declared (of .code front ++ q.segment) rest (some q.body) .operator)
  := by
  cases link with
  | inward bindings =>
    obtain rfl | hclause := bindings.isClause
    · obtain ⟨gap, rfl, hg⟩ := hs.exists_of_singleton
      apply step_of_bare hf hd hg
    · apply step_of_import hf hd hclause hs
  | onward exports => apply step_of_export hf hd exports.isExport hs

theorem continues {front : Text} (hs : Spells link.tokens front) (rest : Text) :
  Continues (front ++ rest)
  := by
  cases link with
  | inward bindings =>
    cases hs with
    | cons =>
      rw [List.append_assoc]
      apply continues_import
  | onward exports =>
    cases hs with
    | cons =>
      rw [List.append_assoc]
      apply continues_export

theorem head?_ne {front : Text} (hs : Spells link.tokens front) (rest : Text) :
  (front ++ rest).head? ≠ some '#'
  := by
  cases link with
  | inward bindings =>
    cases hs with
    | cons => rintro ⟨⟩
  | onward exports =>
    cases hs with
    | cons => rintro ⟨⟩

end Link

theorem ofSpecifier_eq_shift (front : Text) (q : Quoted) (position : Nat) :
  Occurrence.ofSpecifier position ((front ++ q.text).length + position) q.body
    = (Occurrence.ofSpecifier 0 (front ++ q.text).length q.body).shift position
  := by
  have hlength : (front ++ q.text).length = front.length + (q.body.length + 2) := by
    simp [Quoted.text]
  simp only [Occurrence.ofSpecifier, Occurrence.shift, hlength, Occurrence.mk.injEq, and_true]
  omega

section

variable {link : Link} {front gap : Text} {q : Quoted}

/-- The scanner passes a link up to the end of the source and finds it. -/
theorem exists_run_link (hs : Spells link.tokens front) (hg : gap.all isGap = true) {s : State}
    (hf : s.frames = []) (hd : afterDot s.cursor.before = false)
    (hr : s.cursor.rest = front ++ (q.text ++ gap)) :
  ∃ f, s.run = .ok f ∧ f.found = s.found
    ++ [(Occurrence.ofSpecifier 0 (front ++ q.text).length q.body).shift s.cursor.before.length]
  := by
  have hstep := link.step hf hd hs q gap
  have hrest : s.cursor.rest = (of .code front ++ q.segment).text ++ gap := by simp [hr]
  let behind := s.declared (of .code front ++ q.segment) gap (some q.body) .operator
  have hfinished : Run (behind.moved (of .code gap) [] .operator) [] (behind.moved (of .code gap) [] .operator) :=
    .finished rfl hf
  refine ⟨behind.moved (of .code gap) [] .operator, ?_, ?_⟩
  · rw [hstep.run_eq hrest, run_of_isGap (s := behind) hg (List.append_nil gap).symm]
    exact hfinished.run_eq
  · rw [State.found_moved, State.found_declared, Option.map_some, Option.toList_some,
      ← ofSpecifier_eq_shift, ← Segment.length_text]
    simp

/-- A declaration that links a source to a module is found behind any other source, and hides nothing of
it. -/
theorem scan_append {source : Text} {found : List Occurrence} (hscan : scan source = .ok found)
    (hdot : (source.reverse.dropWhile isSpace).head? ≠ some '.') (hd : ¬ Dangling source)
    {text : Text} (ht : Spells (link.tokens ++ [.quoted q]) text) :
  ∃ o, scan text = .ok [o] ∧ o.text text = q.body
    ∧ scan (source ++ '\n' :: text) = .ok (found ++ [o.shift (source.length + 1)])
  := by
  obtain ⟨front, behind, hfront, hquoted, rfl⟩ := ht.exists_of_append
  obtain ⟨gap, rfl, hg⟩ := hquoted.exists_of_singleton
  refine ⟨.ofSpecifier 0 (front ++ q.text).length q.body, ?_, ?_, ?_⟩
  · have hhead := link.head?_ne hfront (q.text ++ gap)
    obtain ⟨f, hrun, hfound⟩ :=
      exists_run_link hfront hg (s := .behindHashbang [] (front ++ (q.text ++ gap))) rfl rfl rfl
    rw [scan, Token.text, finish_eq hhead, hrun]
    exact congrArg Except.ok hfound
  · obtain ⟨htext, -⟩ := slices_static [] front gap q rfl (o := .ofSpecifier 0 (front ++ q.text).length q.body)
      (by simp)
    exact htext
  · obtain ⟨s, hfinish, hrest, hframes, hfound, hposition, hafter⟩ :=
      exists_state_of_scan hscan hdot hd (link.continues hfront (q.text ++ gap))
    obtain ⟨f, hrun, hf⟩ := exists_run_link hfront hg hframes hafter hrest
    rw [scan, Token.text, hfinish, hrun, ← hposition, ← hfound]
    exact congrArg Except.ok hf

end

/-- Behind an export whose address is missing at the end of the source, with words that might be taken for
parts of it. -/
theorem scan_append_missing_address :
  scan "export \x7ba\x7d from//".toList = .ok []
    ∧ ∃ o, scan "import from,\t\x7bas as as\x7dfrom'x'".toList = .ok [o]
      ∧ o.text "import from,\t\x7bas as as\x7dfrom'x'".toList = ['x']
      ∧ scan ("export \x7ba\x7d from//".toList ++ '\n' :: "import from,\t\x7bas as as\x7dfrom'x'".toList)
        = .ok ([] ++ [o.shift 18])
  := by
  have hscan : scan "export \x7ba\x7d from//".toList = .ok [] := by
    have hgap : Trivia (of .comment ['/', '/']) [] :=
      @Trivia.comment ['/', '/'] [] [] (@IsComment.line [] [] rfl rfl) (.settled rfl)
    have hsource : ExportSource [] none " from//".toList :=
      @ExportSource.loneFrom (of .code [' ']) _ [] (.space rfl (.settled rfl)) rfl hgap rfl
    have hclause := @ExportClause.braces (of .code [' ']) (of .code ['a', '}']) _ _ _
      (.space rfl (.settled rfl)) (.other rfl (by decide) rfl .close) hsource
    have hread : ∀ statementStart before, exportClause statementStart before
        [' ', '{', 'a', '}', ' ', 'f', 'r', 'o', 'm', '/', '/'] = _ := hclause.exportClause_eq
    simp +decide [scan, finish, State.start, State.initial, State.run_cons, State.run_nil, State.step,
      State.slash, lineComment, behindLine, State.word, wordOf, behindWord, hread, readComment?,
      Bracket.ofOpening?, Bracket.ofClosing?, Except.map, Trail.empty, Trail.pass, of, State.declare,
      State.goto, Scan.Declaration.behind, expectsBehindExport]
  have htext : Spells ((Link.inward (.defaultItems .sourcing [⟨.aliasing, some .aliasing⟩])).tokens
      ++ [.quoted ⟨'\'', ['x'], rfl, rfl⟩]) "import from,\t\x7bas as as\x7dfrom'x'".toList :=
    @spells_write [(.word .importing, [' ']), (.word .sourcing, []), (.comma, ['\t']), (.opening .curly, []),
      (.word .aliasing, [' ']), (.word .aliasing, [' ']), (.word .aliasing, []), (.closing .curly, []),
      (.word .sourcing, []), (.quoted ⟨'\'', ['x'], rfl, rfl⟩, [])] (by decide)
  exact ⟨hscan, scan_append hscan (by decide) (not_dangling_of_notMem (by decide)) htext⟩

end ImportCensus.Salvage
