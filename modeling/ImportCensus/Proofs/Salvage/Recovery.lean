import Mathlib.Data.List.Forall2
import ImportCensus.Proofs.Salvage.Lines
import ImportCensus.Proofs.Salvage.Merging

/-!
# Recovering imports amid noise

The imports that stand in a source with noise around them are salvaged one for one: the statements found
in the source are its pieces in order, maybe with dynamic imports of a template among them, and the scanner
finds in them what it finds in each statement alone.  Nothing is extracted from an import of a template.
-/

namespace ImportCensus.Salvage

open Text Scan Written Extraction
open Segment (of)

/-- A source has no comments. -/
theorem Source.remove_text (source : Source) :
  Comment.remove source.text = source.text
  := by
  have hrest : ∀ rest, Comment.removeFrom .code (textOf rest) = textOf rest := by
    intro rest
    induction rest with
    | nil => rfl
    | cons next rest ih =>
      rw [textOf, Piece.removeFrom_append, Written.removeFrom_append next.2.bare, ih]
  rw [Comment.remove, Source.text, Written.removeFrom_append source.lead.bare, hrest]

/-! ### Statements -/

/-- Pieces with the noise behind each of them, as stretches of a source. -/
def stretchesOf : List (Piece × Noise) → List Stretch
  | [] => []
  | (piece, noise) :: rest => .piece piece :: .other noise.text :: stretchesOf rest

theorem textOf_stretchesOf (rest : List (Piece × Noise)) :
  Stretch.textOf (stretchesOf rest) = textOf rest
  := by
  induction rest with
  | nil => rfl
  | cons next rest ih =>
    rw [stretchesOf, Stretch.textOf_cons, Stretch.textOf_cons, ih]
    rfl

theorem fromNext_stretchesOf (isNext : Piece → Bool) (rest : List (Piece × Noise)) :
  Stretch.fromNext isNext (stretchesOf rest) = fromNext isNext rest
  := by
  induction rest with
  | nil => rfl
  | cons next rest ih =>
    rw [stretchesOf, Stretch.fromNext, Stretch.fromNext, fromNext, ih]
    split
    · apply textOf_stretchesOf (next :: rest)
    · rfl

theorem filterMap_stretchesOf (rest : List (Piece × Noise)) :
  (stretchesOf rest).filterMap Stretch.piece? = rest.map Prod.fst
  := by
  induction rest with
  | nil => rfl
  | cons next rest ih =>
    have hsome : (Stretch.piece next.1).piece? = some next.1 := rfl
    have hnone : (Stretch.other next.2.text).piece? = none := rfl
    rw [stretchesOf, List.filterMap_cons_some hsome, List.filterMap_cons_none hnone, ih, List.map_cons]

/-- Whether a search finds the pieces of a kind wherever they may stand, and nothing but dynamic imports of
a template in other pieces. -/
def Seeks (behind? : Text → Option Text) (isSought : Piece → Bool) : Prop :=
  ∀ (piece : Piece) (noise : Noise) (rest : List (Piece × Noise)) (before : Text),
    piece.FitsBetween before (noise.text ++ textOf rest) →
    piece.EndsBefore (noise.text ++ textOf rest) (fromNext Piece.isDynamic rest) →
    Meets behind? (outsideWord true before) (noise.text ++ textOf rest) (fromNext isSought rest) piece
      (isSought piece)

/-- The first expression finds the static imports. -/
theorem seeks_static :
  Seeks behindStatement? Piece.isStatic
  := by
  intro piece noise rest before hf he
  apply Piece.meets_static hf he

/-- The second expression finds the dynamic imports. -/
theorem seeks_dynamic :
  Seeks behindDynamic? Piece.isDynamic
  := by
  intro piece noise rest before hf he
  apply Piece.meets_dynamic hf he (unescaped_textOf noise rest)

/-- Behind noise, pieces that are placed and clear of each other are searched one by one. -/
theorem Seeks.searched {behind? : Text → Option Text} {isSought : Piece → Bool}
    (hs : Seeks behind? isSought) {rest : List (Piece × Noise)} {lead : Text} (hp : Placed lead rest)
    (hc : Clear rest) :
  Searched behind? isSought (outsideWord true lead) (stretchesOf rest)
  := by
  induction rest generalizing lead with
  | nil => exact .nil
  | cons next rest ih =>
    obtain ⟨piece, noise⟩ := next
    obtain ⟨hfits, hrest⟩ := hp
    have hmeets := hs piece noise rest lead (hfits.append (textOf rest)) hc.1
    have hnoise : Quiet behind? (outsideWord (outsideWord true lead) piece.text) noise.text (textOf rest) :=
      noise.quiet (head?_textOf rest)
    have hne : piece.text ++ noise.text ≠ [] := by
      obtain ⟨inner, htext⟩ := piece.exists_text
      simp [htext, importWord]
    rw [← textOf_stretchesOf] at hmeets hnoise
    rw [← fromNext_stretchesOf] at hmeets
    apply Searched.piece hmeets
    apply Searched.other hnoise.admits
    rw [← outsideWord_append, outsideWord_of_ne_nil hne _ true]
    apply ih hrest hc.2

/-- The statements that are salvaged from a source are its pieces, in order, and dynamic imports of a
template. -/
theorem Source.exists_statements (source : Source) (hp : Placed source.lead.text source.rest)
    (hc : Clear source.rest) :
  ∃ found : List Statement, statements source.text = found.map Statement.text
    ∧ found.filterMap Statement.piece? = source.pieces
  := by
  have htext : Stretch.textOf (.other source.lead.text :: stretchesOf source.rest) = source.text := by
    rw [Stretch.textOf_cons, textOf_stretchesOf]
    rfl
  have hsearched : ∀ {behind? : Text → Option Text} {isSought : Piece → Bool}, Seeks behind? isSought →
      Searched behind? isSought true (.other source.lead.text :: stretchesOf source.rest) := by
    intro behind? isSought hs
    apply Searched.other _ (hs.searched hp hc)
    rw [textOf_stretchesOf]
    apply (source.lead.quiet (head?_textOf source.rest)).admits
  have hstatements := Salvage.exists_statements (by rw [htext, source.remove_text])
    (hsearched seeks_static) (hsearched seeks_dynamic)
  rw [htext] at hstatements
  obtain ⟨found, hfound, hpieces⟩ := hstatements
  refine ⟨found, hfound, hpieces.trans ?_⟩
  rw [List.filterMap_cons_none rfl, filterMap_stretchesOf]
  rfl

/-! ### Sources -/

/-- A source is recovered exactly where the statements found in it have the records of its pieces. -/
theorem Source.isRecovered_iff {source : Source} {found : List Statement}
    (h : reduce source.text = lines found) :
  source.IsRecovered
    ↔ found.flatMap Statement.records = source.pieces.flatMap fun p => (Statement.piece p).records
  := by
  have hpiece : ∀ p : Piece, extract p.text ".js".toList
      = { fallback := none, outcome := .ok (Statement.piece p).records } := by
    intro p
    have hrecords : Extraction.records p.text = .ok (Statement.piece p).records := by
      simpa [lines_singleton, Statement.text] using records_lines [.piece p]
    exact extract_of_records (by decide) hrecords
  have hsource : extract source.text ".jsx".toList
      = { fallback := none, outcome := .ok (found.flatMap Statement.records) } := by
    rw [extract_of_holdsMarkup (by decide), h, records_lines]
  rw [IsRecovered, hsource]
  constructor
  · rintro ⟨records, hpieces, hrecords⟩
    obtain rfl : source.pieces.map (fun p => (Statement.piece p).records) = records := by
      rw [← List.forall₂_eq_eq_eq, List.forall₂_map_left_iff]
      apply hpieces.imp
      intro p records hp
      rw [hpiece p] at hp
      injection hp with _ hok
      injection hok
    rw [← List.flatMap_def] at hrecords
    injection hrecords with _ hok
    injection hok
  · intro hrecords
    refine ⟨source.pieces.map fun p => (Statement.piece p).records, ?_, ?_⟩
    · rw [List.forall₂_map_right_iff, List.forall₂_same]
      exact fun p _ => hpiece p
    · rw [hrecords, List.flatMap_def]

/-- What is extracted from an import in a source that is not scanned as it is, is what is extracted from
the import alone, of each of them and in order. -/
theorem extract_text (source : Source) (hp : Placed source.lead.text source.rest)
    (hc : Clear source.rest) :
  source.IsRecovered
  := by
  obtain ⟨found, hstatements, hpieces⟩ := source.exists_statements hp hc
  have hreduce : reduce source.text = lines found := by
    rw [reduce, hstatements, lines]
  rw [Source.isRecovered_iff hreduce, Statement.flatMap_records, hpieces]

/-- A text without the first letter of the word `import` as noise. -/
def noiseOf (text : Text) (hb : text.all (fun c => decide (IsBare c)) = true) (hi : 'i' ∉ text) : Noise :=
  ⟨text, List.all_iff_forall_prop.mp hb, fun h => hi (h.subset List.mem_cons_self)⟩

/-- A decorator, a static import with a dynamic import of a template in its address, and a dynamic import
whose address would open a static one. -/
def decorated : Source where
  lead := noiseOf "@dec\n".toList (by decide) (by decide)
  rest := [
    (.static {
      bindings := .defaultItems ⟨['a'], rfl⟩ [⟨.aliasing, some ⟨['b'], rfl⟩⟩]
      address := ⟨⟨'\'', "import(\x60u\x60)".toList, rfl, rfl⟩, by decide, rfl⟩
      front := "import a,\t\x7bas as b\x7dfrom".toList
      spells := @spells_write [(.word .importing, [' ']), (.word ⟨['a'], rfl⟩, []), (.comma, ['\t']),
        (.opening .curly, []), (.word .aliasing, [' ']), (.word .aliasing, [' ']),
        (.word ⟨['b'], rfl⟩, []), (.closing .curly, []), (.word .sourcing, [])] (by decide)
      narrow := List.all_iff_forall_prop.mp (by decide) },
      noiseOf ";\n<b>\x7b".toList (by decide) (by decide)),
    (.dynamic ⟨⟨'"', importWord, rfl, rfl⟩, by decide, rfl⟩,
      noiseOf "\x7d<hr>\n".toList (by decide) (by decide))]

/-- Behind a decorator and among markup two imports are found, and nothing more for what their addresses hold. -/
theorem extract_text_decorated :
  decorated.text
      = "@dec\nimport a,\t\x7bas as b\x7dfrom'import(\x60u\x60)';\n<b>\x7bimport(\"import\")\x7d<hr>\n".toList
    ∧ Placed decorated.lead.text decorated.rest ∧ Clear decorated.rest
    ∧ decorated.IsRecovered
  := by
  have hp : Placed decorated.lead.text decorated.rest :=
    ⟨⟨by rintro _ ⟨⟩; rfl, .inr (by decide)⟩, by rintro _ ⟨⟩; rfl, trivial⟩
  have hc : Clear decorated.rest := by
    refine ⟨?_, fun _ => List.all_iff_forall_prop.mp (by decide), trivial⟩
    intro before inner left hbody _ htemplate
    cases before with
    | nil =>
      obtain rfl : "\x60u\x60)".toList = inner := @List.append_cancel_left _ (importWord ++ ['(']) _ _ hbody
      obtain rfl : "';\n<b>\x7bimport(\"import\")\x7d<hr>\n".toList = left :=
        Option.some.inj htemplate.behindDynamic?_eq
      exact ⟨"';\n<b>\x7b".toList, rfl⟩
    | cons c before =>
      -- the word would begin behind the first letter of the address
      have hmem : 'i' ∈ "mport(\x60u\x60)".toList := by
        have htail : "mport(\x60u\x60)".toList = before ++ (importWord ++ '(' :: inner) :=
          (List.cons.inj hbody).2
        rw [htail]
        simp [importWord]
      exact absurd hmem (by decide)
  exact ⟨rfl, hp, hc, extract_text decorated hp hc⟩

/-- Two dynamic imports, of which the first has an address that opens a static import up to the second. -/
def opened : Source where
  lead := noiseOf [] (by decide) (by decide)
  rest := [
    (.dynamic ⟨⟨'\'', importWord, rfl, rfl⟩, by decide, rfl⟩, noiseOf [';'] (by decide) (by decide)),
    (.dynamic ⟨⟨'\'', ['x'], rfl, rfl⟩, by decide, rfl⟩, noiseOf [] (by decide) (by decide))]

/-- A static import of an address. -/
def bare (address : Address) : Static where
  bindings := .nothing
  address := address
  front := importWord ++ [' ']
  spells := @spells_write [(.word .importing, [' '])] rfl
  narrow := List.all_iff_forall_prop.mp (by decide)

/-- Two static imports with a dynamic one between them.  A dynamic import of a template begins in the first
address and ends in the second. -/
def swallowed : Source where
  lead := noiseOf [] (by decide) (by decide)
  rest := [
    (.static (bare ⟨⟨'\'', "import(\x60".toList, rfl, rfl⟩, by decide, rfl⟩),
      noiseOf ['\n'] (by decide) (by decide)),
    (.dynamic ⟨⟨'\'', ['x'], rfl, rfl⟩, by decide, rfl⟩,
      noiseOf ['\n'] (by decide) (by decide)),
    (.static (bare ⟨⟨'\'', "\x60)".toList, rfl, rfl⟩, by decide, rfl⟩),
      noiseOf ['\n'] (by decide) (by decide))]

/-- What is read from one address of `opened` to the next as a static import. -/
def betweenOpened : Static where
  bindings := .nothing
  address := ⟨⟨'\'', ");import(".toList, rfl, rfl⟩, by decide, rfl⟩
  front := importWord
  spells := @spells_write [(.word .importing, [])] rfl
  narrow := List.all_iff_forall_prop.mp (by decide)

/-- One static import more is found where an address opens it and another address is read as its end. -/
theorem reduce_opened :
  reduce opened.text
    = lines ((opened.pieces.take 1).map .piece ++ .piece (.static betweenOpened)
      :: (opened.pieces.drop 1).map .piece)
  := by
  have hstatic : find behindStatement? 0 0 true opened.text
      = [(8, (Piece.static betweenOpened).text)] := by rfl
  have hdynamic : find behindDynamic? 0 0 true opened.text
      = [(0, "import('import')".toList), (17, "import('x')".toList)] := by rfl
  have hremove : Comment.remove opened.text = opened.text := opened.remove_text
  rw [reduce, statements, hremove]
  simp only [hstatic, hdynamic]
  simp only [List.merge]
  rfl

/-- The dynamic import of a template that is read from one address of `swallowed` to the other. -/
def acrossSwallowed : Template where
  contents := "'\nimport('x')\nimport '".toList
  isChunk := rfl

/-- A template that begins in one address and ends in another swallows the dynamic import between them. -/
theorem reduce_swallowed :
  reduce swallowed.text
    = lines ((swallowed.pieces.take 1).map .piece ++ .template acrossSwallowed
      :: (swallowed.pieces.drop 2).map .piece)
  := by
  have hstatic : find behindStatement? 0 0 true swallowed.text
      = [(0, "import 'import(\x60'".toList), (30, "import '\x60)'".toList)] := by rfl
  have hdynamic : find behindDynamic? 0 0 true swallowed.text
      = [(8, acrossSwallowed.text)] := by rfl
  have hremove : Comment.remove swallowed.text = swallowed.text := swallowed.remove_text
  rw [reduce, statements, hremove]
  simp only [hstatic, hdynamic]
  simp only [List.merge]
  rfl

/-- Where the address of a piece begins an import of the other kind that takes up a dynamic import, an import
is invented or lost. -/
theorem not_isRecovered_opened_swallowed :
  (opened.text = "import('import');import('x')".toList ∧ Placed opened.lead.text opened.rest
      ∧ ¬ opened.IsRecovered)
    ∧ swallowed.text = "import 'import(\x60'\nimport('x')\nimport '\x60)'\n".toList
      ∧ Placed swallowed.lead.text swallowed.rest ∧ ¬ swallowed.IsRecovered
  := by
  rw [Source.isRecovered_iff reduce_opened, Source.isRecovered_iff reduce_swallowed]
  refine ⟨⟨rfl, ⟨?_, ?_, trivial⟩, by decide +kernel⟩,
    rfl, ⟨?_, ?_, ?_, trivial⟩, by decide +kernel⟩
  · rintro _ ⟨⟩
  · rintro _ ⟨⟩
    rfl
  · exact ⟨nofun, .inl (by decide)⟩
  · rintro _ ⟨⟩
    rfl
  · exact ⟨by rintro _ ⟨⟩; rfl, .inl (by decide)⟩

end ImportCensus.Salvage
