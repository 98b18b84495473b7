import ImportCensus.Proofs.Scan.Run

/-!
# Progress

The scanner is a loop over tokens, and its readers of spaces, clauses, declarations and literals are loops
within it.  Each loop is written as what one iteration of it does: it raises an error, it answers, or it
goes on at another place.  A reader answers what its loop answers, since it does what one iteration does
and then what it does itself from the place that the iteration has led to.

Going on always leads further, so every loop ends.  Where an escape stands at the end of a literal that is
not closed, going on leads past the end of the source, and the next iteration raises an error.
-/

namespace ImportCensus.Scan

/-! ### Loops -/

/-- What one iteration of a loop does. -/
inductive Move (σ α : Type) where
  | raise (e : ScanError)
  | answer (a : α)
  | go (next : σ)

section

variable {σ α β : Type}

namespace Move

/-- What an iteration ends in, given what is answered from where it goes on. -/
def conclude (goOn : σ → Except ScanError α) : Move σ α → Except ScanError α
  | raise e => .error e
  | answer a => .ok a
  | go next => goOn next

/-- What an iteration answers or raises, unless it goes on. -/
def ending? : Move σ α → Option (Except ScanError α)
  | raise e => some (.error e)
  | answer a => some (.ok a)
  | go _ => none

/-- An iteration that raises the error of a reader, or else does something with what the reader answers. -/
def after (read : Except ScanError β) (f : β → Move σ α) : Move σ α :=
  match read with
  | .error e => raise e
  | .ok b => f b

/-- What is read without an error is gone on with. -/
theorem after_ok (b : β) (f : β → Move σ α) :
  after (.ok b) f = f b
  := rfl

/-- A move that goes on has read what it goes on with. -/
theorem exists_of_after_eq_go {read : Except ScanError β} {f : β → Move σ α} {next : σ}
    (h : after read f = go next) :
  ∃ b, read = .ok b ∧ f b = go next
  := by
  unfold after at h
  split at h
  · cases h
  · exact ⟨_, rfl, h⟩

/-- A conclusion behind a reader is reached behind what it has read. -/
theorem conclude_after (read : Except ScanError β) (f : β → Move σ α)
    (goOn : σ → Except ScanError α) :
  (after read f).conclude goOn = read.bind fun b => (f b).conclude goOn
  := by
  cases read with
  | error e => rfl
  | ok b => rfl

end Move

/-- So many iterations of a loop lead from one place to another. -/
inductive Iterated (move : σ → Move σ α) : Nat → σ → σ → Prop where
  | none (s : σ) : Iterated move 0 s s
  | next {n : Nat} {s t u : σ} (hs : move s = .go t) (h : Iterated move n t u) :
    Iterated move (n + 1) s u

/-- A loop ends in an answer or an error. -/
def EndsIn (move : σ → Move σ α) (s : σ) (result : Except ScanError α) : Prop :=
  ∃ n t, Iterated move n s t ∧ (move t).ending? = some result

variable {move : σ → Move σ α} {read : σ → Except ScanError α} {n : Nat} {s t : σ}

/-- What every iteration keeps is kept by any number of them, and each of them leads further by an offset
at least. -/
theorem Iterated.add_le (place : σ → Prop) (offset : σ → Nat) (h : Iterated move n s t) (hs : place s)
    (hmove : ∀ s next, place s → move s = .go next → place next ∧ offset s < offset next) :
  place t ∧ offset s + n ≤ offset t
  := by
  induction h with
  | none s => exact ⟨hs, Nat.le_refl _⟩
  | next hgo h ih =>
    have hnext := hmove _ _ hs hgo
    have hrest := ih hnext.1
    exact ⟨hrest.1, by omega⟩

/-- A loop that always leads further within bounds ends, and it ends as a reader does which follows it. -/
theorem endsIn_of_advances (place : σ → Prop) (offset : σ → Nat) (bound : Nat)
    (hread : ∀ s, place s → read s = (move s).conclude read)
    (hmove : ∀ s next, place s → move s = .go next →
      place next ∧ offset s < offset next ∧ offset next ≤ bound)
    (hs : place s) :
  EndsIn move s (read s)
  := by
  -- what is left up to the bound becomes less with every iteration
  induction hleft : bound - offset s using Nat.strong_induction_on generalizing s with
  | _ left ih =>
    rw [hread s hs]
    cases hm : move s with
    | raise e => exact ⟨0, s, .none s, by rw [hm]; rfl⟩
    | answer a => exact ⟨0, s, .none s, by rw [hm]; rfl⟩
    | go next =>
      obtain ⟨hnext, hlt, hle⟩ := hmove s next hs hm
      obtain ⟨n, t, hiterated, hend⟩ := ih _ (by omega) hnext rfl
      exact ⟨n + 1, t, .next hm hiterated, hend⟩

/-- Going on leads further within a source. -/
def Advances (source : Text) (offset : σ → Nat) (s next : σ) : Prop :=
  offset s < offset next ∧ offset next ≤ source.length

/-- Going on leads past the end of a source behind an escape, where an error is raised. -/
def Overshoots (source : Text) (offset : σ → Nat) (move : σ → Move σ α) (s next : σ) : Prop :=
  source[offset s]? = some '\\' ∧ offset next = source.length + 1 ∧ ∃ e, move next = .raise e

end

/-! ### The loops over cursors -/

/-- A cursor stands inside of its source. -/
theorem Cursor.position_le_length (c : Cursor) :
  c.position ≤ c.source.length
  := by
  rw [Cursor.position, Cursor.source, List.length_append, Trail.length_text]
  omega

/-- A loop over the places of a source leads further with every iteration, and it ends as a reader does. -/
structure CursorLoop {α : Type} (source : Text) (move : Cursor → Move Cursor α)
    (read : Cursor → Except ScanError α) : Prop where
  advances {c next : Cursor} (hc : c.source = source) (hgo : move c = .go next) :
    next.source = source ∧ Advances source Cursor.position c next
  endsIn {c : Cursor} (hc : c.source = source) :
    EndsIn move c (read c)

/-- A loop that leaves less of what is in front of it. -/
theorem cursorLoop_of_length_lt {α : Type} {move : Cursor → Move Cursor α}
    {read : Cursor → Except ScanError α}
    (hmove : ∀ c next, move c = .go next →
      next.source = c.source ∧ next.rest.length < c.rest.length)
    (hread : ∀ c, read c = (move c).conclude read) (source : Text) :
  CursorLoop source move read
  := by
  have hadvances : ∀ c next : Cursor, c.source = source → move c = .go next →
      next.source = source ∧ Advances source Cursor.position c next := by
    intro c next hc hgo
    obtain ⟨hsource, hlt⟩ := hmove c next hgo
    have hlength := congrArg List.length hsource
    rw [Cursor.source, Cursor.source, List.length_append, List.length_append, Trail.length_text,
      Trail.length_text] at hlength
    refine ⟨hsource.trans hc, ?_, ?_⟩
    · rw [Cursor.position, Cursor.position]
      omega
    · rw [← hc, ← hsource]
      apply Cursor.position_le_length
  constructor
  · exact hadvances _ _
  · exact endsIn_of_advances (·.source = source) _ _ (fun c _ => hread c) hadvances

/-- One iteration over spaces and comments. -/
def triviaMove (c : Cursor) : Move Cursor Cursor :=
  match c.rest with
  | [] => .answer c
  | first :: rest =>
    if isSpace first then .go ⟨c.before.add .code [first], rest⟩
    else
      match readComment? c.before c.rest with
      | none => .answer c
      | some comment => .after comment .go

/-- Spaces and comments are skipped by one move after the other. -/
theorem skipTrivia_eq_conclude (c : Cursor) :
  skipTrivia c.before c.rest
    = (triviaMove c).conclude fun next => skipTrivia next.before next.rest
  := by
  obtain ⟨before, text⟩ := c
  unfold triviaMove
  cases text with
  | nil =>
    rw [skipTrivia.eq_def]
    rfl
  | cons first rest =>
    rw [skipTrivia_cons]
    simp only
    split
    · rfl
    · cases readComment? before (first :: rest) with
      | none => rfl
      | some comment =>
        cases comment with
        | error e => rfl
        | ok cursor => rfl

/-- The loop that skips spaces and comments. -/
theorem cursorLoop_skipTrivia (source : Text) :
  CursorLoop source triviaMove fun c => skipTrivia c.before c.rest
  := by
  refine cursorLoop_of_length_lt ?_ skipTrivia_eq_conclude source
  rintro ⟨before, text⟩ next hgo
  unfold triviaMove at hgo
  cases text with
  | nil => cases hgo
  | cons first rest =>
    simp only at hgo
    split at hgo
    · cases hgo
      simp [Cursor.source]
    · split at hgo
      · cases hgo
      · rename_i comment hcomment
        obtain ⟨cursor, rfl, hcursor⟩ := Move.exists_of_after_eq_go hgo
        cases hcursor
        exact ⟨source_of_readComment? hcomment, length_readComment? hcomment⟩

/-- One iteration within the curly brackets of a clause that was opened at `opened`.  A comment is passed
with the spaces and comments behind it. -/
def clauseMove (opened : Nat) (c : Cursor) : Move Cursor Cursor :=
  match c.rest with
  | [] => .raise (.unterminatedClause opened)
  | first :: rest =>
    if isQuote first then .after (readString c.before first rest) .go
    else if first = '}' then .answer ⟨c.before.add .code [first], rest⟩
    else if beginsComment c.rest then .after (skipTrivia c.before c.rest) .go
    else .go ⟨c.before.add .code [first], rest⟩

/-- A space between curly brackets is skipped alone. -/
theorem skipClause_cons_of_isSpace {c : Char} (hc : isSpace c = true) (opened : Nat) (before : Trail)
    (rest : Text) :
  skipClause opened before (c :: rest) = skipClause opened (before.add .code [c]) rest
  := by
  have hquote : isQuote c = false := by
    rw [isQuote, Bool.or_eq_false_iff, beq_eq_false_iff_ne, beq_eq_false_iff_ne]
    constructor
    · rintro rfl
      exact absurd hc (by decide)
    · rintro rfl
      exact absurd hc (by decide)
  have hbrace : c ≠ '}' := by
    rintro rfl
    exact absurd hc (by decide)
  have hslash : c ≠ '/' := by
    rintro rfl
    exact absurd hc (by decide)
  rw [skipClause_cons, if_neg (by simp [hquote]), if_neg hbrace,
    readComment?_eq_none_iff.mpr (beginsComment_of_ne hslash rest)]

/-- A comment between curly brackets is skipped as a whole. -/
theorem skipClause_cons_of_readComment? {c : Char} {before : Trail} {rest : Text}
    {comment : Except ScanError Cursor} (hcomment : readComment? before (c :: rest) = some comment)
    (opened : Nat) :
  skipClause opened before (c :: rest)
    = comment.bind fun cursor => skipClause opened cursor.before cursor.rest
  := by
  have hbegins : beginsComment (c :: rest) = true := by
    rw [← Bool.not_eq_false]
    intro hnone
    rw [readComment?_eq_none_iff.mpr hnone] at hcomment
    cases hcomment
  obtain ⟨tail, ht⟩ := exists_of_beginsComment hbegins
  cases ht
  rw [skipClause_cons, if_neg (by decide), if_neg (by decide), hcomment]
  cases comment with
  | error e => rfl
  | ok cursor => rfl

/-- Spaces and comments in a clause may be passed at once. -/
theorem skipClause_eq_bind_skipTrivia (opened : Nat) (before : Trail) (text : Text) :
  skipClause opened before text
    = (skipTrivia before text).bind fun c => skipClause opened c.before c.rest
  := by
  fun_induction skipTrivia before text with
  | case1 => rfl
  | case2 before c rest hc ih => rw [skipClause_cons_of_isSpace hc, ih]
  | case3 => rfl
  | case4 before c rest hc e he => exact skipClause_cons_of_readComment? he opened
  | case5 before c rest hc cursor he ih => exact (skipClause_cons_of_readComment? he opened).trans ih

/-- What stands between curly brackets is skipped by one move after the other. -/
theorem skipClause_eq_conclude (opened : Nat) (c : Cursor) :
  skipClause opened c.before c.rest
    = (clauseMove opened c).conclude fun next => skipClause opened next.before next.rest
  := by
  obtain ⟨before, text⟩ := c
  unfold clauseMove
  cases text with
  | nil =>
    rw [skipClause.eq_def]
    rfl
  | cons first rest =>
    simp only
    split
    · rename_i hquote
      rw [skipClause_cons, if_pos hquote, Move.conclude_after]
      cases readString before first rest with
      | error e => rfl
      | ok cursor => rfl
    · rename_i hquote
      split
      · rename_i hbrace
        rw [skipClause_cons, if_neg hquote, if_pos hbrace, Move.conclude]
      · rename_i hbrace
        split
        · rw [skipClause_eq_bind_skipTrivia, Move.conclude_after]
          rfl
        · rename_i hcomment
          rw [skipClause_cons, if_neg hquote, if_neg hbrace,
            readComment?_eq_none_iff.mpr (by simpa using hcomment)]
          rfl

/-- Spaces and comments that begin with a comment leave less of a text. -/
theorem length_skipTrivia_of_beginsComment {before : Trail} {text : Text} {c : Cursor}
    (hcomment : beginsComment text = true) (h : skipTrivia before text = .ok c) :
  c.rest.length < text.length
  := by
  obtain ⟨tail, rfl⟩ := exists_of_beginsComment hcomment
  rw [skipTrivia_cons, if_neg (by decide)] at h
  split at h
  · rename_i hnone
    rw [readComment?_eq_none_iff.mp hnone] at hcomment
    cases hcomment
  · cases h
  · rename_i cursor hcursor
    exact Nat.lt_of_le_of_lt (length_skipTrivia h) (length_readComment? hcursor)

/-- The loop that skips what stands between curly brackets. -/
theorem cursorLoop_skipClause (opened : Nat) (source : Text) :
  CursorLoop source (clauseMove opened) fun c => skipClause opened c.before c.rest
  := by
  refine cursorLoop_of_length_lt ?_ (skipClause_eq_conclude opened) source
  rintro ⟨before, text⟩ next hgo
  unfold clauseMove at hgo
  cases text with
  | nil => cases hgo
  | cons first rest =>
    simp only at hgo
    split at hgo
    · obtain ⟨cursor, hcursor, hnext⟩ := Move.exists_of_after_eq_go hgo
      cases hnext
      refine ⟨source_of_readString hcursor, ?_⟩
      exact Nat.lt_succ_of_lt (length_readString hcursor)
    · split at hgo
      · cases hgo
      · split at hgo
        · rename_i hcomment
          obtain ⟨cursor, hcursor, hnext⟩ := Move.exists_of_after_eq_go hgo
          cases hnext
          exact ⟨source_of_skipTrivia hcursor, length_skipTrivia_of_beginsComment hcomment hcursor⟩
        · cases hgo
          simp [Cursor.source]

/-- What an iteration over an import declaration does behind the word `from`. -/
def fromMove (statementStart : Nat) (place : Cursor) : Move Cursor Declaration :=
  match place.rest with
  | [] => .go place
  | q :: tail =>
    if isQuote q then .after (readSpecifier statementStart place.before q tail) .answer
    else .go place

/-- What an iteration over an import declaration does behind spaces and comments. -/
def clausePartMove (statementStart : Nat) (place : Cursor) : Move Cursor Declaration :=
  match place.rest with
  | [] => .raise (.unterminatedImport statementStart)
  | first :: rest =>
    if first = '{' then
      .after (skipClause place.position (place.before.add .code [first]) rest) .go
    else if first = '*' || first = ',' then .go ⟨place.before.add .code [first], rest⟩
    else if isIdentifierStart first then
      let passed := place.before.add .code (wordOf first rest)
      if wordOf first rest = fromWord then
        .after (skipTrivia passed (behindWord rest)) (fromMove statementStart)
      else .go ⟨passed, behindWord rest⟩
    else .answer { cursor := place, occurrence := none, expects := .operator }

/-- One iteration over an import declaration that begins at `statementStart`. -/
def importMove (statementStart : Nat) (c : Cursor) : Move Cursor Declaration :=
  .after (skipTrivia c.before c.rest) (clausePartMove statementStart)

/-- At a word a clause ends, if a string follows the word `from`, or goes on behind it. -/
theorem clausePartMove_word {statementStart : Nat} {before : Trail} {first : Char} {rest : Text}
    (hbrace : ¬first = '{') (hmark : ¬(first = '*' || first = ',') = true)
    (hword : isIdentifierStart first = true) :
  clausePartMove statementStart ⟨before, first :: rest⟩
    = if wordOf first rest = fromWord then
        .after (skipTrivia (before.add .code (wordOf first rest)) (behindWord rest))
          (fromMove statementStart)
      else .go ⟨before.add .code (wordOf first rest), behindWord rest⟩
  := by
  simp only [clausePartMove, if_neg hbrace, if_neg hmark, if_pos hword]

/-- A clause is read by one move after the other. -/
theorem importClause_eq_conclude (statementStart : Nat) (c : Cursor) :
  importClause statementStart c.before c.rest
    = (importMove statementStart c).conclude fun next =>
        importClause statementStart next.before next.rest
  := by
  rw [importMove]
  fun_cases importClause statementStart c.before c.rest with
  | case1 e he => rw [he]; rfl
  | case2 before he => rw [he]; rfl
  | case3 before rest e he hclause =>
    rw [he, Move.after_ok, clausePartMove]
    simp only [if_true, Cursor.position, hclause]
    rfl
  | case4 before rest cursor he hclause =>
    rw [he, Move.after_ok, clausePartMove]
    simp only [if_true, Cursor.position, hclause]
    rfl
  | case5 before first rest he hbrace hmark =>
    rw [he, Move.after_ok, clausePartMove]
    simp only [if_neg hbrace, if_pos hmark]
    rfl
  | case6 before first rest he hbrace hmark hword passed hfrom e hskip =>
    rw [he, Move.after_ok, clausePartMove_word hbrace hmark hword, if_pos hfrom]
    rw [show skipTrivia (before.add .code (wordOf first rest)) (behindWord rest) = _ from hskip]
    rfl
  | case7 before first rest he hbrace hmark hword passed hfrom behind hskip =>
    rw [he, Move.after_ok, clausePartMove_word hbrace hmark hword, if_pos hfrom]
    rw [show skipTrivia (before.add .code (wordOf first rest)) (behindWord rest) = _ from hskip]
    rfl
  | case8 before first rest he hbrace hmark hword passed hfrom behind q tail hskip hquote =>
    rw [he, Move.after_ok, clausePartMove_word hbrace hmark hword, if_pos hfrom]
    rw [show skipTrivia (before.add .code (wordOf first rest)) (behindWord rest) = _ from hskip]
    rw [Move.after_ok, fromMove]
    simp only [if_pos hquote, Move.conclude_after]
    cases readSpecifier statementStart behind q tail with
    | error e => rfl
    | ok d => rfl
  | case9 before first rest he hbrace hmark hword passed hfrom behind q tail hskip hquote =>
    rw [he, Move.after_ok, clausePartMove_word hbrace hmark hword, if_pos hfrom]
    rw [show skipTrivia (before.add .code (wordOf first rest)) (behindWord rest) = _ from hskip]
    rw [Move.after_ok, fromMove]
    simp only [if_neg hquote]
    rfl
  | case10 before first rest he hbrace hmark hword passed hfrom =>
    rw [he, Move.after_ok, clausePartMove_word hbrace hmark hword, if_neg hfrom]
    rfl
  | case11 before first rest he hbrace hmark hword =>
    rw [he, Move.after_ok, clausePartMove]
    simp only [if_neg hbrace, if_neg hmark, if_neg hword]
    rfl

/-- Behind a word `from` without a string the clause goes on where spaces and comments end. -/
theorem eq_of_fromMove_eq_go {statementStart : Nat} {place next : Cursor}
    (h : fromMove statementStart place = .go next) :
  place = next
  := by
  unfold fromMove at h
  split at h
  · cases h
    rfl
  · split at h
    · obtain ⟨d, -, hd⟩ := Move.exists_of_after_eq_go h
      cases hd
    · cases h
      rfl

/-- A clause goes on in the same source, with less of it left. -/
theorem source_of_clausePartMove {statementStart : Nat} {place next : Cursor}
    (h : clausePartMove statementStart place = .go next) :
  next.source = place.source ∧ next.rest.length < place.rest.length
  := by
  obtain ⟨before, text⟩ := place
  cases text with
  | nil => cases h
  | cons first rest =>
    by_cases hbrace : first = '{'
    · simp only [clausePartMove, if_pos hbrace] at h
      obtain ⟨cursor, hcursor, hnext⟩ := Move.exists_of_after_eq_go h
      cases hnext
      refine ⟨?_, Nat.lt_succ_of_lt (length_skipClause hcursor)⟩
      simpa [Cursor.source] using source_of_skipClause hcursor
    by_cases hmark : (first = '*' || first = ',') = true
    · simp only [clausePartMove, if_neg hbrace, if_pos hmark] at h
      cases h
      simp [Cursor.source]
    by_cases hword : isIdentifierStart first = true
    · have hsource : before.text ++ wordOf first rest ++ behindWord rest = before.text ++ first :: rest := by
        rw [List.append_assoc, wordOf_append_behindWord]
      have hlength := length_behindWord_le rest
      rw [clausePartMove_word hbrace hmark hword] at h
      split at h
      · obtain ⟨behind, hbehind, hnext⟩ := Move.exists_of_after_eq_go h
        obtain rfl := eq_of_fromMove_eq_go hnext
        refine ⟨?_, Nat.lt_succ_of_le ((length_skipTrivia hbehind).trans hlength)⟩
        rw [source_of_skipTrivia hbehind, Trail.text_add, hsource]
        rfl
      · cases h
        refine ⟨?_, Nat.lt_succ_of_le hlength⟩
        rw [Cursor.source, Trail.text_add, hsource]
        rfl
    · simp only [clausePartMove, if_neg hbrace, if_neg hmark, if_neg hword] at h
      cases h

/-- The loop that reads a clause. -/
theorem cursorLoop_importClause (statementStart : Nat) (source : Text) :
  CursorLoop source (importMove statementStart) fun c =>
    importClause statementStart c.before c.rest
  := by
  refine cursorLoop_of_length_lt ?_ (importClause_eq_conclude statementStart) source
  intro c next hgo
  obtain ⟨place, hplace, hpart⟩ := Move.exists_of_after_eq_go hgo
  obtain ⟨hsource, hlength⟩ := source_of_clausePartMove hpart
  exact ⟨hsource.trans (source_of_skipTrivia hplace),
    Nat.lt_of_lt_of_le hlength (length_skipTrivia hplace)⟩

/-! ### The loops over offsets -/

/-- The offset behind a literal, given the reader's answer from the offset within it and how much closes
it. -/
def offsetBehind {α : Type} (e : ScanError) (closing : α → Nat) (p : Nat) :
  Option (Text × α) → Except ScanError Nat
  | none => .error e
  | some (contents, answer) => .ok (p + contents.length + closing answer)

/-- What is read first moves the offset on by its length. -/
theorem offsetBehind_withFront {α : Type} (e : ScanError) (closing : α → Nat) (p : Nat) (front : Text)
    (read : Option (Text × α)) :
  offsetBehind e closing p (withFront front read) = offsetBehind e closing (p + front.length) read
  := by
  cases read with
  | none => rfl
  | some answered => simp [withFront, offsetBehind, Nat.add_assoc]

section

variable {source text rest : Text} {p : Nat} {c : Char}

/-- One character less is left at the next offset. -/
theorem drop_succ_of_drop_eq_cons (h : source.drop p = c :: rest) :
  source.drop (p + 1) = rest
  := by
  rw [← List.tail_drop, h, List.tail_cons]

/-- Behind as many characters as a trail has stands what is left. -/
theorem Trail.drop_text_append (before : Trail) (rest : Text) :
  (before.text ++ rest).drop before.length = rest
  := by
  rw [← before.length_text, List.drop_left]

/-- Where a character is left the offset is inside of the source. -/
theorem lt_length_of_drop_eq_cons (h : source.drop p = c :: rest) :
  p < source.length
  := by
  have hlength := congrArg List.length h
  rw [List.length_drop, List.length_cons] at hlength
  omega

/-- The first character that is left stands at the offset. -/
theorem getElem?_of_drop_eq_cons (h : source.drop p = c :: rest) :
  source[p]? = some c
  := by
  rw [← List.head?_drop, h, List.head?_cons]

end

/-- A loop over the offsets in a source leads further with every iteration.  Only an escape may lead it
past the end, where it raises an error. -/
def OffsetLoop {σ : Type} (source : Text) (offset : σ → Nat) (move : σ → Move σ Nat) : Prop :=
  ∀ s next, move s = .go next →
    Advances source offset s next ∨ Overshoots source offset move s next

/-- A loop over offsets ends after as many moves as there are characters. -/
theorem OffsetLoop.endsIn {σ : Type} {source : Text} {offset : σ → Nat} {move : σ → Move σ Nat}
    {read : σ → Except ScanError Nat} (h : OffsetLoop source offset move)
    (hread : ∀ s, read s = (move s).conclude read) (s : σ) :
  EndsIn move s (read s)
  := by
  apply endsIn_of_advances (fun _ => True) offset (source.length + 1)
  · exact fun s _ => hread s
  · intro s next _ hgo
    obtain ⟨hlt, hle⟩ | ⟨hescape, hover, -⟩ := h s next hgo
    · exact ⟨trivial, hlt, by omega⟩
    · have hlt := (List.getElem?_eq_some_iff.mp hescape).1
      exact ⟨trivial, by omega, by omega⟩
  · trivial

section

variable {σ : Type} {source rest : Text} {offset : σ → Nat} {move : σ → Move σ Nat} {s next : σ}
  {c : Char}

/-- A move to the next offset leaves less. -/
theorem advances_of_succ (hs : source.drop (offset s) = c :: rest)
    (hnext : offset next = offset s + 1) :
  Advances source offset s next
  := by
  have hlt := lt_length_of_drop_eq_cons hs
  exact ⟨by omega, by omega⟩

/-- An escape leads further, or it stands at the end of the source. -/
theorem advances_or_overshoots (hs : source.drop (offset s) = '\\' :: rest)
    (hnext : offset next = offset s + 2)
    (hraise : source.drop (offset next) = [] → ∃ e, move next = .raise e) :
  Advances source offset s next ∨ Overshoots source offset move s next
  := by
  have hlt := lt_length_of_drop_eq_cons hs
  by_cases hle : offset next ≤ source.length
  · exact .inl ⟨by omega, hle⟩
  · exact .inr ⟨getElem?_of_drop_eq_cons hs, by omega,
      hraise (List.drop_eq_nil_of_le (by omega))⟩

end

/-- One iteration over a string that was opened at `opened`. -/
def stringMove (source : Text) (quote : Char) (opened p : Nat) : Move Nat Nat :=
  match source.drop p with
  | [] => .raise (.unterminatedString opened)
  | c :: _ =>
    if c = '\\' then .go (p + 2)
    else if c = quote then .answer (p + 1)
    else if isLineBreak c then .raise (.unterminatedString opened)
    else .go (p + 1)

/-- The offset behind a string, from an offset within it. -/
def stringEnd (source : Text) (quote : Char) (opened p : Nat) : Except ScanError Nat :=
  offsetBehind (.unterminatedString opened) (fun _ => 1) p (stringBody? quote (source.drop p))

/-- The end of a string is found by one move after the other. -/
theorem stringEnd_eq_conclude (source : Text) (quote : Char) (opened p : Nat) :
  stringEnd source quote opened p
    = (stringMove source quote opened p).conclude (stringEnd source quote opened)
  := by
  rw [stringEnd, stringMove]
  cases hdrop : source.drop p with
  | nil => rfl
  | cons c rest =>
    have hrest := drop_succ_of_drop_eq_cons hdrop
    simp only
    split
    · rename_i hescape
      subst hescape
      rw [Move.conclude, stringEnd, ← List.tail_drop, hrest]
      cases rest with
      | nil => rfl
      | cons d tail => exact offsetBehind_withFront _ _ _ _ _
    · rename_i hescape
      rw [stringBody?_cons hescape]
      split
      · rfl
      · split
        · rfl
        · rw [Move.conclude, stringEnd, hrest, offsetBehind_withFront]
          rfl

/-- The loop that looks for the end of a string. -/
theorem offsetLoop_stringMove (source : Text) (quote : Char) (opened : Nat) :
  OffsetLoop source id (stringMove source quote opened)
  := by
  intro p next hgo
  unfold stringMove at hgo
  split at hgo
  · cases hgo
  · rename_i c rest hdrop
    split at hgo
    · rename_i hescape
      subst hescape
      cases hgo
      refine advances_or_overshoots hdrop rfl fun hnil => ⟨.unterminatedString opened, ?_⟩
      rw [stringMove, show source.drop (p + 2) = [] from hnil]
    · split at hgo
      · cases hgo
      · split at hgo
        · cases hgo
        · cases hgo
          exact .inl (advances_of_succ hdrop rfl)

/-- The loop over a string ends as its reader does. -/
theorem endsIn_readString (before : Trail) (quote : Char) (text : Text) :
  EndsIn (stringMove (before.text ++ quote :: text) quote before.length) (before.length + 1)
    ((readString before quote text).map Cursor.position)
  := by
  have hend : (readString before quote text).map Cursor.position
      = stringEnd (before.text ++ quote :: text) quote before.length (before.length + 1) := by
    have hdrop : (before.text ++ quote :: text).drop (before.length + 1) = text :=
      drop_succ_of_drop_eq_cons (before.drop_text_append _)
    rw [stringEnd, hdrop, readString]
    split
    · rename_i hbody
      rw [hbody]
      rfl
    · rename_i body rest hbody
      rw [hbody]
      simp [Except.map, Cursor.position, offsetBehind]
      omega
  rw [hend]
  exact (offsetLoop_stringMove _ _ _).endsIn (stringEnd_eq_conclude _ _ _) _

/-- One iteration over a chunk of a template literal that was opened at `opened`. -/
def chunkMove (source : Text) (opened p : Nat) : Move Nat Nat :=
  match source.drop p with
  | [] => .raise (.unterminatedTemplate opened)
  | c :: rest =>
    if c = '\\' then .go (p + 2)
    else if c = '\x60' then .answer (p + 1)
    else if c = '$' ∧ rest.head? = some '{' then .answer (p + 2)
    else .go (p + 1)

/-- The offset behind a chunk, from an offset within it. -/
def chunkEnd (source : Text) (opened p : Nat) : Except ScanError Nat :=
  offsetBehind (.unterminatedTemplate opened) (fun behind => behind.1.text.length) p
    (templateChunk? (source.drop p))

/-- The end of a chunk is found by one move after the other. -/
theorem chunkEnd_eq_conclude (source : Text) (opened p : Nat) :
  chunkEnd source opened p = (chunkMove source opened p).conclude (chunkEnd source opened)
  := by
  rw [chunkEnd, chunkMove]
  cases hdrop : source.drop p with
  | nil => rfl
  | cons c rest =>
    have hrest := drop_succ_of_drop_eq_cons hdrop
    simp only
    split
    · rename_i hescape
      subst hescape
      rw [Move.conclude, chunkEnd, ← List.tail_drop, hrest]
      cases rest with
      | nil => rfl
      | cons d tail => exact offsetBehind_withFront _ _ _ _ _
    · rename_i hescape
      split
      · rename_i hbacktick
        subst hbacktick
        rfl
      · rename_i hbacktick
        split
        · rename_i hsubstitution
          obtain ⟨rfl, hhead⟩ := hsubstitution
          obtain ⟨tail, rfl⟩ := List.head?_eq_some_iff.mp hhead
          rfl
        · rename_i hsubstitution
          rw [templateChunk?_cons hescape, if_neg hbacktick, Move.conclude, chunkEnd, hrest,
            offsetBehind_withFront]
          · rfl
          · rintro tail rfl rfl
            exact hsubstitution ⟨rfl, rfl⟩

/-- The loop that looks for the end of a chunk. -/
theorem offsetLoop_chunkMove (source : Text) (opened : Nat) :
  OffsetLoop source id (chunkMove source opened)
  := by
  intro p next hgo
  unfold chunkMove at hgo
  split at hgo
  · cases hgo
  · rename_i c rest hdrop
    split at hgo
    · rename_i hescape
      subst hescape
      cases hgo
      refine advances_or_overshoots hdrop rfl fun hnil => ⟨.unterminatedTemplate opened, ?_⟩
      rw [chunkMove, show source.drop (p + 2) = [] from hnil]
    · split at hgo
      · cases hgo
      · split at hgo
        · cases hgo
        · cases hgo
          exact .inl (advances_of_succ hdrop rfl)

/-- The loop over a chunk of a template literal ends as its reader does. -/
theorem endsIn_template (s : State) (opened : Nat) (before : Trail) (rest : Text) :
  EndsIn (chunkMove (before.text ++ rest) opened) before.length
    ((s.template opened before rest).map fun next => next.cursor.position)
  := by
  have hend : (s.template opened before rest).map (fun next => next.cursor.position)
      = chunkEnd (before.text ++ rest) opened before.length := by
    rw [chunkEnd, before.drop_text_append, State.template]
    split
    · rename_i hchunk
      rw [hchunk]
      rfl
    · rename_i chunk behind hchunk
      rw [hchunk]
      simp [Except.map, State.goto, Cursor.position, offsetBehind, ChunkEnd.text]
      omega
    · rename_i chunk behind hchunk
      rw [hchunk]
      simp [Except.map, State.enter, Cursor.position, offsetBehind, ChunkEnd.text, Opener.text]
      omega
  rw [hend]
  exact (offsetLoop_chunkMove _ _).endsIn (chunkEnd_eq_conclude _ _) _

/-- What a regular expression is being read: its body, outside of square brackets or within them, or the
flags behind it. -/
inductive PatternPart where
  | body (bracketed : Bool)
  | flags

/-- One iteration over a regular expression that was opened at `opened`. -/
def patternMove (source : Text) (opened : Nat) : Nat × PatternPart → Move (Nat × PatternPart) Nat
  | (p, .body bracketed) =>
    match source.drop p with
    | [] => .raise (.unterminatedPattern opened)
    | c :: _ =>
      if isLineBreak c then .raise (.unterminatedPattern opened)
      else if c = '\\' then .go (p + 2, .body bracketed)
      else if c = '/' && !bracketed then .go (p + 1, .flags)
      else .go (p + 1, .body (c == '[' || (bracketed && c != ']')))
  | (p, .flags) =>
    match source.drop p with
    | [] => .answer p
    | c :: _ => if isIdentifierPart c then .go (p + 1, .flags) else .answer p

/-- The offset behind a regular expression, from an offset within it. -/
def patternEnd (source : Text) (opened : Nat) : Nat × PatternPart → Except ScanError Nat
  | (p, .body bracketed) =>
    offsetBehind (.unterminatedPattern opened)
      (fun behind => 1 + (behind.takeWhile isIdentifierPart).length) p
      (patternBody? bracketed (source.drop p))
  | (p, .flags) => .ok (p + ((source.drop p).takeWhile isIdentifierPart).length)

/-- The end of a regular expression is found by one move after the other. -/
theorem patternEnd_eq_conclude (source : Text) (opened : Nat) (place : Nat × PatternPart) :
  patternEnd source opened place
    = (patternMove source opened place).conclude (patternEnd source opened)
  := by
  obtain ⟨p, part⟩ := place
  cases part with
  | body bracketed =>
    rw [patternEnd, patternMove]
    cases hdrop : source.drop p with
    | nil => rfl
    | cons c rest =>
      have hrest := drop_succ_of_drop_eq_cons hdrop
      simp only
      split
      · rename_i hbreak
        have hescape : c ≠ '\\' := by
          rintro rfl
          cases hbreak
        rw [patternBody?_cons hescape, if_pos hbreak]
        rfl
      · rename_i hbreak
        split
        · rename_i hescape
          subst hescape
          rw [Move.conclude, patternEnd, ← List.tail_drop, hrest]
          cases rest with
          | nil => rfl
          | cons d tail => exact offsetBehind_withFront _ _ _ _ _
        · rename_i hescape
          rw [patternBody?_cons hescape, if_neg hbreak]
          split
          · rw [Move.conclude, patternEnd, hrest]
            simp [offsetBehind, Nat.add_assoc]
          · rw [Move.conclude, patternEnd, hrest, offsetBehind_withFront]
            rfl
  | flags =>
    rw [patternEnd, patternMove]
    cases hdrop : source.drop p with
    | nil => rfl
    | cons c rest =>
      simp only
      split
      · rename_i hpart
        rw [Move.conclude, patternEnd, drop_succ_of_drop_eq_cons hdrop,
          List.takeWhile_cons_of_pos hpart, List.length_cons, Nat.add_right_comm, Nat.add_assoc]
      · rename_i hpart
        rw [List.takeWhile_cons_of_neg hpart]
        rfl

/-- The loop that looks for the end of a regular expression. -/
theorem offsetLoop_patternMove (source : Text) (opened : Nat) :
  OffsetLoop source Prod.fst (patternMove source opened)
  := by
  rintro ⟨p, part⟩ next hgo
  cases part with
  | body bracketed =>
    rw [patternMove] at hgo
    split at hgo
    · cases hgo
    · rename_i c rest hdrop
      split at hgo
      · cases hgo
      · split at hgo
        · rename_i hescape
          subst hescape
          cases hgo
          refine advances_or_overshoots hdrop rfl fun hnil => ⟨.unterminatedPattern opened, ?_⟩
          rw [patternMove, show source.drop (p + 2) = [] from hnil]
        · split at hgo
          · cases hgo
            exact .inl (advances_of_succ hdrop rfl)
          · cases hgo
            exact .inl (advances_of_succ hdrop rfl)
  | flags =>
    rw [patternMove] at hgo
    split at hgo
    · cases hgo
    · rename_i c rest hdrop
      split at hgo
      · cases hgo
        exact .inl (advances_of_succ hdrop rfl)
      · cases hgo

/-- The loop over a regular expression ends as its reader does. -/
theorem endsIn_slash {s : State} {before : Trail} {rest : Text} (hs : s.expects = .operand)
    (hcomment : readComment? before ('/' :: rest) = none) :
  EndsIn (patternMove (before.text ++ '/' :: rest) before.length) (before.length + 1, .body false)
    ((s.slash before rest).map fun next => next.cursor.position)
  := by
  have hend : (s.slash before rest).map (fun next => next.cursor.position)
      = patternEnd (before.text ++ '/' :: rest) before.length (before.length + 1, .body false) := by
    have hdrop : (before.text ++ '/' :: rest).drop (before.length + 1) = rest :=
      drop_succ_of_drop_eq_cons (before.drop_text_append _)
    rw [patternEnd, hdrop, State.slash, hcomment, hs]
    simp only
    split
    · rename_i hbody
      rw [hbody]
      rfl
    · rename_i body behind hbody
      rw [hbody]
      simp [Except.map, State.goto, Cursor.position, offsetBehind]
      omega
  rw [hend]
  exact (offsetLoop_patternMove _ _).endsIn (patternEnd_eq_conclude _ _) _

/-! ### The loop over tokens -/

/-- One iteration of the scanner. -/
def State.move (s : State) : Move State (List Occurrence) :=
  match s.cursor.rest with
  | [] =>
    match s.frames with
    | [] => .answer s.found
    | frame :: _ => .raise (.unclosed frame.opener frame.position)
  | c :: rest => .after (s.step c rest) .go

/-- The scanner takes one step after the other. -/
theorem run_eq_conclude (s : State) :
  s.run.map State.found = s.move.conclude fun next => next.run.map State.found
  := by
  obtain ⟨⟨before, text⟩, expects, frames, found⟩ := s
  rw [State.move]
  cases text with
  | nil =>
    cases frames with
    | nil =>
      rw [State.run_nil]
      rfl
    | cons frame frames =>
      rw [State.run_nil_cons]
      rfl
  | cons c rest =>
    rw [State.run_cons]
    simp only [Move.conclude_after]
    cases State.step ⟨⟨before, c :: rest⟩, expects, frames, found⟩ c rest with
    | error e => rfl
    | ok next => rfl

/-- An iteration of the scanner that goes on leads further within the source. -/
theorem State.advances_of_move {source : Text} {s next : State} (hs : s.cursor.source = source)
    (hgo : s.move = .go next) :
  next.cursor.source = source ∧ Advances source (·.cursor.position) s next
  := by
  unfold State.move at hgo
  split at hgo
  · split at hgo
    · cases hgo
    · cases hgo
  · rename_i c rest hrest
    obtain ⟨n, hstep, hn⟩ := Move.exists_of_after_eq_go hgo
    cases hn
    obtain ⟨segment, h, he⟩ := exists_of_step hstep
    have hsource : next.cursor.source = source := by
      rw [Cursor.source, h.before_eq, Trail.text_pass, List.append_assoc, ← he, ← hrest]
      exact hs
    refine ⟨hsource, h.position_lt, ?_⟩
    rw [← hsource]
    apply Cursor.position_le_length

/-- Within the source, an iteration of the scanner raises an error or goes on. -/
theorem State.raises_or_goes_of_lt {source : Text} {s : State} (hs : s.cursor.source = source)
    (hlt : s.cursor.position < source.length) :
  (∃ e, s.move = .raise e) ∨ ∃ next, s.move = .go next
  := by
  unfold State.move
  split
  · rename_i hrest
    rw [← hs, Cursor.source, hrest, List.append_nil, Trail.length_text] at hlt
    exact absurd hlt (Nat.lt_irrefl _)
  · rename_i c rest hrest
    cases s.step c rest with
    | error e => exact .inl ⟨e, rfl⟩
    | ok next => exact .inr ⟨next, rfl⟩

/-- The state in front of a source has all of it. -/
theorem State.source_start (source : Text) :
  (start source).cursor.source = source
  := by
  obtain ⟨hashbang, rest, hh, rfl⟩ := exists_hashbang source
  rw [hh.start_eq]
  simp [State.behindHashbang, State.initial, Cursor.source]

/-- So many iterations from the start of a source pass as many characters at least. -/
theorem le_position_of_iterated {source : Text} {n : Nat} {s : State}
    (h : Iterated State.move n (State.start source) s) :
  s.cursor.source = source ∧ n ≤ s.cursor.position
  := by
  have hmove : ∀ t next : State, t.cursor.source = source → t.move = .go next →
      next.cursor.source = source ∧ t.cursor.position < next.cursor.position := by
    intro t next ht hgo
    have hadvances := State.advances_of_move ht hgo
    exact ⟨hadvances.1, hadvances.2.1⟩
  have hadd := Iterated.add_le (·.cursor.source = source) (·.cursor.position) h
    (State.source_start source) hmove
  exact ⟨hadd.1, by omega⟩

theorem endsIn_scan (source : Text) :
  EndsIn State.move (State.start source) (scan source)
  :=
  endsIn_of_advances (·.cursor.source = source) (·.cursor.position) source.length
    (fun s _ => run_eq_conclude s) (fun _ _ => State.advances_of_move) (State.source_start source)

/-- Every loop of the scanner progresses.

After `n` iterations over the tokens of a source the scanner has passed `n` characters at least.  If it is
not at the end of the source, the next iteration raises an error or leads further within the source.  So
there are no more iterations than characters, and the scanner ends.

Each iteration over spaces and comments, over a clause, and over an import declaration leads further within
the source, if it goes on at all, and each iteration over a string, a chunk of a template literal, and a
regular expression does so or leads past the end of the source behind an escape, where an error is raised.
All of these loops end as the readers do. -/
theorem progress_scan (source : Text) :
  (∀ n s, Iterated State.move n (State.start source) s →
      s.cursor.source = source ∧ n ≤ s.cursor.position
        ∧ (s.cursor.position < source.length →
          n < source.length
            ∧ ((∃ e, s.move = .raise e)
              ∨ ∃ next, s.move = .go next ∧ Advances source (·.cursor.position) s next)))
    ∧ (∃ n s, n ≤ source.length ∧ Iterated State.move n (State.start source) s
        ∧ s.move.ending? = some (scan source))
    ∧ (CursorLoop source triviaMove fun c => skipTrivia c.before c.rest)
    ∧ (∀ opened, CursorLoop source (clauseMove opened) fun c => skipClause opened c.before c.rest)
    ∧ (∀ statementStart,
        CursorLoop source (importMove statementStart) fun c =>
          importClause statementStart c.before c.rest)
    ∧ (∀ quote opened, OffsetLoop source id (stringMove source quote opened))
    ∧ (∀ opened, OffsetLoop source id (chunkMove source opened))
    ∧ (∀ opened, OffsetLoop source Prod.fst (patternMove source opened))
    ∧ (∀ before quote text, before.text ++ quote :: text = source →
        EndsIn (stringMove source quote before.length) (before.length + 1)
          ((readString before quote text).map Cursor.position))
    ∧ (∀ s opened before rest, before.text ++ rest = source →
        EndsIn (chunkMove source opened) before.length
          ((State.template s opened before rest).map fun next => next.cursor.position))
    ∧ (∀ s before rest, before.text ++ '/' :: rest = source → s.expects = .operand →
        readComment? before ('/' :: rest) = none →
        EndsIn (patternMove source before.length) (before.length + 1, .body false)
          ((State.slash s before rest).map fun next => next.cursor.position))
  := by
  refine ⟨?_, ?_, cursorLoop_skipTrivia source, (cursorLoop_skipClause · source),
    (cursorLoop_importClause · source), offsetLoop_stringMove source, offsetLoop_chunkMove source,
    offsetLoop_patternMove source, ?_, ?_, ?_⟩
  · intro n s h
    obtain ⟨hsource, hle⟩ := le_position_of_iterated h
    refine ⟨hsource, hle, fun hlt => ⟨by omega, ?_⟩⟩
    obtain hraise | ⟨next, hgo⟩ := State.raises_or_goes_of_lt hsource hlt
    · exact .inl hraise
    · exact .inr ⟨next, hgo, (State.advances_of_move hsource hgo).2⟩
  · obtain ⟨n, s, h, hend⟩ := endsIn_scan source
    obtain ⟨hsource, hle⟩ := le_position_of_iterated h
    have hlength := s.cursor.position_le_length
    rw [hsource] at hlength
    exact ⟨n, s, by omega, h, hend⟩
  · rintro before quote text rfl
    apply endsIn_readString
  · rintro s opened before rest rfl
    apply endsIn_template
  · rintro s before rest rfl hs hcomment
    exact endsIn_slash hs hcomment

end ImportCensus.Scan
