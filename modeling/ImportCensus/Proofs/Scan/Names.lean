import ImportCensus.Proofs.Scan.Veil

/-!
# Declarations that read like names

Not every declaration names a module: `export { a, b }` lists names of its own module, and
`import a = require('b')` has no clause that ends in a string.  A reader passes such a declaration
at once and finds nothing in it.  Where no more than names, strings and commas stand there, the
scanner comes to the same state if it takes the word in front for a name and goes on token by token.
-/

namespace ImportCensus.Scan

open Segment (of)

/-- Names and strings with commas, spaces and comments between them, given what stands behind.  No
name is a word that a declaration begins with. -/
inductive Names : Segment → Text → Prop where
  | nil {rest : Text} :
    Names [] rest
  | space {c : Char} {listing : Segment} {rest : Text} (hc : isSpace c = true)
      (h : Names listing rest) :
    Names ((c, .code) :: listing) rest
  | comment {comment : Text} {listing : Segment} {rest : Text}
      (hc : IsComment comment (listing.text ++ rest)) (h : Names listing rest) :
    Names (of .comment comment ++ listing) rest
  | comma {listing : Segment} {rest : Text} (h : Names listing rest) :
    Names ((',', .code) :: listing) rest
  | name {name : Text} {listing : Segment} {rest : Text} (hw : IsWord name (listing.text ++ rest))
      (hs : stops isSpace name = true) (hi : name ≠ importWord) (he : name ≠ exportWord)
      (h : Names listing rest) :
    Names (of .code name ++ listing) rest
  | string {quote : Char} {body : Text} {listing : Segment} {rest : Text}
      (hq : isQuote quote = true) (hb : IsStringBody quote body) (h : Names listing rest) :
    Names (Segment.string quote body ++ listing) rest

/-- Names in curly brackets stand in front of a text, without the source of an export behind them. -/
def ExportsNames (text : Text) : Prop :=
  ∃ (listing : Segment) (behind : Text), text = '{' :: (listing.text ++ '}' :: behind)
    ∧ Names listing ('}' :: behind) ∧ ExportSource [] none behind

/-- The clause of an import that finds no specifier stands in front of a text, and is no more than
names.  No slash is behind them, because what it begins depends on what has been read before it. -/
def ImportsNames (text : Text) : Prop :=
  beginsQuote text = false ∧ ∃ (listing : Segment) (behind : Text), text = listing.text ++ behind
    ∧ Names listing behind ∧ ImportClause listing none behind ∧ behind.head? ≠ some '/'

section

variable {s : State} {listing tail : Segment} {rest : Text}

/-- The names of a list are passed one by one. -/
theorem Names.getsTo (h : Names listing rest) (hr : s.cursor.rest = listing.text ++ rest) :
  ∃ expects, GetsTo s listing (s.moved listing rest expects)
  := by
  induction h generalizing s with
  | nil =>
    use s.expects
    rw [Segment.text_nil, List.nil_append] at hr
    rw [← hr, State.moved_nil]
    exact .here
  | @space c listing rest hc h ih =>
    have hstep : Step s [(c, .code)] (s.moved [(c, .code)] (listing.text ++ rest) s.expects) :=
      .space hc
    obtain ⟨expects, hgets⟩ := ih (s := s.moved [(c, .code)] _ _) rfl
    use expects
    simpa using (hstep.getsTo hr).trans hgets
  | @comment comment listing rest hc h ih =>
    have hstep : Step s (of .comment comment)
        (s.moved (of .comment comment) (listing.text ++ rest) s.expects) := .comment hc
    obtain ⟨expects, hgets⟩ := ih (s := s.moved (of .comment comment) _ _) rfl
    use expects
    simpa using (hstep.getsTo (by simpa using hr)).trans hgets
  | @comma listing rest h ih =>
    have hstep : Step s [(',', .code)]
        (s.moved [(',', .code)] (listing.text ++ rest) (expectsBehindMark ',')) :=
      .mark (isMark_comma _)
    obtain ⟨expects, hgets⟩ := ih (s := s.moved [(',', .code)] _ _) rfl
    use expects
    simpa using (hstep.getsTo hr).trans hgets
  | @name name listing rest hw hs hi he h ih =>
    have hstep : Step s (of .code name)
        (s.moved (of .code name) (listing.text ++ rest) (expectsBehindWord name)) :=
      .name hw hs (fun h => absurd h hi) (fun h => absurd h he)
    obtain ⟨expects, hgets⟩ := ih (s := s.moved (of .code name) _ _) rfl
    use expects
    simpa using (hstep.getsTo (by simpa using hr)).trans hgets
  | @string quote body listing rest hq hb h ih =>
    have hstep : Step s (Segment.string quote body)
        (s.moved (Segment.string quote body) (listing.text ++ rest) .operator) := .string hq hb
    obtain ⟨expects, hgets⟩ := ih (s := s.moved (Segment.string quote body) _ _) rfl
    use expects
    simpa using (hstep.getsTo (by simpa using hr)).trans hgets

/-- A list in curly brackets. -/
def Segment.curly (listing : Segment) : Segment :=
  ('{', .code) :: (listing ++ [('}', .code)])

@[simp]
theorem Segment.text_curly (listing : Segment) :
  (curly listing).text = '{' :: (listing.text ++ ['}'])
  := by
  simp [curly]

@[simp]
theorem Segment.veiled_curly (listing : Segment) :
  (curly listing).veiled = curly listing.veiled
  := by
  simp [curly]

/-- Behind a list in curly brackets the scanner is where it has been, and an operand may come. -/
theorem Names.getsTo_curly (h : Names listing ('}' :: rest))
    (hr : s.cursor.rest = '{' :: (listing.text ++ '}' :: rest)) :
  GetsTo s (Segment.curly listing) (s.moved (Segment.curly listing) rest .operand)
  := by
  have hopening := @Step.opening s .curly (listing.text ++ '}' :: rest)
  obtain ⟨expects, hgets⟩ := h.getsTo
    (s := s.enter (.bracket .curly) none s.cursor.before (listing.text ++ '}' :: rest)) (by simp)
  have hclosing := @Step.closing
    ((s.enter (.bracket .curly) none s.cursor.before (listing.text ++ '}' :: rest)).moved listing
      ('}' :: rest) expects) .curly _ _ rest rfl rfl
  have hall := ((hopening.getsTo hr).trans hgets).trans (hclosing.getsTo rfl)
  simpa [Segment.curly, Bracket.opening, Bracket.closing, Opener.text, State.moved, State.goto,
    State.leave, State.enter, Frame.occurrence?, expectsBehindClosing] using hall

/-- Blanks may stand in front of a list. -/
theorem Names.of_isBlank {blanks : Segment} (hb : blanks.IsBlank) (h : Names listing rest) :
  Names (blanks ++ listing) rest
  := by
  induction blanks with
  | nil => exact h
  | cons passed blanks ih =>
    obtain ⟨c, part⟩ := passed
    obtain ⟨rfl, hc⟩ := hb (c, part) List.mem_cons_self
    exact .space (isSpace_of_blank hc).1 (ih hb.of_cons)

/-- A list is marked. -/
theorem Names.marked (h : Names listing rest) :
  listing.Marked
  := by
  induction h with
  | nil => exact .nil
  | space _ _ ih => exact .cons (by simp) ih
  | comment hc _ ih => exact (Segment.marked_comment hc).append ih
  | comma _ ih => exact .cons (by simp) ih
  | name _ _ _ _ _ ih => exact (Segment.marked_of (by simp) _).append ih
  | string _ _ _ ih => exact (Segment.marked_string _ _).append ih

/-- A list in curly brackets is marked. -/
theorem Names.marked_curly (h : Names listing rest) :
  (Segment.curly listing).Marked
  := .cons (by simp) (h.marked.append (.cons (by simp) .nil))

/-- A list is one behind a veil. -/
theorem Names.veiled (h : Names listing rest) (hr : rest = tail.text) :
  Names listing.veiled tail.veiled.text
  := by
  induction h with
  | nil => exact .nil
  | space hc _ ih => exact .space hc (ih hr)
  | comment _ _ ih =>
    rw [Segment.veiled_append]
    exact (ih hr).of_isBlank (Segment.isBlank_veiled_comment _)
  | comma _ ih => exact .comma (ih hr)
  | name hw hs hi he _ ih =>
    subst hr
    rw [Segment.veiled_append, Segment.veiled_of (by simp)]
    exact .name hw.veiled_gap hs hi he (ih rfl)
  | string hq hb _ ih =>
    rw [Segment.veiled_append, Segment.veiled_string]
    exact .string hq hb (ih hr)

/-- A list is skipped between curly brackets. -/
theorem Names.braces (h : Names listing ('}' :: rest)) :
  Braces (listing ++ [('}', .code)]) rest
  := by
  generalize hb : '}' :: rest = behind at h
  induction h with
  | nil => exact .close
  | space hc _ ih => exact .of_class hc (by decide) (ih hb)
  | comment hc _ ih =>
    subst hb
    rw [List.append_assoc]
    exact .comment (by simpa using hc) (ih rfl)
  | comma _ ih => exact .of_class (beq_self_eq_true ',') (by decide) (ih hb)
  | name hw _ _ _ _ ih =>
    rw [List.append_assoc]
    exact .of_forall (List.all_eq_true.mp hw.all_isIdentifierPart) (by decide) (ih hb)
  | string hq hs _ ih =>
    rw [List.append_assoc]
    exact .string hq hs (ih hb)

/-- An export of names is read as one that finds nothing. -/
theorem ExportClause.of_names {gap : Segment}
    (hg : Trivia gap ('{' :: (listing.text ++ '}' :: rest))) (hl : Names listing ('}' :: rest))
    (hs : ExportSource [] none rest) :
  ExportClause (gap ++ Segment.curly listing) none rest
  := by
  simpa [Segment.curly] using
    ExportClause.braces (by simpa using hg) (by simpa using hl.braces) hs

end

end ImportCensus.Scan
