import ImportCensus.Scan.Cursor

/-!
# Module declarations

What stands behind the words `import` and `export` where a declaration may stand.  The reader
of a declaration goes as far as it must to tell whether a module is imported, and answers the
occurrence it has found, if any.
-/

namespace ImportCensus.Scan

/-- An import found in a source.  The offsets `start` and `stop` delimit the text of its
specifier: the contents of the string for a declaration, all that stands between the round
brackets for a dynamic import.  The other two delimit the whole statement. -/
structure Occurrence where
  start : Nat
  stop : Nat
  statementStart : Nat
  statementStop : Nat
  dynamic : Bool
  deriving DecidableEq, Repr

/-- What may come next in an expression.  Where an operand is expected a slash begins a regular
expression, and where an operator is expected it divides. -/
inductive Expectation where
  | operand
  | operator
  deriving DecidableEq, Repr

/-- What a declaration's reader answers: the place behind what it has read, the import found,
and what may come next. -/
structure Declaration where
  cursor : Cursor
  occurrence : Option Occurrence
  expects : Expectation
  deriving Repr

/-- The declaration that ends in the string in front. -/
def readSpecifier (statementStart : Nat) (before : Trail) (quote : Char) (text : Text) :
  Except ScanError Declaration
  :=
  match readString before quote text with
  | .error e => .error e
  | .ok cursor =>
    .ok {
      cursor
      occurrence := some {
        start := before.length + 1
        stop := cursor.position - 1
        statementStart
        statementStop := cursor.position
        dynamic := false }
      expects := .operator }

/-- The place behind the curly brackets of a clause opened at `opened`, given the text behind
the opening one. -/
def skipClause (opened : Nat) (before : Trail) (text : Text) : Except ScanError Cursor :=
  match text with
  | [] => .error (.unterminatedClause opened)
  | c :: rest =>
    if isQuote c then
      match _h : readString before c rest with
      | .error e => .error e
      | .ok cursor => skipClause opened cursor.before cursor.rest
    else if c = '}' then .ok ⟨before.add .code [c], rest⟩
    else
      match _h : readComment? before (c :: rest) with
      | none => skipClause opened (before.add .code [c]) rest
      | some (.error e) => .error e
      | some (.ok cursor) => skipClause opened cursor.before cursor.rest
termination_by text.length
decreasing_by
  · have := length_readString _h
    simp
    omega
  · simp
  · exact length_readComment? _h

theorem length_skipClause {opened : Nat} {before : Trail} {text : Text} {c : Cursor}
    (h : skipClause opened before text = .ok c) :
  c.rest.length < text.length
  := by
  fun_induction skipClause opened before text with
  | case1 => cases h
  | case2 => cases h
  | case3 before c rest _ cursor hc ih =>
    have := ih h
    have := length_readString hc
    simp
    omega
  | case4 => cases h; simp
  | case5 before c rest _ _ _ ih =>
    have := ih h
    simp
    omega
  | case6 => cases h
  | case7 before c rest _ _ cursor hc ih =>
    have := ih h
    have := length_readComment? hc
    omega

/-- The word before a specifier. -/
def fromWord : Text := ['f', 'r', 'o', 'm']

/-- The word before an alias. -/
def asWord : Text := ['a', 's']

/-- The rest of an import declaration behind its first word.  Names, stars, commas and clauses
are passed until a string follows the word `from`.  Anything else shows that this is no import
of a module. -/
def importClause (statementStart : Nat) (before : Trail) (text : Text) :
  Except ScanError Declaration
  :=
  match _h : skipTrivia before text with
  | .error e => .error e
  | .ok ⟨_, []⟩ => .error (.unterminatedImport statementStart)
  | .ok ⟨before, c :: rest⟩ =>
    if c = '{' then
      match _hc : skipClause before.length (before.add .code [c]) rest with
      | .error e => .error e
      | .ok cursor => importClause statementStart cursor.before cursor.rest
    else if c = '*' || c = ',' then importClause statementStart (before.add .code [c]) rest
    else if isIdentifierStart c then
      let passed := before.add .code (wordOf c rest)
      if wordOf c rest = fromWord then
        match _hf : skipTrivia passed (behindWord rest) with
        | .error e => .error e
        | .ok ⟨before, []⟩ => importClause statementStart before []
        | .ok ⟨before, q :: tail⟩ =>
          if isQuote q then readSpecifier statementStart before q tail
          else importClause statementStart before (q :: tail)
      else importClause statementStart passed (behindWord rest)
    else .ok { cursor := ⟨before, c :: rest⟩, occurrence := none, expects := .operator }
termination_by text.length
decreasing_by
  · have := length_skipTrivia _h
    have := length_skipClause _hc
    simp at *
    omega
  · have := length_skipTrivia _h
    simp at *
    omega
  · have := length_skipTrivia _h
    simp at *
    omega
  · have := length_skipTrivia _h
    have := length_skipTrivia _hf
    have := length_behindWord_le rest
    simp at *
    omega
  · have := length_skipTrivia _h
    have := length_behindWord_le rest
    simp at *
    omega

/-- The place behind an export clause's alias, if it has one. -/
def skipAlias (clause : Cursor) : Except ScanError Cursor :=
  match Text.after? asWord clause.rest with
  | none => .ok clause
  | some rest =>
    if identifierEnds rest then
      match skipTrivia (clause.before.add .code asWord) rest with
      | .error e => .error e
      | .ok ⟨before, []⟩ => .ok ⟨before, []⟩
      | .ok ⟨before, q :: rest⟩ =>
        if isQuote q then readString before q rest
        else
          let text := q :: rest
          .ok ⟨before.add .code (text.takeWhile isIdentifierPart), behindWord text⟩
    else .ok clause

/-- An export behind its clause: a module is imported where a string follows the word `from`.
Otherwise reading goes on right behind the clause. -/
def exportSource (statementStart : Nat) (clause : Cursor) : Except ScanError Declaration :=
  let plain := { cursor := clause, occurrence := none, expects := .operand }
  match skipTrivia clause.before clause.rest with
  | .error e => .error e
  | .ok cursor =>
    match Text.after? fromWord cursor.rest with
    | none => .ok plain
    | some rest =>
      if identifierEnds rest then
        match skipTrivia (cursor.before.add .code fromWord) rest with
        | .error e => .error e
        | .ok ⟨_, []⟩ => .ok plain
        | .ok ⟨before, q :: rest⟩ =>
          if isQuote q then readSpecifier statementStart before q rest else .ok plain
      else .ok plain

/-- An export behind its first word.  Only exports of a star or of a clause may import. -/
def exportClause (statementStart : Nat) (before : Trail) (text : Text) :
  Except ScanError Declaration
  :=
  match skipTrivia before text with
  | .error e => .error e
  | .ok ⟨before, []⟩ => .ok { cursor := ⟨before, []⟩, occurrence := none, expects := .operand }
  | .ok ⟨before, c :: rest⟩ =>
    if c = '*' then
      match skipTrivia (before.add .code [c]) rest with
      | .error e => .error e
      | .ok star =>
        match skipAlias star with
        | .error e => .error e
        | .ok clause => exportSource statementStart clause
    else if c = '{' then
      match skipClause before.length (before.add .code [c]) rest with
      | .error e => .error e
      | .ok clause => exportSource statementStart clause
    else .ok { cursor := ⟨before, c :: rest⟩, occurrence := none, expects := .operand }

theorem length_readSpecifier {statementStart : Nat} {before : Trail} {quote : Char} {text : Text}
    {d : Declaration} (h : readSpecifier statementStart before quote text = .ok d) :
  d.cursor.rest.length < text.length
  := by
  unfold readSpecifier at h
  split at h
  · cases h
  · rename_i cursor hc
    cases h
    exact length_readString hc

theorem length_importClause {statementStart : Nat} {before : Trail} {text : Text}
    {d : Declaration} (h : importClause statementStart before text = .ok d) :
  d.cursor.rest.length ≤ text.length
  := by
  fun_induction importClause statementStart before text with
  | case1 => cases h
  | case2 => cases h
  | case3 => cases h
  | case4 _ text before tail cursor ht hc ih =>
    have := ih h
    have := length_skipTrivia ht
    have := length_skipClause hc
    simp at *
    omega
  | case5 _ text before c tail ht _ _ ih =>
    have := ih h
    have := length_skipTrivia ht
    simp at *
    omega
  | case6 => cases h
  | case7 _ _ _ _ _ _ _ _ _ _ _ _ _ ih =>
    exact Nat.le_trans (ih h) (Nat.zero_le _)
  | case8 _ text _ c rest ht _ _ _ _ _ before q tail hf _ =>
    have := length_readSpecifier h
    have := length_skipTrivia ht
    have := length_skipTrivia hf
    have := length_behindWord_le rest
    simp at *
    omega
  | case9 _ text _ c rest ht _ _ _ _ _ before q tail hf _ ih =>
    have := ih h
    have := length_skipTrivia ht
    have := length_skipTrivia hf
    have := length_behindWord_le rest
    simp at *
    omega
  | case10 _ text _ c rest ht _ _ _ _ _ ih =>
    have := ih h
    have := length_skipTrivia ht
    have := length_behindWord_le rest
    simp at *
    omega
  | case11 _ text before c rest ht =>
    cases h
    exact length_skipTrivia ht

theorem length_skipAlias {clause c : Cursor} (h : skipAlias clause = .ok c) :
  c.rest.length ≤ clause.rest.length
  := by
  unfold skipAlias at h
  split at h
  · cases h; simp
  · rename_i rest hr
    have hl := congrArg List.length (Text.after?_eq_some_iff.mp hr)
    split at h
    · split at h
      · cases h
      · cases h; simp
      · rename_i before q tail ht
        have := length_skipTrivia ht
        split at h
        · have := length_readString h
          simp at *
          omega
        · cases h
          have := length_behindWord_le (q :: tail)
          simp at *
          omega
    · cases h; simp

theorem length_exportSource {statementStart : Nat} {clause : Cursor} {d : Declaration}
    (h : exportSource statementStart clause = .ok d) :
  d.cursor.rest.length ≤ clause.rest.length
  := by
  unfold exportSource at h
  split at h
  · cases h
  · rename_i cursor hc
    split at h
    · cases h; simp
    · rename_i rest hr
      have hl := congrArg List.length (Text.after?_eq_some_iff.mp hr)
      split at h
      · split at h
        · cases h
        · cases h; simp
        · rename_i before q tail ht
          split at h
          · have := length_readSpecifier h
            have := length_skipTrivia hc
            have := length_skipTrivia ht
            simp at *
            omega
          · cases h; simp
      · cases h; simp

theorem length_exportClause {statementStart : Nat} {before : Trail} {text : Text}
    {d : Declaration} (h : exportClause statementStart before text = .ok d) :
  d.cursor.rest.length ≤ text.length
  := by
  unfold exportClause at h
  split at h
  · cases h
  · cases h; simp
  · rename_i before c rest ht
    have := length_skipTrivia ht
    split at h
    · split at h
      · cases h
      · rename_i star hs
        split at h
        · cases h
        · rename_i clause hc
          have := length_exportSource h
          have := length_skipAlias hc
          have := length_skipTrivia hs
          simp at *
          omega
    · split at h
      · split at h
        · cases h
        · rename_i clause hc
          have := length_exportSource h
          have := length_skipClause hc
          simp at *
          omega
      · cases h
        assumption

end ImportCensus.Scan
