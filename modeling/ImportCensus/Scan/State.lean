import ImportCensus.Scan.Declaration

/-!
# Scanner states

A state holds the place reached, what may come next, the levels of nesting that are open, and
the imports found at the innermost of them.  A level keeps what had been found around it, and a
level opened by a dynamic import becomes an occurrence when it closes; so the imports found at
any level stand in the order of their statements, and none of them is unfinished.  `step` passes
one token and always leaves less of the source.
-/

namespace ImportCensus.Scan

/-- A level of nesting: what opened it and where, the start of the import statement whose round
brackets it is, if any, and the imports found before it at the level around it. -/
structure Frame where
  opener : Opener
  position : Nat
  importAt : Option Nat
  outer : List Occurrence
  deriving Repr

/-- The import that a level is the argument of, when the level closes at `stop`. -/
def Frame.occurrence? (frame : Frame) (stop : Nat) : Option Occurrence :=
  frame.importAt.map fun statementStart => {
    start := frame.position + 1
    stop
    statementStart
    statementStop := stop + 1
    dynamic := true }

/-- A state of the scanner; the innermost level comes first. -/
structure State where
  cursor : Cursor
  expects : Expectation
  frames : List Frame
  found : List Occurrence
  deriving Repr

/-- The state before a source. -/
def State.initial (source : Text) : State :=
  { cursor := ⟨.empty, source⟩, expects := .operand, frames := [], found := [] }

/-- The words behind which an operand is expected. -/
def operandWords : List String :=
  ["return", "typeof", "instanceof", "in", "of", "new", "delete", "void", "throw", "case", "do",
   "else", "yield", "await", "default"]

/-- The marks behind which an operand is expected. -/
def operandMarks : Text :=
  ['(', ',', '=', ':', '[', '!', '&', '|', '?', '{', '}', ';', '+', '-', '*', '%', '<', '>', '~',
   '^']

/-- What may come behind a word. -/
def expectsBehindWord (word : Text) : Expectation :=
  if operandWords.contains word.toString then .operand else .operator

/-- What may come behind a mark. -/
def expectsBehindMark (mark : Char) : Expectation :=
  if operandMarks.contains mark then .operand else .operator

/-- What may come behind a closing bracket. -/
def expectsBehindClosing : Bracket → Expectation
  | .round => .operator
  | .square => .operator
  | .curly => .operand

/-- The word that begins an import. -/
def importWord : Text := ['i', 'm', 'p', 'o', 'r', 't']

/-- The word that begins an export. -/
def exportWord : Text := ['e', 'x', 'p', 'o', 'r', 't']

namespace State

/-- The state at another place, with another expectation. -/
def goto (s : State) (before : Trail) (rest : Text) (expects : Expectation) : State :=
  { s with cursor := ⟨before, rest⟩, expects }

/-- The state inside a new level. -/
def enter (s : State) (opener : Opener) (importAt : Option Nat) (before : Trail) (rest : Text) :
  State
  := {
    cursor := ⟨before.add .code opener.text, rest⟩
    expects := .operand
    frames := {
      opener
      position := before.length
      importAt
      outer := s.found } :: s.frames
    found := [] }

/-- The state behind a chunk of a template literal that was opened at `opened`, given the text
behind what opens the chunk. -/
def template (s : State) (opened : Nat) (before : Trail) (rest : Text) : Except ScanError State :=
  match templateChunk? rest with
  | none => .error (.unterminatedTemplate opened)
  | some (chunk, .literal, rest) =>
    .ok (s.goto ((before.add .chunk chunk).add .code ChunkEnd.literal.text) rest .operator)
  | some (chunk, .substitution, rest) =>
    .ok (s.enter .substitution none (before.add .chunk chunk) rest)

/-- The state behind a slash and what it begins. -/
def slash (s : State) (before : Trail) (rest : Text) : Except ScanError State :=
  match readComment? before ('/' :: rest) with
  | some (.error e) => .error e
  | some (.ok cursor) => .ok { s with cursor }
  | none =>
    match s.expects with
    | .operator => .ok (s.goto (before.add .code ['/']) rest .operator)
    | .operand =>
      match patternBody? false rest with
      | none => .error (.unterminatedPattern before.length)
      | some (body, behind) =>
        let flags := behind.takeWhile isIdentifierPart
        .ok (s.goto (((before.add .code ['/']).add .pattern body).add .code ('/' :: flags))
          (behindWord behind) .operator)

/-- The state behind a closing bracket. -/
def close (s : State) (b : Bracket) (before : Trail) (rest : Text) : Except ScanError State :=
  match s.frames with
  | [] => .error (.unexpected b before.length)
  | frame :: frames =>
    let passed := before.add .code [b.closing]
    if frame.opener = .bracket b then
      .ok {
        cursor := ⟨passed, rest⟩
        expects := expectsBehindClosing b
        frames
        found := frame.outer ++ (frame.occurrence? before.length).toList ++ s.found }
    else if frame.opener = .substitution ∧ b = .curly then
      template { s with frames, found := frame.outer ++ s.found } frame.position passed rest
    else .error (.mismatched b frame.opener frame.position before.length)

/-- The state behind a declaration. -/
def declare (s : State) (declaration : Declaration) : State :=
  { s with
    cursor := declaration.cursor
    expects := declaration.expects
    found := s.found ++ declaration.occurrence.toList }

/-- The state behind the word `import` and what it begins.  Round brackets make it dynamic,
anywhere; otherwise it may begin a declaration outside of all brackets only. -/
def importStatement (s : State) (statementStart : Nat) (before : Trail) (rest : Text) :
  Except ScanError State
  :=
  match skipTrivia before rest with
  | .error e => .error e
  | .ok ⟨before, rest⟩ =>
    match rest with
    | '(' :: behind =>
      .ok (s.enter (.bracket .round) (some statementStart) before behind)
    | '.' :: _ => .ok (s.goto before rest .operator)
    | _ =>
      if s.frames.isEmpty then
        match rest with
        | [] => .error (.unterminatedImport statementStart)
        | q :: behind =>
          (if isQuote q then readSpecifier statementStart before q behind
            else importClause statementStart before (q :: behind)).map s.declare
      else .ok (s.goto before rest .operator)

/-- The state behind a word and what it begins. -/
def word (s : State) (before : Trail) (c : Char) (rest : Text) : Except ScanError State :=
  let name := wordOf c rest
  let passed := before.add .code name
  if name = importWord ∧ afterDot before = false then
    s.importStatement before.length passed (behindWord rest)
  else if name = exportWord ∧ s.frames = [] ∧ afterDot before = false then
    (exportClause before.length passed (behindWord rest)).map s.declare
  else .ok (s.goto passed (behindWord rest) (expectsBehindWord name))

/-- A character that a number may go on with. -/
def isNumberPart (c : Char) : Bool :=
  isIdentifierPart c || c == '.'

/-- Whether a text begins a number: with a digit of ASCII, or with a dot and any digit. -/
def beginsNumber (c : Char) (rest : Text) : Bool :=
  c.isDigit || (c == '.' && match rest with
    | [] => false
    | d :: _ => Text.isDigit d)

/-- The state behind the token that begins with `c`. -/
def step (s : State) (c : Char) (rest : Text) : Except ScanError State :=
  let before := s.cursor.before
  if isSpace c then .ok { s with cursor := ⟨before.add .code [c], rest⟩ }
  else if c = '/' then s.slash before rest
  else if isQuote c then
    (readString before c rest).map fun cursor => { s with cursor, expects := .operator }
  else if c = '\x60' then s.template before.length (before.add .code [c]) rest
  else match Bracket.ofOpening? c with
  | some b => .ok (s.enter (.bracket b) none before rest)
  | none =>
    match Bracket.ofClosing? c with
    | some b => s.close b before rest
    | none =>
      if isIdentifierStart c then s.word before c rest
      else if beginsNumber c rest then
        .ok (s.goto (before.add .code (c :: rest.takeWhile isNumberPart))
          (rest.dropWhile isNumberPart) .operator)
      else .ok (s.goto (before.add .code [c]) rest (expectsBehindMark c))

end State

end ImportCensus.Scan
