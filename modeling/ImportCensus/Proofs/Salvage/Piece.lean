import ImportCensus.Proofs.Extraction.Exactness

/-!
# Imports amid noise

A source that cannot be scanned as an alternation of noise and of the imports that stand in it.  The
pieces are static imports on lines of their own and dynamic imports of a literal; the noise is anything
without quotation marks, backticks, slashes and the word `import`.
-/

namespace ImportCensus.Salvage

open Text Scan Written

/-- A quoted text that is not empty and holds no blanks. -/
structure Address extends Quoted where
  nonempty : body ≠ []
  solid : body.all (!isBlank ·) = true

/-- What a static import brings into scope. -/
inductive Bindings where
  | nothing
  | byDefault (name : Name)
  | whole (name : Name)
  | items (bindings : List Binding)
  | defaultItems (name : Name) (bindings : List Binding)
  | defaultWhole (name naming : Name)

/-- The tokens of a static import between its first word and its address. -/
def Bindings.tokens : Bindings → List Token
  | nothing => []
  | byDefault name => [.word name, .word .sourcing]
  | whole name => [.star, .word .aliasing, .word name, .word .sourcing]
  | items bindings => blockTokens bindings
  | defaultItems name bindings => .word name :: .comma :: blockTokens bindings
  | defaultWhole name naming =>
    [.word name, .comma, .star, .word .aliasing, .word naming, .word .sourcing]

/-! ### Pieces -/

/-- A static import as it is written: `front` stands before its address.  The blanks are spaces, tabs
and line breaks. -/
structure Static where
  bindings : Bindings
  address : Address
  front : Text
  spells : Spells (.word .importing :: bindings.tokens) front
  narrow : ∀ c ∈ front, isBlank c = true → c ∈ [' ', '\t', '\n', '\r']

/-- An import in a source that need not be scannable. -/
inductive Piece where
  | static (s : Static)
  | dynamic (address : Address)

namespace Piece

/-- The characters of a piece. -/
def text : Piece → Text
  | static s => s.front ++ s.address.text
  | dynamic address => importWord ++ '(' :: (address.text ++ [')'])

/-- Whether a piece is a static import. -/
def isStatic : Piece → Bool
  | static _ => true
  | dynamic _ => false

/-- Whether a piece is a dynamic import. -/
def isDynamic (piece : Piece) : Bool :=
  !piece.isStatic

end Piece

/-- A text without quotation marks, backticks, slashes and the word `import`. -/
structure Noise where
  text : Text
  bare : ∀ c ∈ text, IsBare c
  silent : ¬ importWord <:+: text

/-- An alternation of noise and pieces. -/
structure Source where
  lead : Noise
  rest : List (Piece × Noise)

/-- The characters of pieces with the noise behind each of them. -/
def textOf : List (Piece × Noise) → Text
  | [] => []
  | (piece, noise) :: rest => piece.text ++ (noise.text ++ textOf rest)

/-! ### Places -/

/-- Whether no word character stands at the end of a text. -/
def endsOutsideWord (text : Text) : Prop :=
  ∀ c ∈ text.getLast?, isWordCharacter c = false

/-- Whether a piece may stand between two texts: a static import on lines of its own, apart from a
semicolon, and a dynamic import not behind a word character. -/
def Piece.FitsBetween (before behind : Text) : Piece → Prop
  | static _ =>
    (∀ c ∈ before.getLast?, c = '\n') ∧ (['\n'] <+: behind ∨ [';', '\n'] <+: behind)
  | dynamic _ => endsOutsideWord before

/-- Whether pieces may stand behind a text with the noise between them. -/
def Placed (before : Text) : List (Piece × Noise) → Prop
  | [] => True
  | (piece, noise) :: rest =>
    piece.FitsBetween before noise.text ∧ Placed (piece.text ++ noise.text) rest

/-- Whether a text ends in what a static import may have before its address: in the word `import`, or
in this word, a clause and the word `from`. -/
def Opens (text : Text) : Prop :=
  ∃ before clause : Text, text = before ++ (importWord ++ clause) ∧ endsOutsideWord before
    ∧ (clause = []
      ∨ ∃ bindings : Text, bindings ≠ [] ∧ bindings.all isClauseCharacter = true
        ∧ clause = bindings ++ fromWord)

/-- Whether a text begins with a template literal that is not empty and a closing bracket, with `left`
behind them. -/
def BeginsTemplate (text left : Text) : Prop :=
  ∃ contents : Text, text = '\x60' :: (contents ++ '\x60' :: ')' :: left) ∧ contents ≠ []
    ∧ '$' ∉ contents ∧ '\x60' ∉ contents

/-- The characters from the next piece of a kind on. -/
def fromNext (isNext : Piece → Bool) : List (Piece × Noise) → Text
  | [] => []
  | (piece, noise) :: rest =>
    if isNext piece then textOf ((piece, noise) :: rest) else fromNext isNext rest

/-- Whether the dynamic imports of a template that begin in an address end before `next`. -/
def Address.TemplatesEndBefore (address : Address) (behind next : Text) : Prop :=
  ∀ before inner left : Text, address.body = before ++ (importWord ++ '(' :: inner) →
    endsOutsideWord before → BeginsTemplate (inner ++ address.quote :: behind) left → next <:+ left

/-- Whether nothing that begins in the address of a piece and reads like an import of the other kind
takes up a dynamic import behind the piece.  An address of a dynamic import that opens a static one has
no quotation mark behind it in its line, and a dynamic import of a template that begins in the address of
a static import ends before the next dynamic import. -/
def Piece.EndsBefore (behind next : Text) : Piece → Prop
  | static s => s.address.TemplatesEndBefore behind next
  | dynamic address =>
    Opens address.body → ∀ c ∈ behind.takeWhile (· != '\n'), isQuote c = false

/-- Whether each piece ends before the dynamic imports behind it. -/
def Clear : List (Piece × Noise) → Prop
  | [] => True
  | (piece, noise) :: rest =>
    piece.EndsBefore (noise.text ++ textOf rest) (fromNext Piece.isDynamic rest) ∧ Clear rest

namespace Source

variable (source : Source)

/-- The characters of a source. -/
def text : Text :=
  source.lead.text ++ textOf source.rest

/-- The pieces of a source, in order. -/
def pieces : List Piece :=
  source.rest.map Prod.fst

/-- Whether what is extracted from a source that is not scanned as it is, is what is extracted from each
of its pieces alone, in order. -/
def IsRecovered : Prop :=
  ∃ records : List (List ImportRecord),
    List.Forall₂ (fun piece records =>
      extract piece.text ".js".toList = { fallback := none, outcome := .ok records })
      source.pieces records
    ∧ extract source.text ".jsx".toList = { fallback := none, outcome := .ok records.flatten }

end Source

end ImportCensus.Salvage
