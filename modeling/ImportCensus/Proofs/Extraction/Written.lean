import ImportCensus.Extraction
import ImportCensus.Proofs.Scan.Segment

/-!
# Written declarations

The declarations that import a module, the ways in which they may be written down, and what each of
them imports.  A declaration is written as a list of tokens.  Blanks of ASCII may stand behind every
token, and at least one stands between two words.
-/

namespace ImportCensus.Written

open Text Scan

/-- A blank of ASCII. -/
def isGap (c : Char) : Bool :=
  isBlank c && c.toNat < 128

/-- A character that a name may begin with. -/
def isNameStart (c : Char) : Bool :=
  c.isAlpha || c == '_' || c == '$'

/-- A character that a name may go on with. -/
def isNamePart (c : Char) : Bool :=
  c.isAlphanum || c == '_' || c == '$'

/-- Whether a text is made of letters, digits, underscores and dollar signs of ASCII and does not
begin with a digit. -/
def isName : Text → Bool
  | [] => false
  | c :: rest => isNameStart c && rest.all isNamePart

/-- A name. -/
structure Name where
  text : Text
  valid : isName text = true

namespace Name

/-- The first word of an import. -/
def importing : Name := ⟨importWord, by decide⟩

/-- The first word of an export. -/
def exporting : Name := ⟨exportWord, by decide⟩

/-- The word before a specifier. -/
def sourcing : Name := ⟨fromWord, by decide⟩

/-- The word before an alias. -/
def aliasing : Name := ⟨asWord, by decide⟩

/-- Whether an alias may follow a name: it is not `as`, and it does not end in `as` behind a dollar
sign. -/
def renamable (name : Name) : Prop :=
  name.text ≠ asWord ∧ ¬ '$' :: asWord <:+ name.text

end Name

/-- What stands between curly brackets: a name, with an alias or without one. -/
structure Binding where
  name : Name
  naming : Option Name

/-- A binding whose alias, if it has one, may follow its name. -/
structure Item extends Binding where
  renamable : naming.isSome = true → name.renamable

/-- A character that may stand in a specifier: neither a quotation mark nor a backslash nor a line
break. -/
def isPlain (c : Char) : Bool :=
  !isQuote c && c != '\\' && !isLineBreak c

/-- A specifier between quotation marks. -/
structure Quoted where
  quote : Char
  body : Text
  isQuote : isQuote quote = true
  plain : body.all isPlain = true

/-- A quoted specifier with its quotation marks. -/
def Quoted.text (q : Quoted) : Text :=
  q.quote :: (q.body ++ [q.quote])

/-- The forms of a declaration that imports a module. -/
inductive Form where
  | importDefault (name : Name)
  | importWhole (whole : Name)
  | importItems (items : List Item)
  | importDefaultItems (name : Name) (items : List Item)
  | importDefaultWhole (name whole : Name)
  | importBare
  | exportItems (items : List Item)
  | exportAll
  | exportWhole (whole : Name)
  | importDynamic

/-- A declaration: its form, and the specifier that it imports from. -/
structure Declaration where
  form : Form
  source : Quoted

/-! ### Tokens -/

/-- A token of a declaration. -/
inductive Token where
  | word (name : Name)
  | star
  | comma
  | opening (b : Bracket)
  | closing (b : Bracket)
  | quoted (q : Quoted)

namespace Token

/-- The characters of a token. -/
def text : Token → Text
  | word name => name.text
  | star => ['*']
  | comma => [',']
  | opening b => [b.opening]
  | closing b => [b.closing]
  | quoted q => q.text

/-- Whether a token is a word. -/
def isWord : Token → Bool
  | word _ => true
  | _ => false

end Token

/-- The tokens of a binding. -/
def Binding.tokens (binding : Binding) : List Token :=
  match binding.naming with
  | none => [.word binding.name]
  | some naming => [.word binding.name, .word .aliasing, .word naming]

/-- The ways to list bindings: with commas between them, and a comma behind the last one or
none. -/
inductive Lists : List Binding → List Token → Prop where
  | nil :
    Lists [] []
  | last (binding : Binding) :
    Lists [binding] binding.tokens
  | cons (binding : Binding) {bindings : List Binding} {tokens : List Token} (h : Lists bindings tokens) :
    Lists (binding :: bindings) (binding.tokens ++ .comma :: tokens)

/-- The tokens of bindings with commas between them. -/
def bindingTokens : List Binding → List Token
  | [] => []
  | binding :: bindings => binding.tokens ++ bindings.flatMap fun binding => .comma :: binding.tokens

/-- The tokens of bindings in curly brackets and of the word `from`. -/
def blockTokens (bindings : List Binding) : List Token :=
  .opening .curly :: (bindingTokens bindings ++ [.closing .curly, .word .sourcing])

namespace Form

/-- The word that a form begins with. -/
def firstWord : Form → Name
  | exportItems _ => .exporting
  | exportAll => .exporting
  | exportWhole _ => .exporting
  | _ => .importing

/-- The tokens of a form between its first word and its specifier. -/
def clause : Form → List Token
  | importDefault name => [.word name, .word .sourcing]
  | importWhole whole => [.star, .word .aliasing, .word whole, .word .sourcing]
  | importItems items => blockTokens (items.map Item.toBinding)
  | importDefaultItems name items => .word name :: .comma :: blockTokens (items.map Item.toBinding)
  | importDefaultWhole name whole =>
    [.word name, .comma, .star, .word .aliasing, .word whole, .word .sourcing]
  | importBare => []
  | exportItems items => blockTokens (items.map Item.toBinding)
  | exportAll => [.star, .word .sourcing]
  | exportWhole whole => [.star, .word .aliasing, .word whole, .word .sourcing]
  | importDynamic => [.opening .round]

/-- The tokens of a form behind its specifier. -/
def behind : Form → List Token
  | importDynamic => [.closing .round]
  | _ => []

/-- The local name of the default export. -/
def defaultName? : Form → Option Name
  | importDefault name => some name
  | importDefaultItems name _ => some name
  | importDefaultWhole name _ => some name
  | _ => none

/-- Whether a form takes the whole module with a star. -/
def whole : Form → Bool
  | importWhole _ => true
  | importDefaultWhole _ _ => true
  | exportAll => true
  | exportWhole _ => true
  | _ => false

/-- The items in curly brackets. -/
def items : Form → List Item
  | importItems items => items
  | importDefaultItems _ items => items
  | exportItems items => items
  | _ => []

end Form

namespace Declaration

/-- The tokens of a declaration. -/
def tokens (d : Declaration) : List Token :=
  .word d.form.firstWord :: (d.form.clause ++ .quoted d.source :: d.form.behind)

/-- What a declaration imports.  Imports of nothing and of macros have no record. -/
def record? (d : Declaration) : Option ImportRecord :=
  match Specifier.classify d.source.body with
  | none => none
  | some specifier =>
    if Specifier.isMacro specifier then none
    else some {
      specifier
      importAll := d.form.defaultName?.isNone && !d.form.whole && d.form.items.isEmpty
      defaultName := d.form.defaultName?.map Name.text
      whole := d.form.whole
      named := d.form.items.map fun item => item.name.text }

end Declaration

/-- The ways to write tokens down, with blanks behind each of them. -/
inductive Spells : List Token → Text → Prop where
  | nil :
    Spells [] []
  | cons {token : Token} {tokens : List Token} {gap text : Text} (hg : gap.all isGap = true)
      (hw : token.isWord = true → tokens.head?.any Token.isWord = true → gap ≠ [])
      (h : Spells tokens text) :
    Spells (token :: tokens) (token.text ++ (gap ++ text))

/-- The ways to write declarations down, each followed by a semicolon or a line feed. -/
inductive Prints : List Declaration → Text → Prop where
  | nil {gap : Text} (hg : gap.all isGap = true) :
    Prints [] gap
  | cons {d : Declaration} {declarations : List Declaration} {gap text rest : Text} {stop : Char}
      (hg : gap.all isGap = true) (ht : Spells d.tokens text) (hs : stop = ';' ∨ stop = '\n')
      (h : Prints declarations rest) :
    Prints (d :: declarations) (gap ++ (text ++ stop :: rest))

end ImportCensus.Written
