import ImportCensus.Scan.Character
import ImportCensus.Text.WordCharacter

/-!
# Import clauses

What an import statement brings into scope, read off the text before its specifier: the local
name of the default export, the whole module under one name, and the names in curly brackets.
-/

namespace ImportCensus.Clause

open Text Scan

/-- A character of a name. -/
def isNameCharacter (c : Char) : Bool :=
  isWordCharacter c || c == '$'

/-- What stands behind a word and at least one blank. -/
def behindWord? (word text : Text) : Option Text :=
  (after? word text).bind skipBlanks₁?

/-- Whether a text begins with the word `from`. -/
def beginsFrom (text : Text) : Bool :=
  match after? ['f', 'r', 'o', 'm'] text with
  | none => false
  | some rest => wordEnds rest

/-- What stands behind the word that a statement begins with. -/
def behindFirstWord? (statement : Text) : Option Text :=
  (behindWord? ['i', 'm', 'p', 'o', 'r', 't'] statement).or
    (behindWord? ['e', 'x', 'p', 'o', 'r', 't'] statement)

/-- Whether a text goes on with a clause: with a name other than `from`, a star or a curly
bracket. -/
def beginsClause : Text → Bool
  | [] => false
  | c :: rest => (isNameCharacter c || c == '{' || c == '*') && !beginsFrom (c :: rest)

/-- Whether a statement brings types only into scope: the word `type` stands before its
clause. -/
def isTypeOnly (statement : Text) : Bool :=
  match (behindFirstWord? statement).bind (behindWord? ['t', 'y', 'p', 'e']) with
  | none => false
  | some rest => beginsClause rest

/-- The local name of the default export: the name that the word `import` is followed by, where a
comma or the word `from` follows it. -/
def defaultName? (clause : Text) : Option Text :=
  match behindWord? ['i', 'm', 'p', 'o', 'r', 't'] clause with
  | none => none
  | some text =>
    let name := text.takeWhile isNameCharacter
    let rest := text.dropWhile isNameCharacter
    let goesOn := (skipBlanks rest).head? == some ',' ||
      match skipBlanks₁? rest with
      | none => false
      | some behind => beginsFrom behind
    if !name.isEmpty && goesOn then some name else none

/-- Whether a clause brings the whole module into scope. -/
def takesAll (clause : Text) : Bool :=
  clause.contains '*'

/-- A text up to the last `c`. -/
def upToLast? (c : Char) : Text → Option Text
  | [] => none
  | d :: rest =>
    match upToLast? c rest with
    | some text => some (d :: text)
    | none => if d = c then some [] else none

/-- What stands between the first opening curly bracket of a clause and its last closing one. -/
def block? (clause : Text) : Option Text :=
  match clause.dropWhile fun c => isNameCharacter c || isBlank c || c == ',' || c == '*' with
  | '{' :: rest => upToLast? '}' rest
  | _ => none

/-- What stands behind the alias in front: the word `as`, blanks and a name. -/
def behindAlias? (text : Text) : Option Text :=
  match behindWord? ['a', 's'] text with
  | none => none
  | some [] => none
  | some (c :: rest) =>
    if isNameCharacter c then some (rest.dropWhile isNameCharacter) else none

/-- The parts of a block between its commas and its aliases.  An alias begins where no word
character stands before it. -/
def cut : (skip : Nat) → (boundary : Bool) → Text → List Text
  | _, _, [] => [[]]
  | skip + 1, _, c :: rest => cut skip (!isWordCharacter c) rest
  | 0, boundary, c :: rest =>
    match if boundary then behindAlias? (c :: rest) else none with
    | some behind => [] :: cut ((c :: rest).length - behind.length - 1) (!isWordCharacter c) rest
    | none =>
      if c = ',' then [] :: cut 0 true rest
      else match cut 0 (!isWordCharacter c) rest with
        | [] => [[c]]
        | part :: parts => (c :: part) :: parts

/-- Whether an item of a block is imported as a type. -/
def isTypeItem (item : Text) : Bool :=
  (behindWord? ['t', 'y', 'p', 'e'] item).isSome

/-- The names that a block imports, without aliases and types. -/
def names (block : Text) : List Text :=
  ((cut 0 true block).map fun part => strip isQuote (trim part)).filter fun name =>
    !name.isEmpty && !isTypeItem name

/-- The names in curly brackets of a clause. -/
def named (clause : Text) : List Text :=
  match block? clause with
  | none => []
  | some block => names block

end ImportCensus.Clause
