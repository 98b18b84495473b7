import ImportCensus.Comment
import ImportCensus.Scan.State
import ImportCensus.Text.WordCharacter

/-!
# Salvaged import statements

A source that cannot be scanned is searched for what reads like an import statement, wherever it
stands.  `statements` are those finds, in order, and `reduce` writes them one below the other, as
a source that can be scanned.
-/

namespace ImportCensus.Salvage

open Text Scan

/-- A character that may stand in an import clause. -/
def isClauseCharacter (c : Char) : Bool :=
  isWordCharacter c || ['*', '$', '{', '}', '\n', '\r', '\t', ',', ' '].contains c

/-- What stands behind the next quotation mark in the same line. -/
def behindQuote? : Text → Option Text
  | [] => none
  | c :: rest => if isQuote c then some rest else if c = '\n' then none else behindQuote? rest

/-- What stands behind a quoted specifier and the blanks in front of it.  Any quotation mark ends
the specifier. -/
def behindSpecifier? (text : Text) : Option Text :=
  match skipBlanks text with
  | [] => none
  | c :: rest => if isQuote c then behindQuote? rest else none

/-- What stands behind the word `from`, a specifier and the blanks in front of them. -/
def behindSource? (text : Text) : Option Text :=
  (after? fromWord (skipBlanks text)).bind behindSpecifier?

/-- What stands behind a statement, given what stands behind its first word.  A clause is
preferred to a specifier alone, and the longest clause to shorter ones. -/
def behindStatement? (text : Text) : Option Text :=
  let clause := longestRun₁ isClauseCharacter behindSource?
  (longestRun (fun c => isQuote c || isBlank c) clause text).or (behindSpecifier? text)

/-- What stands behind a dynamic import of a literal, given what stands behind its first
word. -/
def behindDynamic? : Text → Option Text
  | '(' :: q :: rest =>
    let stops := fun c =>
      if q == '\x60' then c == '$' || c == '\x60' else isQuote c || c == '\n'
    if isQuote q || q == '\x60' then
      match rest.takeWhile (!stops ·), rest.dropWhile (!stops ·) with
      | _ :: _, c :: ')' :: behind =>
        if c == '\x60' && q == '\x60' || isQuote c && isQuote q then some behind else none
      | _, _ => none
    else none
  | _ => none

/-- The statements in a text with their offsets.  A statement begins with the word `import` where
no word character stands before it, goes on as far as `behind?` tells, and holds no other. -/
def find (behind? : Text → Option Text) : (offset skip : Nat) → (boundary : Bool) → Text →
  List (Nat × Text)
  | _, _, _, [] => []
  | offset, skip + 1, _, c :: rest => find behind? (offset + 1) skip (!isWordCharacter c) rest
  | offset, 0, boundary, c :: rest =>
    match if boundary then (after? importWord (c :: rest)).bind behind? else none with
    | none => find behind? (offset + 1) 0 (!isWordCharacter c) rest
    | some behind =>
      let length := (c :: rest).length - behind.length
      (offset, (c :: rest).take length)
        :: find behind? (offset + 1) (length - 1) (!isWordCharacter c) rest

/-- What reads like an import statement in a source, in order. -/
def statements (source : Text) : List Text :=
  let code := Comment.remove source
  let found := List.merge (find behindStatement? 0 0 true code) (find behindDynamic? 0 0 true code)
    fun a b => a.1 ≤ b.1
  found.map Prod.snd

/-- The statements of a source, one below the other. -/
def reduce (source : Text) : Text :=
  join ['\n'] (statements source)

end ImportCensus.Salvage
