import ImportCensus.Glob.CharacterSet

/-!
# Patterns

A pattern without choices is a sequence of segments between slashes.  A segment is either a pair of
asterisks, which stands for any number of segments, or a sequence of atoms, each of which says what
one character may be or lets any number of characters pass.
-/

namespace ImportCensus.Glob

/-- What one place of a segment lets pass. -/
inductive Atom where
  /-- This character. -/
  | literal (c : Char)
  /-- One character. -/
  | one
  /-- Any number of characters. -/
  | run
  /-- One character of a set. -/
  | oneOf (set : CharacterSet)
  deriving DecidableEq, Repr

/-- Whether an atom lets a character pass. -/
def Atom.holds : Atom → Char → Bool
  | literal c, d => d == c
  | one, d => d != '/'
  | run, d => d != '/'
  | oneOf set, d => set.holds d

/-- A segment of a pattern. -/
inductive Segment where
  /-- Any number of segments. -/
  | anyDepth
  | atoms (atoms : List Atom)
  deriving DecidableEq, Repr

/-- One symbol of a pattern. -/
inductive Symbol where
  | slash
  | asterisk
  | atom (atom : Atom)
  deriving DecidableEq, Repr

/-- The symbol that a character and the `rest` behind it begin with, and what follows it.  A
backslash takes the meaning from the character behind it, but not from a slash, and a slash takes
with it those that follow it plainly.  At the end of a pattern a backslash is no symbol.  A bracket
that opens no set stands for itself, as all do that are not `bracketed`. -/
def symbolAt (bracketed : Bool) (c : Char) (rest : Text) : Option Symbol × Text :=
  if c = '/' then (some .slash, rest.dropWhile (· == '/'))
  else if c = '*' then (some .asterisk, rest)
  else if c = '?' then (some (.atom .one), rest)
  else if c = '\\' then
    match rest with
    | [] => (none, [])
    | d :: after =>
      if d = '/' then (some .slash, after.dropWhile (· == '/'))
      else (some (.atom (.literal d)), after)
  else
    match if c = '[' ∧ bracketed then CharacterSet.at? rest else none with
    | some (set, after) => (some (.atom (.oneOf set)), after)
    | none => (some (.atom (.literal c)), rest)

theorem length_symbolAt (bracketed : Bool) (c : Char) (rest : Text) :
  (symbolAt bracketed c rest).2.length ≤ rest.length
  := by
  fun_cases symbolAt bracketed c rest with
  | case1 => exact (List.dropWhile_suffix _).length_le
  | case2 | case3 | case4 | case8 => exact Nat.le_refl _
  | case5 d after => exact Nat.le_succ_of_le (List.dropWhile_suffix _).length_le
  | case6 => exact Nat.le_succ _
  | case7 =>
    rename_i h
    split at h
    · exact Nat.le_of_lt (CharacterSet.length_of_at? h)
    · cases h

/-- Whether brackets may open sets behind a bracket or another character with its symbol.  Behind
one that opens none they open none up to the next slash. -/
def staysBracketed (bracketed : Bool) (c : Char) (symbol : Option Symbol) : Bool :=
  symbol == some .slash || bracketed && !(c == '[' && symbol == some (.atom (.literal '[')))

/-- The symbols of a pattern. -/
def symbols (bracketed : Bool) : Text → List Symbol
  | [] => []
  | c :: rest =>
    let symbol := (symbolAt bracketed c rest).1
    symbol.toList
      ++ symbols (staysBracketed bracketed c symbol) (symbolAt bracketed c rest).2
termination_by text => text.length
decreasing_by exact Nat.lt_succ_of_le (length_symbolAt bracketed c rest)

/-- The atom that a symbol is; a slash is none. -/
def Symbol.atom? : Symbol → Option Atom
  | slash => none
  | asterisk => some .run
  | atom a => some a

/-- The atoms that symbols are.  Asterisks in a row are one. -/
def Symbol.atoms (symbols : List Symbol) : List Atom :=
  Text.withoutRepeats .run (symbols.filterMap atom?)

/-- The segment of the symbols between two slashes. -/
def Segment.ofSymbols (symbols : List Symbol) : Segment :=
  if symbols = [.asterisk, .asterisk] then anyDepth else atoms (Symbol.atoms symbols)

/-- The segments of a pattern, with empty ones where slashes stand apart or at its ends. -/
def segments (pattern : Text) : List Segment :=
  (Text.splitOn .slash (symbols true pattern)).map Segment.ofSymbols

end ImportCensus.Glob
