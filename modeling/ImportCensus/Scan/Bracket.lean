import ImportCensus.Text

/-!
# Brackets

The brackets that nest in a module source.  Next to the three pairs of brackets there is the
substitution of a template literal, which opens with a dollar sign and a curly bracket and
closes with a curly bracket.
-/

namespace ImportCensus.Scan

/-- A pair of brackets. -/
inductive Bracket where
  | round
  | square
  | curly
  deriving DecidableEq, Repr

namespace Bracket

/-- The character that opens a pair. -/
def opening : Bracket → Char
  | round => '('
  | square => '['
  | curly => '{'

/-- The character that closes a pair. -/
def closing : Bracket → Char
  | round => ')'
  | square => ']'
  | curly => '}'

/-- The pair that a character opens. -/
def ofOpening? (c : Char) : Option Bracket :=
  if c = '(' then some round
  else if c = '[' then some square
  else if c = '{' then some curly
  else none

/-- The pair that a character closes. -/
def ofClosing? (c : Char) : Option Bracket :=
  if c = ')' then some round
  else if c = ']' then some square
  else if c = '}' then some curly
  else none

theorem ofOpening?_eq_some_iff {c : Char} {b : Bracket} :
  ofOpening? c = some b ↔ c = b.opening
  := by
  unfold ofOpening?
  constructor
  · intro h
    split at h
    · cases h; assumption
    · split at h
      · cases h; assumption
      · split at h
        · cases h; assumption
        · cases h
  · rintro rfl
    cases b <;> rfl

theorem ofClosing?_eq_some_iff {c : Char} {b : Bracket} :
  ofClosing? c = some b ↔ c = b.closing
  := by
  unfold ofClosing?
  constructor
  · intro h
    split at h
    · cases h; assumption
    · split at h
      · cases h; assumption
      · split at h
        · cases h; assumption
        · cases h
  · rintro rfl
    cases b <;> rfl

end Bracket

/-- What opens a level of nesting. -/
inductive Opener where
  | bracket (b : Bracket)
  | substitution
  deriving DecidableEq, Repr

/-- The characters that an opener is written with. -/
def Opener.text : Opener → Text
  | .bracket b => [b.opening]
  | .substitution => ['$', '{']

end ImportCensus.Scan
