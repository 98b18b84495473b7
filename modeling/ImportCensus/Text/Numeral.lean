import ImportCensus.Text.Digit

/-!
# Numerals

Whole numbers written in decimal digits, with a single underscore allowed between two digits and
a sign in front.  Which characters are digits, and of what value, is left to the caller.
-/

namespace ImportCensus.Text

/-- The value of a digit of ASCII. -/
def asciiDigit? (c : Char) : Option Nat :=
  if c.isDigit then some (c.toNat - 48) else none

/-- The number whose first digits make `value` and whose further digits are these. -/
def numeralFrom (digit? : Char → Option Nat) (value : Nat) : Text → Option Nat
  | [] => some value
  | '_' :: c :: rest =>
    match digit? c with
    | none => none
    | some d => numeralFrom digit? (10 * value + d) rest
  | c :: rest =>
    match digit? c with
    | none => none
    | some d => numeralFrom digit? (10 * value + d) rest

/-- The number that a text writes. -/
def numeral? (digit? : Char → Option Nat) : Text → Option Nat
  | [] => none
  | c :: rest =>
    match digit? c with
    | none => none
    | some d => numeralFrom digit? d rest

/-- The number that a text writes, with a sign or without. -/
def integer? (digit? : Char → Option Nat) : Text → Option Int
  | '-' :: rest => (numeral? digit? rest).map fun n => -n
  | '+' :: rest => (numeral? digit? rest).map fun n => n
  | text => (numeral? digit? text).map fun n => n

example : integer? asciiDigit? ['-', '1', '_', '0'] = some (-10) := rfl

example : integer? asciiDigit? ['1', '_', '_', '0'] = none := rfl

end ImportCensus.Text
