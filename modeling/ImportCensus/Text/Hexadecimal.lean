import ImportCensus.Text

/-!
# Hexadecimal digits

Numbers in digits to the base sixteen, with small letters.
-/

namespace ImportCensus.Text

/-- A hexadecimal digit. -/
def hexDigit (n : Nat) : Char :=
  if n < 10 then Char.ofNat (48 + n) else Char.ofNat (87 + n)

/-- The last hexadecimal digits of a number, as many as the width. -/
def hexadecimal (n : Nat) : Nat → Text
  | 0 => []
  | width + 1 => hexadecimal (n / 16) width ++ [hexDigit (n % 16)]

end ImportCensus.Text
