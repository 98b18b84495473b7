import ImportCensus.Text.Hexadecimal
import ImportCensus.Text.Printable

/-!
# Quoted texts

A text between quotation marks, as it is shown in messages.  The marks are single ones unless the
text holds single ones only; what does not print is escaped.
-/

namespace ImportCensus.Text

/-- The quotation mark that a text is shown between. -/
def quotationMark (text : Text) : Char :=
  if text.contains '\'' && !text.contains '"' then '"' else '\''

/-- A character between quotation marks. -/
def quotedCharacter (mark c : Char) : Text :=
  if c = mark || c = '\\' then ['\\', c]
  else if c = '\n' then ['\\', 'n']
  else if c = '\r' then ['\\', 'r']
  else if c = '\t' then ['\\', 't']
  else if isPrintable c then [c]
  else if c.toNat < 0x100 then '\\' :: 'x' :: hexadecimal c.toNat 2
  else if c.toNat < 0x10000 then '\\' :: 'u' :: hexadecimal c.toNat 4
  else '\\' :: 'U' :: hexadecimal c.toNat 8

/-- A text between quotation marks. -/
def quoted (text : Text) : Text :=
  let mark := quotationMark text
  mark :: text.flatMap (quotedCharacter mark) ++ [mark]

example : quoted "it's".toList = "\"it's\"".toList := by decide +kernel

example : quoted ['\'', '"', '\x7f'] = "'\\'\"\\x7f'".toList := by decide +kernel

end ImportCensus.Text
