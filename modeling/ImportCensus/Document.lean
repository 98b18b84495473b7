import ImportCensus.Text.Hexadecimal

/-!
# Documents

Data without a fixed shape: null, truth values, decimal numbers, texts, lists, and objects whose
fields keep their order.  `render` writes a document in JSON, one item a line, in ASCII alone.
-/

namespace ImportCensus

/-- Data without a fixed shape.  A number is its mantissa divided by a power of ten. -/
inductive Document where
  | null
  | bool (b : Bool)
  | number (mantissa : Int) (scale : Nat)
  | text (t : Text)
  | array (items : List Document)
  | object (fields : List (Text × Document))
  deriving Repr, Inhabited

namespace Document

/-- The document of a natural number. -/
def ofNat (n : Nat) : Document := .number n 0

/-- The document of a text that may be missing. -/
def ofText? : Option Text → Document
  | none => null
  | some t => text t

/-- The document of a list of texts. -/
def ofTexts (ts : List Text) : Document := array (ts.map text)

/-- The escape of a unit of sixteen bits. -/
def unitEscape (n : Nat) : Text :=
  '\\' :: 'u' :: Text.hexadecimal n 4

/-- A character between quotation marks.  All but the printing characters of ASCII are escaped; one
beyond sixteen bits is escaped as two units. -/
def escape (c : Char) : Text :=
  if c = '"' then ['\\', '"']
  else if c = '\\' then ['\\', '\\']
  else if c = '\n' then ['\\', 'n']
  else if c = '\r' then ['\\', 'r']
  else if c = '\t' then ['\\', 't']
  else if c = '\x08' then ['\\', 'b']
  else if c = '\x0c' then ['\\', 'f']
  else
    let n := c.toNat
    if 32 ≤ n ∧ n < 127 then [c]
    else if n < 0x10000 then unitEscape n
    else unitEscape (0xD800 + (n - 0x10000) / 0x400) ++ unitEscape (0xDC00 + (n - 0x10000) % 0x400)

example : escape '\x7f' = "\\u007f".toList := by decide +kernel

example : escape '😀' = "\\ud83d\\ude00".toList := by decide +kernel

/-- A text between quotation marks. -/
def renderText (t : Text) : Text :=
  '"' :: t.flatMap escape ++ ['"']

/-- A number in decimal digits. -/
def renderNumber (mantissa : Int) (scale : Nat) : Text :=
  (toString mantissa).toList ++ if scale = 0 then [] else 'e' :: '-' :: (toString scale).toList

/-- A new line, indented. -/
def newLine (depth : Nat) : Text :=
  '\n' :: List.replicate (2 * depth) ' '

/-- Written items between brackets, one a line inside of `depth` levels; no items take no
line. -/
def bracketed (opening closing : Char) (depth : Nat) (items : List Text) : Text :=
  match items with
  | [] => [opening, closing]
  | _ =>
    opening :: newLine (depth + 1) ++ Text.join (',' :: newLine (depth + 1)) items ++ newLine depth
      ++ [closing]

mutual

/-- A document inside of `depth` levels. -/
def renderAt (depth : Nat) : Document → Text
  | null => ['n', 'u', 'l', 'l']
  | bool b => if b then ['t', 'r', 'u', 'e'] else ['f', 'a', 'l', 's', 'e']
  | number mantissa scale => renderNumber mantissa scale
  | text t => renderText t
  | array items => bracketed '[' ']' depth (renderItems (depth + 1) items)
  | object fields => bracketed '{' '}' depth (renderFields (depth + 1) fields)

/-- The items of a list inside of `depth` levels. -/
def renderItems (depth : Nat) : List Document → List Text
  | [] => []
  | item :: items => renderAt depth item :: renderItems depth items

/-- The fields of an object inside of `depth` levels. -/
def renderFields (depth : Nat) : List (Text × Document) → List Text
  | [] => []
  | (key, value) :: fields =>
    (renderText key ++ ':' :: ' ' :: renderAt depth value) :: renderFields depth fields

end

/-- A document in JSON. -/
def render (d : Document) : Text :=
  renderAt 0 d

example : render (object [("files".toList, array []), ("usage".toList, ofNat 1)])
    = "\x7b\n  \"files\": [],\n  \"usage\": 1\n\x7d".toList := by decide +kernel

end Document

end ImportCensus
