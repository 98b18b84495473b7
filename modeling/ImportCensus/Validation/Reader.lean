import ImportCensus.Document
import ImportCensus.Table
import ImportCensus.Text.Blank
import ImportCensus.Text.Numeral
import ImportCensus.Validation.Fault

/-!
# Readers of data

A reader takes a document to a value of a given shape, or tells its faults.  Readers are lenient
with whole numbers and truth values, which may be written in several ways, and strict with
everything else.  Fields that a shape does not know are passed over.
-/

namespace ImportCensus

/-- A reader of values of a type. -/
abbrev Reader (α : Type) := Document → Checked α

namespace Reader

variable {α : Type}

/-- A text. -/
def text : Reader Text
  | .text t => .ok t
  | _ => Checked.fault .notText

/-- A value, or none for null. -/
def optional (read : Reader α) : Reader (Option α)
  | .null => .ok none
  | d => (read d).map some

/-- A text without the blanks at its ends, the separators of ASCII apart. -/
def trimNumeral (t : Text) : Text :=
  Text.strip (fun c => Text.isBlank c && !(28 ≤ c.toNat && c.toNat ≤ 31)) t

/-- A numeral without the point and the zeros it may end in. -/
def withoutZeros (t : Text) : Text :=
  if (t.dropWhile (· != '.')).drop 1 |>.all (· == '0') then t.takeWhile (· != '.') else t

/-- A whole number.  Truth values count as one and zero, and a text may write the number. -/
def integer : Reader Int
  | .bool b => .ok (if b then 1 else 0)
  | .number mantissa scale =>
    if mantissa % Int.pow 10 scale = 0 then .ok (mantissa / Int.pow 10 scale)
    else Checked.fault .fractionalInteger
  | .text t =>
    match Text.integer? Text.asciiDigit? (withoutZeros (trimNumeral t)) with
    | some n => .ok n
    | none => Checked.fault .unreadableInteger
  | _ => Checked.fault .notInteger

/-- The words for true. -/
def trueWords : List String := ["1", "on", "t", "true", "y", "yes"]

/-- The words for false. -/
def falseWords : List String := ["0", "off", "f", "false", "n", "no"]

/-- The truth value of a whole number, which must be one or zero.  A number beyond 64 bits is of
the wrong kind. -/
def booleanOfInteger (n : Int) : Checked Bool :=
  if n = 0 then .ok false
  else if n = 1 then .ok true
  else if -Int.pow 2 63 ≤ n ∧ n < Int.pow 2 63 then Checked.fault .unreadableBoolean
  else Checked.fault .notBoolean

/-- A truth value, which a number or a word may stand for. -/
def boolean : Reader Bool
  | .bool b => .ok b
  | .number mantissa scale =>
    if mantissa % Int.pow 10 scale = 0 then booleanOfInteger (mantissa / Int.pow 10 scale)
    else Checked.fault .notBoolean
  | .text t =>
    let word := (Text.lower t).toString
    if trueWords.contains word then .ok true
    else if falseWords.contains word then .ok false
    else Checked.fault .unreadableBoolean
  | _ => Checked.fault .notBoolean

/-- The items of a list from an index on. -/
def itemsFrom (read : Reader α) : Nat → List Document → Checked (List α)
  | _, [] => .ok []
  | index, d :: rest =>
    ((read d).within (.item index)).both (itemsFrom read (index + 1) rest) |>.map fun (a, as) =>
      a :: as

/-- A list. -/
def list (read : Reader α) : Reader (List α)
  | .array items => itemsFrom read 0 items
  | _ => Checked.fault .notList

/-- The entries of a map. -/
def entries (read : Reader α) : List (Text × Document) → Checked (List (Text × α))
  | [] => .ok []
  | (key, d) :: rest =>
    ((read d).within (.field key)).both (entries read rest) |>.map fun (a, others) =>
      (key, a) :: others

/-- A map from texts, in the order of its keys. -/
def table (read : Reader α) : Reader (Table Text α)
  | .object fields => (entries read fields).map Table.ofList
  | _ => Checked.fault .notMap

/-- The fields of an object of a shape. -/
def fields (shape : String) : Reader (List (Text × Document))
  | .object fields => .ok fields
  | _ => Checked.fault (.notObject shape)

/-- The spellings of a field's name; the first one found counts. -/
abbrev FieldName := List String

/-- The field of a name, under the spelling found. -/
def field? (fields : List (Text × Document)) (name : FieldName) : Option (Text × Document) :=
  name.findSome? fun spelling =>
    (Table.lookup spelling.toList fields).map fun d => (spelling.toList, d)

/-- A field that must be there. -/
def required (fields : List (Text × Document)) (name : FieldName) (read : Reader α) : Checked α :=
  match field? fields name with
  | some (spelling, d) => (read d).within (.field spelling)
  | none => (Checked.fault .missing).within (.field ((name.head?.map String.toList).getD []))

/-- A field that has a value also where it is missing. -/
def withDefault (fields : List (Text × Document)) (name : FieldName) (read : Reader α)
    (default : α) : Checked α :=
  match field? fields name with
  | some (spelling, d) => (read d).within (.field spelling)
  | none => .ok default

end Reader

end ImportCensus
