import ImportCensus.Text.Numeral

/-!
# Choices

The texts that a pattern with braces stands for, before they are written out: fixed texts, one
choice behind another, one choice or another, and ranges of numbers and of letters.  `count` is
their number, found without writing them, and `texts` is their list, in order.
-/

namespace ImportCensus.Glob

/-- A choice between texts. -/
inductive Choice where
  | one (t : Text)
  | both (first second : Choice)
  | either (first second : Choice)
  /-- The numbers from `first` to `last`, each `step` further, with zeros up to `width`
  characters. -/
  | numbers (first last : Int) (step width : Nat)
  /-- The characters from `first` to `last`, each `step` further. -/
  | letters (first last step : Nat)
  deriving Repr

namespace Choice

/-- The number of steps of a length that fit into a distance, counting the start. -/
def stepCount (distance step : Nat) : Nat :=
  distance / max step 1 + 1

/-- The number of texts to choose from. -/
def count : Choice → Nat
  | one _ => 1
  | both a b => a.count * b.count
  | either a b => a.count + b.count
  | numbers first last step _ => stepCount (last - first).natAbs step
  | letters first last step => stepCount ((last : Int) - first).natAbs step

/-- The numbers from one to another, each a step further. -/
def series (first last : Int) (step : Nat) : List Int :=
  (List.range (stepCount (last - first).natAbs step)).map fun k =>
    if first ≤ last then first + (k * max step 1 : Nat) else first - (k * max step 1 : Nat)

/-- A number with zeros in front up to a width.  The sign counts. -/
def padded (width : Nat) (n : Int) : Text :=
  let digits := (toString n.natAbs).toList
  let sign := if n < 0 then ['-'] else []
  sign ++ List.replicate (width - sign.length - digits.length) '0' ++ digits

/-- The text of a character in a range of letters.  A backslash, which stands between the large
and the small letters, is left out. -/
def letterText (code : Int) : Text :=
  if code = 92 then [] else [Char.ofNat code.toNat]

/-- The texts to choose from. -/
def texts : Choice → List Text
  | one t => [t]
  | both a b => a.texts.flatMap fun s => b.texts.map fun t => s ++ t
  | either a b => a.texts ++ b.texts
  | numbers first last step width => (series first last step).map (padded width)
  | letters first last step => (series first last step).map letterText

end Choice

/-- The parts of a text around its double dots. -/
def dotted : Text → List Text
  | [] => [[]]
  | '.' :: '.' :: rest => [] :: dotted rest
  | c :: rest =>
    match dotted rest with
    | [] => [[c]]
    | part :: parts => (c :: part) :: parts

/-- The number that a part of a range writes in ASCII digits, with a sign or without.  A number
that needs more than 64 bits with its sign is none. -/
def number? (written : Text) : Option Int :=
  if written.contains '_' then none
  else (Text.integer? Text.asciiDigit? written).filter fun n =>
    -Int.pow 2 63 ≤ n && n < Int.pow 2 63

/-- Whether a number is written with a zero in front. -/
def isPadded : Text → Bool
  | '0' :: _ :: _ => true
  | '-' :: '0' :: _ :: _ => true
  | _ => false

/-- The range between two ends as they are written: two numbers, or two letters of ASCII.  If one
of two numbers is padded, all of the range are, to the length of the longer one. -/
def rangeBetween? (first last : Text) (step : Nat) : Option Choice :=
  match number? first, number? last with
  | some a, some b =>
    let width := if isPadded first || isPadded last then max first.length last.length else 0
    some (.numbers a b step width)
  | _, _ =>
    match first, last with
    | [a], [b] =>
      if a.isAlpha && b.isAlpha then some (.letters a.toNat b.toNat step) else none
    | _, _ => none

/-- The range that a text writes.  The sign of a step does not count. -/
def range? (text : Text) : Option Choice :=
  match dotted text with
  | [first, last] => rangeBetween? first last 1
  | [first, last, step] => (number? step).bind fun n => rangeBetween? first last n.natAbs
  | _ => none

example : (range? "9..+2..-3".toList).map Choice.texts = some [['9'], ['6'], ['3']] := by
  decide +kernel

example : (range? "-1..01".toList).map Choice.texts = some ["-1".toList, "00".toList, "01".toList]
  := by decide +kernel

end ImportCensus.Glob
