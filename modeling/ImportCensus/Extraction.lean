import ImportCensus.Clause
import ImportCensus.Salvage
import ImportCensus.Scan
import ImportCensus.Specifier

/-!
# Extraction of imports

The imports of a source as records of what is imported from where.  The source is scanned as it
is; where that fails, or where it holds markup, the statements salvaged from it are scanned
instead.
-/

namespace ImportCensus

/-- What one statement imports.  `importAll` tells that it names nothing in particular, and
`whole` that it binds the whole module to a name. -/
structure ImportRecord where
  specifier : Text
  importAll : Bool := false
  defaultName : Option Text := none
  whole : Bool := false
  named : List Text := []
  deriving DecidableEq, Repr

namespace Extraction

open Text Scan

/-- The contents of a quoted text with nothing but blanks around it. -/
def literal? (text : Text) : Option Text :=
  match skipBlanks text with
  | [] => none
  | q :: rest =>
    let stops := fun c => isQuote c || c == '\n'
    match rest.dropWhile (!stops ·) with
    | [] => none
    | c :: behind =>
      if isQuote q && c == q && behind.all isBlank then some (rest.takeWhile (!stops ·)) else none

/-- The specifier of an occurrence as it is written.  The argument of a dynamic import has one
only where it is a literal. -/
def specifier? (code : Text) (o : Occurrence) : Option Text :=
  if o.dynamic then literal? (o.text code) else some (o.text code)

/-- The record of an occurrence.  Imports of nothing, of macros and of types have none. -/
def record? (code : Text) (o : Occurrence) : Option ImportRecord :=
  match (specifier? code o).bind Specifier.classify with
  | none => none
  | some specifier =>
    let statement := code.slice o.statementStart o.statementStop
    if Specifier.isMacro specifier || Clause.isTypeOnly statement then none
    else if o.dynamic then some { specifier, importAll := true }
    else
      let clause := Comment.remove (code.slice o.statementStart (o.start - 1))
      let defaultName := Clause.defaultName? clause
      let whole := Clause.takesAll clause
      let named := Clause.named clause
      some {
        specifier
        importAll := !(defaultName.isSome || whole || !named.isEmpty)
        defaultName
        whole
        named }

/-- The records of a source that can be scanned. -/
def records (code : Text) : Except ScanError (List ImportRecord) :=
  (scan code).map fun occurrences => occurrences.filterMap (record? code)

/-- The extensions of files that hold markup. -/
def markupExtensions : List String :=
  [".jsx", ".tsx"]

/-- Whether files with an extension hold markup. -/
def holdsMarkup (extension : Text) : Bool :=
  markupExtensions.contains (lower extension).toString

end Extraction

/-- What an extraction yields: the records or the error of the last scan, and the error of the
first scan where a second was needed. -/
structure Extraction where
  fallback : Option ScanError
  outcome : Except ScanError (List ImportRecord)

/-- The imports of a file with an extension. -/
def extract (source extension : Text) : Extraction :=
  let salvaged := Extraction.records (Salvage.reduce source)
  if Extraction.holdsMarkup extension then { fallback := none, outcome := salvaged }
  else
    match Extraction.records source with
    | .ok records => { fallback := none, outcome := .ok records }
    | .error e => { fallback := some e, outcome := salvaged }

section

variable {source extension : Text}

theorem extract_of_records {records : List ImportRecord} (hm : Extraction.holdsMarkup extension = false)
    (hr : Extraction.records source = .ok records) :
  extract source extension = { fallback := none, outcome := .ok records }
  := by
  simp only [extract, hm, hr, Bool.false_eq_true, if_false]

theorem extract_of_holdsMarkup (hm : Extraction.holdsMarkup extension = true) :
  extract source extension = { fallback := none, outcome := Extraction.records (Salvage.reduce source) }
  := by
  simp only [extract, hm, if_true]

end

end ImportCensus
