import ImportCensus.Scan.Bracket

/-!
# Scan errors

Why a source cannot be scanned, and where.  Every error holds the offset of the token it is
about.
-/

namespace ImportCensus

open Scan

/-- Why a source cannot be scanned. -/
inductive ScanError where
  | unterminatedString (position : Nat)
  | unterminatedComment (position : Nat)
  | unterminatedTemplate (position : Nat)
  | unterminatedPattern (position : Nat)
  | unterminatedClause (position : Nat)
  | unterminatedImport (position : Nat)
  /-- The source ends inside the brackets opened at `position`. -/
  | unclosed (opener : Opener) (position : Nat)
  /-- A closing bracket stands where nothing is open. -/
  | unexpected (closer : Bracket) (position : Nat)
  /-- A closing bracket does not fit what was opened last, at `openedAt`. -/
  | mismatched (closer : Bracket) (opener : Opener) (openedAt position : Nat)
  deriving DecidableEq, Repr

namespace ScanError

/-- The offset that an error is reported at. -/
def position : ScanError → Nat
  | unterminatedString p => p
  | unterminatedComment p => p
  | unterminatedTemplate p => p
  | unterminatedPattern p => p
  | unterminatedClause p => p
  | unterminatedImport p => p
  | unclosed _ p => p
  | unexpected _ p => p
  | mismatched _ _ _ p => p

/-- A token between single quotation marks. -/
def quoted (token : Text) : String :=
  "'" ++ token.toString ++ "'"

/-- What is wrong, without the place. -/
def description : ScanError → String
  | unterminatedString _ => "unterminated string"
  | unterminatedComment _ => "unterminated comment"
  | unterminatedTemplate _ => "unterminated template literal"
  | unterminatedPattern _ => "unterminated regular expression"
  | unterminatedClause _ => "unterminated import clause"
  | unterminatedImport _ => "unterminated import statement"
  | unclosed opener _ => "unclosed " ++ quoted opener.text
  | unexpected closer _ => "unexpected " ++ quoted [closer.closing]
  | mismatched closer opener openedAt _ =>
    quoted [closer.closing] ++ " does not close " ++ quoted opener.text ++ " opened at "
      ++ ToString.toString openedAt

/-- What is wrong, and where. -/
def message (e : ScanError) : String :=
  e.description ++ " at offset " ++ ToString.toString e.position

end ScanError

end ImportCensus
