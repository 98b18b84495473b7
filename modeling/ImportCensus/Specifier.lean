import ImportCensus.PackageName

/-!
# Import specifiers

The text by which an import names what it imports.  A specifier is read as a bare package name,
as a package name with a query string or a script extension on it, or as a path.
-/

namespace ImportCensus.Specifier

/-- A specifier up to its query string. -/
def withoutQuery (specifier : Text) : Text :=
  specifier.takeWhile (· != '?')

/-- Whether nothing is left of a text, apart from one line feed. -/
def isLineEnd : Text → Bool
  | [] => true
  | ['\n'] => true
  | _ => false

/-- What follows the letters `js` in either case at the start of a text, where the text ends
there.  The long `ſ` is a small form of `S`. -/
def jsTail? : Text → Option Text
  | j :: s :: tail =>
    if (j == 'j' || j == 'J') && (s == 's' || s == 'S' || s == 'ſ') && isLineEnd tail
    then some tail else none
  | _ => none

/-- What follows a script extension `.js` or `.mjs` in either case at the start of a text,
where the text ends there. -/
def extensionTail? : Text → Option Text
  | '.' :: m :: rest => if m == 'm' || m == 'M' then jsTail? rest else jsTail? (m :: rest)
  | _ => none

/-- A specifier without the script extension it ends in. -/
def withoutExtension : Text → Text
  | [] => []
  | c :: rest => (extensionTail? (c :: rest)).getD (c :: withoutExtension rest)

/-- Whether a specifier ends in a script extension. -/
def hasExtension : Text → Bool
  | [] => false
  | c :: rest => (extensionTail? (c :: rest)).isSome || hasExtension rest

/-- Whether `://` stands in the first line of a text. -/
def hasAuthority : Text → Bool
  | [] => false
  | c :: rest =>
    c != '\n' && ((Text.after? [':', '/', '/'] (c :: rest)).isSome || hasAuthority rest)

/-- Whether a specifier begins as a package name does and is not an address with an authority
part. -/
def looksBare : Text → Bool
  | [] => false
  | c :: rest => (c == '@' || c.isAlphanum || c == '_') && !hasAuthority rest

/-- What a specifier names.  A bare name stands for itself.  Otherwise the query string goes,
and the script extension goes too where that leaves a valid package name.  A specifier of
which nothing is left names nothing. -/
def classify (specifier : Text) : Option Text :=
  if looksBare specifier && !specifier.contains '?' && !hasExtension specifier then
    some specifier
  else
    let cleaned := withoutQuery specifier
    let package := withoutExtension cleaned
    if PackageName.isValid package then some package
    else if cleaned.isEmpty then none
    else some cleaned

/-- Whether a specifier is resolved from the file it stands in. -/
def isRelative : Text → Bool
  | ['.'] => true
  | ['.', '.'] => true
  | '.' :: '/' :: _ => true
  | '.' :: '.' :: '/' :: _ => true
  | _ => false

/-- Whether a text is `macro` or `macro.js`, apart from one line feed. -/
def isMacroName (text : Text) : Bool :=
  match Text.after? ['m', 'a', 'c', 'r', 'o'] text with
  | none => false
  | some rest =>
    isLineEnd rest ||
      match Text.after? ['.', 'j', 's'] rest with
      | none => false
      | some tail => isLineEnd tail

/-- Whether a specifier names a compile-time macro, by its last part behind a dot or a slash. -/
def isMacro : Text → Bool
  | [] => false
  | c :: rest => ((c == '.' || c == '/') && isMacroName rest) || isMacro rest

end ImportCensus.Specifier
