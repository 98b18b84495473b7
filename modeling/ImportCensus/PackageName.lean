import ImportCensus.Text.Blank

/-!
# Package names

A package name is `P` or `@U/P`.  Names of the parts built into the run-time system are taken,
and so are the names a registry keeps for itself; a registry accepts a new name only in small
letters, in the characters an address leaves unescaped, and up to a fixed length.
-/

namespace ImportCensus.PackageName

/-- The longest name a registry accepts. -/
def maxLength : Nat := 214

/-- The names a registry keeps for itself. -/
def reserved : List String :=
  ["node_modules", "favicon.ico"]

/-- The names of the modules built into the run-time system. -/
def builtins : List String :=
  ["assert", "async_hooks", "buffer", "child_process", "cluster", "console", "constants",
   "crypto", "dgram", "diagnostics_channel", "dns", "domain", "events", "fs", "http", "http2",
   "https", "inspector", "module", "net", "os", "path", "perf_hooks", "process", "punycode",
   "querystring", "readline", "repl", "stream", "string_decoder", "sys", "timers", "tls",
   "trace_events", "tty", "url", "util", "v8", "vm", "wasi", "worker_threads", "zlib"]

/-- A punctuation mark that an address leaves unescaped but a package name may not hold. -/
def isSpecialMark (c : Char) : Bool :=
  c == '~' || c == '\'' || c == '!' || c == '(' || c == ')' || c == '*'

/-- A character that an address leaves unescaped. -/
def isAddressSafe (c : Char) : Bool :=
  c.isAlphanum || c == '.' || c == '_' || c == '-' || isSpecialMark c

/-- A name that begins with a dot or an underscore, as hidden files do. -/
def beginsHidden : Text → Bool
  | '.' :: _ => true
  | '_' :: _ => true
  | _ => false

/-- The part of a name behind its last slash. -/
def lastPart (name : Text) : Text :=
  ((Text.splitOn '/' name).getLast?).getD []

/-- The scope and the package of a name `@scope/package`, neither empty. -/
def scoped? (name : Text) : Option (Text × Text) :=
  match Text.splitOn '/' name with
  | ['@' :: scope, package] =>
    if scope.isEmpty || package.isEmpty then none else some (scope, package)
  | _ => none

/-- Whether both halves of a scoped name are written in address-safe characters and its
package is not hidden. -/
def isSafeScoped (name : Text) : Bool :=
  match scoped? name with
  | some (scope, package) =>
    !beginsHidden package && scope.all isAddressSafe && package.all isAddressSafe
  | none => false

/-- A name that a registry accepts for a new package.  Letters beyond ASCII are never address
safe, so that comparing with the small letters of ASCII suffices. -/
def isValid (name : Text) : Bool :=
  !name.isEmpty
    && !beginsHidden name
    && Text.trim name == name
    && !reserved.contains (Text.lower name).toString
    && !builtins.contains name.toString
    && name.length ≤ maxLength
    && Text.lower name == name
    && !(lastPart name).any isSpecialMark
    && (name.all isAddressSafe || isSafeScoped name)

end ImportCensus.PackageName
