import ImportCensus.Path

/-!
# Languages

The language of a source file, told by the extension of its path.
-/

namespace ImportCensus

/-- The language of a source file. -/
inductive Language where
  | javascript
  | typescript
  | vue
  | svelte
  | unknown
  deriving DecidableEq, Repr

namespace Language

/-- The name of a language. -/
def name : Language → String
  | javascript => "javascript"
  | typescript => "typescript"
  | vue => "vue"
  | svelte => "svelte"
  | unknown => "unknown"

/-- The language of files with an extension. -/
def ofExtension (extension : Text) : Language :=
  match (Text.lower extension).toString with
  | ".js" => javascript
  | ".jsx" => javascript
  | ".mjs" => javascript
  | ".cjs" => javascript
  | ".ts" => typescript
  | ".tsx" => typescript
  | ".mts" => typescript
  | ".cts" => typescript
  | ".vue" => vue
  | ".svelte" => svelte
  | _ => unknown

/-- The language of a file. -/
def ofPath (path : Text) : Language :=
  ofExtension (Path.extension path)

/-- All languages, in the order of their names. -/
def all : List Language :=
  [javascript, svelte, typescript, unknown, vue]

end Language

end ImportCensus
