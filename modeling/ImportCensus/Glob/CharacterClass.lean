import ImportCensus.Text

/-!
# Classes of characters

The classes of characters that a set may name between a bracket and a colon.
-/

namespace ImportCensus.Glob

/-- The named classes of characters; all of them hold ASCII characters only. -/
inductive CharacterClass where
  | alnum | alpha | ascii | blank | cntrl | digit | graph | lower | print | punct | space
  | upper | word | xdigit
  deriving DecidableEq, Repr

namespace CharacterClass

/-- The names of the classes. -/
def named : List (String × CharacterClass) :=
  [("alnum", alnum), ("alpha", alpha), ("ascii", ascii), ("blank", blank), ("cntrl", cntrl),
   ("digit", digit), ("graph", graph), ("lower", lower), ("print", print), ("punct", punct),
   ("space", space), ("upper", upper), ("word", word), ("xdigit", xdigit)]

/-- Whether a character belongs to a class. -/
def holds (name : CharacterClass) (c : Char) : Bool :=
  match name with
  | alnum => c.isAlphanum
  | alpha => c.isAlpha
  | ascii => c.toNat < 128
  | blank => c == ' ' || c == '\t'
  | cntrl => c.toNat < 32 || c.toNat == 127
  | digit => c.isDigit
  | graph => 32 < c.toNat && c.toNat < 127
  | lower => c.isLower
  | print => 31 < c.toNat && c.toNat < 127
  | punct => 32 < c.toNat && c.toNat < 127 && !c.isAlphanum
  | space => c == ' ' || 8 < c.toNat && c.toNat < 14
  | upper => c.isUpper
  | word => c.isAlphanum || c == '_'
  | xdigit => c.isDigit || 'a' ≤ c && c ≤ 'f' || 'A' ≤ c && c ≤ 'F'

/-- The class whose name stands at the start of a text between colons, before a closing bracket,
and what follows it. -/
def at? (text : Text) : Option (CharacterClass × Text) :=
  named.findSome? fun (name, k) =>
    (Text.after? (':' :: name.toList ++ [':', ']']) text).map fun rest => (k, rest)

theorem length_of_at? {text rest : Text} {name : CharacterClass}
    (h : at? text = some (name, rest)) :
  rest.length < text.length
  := by
  obtain ⟨⟨word, k⟩, -, hk⟩ := List.exists_of_findSome?_eq_some h
  obtain ⟨behind, ha, he⟩ := Option.map_eq_some_iff.mp hk
  cases he
  rw [Text.after?_eq_some_iff] at ha
  subst ha
  simp
  omega

end CharacterClass

end ImportCensus.Glob
