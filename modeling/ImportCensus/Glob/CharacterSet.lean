import ImportCensus.Glob.CharacterClass

/-!
# Sets of characters

The sets between square brackets.  A set is read element by element up to its closing bracket, and
a `Draft` decides which of its hyphens are signs of a range and which stand for themselves.  A range
that goes backwards is dropped.
-/

namespace ImportCensus.Glob

/-- A member of a set of characters. -/
inductive Member where
  | range (first last : Char)
  | named (name : CharacterClass)
  deriving DecidableEq, Repr

/-- Whether a character is meant by a member. -/
def Member.holds : Member → Char → Bool
  | range first last, c => first ≤ c && c ≤ last
  | named name, c => name.holds c

/-- A set of characters: those that have one of the members, or those that have none. -/
structure CharacterSet where
  negated : Bool
  members : List Member
  deriving DecidableEq, Repr

/-- Whether a character is in a set.  A slash is in none. -/
def CharacterSet.holds (s : CharacterSet) (c : Char) : Bool :=
  c != '/' && (s.members.any fun m => m.holds c) != s.negated

/-- One element of a set as it is written. -/
inductive Element where
  | hyphen
  | character (c : Char) (escaped : Bool)
  | named (name : CharacterClass)
  deriving DecidableEq, Repr

namespace Element

/-- The element at the start of a text, and what follows it.  A slash is none, escaped or not. -/
def at? : Text → Option (Element × Text)
  | [] => none
  | c :: rest =>
    if c = '\\' then
      match rest with
      | [] => none
      | d :: after => if d = '/' then none else some (character d true, after)
    else if c = '/' then none
    else if c = '-' then some (hyphen, rest)
    else
      match if c = '[' then CharacterClass.at? rest else none with
      | some (name, after) => some (named name, after)
      | none => some (character c false, rest)

theorem length_of_at? {text rest : Text} {e : Element} (h : at? text = some (e, rest)) :
  rest.length < text.length
  := by
  unfold at? at h
  split at h
  · cases h
  · rename_i c behind
    split at h
    · split at h
      · cases h
      · split at h
        · cases h
        · cases h
          exact Nat.lt_succ_of_lt (Nat.lt_succ_self _)
    · split at h
      · cases h
      · split at h
        · cases h
          simp
        · split at h
          · rename_i hn
            split at hn
            · cases h
              have := CharacterClass.length_of_at? hn
              simp
              omega
            · cases hn
          · cases h
            simp

/-- The elements up to the closing bracket, and what follows it. -/
def listAt? (text : Text) : Option (List Element × Text) :=
  match text with
  | [] => none
  | c :: rest =>
    if c = ']' then some ([], rest)
    else
      match _h : at? (c :: rest) with
      | none => none
      | some (e, after) => (listAt? after).map fun (es, behind) => (e :: es, behind)
termination_by text.length
decreasing_by exact length_of_at? _h

theorem length_of_listAt? {text rest : Text} {elements : List Element}
    (h : listAt? text = some (elements, rest)) :
  rest.length < text.length
  := by
  fun_induction listAt? text generalizing elements with
  | case1 => cases h
  | case2 =>
    cases h
    simp
  | case3 => cases h
  | case4 c behind _ e after he ih =>
    obtain ⟨⟨es, _⟩, hs, hp⟩ := Option.map_eq_some_iff.mp h
    cases hp
    exact Nat.lt_trans (ih hs) (length_of_at? he)

/-- The elements of a set, and what follows it.  A closing bracket or a hyphen that comes first
stands for itself. -/
def bodyAt? : Text → Option (List Element × Text)
  | [] => none
  | c :: rest =>
    if c = ']' ∨ c = '-' then
      (listAt? rest).map fun (es, behind) => (character c true :: es, behind)
    else listAt? (c :: rest)

theorem length_of_bodyAt? {text rest : Text} {elements : List Element}
    (h : bodyAt? text = some (elements, rest)) :
  rest.length < text.length
  := by
  unfold bodyAt? at h
  split at h
  · cases h
  · split at h
    · obtain ⟨⟨es, _⟩, hs, hp⟩ := Option.map_eq_some_iff.mp h
      cases hp
      exact Nat.lt_succ_of_lt (length_of_listAt? hs)
    · exact length_of_listAt? h

/-- The number that an element counts as where it might begin a range.  A class counts as the
second character of its own list of characters, which is nearly always a hyphen. -/
def rank : Element → Nat
  | hyphen => '-'.toNat
  | character c _ => c.toNat
  | named .blank => ' '.toNat
  | named _ => '-'.toNat

/-- The members that elements stand for, where every hyphen between two characters is the sign of a
range. -/
def members : List Element → List Member
  | [] => []
  | character first _ :: hyphen :: character last _ :: rest => .range first last :: members rest
  | character c _ :: rest => .range c c :: members rest
  | hyphen :: rest => .range '-' '-' :: members rest
  | named name :: rest => .named name :: members rest

end Element

/-- A set while it is read. -/
structure Draft where
  /-- The elements that have been kept, the last one first.  A hyphen is the sign of a range. -/
  kept : List Element := []
  /-- Whether the last sign of a range waits for the end of the range. -/
  pending : Bool := false
  /-- How many characters have been read since the last sign of a range, as far as it matters. -/
  distance : Nat := 2
  afterClass : Bool := false

namespace Draft

/-- One more element that stands for itself. -/
def push (d : Draft) (e : Element) : Draft :=
  { d with kept := e :: d.kept, distance := d.distance + 1, afterClass := false }

/-- The end of a range.  If it goes backwards, its beginning and its sign are taken back. -/
def close (d : Draft) (last : Element) : Draft :=
  match d.kept with
  | _ :: first :: before =>
    if last.rank < first.rank then
      { d with
        kept := before, pending := false, distance := d.distance + 1, afterClass := false }
    else { d.push last with pending := false }
  | _ => { d.push last with pending := false }

/-- The elements kept, where the sign of a range behind which none ends stands for itself. -/
def unsigned : List Element → List Element
  | .hyphen :: before => .character '-' true :: before
  | kept => kept

/-- One more element.  A hyphen is the sign of a range unless it stands behind a class, or within
two characters of the last such sign; then it ends a range that is pending, or stands for itself. -/
def step (d : Draft) : Element → Draft
  | .hyphen =>
    if d.afterClass then d.push (.character '-' true)
    else if 2 ≤ d.distance then
      { d with kept := .hyphen :: d.kept, pending := true, distance := 0 }
    else if d.pending then d.close (.character '-' true)
    else d.push (.character '-' true)
  | .named name =>
    { d with
      kept := .named name :: if d.pending then unsigned d.kept else d.kept
      distance := d.distance + 2, afterClass := true }
  | .character c escaped =>
    let next := if d.pending then d.close (.character c escaped) else d.push (.character c escaped)
    if escaped then { next with distance := d.distance + 2 } else next

/-- The set that has been read.  A plain caret in front negates it, even one that stands there only
because a range before it was dropped. -/
def set (d : Draft) : CharacterSet :=
  match d.kept.reverse with
  | .character '^' false :: rest => ⟨true, Element.members rest⟩
  | kept => ⟨false, Element.members kept⟩

end Draft

namespace CharacterSet

/-- The set that elements stand for. -/
def ofElements (elements : List Element) : CharacterSet :=
  (elements.foldl Draft.step {}).set

/-- The caret that stands for the sign of negation at the start of a set, and what follows it. -/
def negationAt : Text → Option Element × Text
  | [] => (none, [])
  | c :: rest =>
    if c = '!' || c = '^' then (some (.character '^' false), rest) else (none, c :: rest)

theorem length_negationAt (text : Text) :
  (negationAt text).2.length ≤ text.length
  := by
  unfold negationAt
  split
  · simp
  · split <;> simp

/-- The set behind an opening bracket, and what follows it. -/
def at? (text : Text) : Option (CharacterSet × Text) :=
  (Element.bodyAt? (negationAt text).2).map fun (elements, rest) =>
    (ofElements ((negationAt text).1.toList ++ elements), rest)

theorem length_of_at? {text rest : Text} {s : CharacterSet} (h : at? text = some (s, rest)) :
  rest.length < text.length
  := by
  obtain ⟨⟨elements, _⟩, hb, hp⟩ := Option.map_eq_some_iff.mp h
  cases hp
  exact Nat.lt_of_lt_of_le (Element.length_of_bodyAt? hb) (length_negationAt text)

example : (at? "a-c-e]".toList).map Prod.fst =
    some ⟨false, [.range 'a' 'c', .range '-' '-', .range 'e' 'e']⟩ := by
  decide +kernel

example : (at? "b-a^c]".toList).map Prod.fst = some ⟨true, [.range 'c' 'c']⟩ := by
  decide +kernel

end CharacterSet

end ImportCensus.Glob
