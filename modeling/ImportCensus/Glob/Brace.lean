import ImportCensus.Glob.Choice
import ImportCensus.Glob.Error

/-!
# Braces

What a pattern with braces stands for.  Braces around alternatives with commas between them, or
around a range, stand for each of these in turn.  Other braces, escaped ones, and those behind a
dollar sign stand for themselves.  The backslashes of escapes are left for the reader of the
pattern.

A pattern is read as a list of marks.  `close?` finds the brace that closes a group, `alternatives`
cuts what stands between, and `choice` puts the choices of the groups together.
-/

namespace ImportCensus.Glob

namespace Brace

/-- One mark of a pattern, as far as braces are concerned. -/
inductive Mark where
  | opening
  /-- An opening brace behind a dollar sign. -/
  | shielded
  | closing
  | comma
  /-- The first dot of the two that may stand in a range. -/
  | dots
  | plain (text : Text)
  deriving DecidableEq, Repr

namespace Mark

/-- A mark as it is written. -/
def text : Mark → Text
  | opening => ['{']
  | shielded => ['$', '{']
  | closing => ['}']
  | comma => [',']
  | dots => ['.']
  | plain text => text

/-- Whether a mark makes a group of the braces it stands in. -/
def separates : Mark → Bool
  | comma | dots => true
  | _ => false

/-- The number of open braces behind a mark, if there are `level` before it. -/
def levelBehind (level : Nat) : Mark → Nat
  | opening | shielded => level + 1
  | closing => level - 1
  | _ => level

/-- The same outside all groups, where only the braces behind a dollar sign and those within them
are counted. -/
def levelOutside (level : Nat) (m : Mark) : Nat :=
  if m = opening ∧ level = 0 then 0 else m.levelBehind level

end Mark

/-- Whether two dots stand in a range, if this follows the first one.  At the end of braces they
do not. -/
def isDotted : Text → Bool
  | '.' :: '}' :: _ => false
  | '.' :: _ => true
  | _ => false

/-- The marks of a pattern. -/
def marks : Text → List Mark
  | [] => []
  | '\\' :: c :: rest => .plain ['\\', c] :: marks rest
  | '$' :: '{' :: rest => .shielded :: marks rest
  | '{' :: rest => .opening :: marks rest
  | '}' :: rest => .closing :: marks rest
  | ',' :: rest => .comma :: marks rest
  | '.' :: rest => (if isDotted rest then .dots else .plain ['.']) :: marks rest
  | c :: rest => .plain [c] :: marks rest

/-- Marks as they are written. -/
def spelled (text : List Mark) : Text :=
  text.flatMap Mark.text

/-- What stands before the brace that closes a group, and what follows it.  A closing brace that
no mark has `separated` from the opening one does not close the group. -/
def close? (separated : Bool) (level : Nat) : List Mark → Option (List Mark × List Mark)
  | [] => none
  | m :: rest =>
    if m = .closing ∧ level = 0 ∧ separated then some ([], rest)
    else
      (close? (separated || level == 0 && m.separates) (m.levelBehind level) rest).map
        fun (body, behind) => (m :: body, behind)

theorem length_of_close? {separated : Bool} {level : Nat} {text body behind : List Mark}
    (h : close? separated level text = some (body, behind)) :
  body.length + behind.length < text.length
  := by
  fun_induction close? separated level text generalizing body with
  | case1 => cases h
  | case2 =>
    cases h
    simp
  | case3 separated level m rest hm ih =>
    obtain ⟨⟨inner, _⟩, hc, he⟩ := Option.map_eq_some_iff.mp h
    cases he
    have := ih hc
    simp
    omega

/-- The parts of a group between the commas that stand in no further braces. -/
def alternatives (level : Nat) : List Mark → List (List Mark)
  | [] => [[]]
  | m :: rest =>
    if m = .comma ∧ level = 0 then [] :: alternatives level rest
    else
      match alternatives (m.levelBehind level) rest with
      | [] => [[m]]
      | part :: parts => (m :: part) :: parts

theorem length_of_mem_alternatives {level : Nat} {body part : List Mark}
    (h : part ∈ alternatives level body) :
  part.length ≤ body.length
  := by
  fun_induction alternatives level body generalizing part with
  | case1 => simp_all
  | case2 level m rest hm ih =>
    rcases List.mem_cons.mp h with rfl | h
    · simp
    · exact Nat.le_succ_of_le (ih h)
  | case3 level m rest hm he ih =>
    cases List.mem_singleton.mp h
    simp
  | case4 level m rest hm first parts he ih =>
    rw [he] at ih
    rcases List.mem_cons.mp h with rfl | h
    · simpa using ih List.mem_cons_self
    · exact Nat.le_succ_of_le (ih (List.mem_cons_of_mem _ h))

/-- A choice between choices. -/
def anyOf : List Choice → Choice
  | [] => .one []
  | [c] => c
  | c :: cs => .either c (anyOf cs)

/-- The group that marks begin with, and what follows it.  Within `level` braces open behind a
dollar sign there is none, and braces that hold nothing begin none at the `start` of a text. -/
def group? (start : Bool) (level : Nat) : List Mark → Option (List Mark × List Mark)
  | .opening :: rest =>
    if 0 < level ∨ start ∧ rest.head? = some .closing then none else close? false 0 rest
  | _ => none

theorem length_of_group? {start : Bool} {level : Nat} {text body behind : List Mark}
    (h : group? start level text = some (body, behind)) :
  body.length + behind.length + 1 < text.length
  := by
  unfold group? at h
  split at h
  · split at h
    · cases h
    · have := length_of_close? h
      simp
      omega
  · cases h

/-- The choice that marks stand for, from the `start` of a text or not, with `level` braces open
behind a dollar sign.  Where a group has only one part and is no range, its braces stand for
themselves, and so does all that is between them if there is a comma among it. -/
def choice (start : Bool) (level : Nat) (text : List Mark) : Choice :=
  match text with
  | [] => .one []
  | m :: rest =>
    match _h : group? start level (m :: rest) with
    | none => .both (.one m.text) (choice false (m.levelOutside level) rest)
    | some (body, behind) =>
      match _ha : alternatives 0 body with
      | [_] =>
        match range? (spelled body) with
        | some range => .both range (choice true 0 behind)
        | none =>
          if .comma ∈ body then
            .both (.one (m.text ++ spelled body ++ Mark.closing.text)) (choice true 0 behind)
          else .both (.one m.text) (choice false 0 rest)
      | parts =>
        .both (anyOf (parts.attach.map fun part => choice true 0 part.val))
          (choice true 0 behind)
termination_by text.length
decreasing_by
  · simp
  · have := length_of_group? _h
    omega
  · have := length_of_group? _h
    omega
  · simp
  · have := length_of_group? _h
    subst _ha
    have := length_of_mem_alternatives part.property
    omega
  · have := length_of_group? _h
    omega

end Brace

/-- The patterns without choices that a pattern stands for.  Empty ones are left out unless there
are no others. -/
def expand (pattern : Text) : Except Error (List Text) :=
  let choice := Brace.choice true 0 (Brace.marks pattern)
  if patternLimit < choice.count then .error .tooManyPatterns
  else
    let texts := choice.texts.filter fun t => !t.isEmpty
    .ok (if texts.isEmpty then [[]] else texts)

end ImportCensus.Glob
