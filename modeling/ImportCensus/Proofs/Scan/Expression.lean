import Mathlib.Data.List.Forall2
import ImportCensus.Proofs.Extraction.Recognition

/-!
# Nested expressions

Expressions made of names, strings, brackets, template literals and dynamic imports, nested in one another
without limit.  The scanner passes the text of an expression at the level of nesting at which it stands, and
finds exactly the dynamic imports in it, in the order in which they begin: one stack holds brackets,
substitutions and imports, and behind each closing character the right one is taken up again.
-/

namespace ImportCensus.Scan

open Text Written
open Segment (of)

/-- A word that begins no declaration. -/
structure Identifier where
  text : Text
  isWord : IsWord text []
  solid : stops isSpace text = true
  ne_import : text ≠ importWord
  ne_export : text ≠ exportWord

/-- A text in a template literal that neither ends the literal nor opens a substitution. -/
structure Chunk where
  text : Text
  backtick : '\x60' ∉ text
  backslash : '\\' ∉ text
  whole : ¬ ['$', '{'] <:+: text

/-- An expression.  A template literal has its substitutions, each with the chunk before it, and a last
chunk. -/
inductive Expression where
  | name (name : Identifier)
  | string (q : Quoted)
  | list (b : Bracket) (elements : List Expression)
  | dynamic (argument : Expression)
  | template (holes : List (Chunk × Expression)) (last : Chunk)

/-! ### Texts -/

mutual

/-- The text of an expression. -/
def Expression.text : Expression → Text
  | .name name => name.text
  | .string q => q.text
  | .list b elements => b.opening :: (join [',', ' '] (texts elements) ++ [b.closing])
  | .dynamic argument => importWord ++ '(' :: (argument.text ++ [')'])
  | .template holes last => '\x60' :: (textOfHoles holes ++ (last.text ++ ['\x60']))

/-- The texts of expressions. -/
def texts : List Expression → List Text
  | [] => []
  | e :: es => e.text :: texts es

/-- The text of substitutions with the chunks before them. -/
def textOfHoles : List (Chunk × Expression) → Text
  | [] => []
  | (chunk, e) :: holes => chunk.text ++ ('$' :: '{' :: (e.text ++ '}' :: textOfHoles holes))

end

mutual

/-- The dynamic imports in an expression that stands at an offset: where each of them begins, and its
argument. -/
def Expression.imports (position : Nat) : Expression → List (Nat × Expression)
  | .name _ => []
  | .string _ => []
  | .list _ elements => importsOfElements (position + 1) elements
  | .dynamic argument => (position, argument) :: argument.imports (position + 7)
  | .template holes _ => importsOfHoles (position + 1) holes

/-- The dynamic imports in expressions with commas between them. -/
def importsOfElements (position : Nat) : List Expression → List (Nat × Expression)
  | [] => []
  | e :: es => e.imports position ++ importsOfElements (position + e.text.length + 2) es

/-- The dynamic imports in substitutions with the chunks before them. -/
def importsOfHoles (position : Nat) : List (Chunk × Expression) → List (Nat × Expression)
  | [] => []
  | (chunk, e) :: holes =>
    e.imports (position + chunk.text.length + 2)
      ++ importsOfHoles (position + chunk.text.length + e.text.length + 3) holes

end

/-- The occurrences of imports without a blank in front of their brackets. -/
def occurrencesOf (imports : List (Nat × Expression)) : List Occurrence :=
  imports.map fun place => dynamicOccurrence place.1 [] place.2.text

/-- Imports one behind the other have their occurrences in this order. -/
theorem occurrencesOf_append (imports more : List (Nat × Expression)) :
  occurrencesOf (imports ++ more) = occurrencesOf imports ++ occurrencesOf more
  := List.map_append

/-! ### Runs -/

/-- Whether the scanner comes from a state to another one that many characters farther on. -/
structure Reaches (s n : State) (length : Nat) : Prop where
  run_eq : s.run = n.run
  position_eq : n.cursor.position = s.cursor.position + length

namespace Reaches

variable {s m n : State} {length length' : Nat}

/-- A state reaches itself. -/
theorem refl (s : State) :
  Reaches s s 0
  := ⟨rfl, rfl⟩

/-- What is reached one behind the other is reached. -/
theorem trans (h : Reaches s m length) (h' : Reaches m n length') :
  Reaches s n (length + length')
  := by
  refine ⟨h.run_eq.trans h'.run_eq, ?_⟩
  rw [h'.position_eq, h.position_eq, Nat.add_assoc]

end Reaches

/-- A step reaches the state behind it. -/
theorem Step.reaches {s n : State} {segment : Segment} (h : Step s segment n)
    (hr : s.cursor.rest = segment.text ++ n.cursor.rest) :
  Reaches s n segment.length
  := by
  refine ⟨h.run_eq hr, ?_⟩
  rw [Cursor.position, h.before_eq, Trail.length_pass, Cursor.position, Nat.add_comm]

/-- Whether the scanner passes a text wherever it stands behind no dot and in front of no identifier
character, with the levels of nesting as they were behind it, and finds in it what `found` tells for its
offset. -/
def Passes (text : Text) (found : Nat → List Occurrence) : Prop :=
  ∀ (s : State) (rest : Text), s.cursor.rest = text ++ rest → afterDot s.cursor.before = false →
    stops isIdentifierPart rest = true →
    ∃ n : State, Reaches s n text.length ∧ n.cursor.rest = rest ∧ n.frames = s.frames
      ∧ n.found = s.found ++ found s.cursor.position

/-- Nothing is passed without imports. -/
theorem passes_nil :
  Passes [] fun _ => []
  := fun s _ hr _ _ => ⟨s, .refl s, hr, rfl, (List.append_nil _).symm⟩

/-- A name is passed without imports. -/
theorem passes_identifier (name : Identifier) :
  Passes name.text fun _ => []
  := by
  intro s rest hr _ hrest
  have hword : IsWord name.text rest := by
    have hword := name.isWord
    generalize name.text = text at hword
    cases hword with
    | mk hc ht _ => exact .mk hc ht hrest
  have hstep : Step s (of .code name.text)
      (s.moved (of .code name.text) rest (expectsBehindWord name.text)) :=
    .name hword name.solid (fun h => absurd h name.ne_import) (fun h => absurd h name.ne_export)
  have hreaches := hstep.reaches (by simp [hr])
  rw [Segment.length_of] at hreaches
  exact ⟨_, hreaches, rfl, rfl, (List.append_nil _).symm⟩

/-- A string is passed without imports. -/
theorem passes_quoted (q : Quoted) :
  Passes q.text fun _ => []
  := by
  intro s rest hr _ _
  have hstep : Step s q.segment (s.moved q.segment rest .operator) := .string q.isQuote q.isStringBody
  have hreaches := hstep.reaches (by simp [hr])
  rw [← Segment.length_text, q.text_segment] at hreaches
  exact ⟨_, hreaches, rfl, rfl, (List.append_nil _).symm⟩

/-! ### Lists -/

/-- A comma and a space are passed, and no dot stands before what follows them. -/
theorem exists_reaches_comma {s : State} {rest : Text} (hr : s.cursor.rest = ',' :: ' ' :: rest) :
  ∃ n : State, Reaches s n 2 ∧ n.cursor.rest = rest ∧ n.frames = s.frames ∧ n.found = s.found
    ∧ afterDot n.cursor.before = false
  := by
  have hcomma : Step s [(',', .code)] (s.moved [(',', .code)] (' ' :: rest) (expectsBehindMark ',')) :=
    .mark (isMark_comma _)
  have hspace := @Step.space (s.moved [(',', .code)] (' ' :: rest) (expectsBehindMark ',')) ' ' rest
    (by decide)
  refine ⟨_, (hcomma.reaches hr).trans (hspace.reaches rfl), rfl, rfl, rfl, ?_⟩
  have hgap : [' '].all isGap = true := by decide
  exact (afterDot_pass_of_isGap hgap (s.cursor.before.pass [(',', .code)])).trans
    (afterDot_pass (by decide) (by decide) s.cursor.before [] .code)

/-- Texts with a comma and a space between them are passed one after the other. -/
theorem Passes.append {text more : Text} {found found' : Nat → List Occurrence} (h : Passes text found)
    (hm : Passes more found') :
  Passes (text ++ ',' :: ' ' :: more) fun position =>
    found position ++ found' (position + text.length + 2)
  := by
  intro s rest hr hd hrest
  obtain ⟨m, htext, hmrest, hmframes, hmfound⟩ := h s (',' :: ' ' :: (more ++ rest)) (by simp [hr]) hd rfl
  obtain ⟨m', hcomma, hm'rest, hm'frames, hm'found, hm'dot⟩ := exists_reaches_comma hmrest
  obtain ⟨n, hmore, hnrest, hnframes, hnfound⟩ := hm m' rest hm'rest hm'dot hrest
  have hreaches := (htext.trans hcomma).trans hmore
  refine ⟨n, ?_, hnrest, ?_, ?_⟩
  · have hlength : text.length + 2 + more.length = (text ++ ',' :: ' ' :: more).length := by
      simp
      omega
    rwa [hlength] at hreaches
  · rw [hnframes, hm'frames, hmframes]
  · rw [hnfound, hm'found, hmfound, hcomma.position_eq, htext.position_eq, List.append_assoc]

/-! ### Brackets -/

/-- What a bracket encloses is passed with the brackets: the level that is entered is left again. -/
theorem Passes.exists_reaches {s : State} {b : Bracket} {text rest : Text} {found : Nat → List Occurrence}
    (h : Passes text found) {frame : Frame} {frames : List Frame} (hf : s.frames = frame :: frames)
    (ho : frame.opener = .bracket b) (hn : s.found = []) (hd : afterDot s.cursor.before = false)
    (hr : s.cursor.rest = text ++ b.closing :: rest) :
  ∃ n : State, Reaches s n (text.length + 1) ∧ n.cursor.rest = rest ∧ n.frames = frames
    ∧ n.found = frame.outer ++ ((frame.occurrence? (s.cursor.position + text.length)).toList
      ++ found s.cursor.position)
  := by
  have hclosing : stops isIdentifierPart (b.closing :: rest) = true := by
    cases b <;> rfl
  obtain ⟨m, htext, hmrest, hmframes, hmfound⟩ := h s (b.closing :: rest) hr hd hclosing
  have hstep := @Step.closing m b frame frames rest (hmframes.trans hf) ho
  refine ⟨_, htext.trans (hstep.reaches hmrest), rfl, rfl, ?_⟩
  rw [State.found_moved, State.found_leave, hmfound, hn, List.nil_append, List.append_assoc,
    ← htext.position_eq]
  rfl

/-- A list in brackets is passed, and has the imports of its elements. -/
theorem Passes.enclosed {text : Text} {found : Nat → List Occurrence} (h : Passes text found)
    (b : Bracket) :
  Passes (b.opening :: (text ++ [b.closing])) fun position => found (position + 1)
  := by
  intro s rest hr _ _
  have hstep : Step s [(b.opening, .code)]
      (s.enter (.bracket b) none s.cursor.before (text ++ b.closing :: rest)) := .opening b
  have hreaches := hstep.reaches (by simp [hr, State.enter])
  have hdot : afterDot (s.enter (.bracket b) none s.cursor.before
      (text ++ b.closing :: rest)).cursor.before = false := by
    rw [State.cursor_enter]
    cases b <;> exact afterDot_pass (by decide) (by decide) s.cursor.before [] .code
  obtain ⟨n, htext, hnrest, hnframes, hnfound⟩ := h.exists_reaches rfl rfl rfl hdot rfl
  refine ⟨n, ?_, hnrest, hnframes, ?_⟩
  · have hlength : [(b.opening, Part.code)].length + (text.length + 1)
        = (b.opening :: (text ++ [b.closing])).length := by
      simp
      omega
    rw [← hlength]
    apply hreaches.trans htext
  · rw [hnfound, hreaches.position_eq]
    rfl

/-- A dynamic import is passed, and stands before the imports of its argument. -/
theorem Passes.dynamic {argument : Text} {found : Nat → List Occurrence} (h : Passes argument found) :
  Passes (importWord ++ '(' :: (argument ++ [')'])) fun position =>
    dynamicOccurrence position [] argument :: found (position + 7)
  := by
  intro s rest hr hd _
  have hword : IsWord importWord ('(' :: (argument ++ ')' :: rest)) := Name.importing.isWord rfl
  have hgap : Trivia [] ('(' :: (argument ++ ')' :: rest)) :=
    .settled ((Token.opening .round).isSettled_text _)
  have hstep := @Step.dynamic s [] _ hd hword hgap
  have hreaches : Reaches s _ 7 := hstep.reaches (by simp [hr, State.enter])
  have hdot : afterDot (s.enter (.bracket .round) (some s.cursor.before.length)
      (s.cursor.before.pass (of .code importWord ++ [])) (argument ++ ')' :: rest)).cursor.before
      = false := by
    rw [State.cursor_enter]
    exact afterDot_pass (by decide) (by decide) _ [] .code
  obtain ⟨n, htext, hnrest, hnframes, hnfound⟩ := h.exists_reaches rfl rfl rfl hdot rfl
  refine ⟨n, ?_, hnrest, hnframes, ?_⟩
  · have hlength : 7 + (argument.length + 1)
        = (importWord ++ '(' :: (argument ++ [')'])).length := by
      simp [importWord]
      omega
    rw [← hlength]
    apply hreaches.trans htext
  · have hoccurrence : Frame.occurrence?
          { opener := .bracket .round
            position := (s.cursor.before.pass (of .code importWord ++ [])).length
            importAt := some s.cursor.before.length
            outer := s.found } (s.cursor.position + 7 + argument.length)
        = some (dynamicOccurrence s.cursor.position [] argument) := by
      simp only [Frame.occurrence?, dynamicOccurrence, Cursor.position, Option.map_some, Trail.length_pass,
        Segment.length_of, List.append_nil, List.nil_append, List.length_append, List.length_cons,
        List.length_nil, importWord, Option.some.injEq, Occurrence.mk.injEq, true_and, and_true]
      omega
    rw [hnfound, hreaches.position_eq, hoccurrence]
    rfl

/-! ### Template literals -/

/-- Whether a chunk of a template literal is read behind a character: a backtick opens a literal, and a
curly bracket that closes a substitution leads back to the literal around it. -/
inductive OpensChunk (s : State) : Char → State → Prop where
  | literal :
    OpensChunk s '\x60' s
  | resumed {frame : Frame} {frames : List Frame} (hf : s.frames = frame :: frames)
      (ho : frame.opener = .substitution) :
    OpensChunk s '}' (s.leave frame frames [])

namespace OpensChunk

variable {s outer : State} {c : Char} {chunk : Text}

/-- The last chunk ends the literal. -/
theorem step_literal (h : OpensChunk s c outer) (hc : IsChunk .literal chunk) (rest : Text) :
  Step s ((c, .code) :: Segment.chunk chunk .literal)
    (outer.moved ((c, .code) :: Segment.chunk chunk .literal) rest .operator)
  := by
  cases h with
  | literal => exact .literal hc
  | resumed hf ho => exact .resumeLiteral hf ho hc

/-- Any other chunk opens a substitution. -/
theorem step_substitution (h : OpensChunk s c outer) (hc : IsChunk .substitution chunk) (rest : Text) :
  Step s ((c, .code) :: Segment.chunk chunk .substitution)
    (outer.enter .substitution none (s.cursor.before.pass ((c, .code) :: of .chunk chunk)) rest)
  := by
  cases h with
  | literal => exact .substitution hc
  | resumed hf ho => exact .resumeSubstitution hf ho hc

end OpensChunk

/-- A chunk ends where a backtick or a substitution follows it. -/
theorem Chunk.isChunk (chunk : Chunk) (stop : ChunkEnd) :
  IsChunk stop chunk.text
  := by
  obtain ⟨text, hbacktick, hbackslash, hwhole⟩ := chunk
  unfold IsChunk
  induction text with
  | nil => cases stop <;> rfl
  | cons c text ih =>
    simp only [List.mem_cons, not_or] at hbacktick hbackslash
    have hinner : ¬ ['$', '{'] <:+: text := fun h => hwhole (h.trans (List.suffix_cons c text).isInfix)
    rw [List.cons_append, templateChunk?_cons (Ne.symm hbackslash.1), if_neg (Ne.symm hbacktick.1),
      ih hbacktick.2 hbackslash.2 hinner]
    · rfl
    · rintro tail rfl htail
      cases text with
      | nil => cases stop <;> cases htail
      | cons d text =>
        obtain rfl : d = '{' := (List.cons.inj htail).1
        exact hwhole ⟨[], text, rfl⟩

/-- The chunks and the substitutions of a literal are passed up to its end, and it has the imports of its
substitutions. -/
def HolesPass (holes : List (Chunk × Expression)) : Prop :=
  ∀ (last : Chunk) {s outer : State} {c : Char} {rest : Text}, OpensChunk s c outer →
    s.cursor.rest = c :: (textOfHoles holes ++ (last.text ++ '\x60' :: rest)) →
    ∃ n : State, Reaches s n ((textOfHoles holes).length + last.text.length + 2) ∧ n.cursor.rest = rest
      ∧ n.frames = outer.frames
      ∧ n.found = outer.found ++ occurrencesOf (importsOfHoles (s.cursor.position + 1) holes)

/-- A template literal without substitutions is passed without imports. -/
theorem holesPass_nil :
  HolesPass []
  := by
  intro last s outer c rest ho hr
  have hstep := ho.step_literal (last.isChunk .literal) rest
  have hreaches := hstep.reaches (by simpa [textOfHoles, ChunkEnd.text] using hr)
  have hlength : ((c, Part.code) :: Segment.chunk last.text .literal).length
      = (textOfHoles []).length + last.text.length + 2 := by
    simp [textOfHoles, ← Segment.length_text, ChunkEnd.text]
  rw [hlength] at hreaches
  exact ⟨_, hreaches, rfl, rfl, (List.append_nil _).symm⟩

/-- One more substitution has the imports of its expression. -/
theorem holesPass_cons {chunk : Chunk} {e : Expression} {holes : List (Chunk × Expression)}
    (he : Passes e.text fun position => occurrencesOf (e.imports position)) (h : HolesPass holes) :
  HolesPass ((chunk, e) :: holes)
  := by
  intro last s outer c rest ho hr
  have hstep := ho.step_substitution (chunk.isChunk .substitution)
    (e.text ++ '}' :: (textOfHoles holes ++ (last.text ++ '\x60' :: rest)))
  have hopening := hstep.reaches (by
    rw [hr]
    simp [textOfHoles, ChunkEnd.text, State.enter])
  have hdot : afterDot (outer.enter .substitution none
      (s.cursor.before.pass ((c, .code) :: of .chunk chunk.text))
      (e.text ++ '}' :: (textOfHoles holes ++ (last.text ++ '\x60' :: rest)))).cursor.before = false := by
    rw [State.cursor_enter]
    exact afterDot_pass (by decide) (by decide) _ [('$', .code)] .code
  obtain ⟨m, htext, hmrest, hmframes, hmfound⟩ := he _ _ rfl hdot rfl
  obtain ⟨n, hbehind, hnrest, hnframes, hnfound⟩ := h last (.resumed hmframes rfl) hmrest
  have hreaches := (hopening.trans htext).trans hbehind
  have hchunk : ((c, Part.code) :: Segment.chunk chunk.text .substitution).length
      = chunk.text.length + 3 := by
    simp [← Segment.length_text, ChunkEnd.text]
  rw [hchunk] at hopening hreaches
  refine ⟨n, ?_, hnrest, hnframes, ?_⟩
  · have hlength : chunk.text.length + 3 + e.text.length
          + ((textOfHoles holes).length + last.text.length + 2)
        = (textOfHoles ((chunk, e) :: holes)).length + last.text.length + 2 := by
      simp [textOfHoles]
      omega
    rwa [hlength] at hreaches
  · have hfirst : s.cursor.position + (chunk.text.length + 3)
        = s.cursor.position + 1 + chunk.text.length + 2 := by
      omega
    have hrest : s.cursor.position + 1 + chunk.text.length + 2 + e.text.length + 1
        = s.cursor.position + 1 + chunk.text.length + e.text.length + 3 := by
      omega
    rw [hnfound, State.found_leave, hmfound, htext.position_eq, hopening.position_eq, hfirst, hrest,
      importsOfHoles, occurrencesOf_append, State.found_enter]
    simp

/-- A template literal is passed, and has the imports of its substitutions. -/
theorem HolesPass.passes {holes : List (Chunk × Expression)} (h : HolesPass holes) (last : Chunk) :
  Passes ('\x60' :: (textOfHoles holes ++ (last.text ++ ['\x60']))) fun position =>
    occurrencesOf (importsOfHoles (position + 1) holes)
  := by
  intro s rest hr _ _
  obtain ⟨n, hreaches, hrest, hframes, hfound⟩ := @h last s s '\x60' rest .literal (by simp [hr])
  refine ⟨n, ?_, hrest, hframes, hfound⟩
  have hlength : (textOfHoles holes).length + last.text.length + 2
      = ('\x60' :: (textOfHoles holes ++ (last.text ++ ['\x60']))).length := by
    simp
    omega
  rwa [hlength] at hreaches

/-! ### Expressions -/

/-- One more element has its imports in front of those of the others. -/
theorem passes_elements {e : Expression} {es : List Expression}
    (he : Passes e.text fun position => occurrencesOf (e.imports position))
    (h : Passes (join [',', ' '] (texts es)) fun position => occurrencesOf (importsOfElements position es)) :
  Passes (join [',', ' '] (texts (e :: es))) fun position =>
    occurrencesOf (importsOfElements position (e :: es))
  := by
  cases es with
  | nil => simpa [texts, join, List.intercalate, importsOfElements] using he
  | cons e' es =>
    have happend := he.append h
    have hjoin : join [',', ' '] (texts (e :: e' :: es))
        = e.text ++ ',' :: ' ' :: join [',', ' '] (texts (e' :: es)) := by
      simp [texts, join, List.intercalate]
    have hfound : (fun position => occurrencesOf (importsOfElements position (e :: e' :: es)))
        = fun position => occurrencesOf (e.imports position)
          ++ occurrencesOf (importsOfElements (position + e.text.length + 2) (e' :: es)) := by
      funext position
      rw [importsOfElements, occurrencesOf_append]
    rw [hjoin, hfound]
    exact happend

mutual

/-- An expression is passed, and its imports are found. -/
theorem Expression.passes :
  ∀ e : Expression, Passes e.text fun position => occurrencesOf (e.imports position)
  | .name name => passes_identifier name
  | .string q => passes_quoted q
  | .list b elements => (elements_pass elements).enclosed b
  | .dynamic argument => argument.passes.dynamic
  | .template holes last => (holes_pass holes).passes last

/-- The elements of a list are passed with the imports of each. -/
theorem elements_pass :
  ∀ es : List Expression, Passes (join [',', ' '] (texts es)) fun position =>
    occurrencesOf (importsOfElements position es)
  | [] => passes_nil
  | e :: es => passes_elements e.passes (elements_pass es)

theorem holes_pass :
  ∀ holes : List (Chunk × Expression), HolesPass holes
  | [] => holesPass_nil
  | (_, e) :: holes => holesPass_cons e.passes (holes_pass holes)

end

/-! ### Places -/

/-- Whether imports stand in a text in this order and at their offsets, where the text stands at an
offset. -/
structure Holds (position : Nat) (text : Text) (imports : List (Nat × Expression)) : Prop where
  text_eq : ∀ place ∈ imports, ∃ before behind,
    text = before ++ ((Expression.dynamic place.2).text ++ behind) ∧ place.1 = position + before.length
  sorted : imports.Pairwise fun a b => a.1 < b.1

namespace Holds

variable {position : Nat} {text : Text} {imports : List (Nat × Expression)}

/-- No imports stand in any text. -/
theorem nil (position : Nat) (text : Text) :
  Holds position text []
  := ⟨by simp, .nil⟩

/-- A dynamic import is eight characters longer than its argument. -/
theorem length_dynamic (argument : Expression) :
  (Expression.dynamic argument).text.length = argument.text.length + 8
  := by
  simp [Expression.text, importWord]

/-- Imports begin in the text that holds them. -/
theorem bounds (h : Holds position text imports) :
  ∀ place ∈ imports, position ≤ place.1 ∧ place.1 < position + text.length
  := by
  intro place hplace
  obtain ⟨before, behind, rfl, hposition⟩ := h.text_eq place hplace
  rw [hposition, List.length_append, List.length_append, length_dynamic]
  omega

/-- Imports stand in a text that the text is part of, further behind. -/
theorem within {position' : Nat} (h : Holds position' text imports) (front behind : Text)
    (hp : position' = position + front.length) :
  Holds position (front ++ (text ++ behind)) imports
  := by
  refine ⟨?_, h.sorted⟩
  intro place hplace
  obtain ⟨before, behind', rfl, hposition⟩ := h.text_eq place hplace
  refine ⟨front ++ before, behind' ++ behind, by simp, ?_⟩
  rw [hposition, hp, List.length_append, Nat.add_assoc]

/-- Imports of two texts stand in both with something between them. -/
theorem append {imports' : List (Nat × Expression)} {more : Text} {position' : Nat}
    (h : Holds position text imports) (h' : Holds position' more imports') (between : Text)
    (hp : position' = position + text.length + between.length) :
  Holds position (text ++ (between ++ more)) (imports ++ imports')
  := by
  constructor
  · rw [List.forall_mem_append]
    have hfirst : Holds position ([] ++ (text ++ (between ++ more))) imports := h.within _ _ rfl
    have hsecond : Holds position ((text ++ between) ++ (more ++ [])) imports' := by
      apply h'.within
      rw [hp, List.length_append, Nat.add_assoc]
    exact ⟨hfirst.text_eq, by simpa using hsecond.text_eq⟩
  · refine List.pairwise_append.mpr ⟨h.sorted, h'.sorted, ?_⟩
    intro a ha b hb
    have hlt := (h.bounds a ha).2
    have hle := (h'.bounds b hb).1
    omega

end Holds

mutual

/-- The imports of an expression stand in its text. -/
theorem Expression.holds :
  ∀ (e : Expression) (position : Nat), Holds position e.text (e.imports position)
  | .name _, position => .nil position _
  | .string _, position => .nil position _
  | .list b elements, position => (elements_hold elements (position + 1)).within [b.opening] [b.closing] rfl
  | .dynamic argument, position => by
    have hinner : Holds position (Expression.dynamic argument).text (argument.imports (position + 7)) := by
      have hwithin : Holds position ((importWord ++ ['(']) ++ (argument.text ++ [')'])) _ :=
        (argument.holds (position + 7)).within _ _ rfl
      simpa [Expression.text] using hwithin
    constructor
    · rw [Expression.imports, List.forall_mem_cons]
      exact ⟨⟨[], [], by simp, by simp⟩, hinner.text_eq⟩
    · apply List.Pairwise.cons _ hinner.sorted
      intro place hplace
      have hle := ((argument.holds (position + 7)).bounds place hplace).1
      simp only
      omega
  | .template holes last, position => by
    have hwithin : Holds position (['\x60'] ++ (textOfHoles holes ++ (last.text ++ ['\x60']))) _ :=
      (holes_hold holes (position + 1)).within _ _ rfl
    simpa [Expression.text, Expression.imports] using hwithin

theorem elements_hold :
  ∀ (es : List Expression) (position : Nat),
    Holds position (join [',', ' '] (texts es)) (importsOfElements position es)
  | [], position => .nil position _
  | [e], position => by
    simpa [texts, join, List.intercalate, importsOfElements] using e.holds position
  | e :: e' :: es, position => by
    have happend := (e.holds position).append (elements_hold (e' :: es) (position + e.text.length + 2))
      [',', ' '] rfl
    have hjoin : join [',', ' '] (texts (e :: e' :: es))
        = e.text ++ ([',', ' '] ++ join [',', ' '] (texts (e' :: es))) := by
      simp [texts, join, List.intercalate]
    rw [hjoin, importsOfElements]
    exact happend

theorem holes_hold :
  ∀ (holes : List (Chunk × Expression)) (position : Nat),
    Holds position (textOfHoles holes) (importsOfHoles position holes)
  | [], position => .nil position _
  | (chunk, e) :: holes, position => by
    have hbetween : position + chunk.text.length + e.text.length + 3
        = position + chunk.text.length + 2 + e.text.length + ['}'].length := by
      rw [List.length_singleton]
      omega
    have happend := (e.holds (position + chunk.text.length + 2)).append (holes_hold holes _) ['}'] hbetween
    have hstart : position + chunk.text.length + 2 = position + (chunk.text ++ ['$', '{']).length := by
      rw [List.length_append, Nat.add_assoc]
      rfl
    have hwithin := happend.within (chunk.text ++ ['$', '{']) [] hstart
    simpa [textOfHoles, importsOfHoles] using hwithin

end

/-! ### Scanning -/

/-- An expression does not begin with a number sign. -/
theorem Expression.head?_text (e : Expression) :
  e.text.head? ≠ some '#'
  := by
  cases e with
  | name name =>
    obtain ⟨text, hword, hsolid, -⟩ := name
    cases hword with
    | mk hc _ _ =>
      rintro ⟨⟩
      exact absurd hc (by decide)
  | string q =>
    intro hq
    obtain hq : q.quote = '#' := Option.some.inj hq
    have hquote := q.isQuote
    rw [hq] at hquote
    exact absurd hquote (by decide)
  | list b elements => cases b <;> rintro ⟨⟩
  | dynamic argument => rintro ⟨⟩
  | template holes last => rintro ⟨⟩

/-- Whether an occurrence has the offsets of a dynamic import: its statement is the whole import, and its
specifier is the argument. -/
structure Spans (source : Text) (place : Nat × Expression) (o : Occurrence) : Prop where
  dynamic : o.dynamic = true
  statementStart_eq : o.statementStart = place.1
  text_eq : o.text source = place.2.text
  statement_eq : source.slice o.statementStart o.statementStop = (Expression.dynamic place.2).text

/-- An import of an expression has its argument between its brackets. -/
theorem Expression.spans (e : Expression) {place : Nat × Expression} (h : place ∈ e.imports 0) :
  Spans e.text place (dynamicOccurrence place.1 [] place.2.text)
  := by
  obtain ⟨before, behind, htext, hposition⟩ := (e.holds 0).text_eq place h
  rw [Nat.zero_add] at hposition
  have hsource : e.text
      = before ++ (importWord ++ ([] ++ '(' :: (place.2.text ++ ')' :: behind))) := by
    rw [htext]
    simp [Expression.text]
  obtain ⟨hargument, hstatement⟩ := slices_dynamic before [] place.2.text behind hsource rfl
  rw [← hposition] at hargument hstatement
  exact ⟨rfl, rfl, hargument, hstatement⟩

/-- The occurrences of the imports of an expression are found in its text. -/
theorem Expression.scan_eq (e : Expression) :
  scan e.text = .ok (occurrencesOf (e.imports 0))
  := by
  obtain ⟨n, hreaches, hrest, hframes, hfound⟩ :=
    e.passes (.behindHashbang [] e.text) [] (List.append_nil _).symm rfl rfl
  have hrun := (Run.finished hrest hframes).run_eq
  rw [scan, finish_eq e.head?_text, hreaches.run_eq, hrun]
  exact congrArg Except.ok hfound

/-- In an expression the scanner finds the dynamic imports, all of them and nothing else, in the order in
which they begin, and with their offsets. -/
theorem scan_text (e : Expression) :
  ∃ found, scan e.text = .ok found ∧ List.Forall₂ (Spans e.text) (e.imports 0) found
    ∧ (e.imports 0).Pairwise fun a b => a.1 < b.1
  := by
  refine ⟨occurrencesOf (e.imports 0), e.scan_eq, ?_, (e.holds 0).sorted⟩
  rw [occurrencesOf, List.forall₂_map_right_iff, List.forall₂_same]
  intro place hplace
  apply e.spans hplace

theorem isQuote_double :
  isQuote '"' = true
  := rfl

/-- An import in an import in a template literal in an import, behind a chunk that ends in a dollar sign. -/
def nested : Expression :=
  .list .curly [
    .dynamic (.template
      [(⟨['x', '$'], by decide, by decide, by decide⟩,
        .dynamic (.list .round [.dynamic (.string ⟨'"', ['y'], isQuote_double, rfl⟩)]))]
      ⟨['\x7d'], by decide, by decide, by decide⟩),
    .dynamic (.list .square [])]

/-- Imports in brackets, in a template and in its substitutions. -/
theorem scan_text_nested :
  nested.text = "\x7bimport(\x60x$$\x7bimport((import(\"y\")))\x7d\x7d\x60), import([])\x7d".toList
    ∧ (nested.imports 0).map Prod.fst = [1, 13, 21, 40]
    ∧ ∃ found, scan nested.text = .ok found ∧ List.Forall₂ (Spans nested.text) (nested.imports 0) found
      ∧ (nested.imports 0).Pairwise fun a b => a.1 < b.1
  := ⟨by decide, by decide, scan_text nested⟩

end ImportCensus.Scan
