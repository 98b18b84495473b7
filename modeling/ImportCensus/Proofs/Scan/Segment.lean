import ImportCensus.Scan
import Mathlib.Tactic.Use

/-!
# Segments

A segment is a stretch of a source in which every character has its part.  Trails pass segments.
What a reader of literals and comments accepts depends only on what it passes: the contents of a
literal are told from their own characters, and a line comment also from the line feed behind it.
-/

namespace ImportCensus.Scan

/-- A stretch of a source, each character with the part it plays. -/
abbrev Segment := List (Char × Part)

namespace Segment

/-- The segment of a text all of one part. -/
def of (part : Part) (text : Text) : Segment :=
  text.map (·, part)

/-- The characters of a segment. -/
def text (segment : Segment) : Text :=
  segment.map Prod.fst

@[simp]
theorem text_nil :
  text [] = []
  := rfl

@[simp]
theorem text_cons (c : Char) (part : Part) (segment : Segment) :
  text ((c, part) :: segment) = c :: text segment
  := rfl

@[simp]
theorem text_append (s t : Segment) :
  text (s ++ t) = text s ++ text t
  := List.map_append

@[simp]
theorem text_of (part : Part) (t : Text) :
  text (of part t) = t
  := by
  simp [text, of, Function.comp_def]

@[simp]
theorem of_nil (part : Part) :
  of part [] = []
  := rfl

@[simp]
theorem of_cons (part : Part) (c : Char) (t : Text) :
  of part (c :: t) = (c, part) :: of part t
  := rfl

@[simp]
theorem of_append (part : Part) (t u : Text) :
  of part (t ++ u) = of part t ++ of part u
  := List.map_append

@[simp]
theorem length_text (segment : Segment) :
  (text segment).length = segment.length
  := List.length_map _

@[simp]
theorem length_of (part : Part) (t : Text) :
  (of part t).length = t.length
  := List.length_map _

/-- A string: its contents between two quotation marks. -/
def string (quote : Char) (body : Text) : Segment :=
  (quote, .code) :: (of (.quoted quote) body ++ [(quote, .code)])

@[simp]
theorem text_string (quote : Char) (body : Text) :
  text (string quote body) = quote :: (body ++ [quote])
  := by
  simp [string]

@[simp]
theorem length_string (quote : Char) (body : Text) :
  (string quote body).length = body.length + 2
  := by
  simp [string]

end Segment

namespace Trail

/-- A trail that goes on with a segment. -/
def pass (before : Trail) (segment : Segment) : Trail where
  characters := segment.reverse ++ before.characters
  length := segment.length + before.length
  length_eq := by simp [before.length_eq]

@[simp]
theorem text_empty :
  empty.text = []
  := rfl

@[simp]
theorem add_eq_pass (before : Trail) (part : Part) (text : Text) :
  before.add part text = before.pass (Segment.of part text)
  := by
  ext1
  simp [add, pass, Segment.of]

@[simp]
theorem pass_nil (before : Trail) :
  before.pass [] = before
  := by
  ext1
  simp [pass]

@[simp]
theorem pass_pass (before : Trail) (s t : Segment) :
  (before.pass s).pass t = before.pass (s ++ t)
  := by
  ext1
  simp [pass]

/-- A trail tells the segment that it goes on with. -/
theorem pass_injective {before : Trail} {s t : Segment} (h : before.pass s = before.pass t) :
  s = t
  := by
  have hcharacters := congrArg characters h
  apply List.reverse_inj.mp (List.append_cancel_right hcharacters)

@[simp]
theorem length_pass (before : Trail) (segment : Segment) :
  (before.pass segment).length = segment.length + before.length
  := rfl

@[simp]
theorem text_pass (before : Trail) (segment : Segment) :
  (before.pass segment).text = before.text ++ Segment.text segment
  := by
  simp [pass, text, Segment.text]

end Trail

/-! ### The contents of literals -/

/-- The contents of a string with the given quotation mark. -/
def IsStringBody (quote : Char) (body : Text) : Prop :=
  stringBody? quote (body ++ [quote]) = some (body, [])

/-- The contents of a template chunk that ends in the given way. -/
def IsChunk (stop : ChunkEnd) (chunk : Text) : Prop :=
  templateChunk? (chunk ++ stop.text) = some (chunk, stop, [])

/-- The contents of a regular expression. -/
def IsPatternBody (body : Text) : Prop :=
  patternBody? false (body ++ ['/']) = some (body, [])

/-- A block comment behind its opening. -/
def IsBlockBody (body : Text) : Prop :=
  blockComment? body = some (body, [])

/-- A character that does not take the next one with it. -/
theorem ne_backslash {c : Char} {rest : Text} (hn : c = '\\' → rest = [] → False)
    (hc : ∀ (d : Char) (tail : Text), c = '\\' → rest = d :: tail → False) :
  c ≠ '\\'
  := by
  rintro rfl
  cases rest with
  | nil => apply hn rfl rfl
  | cons d tail => apply hc d tail rfl rfl

/-- A character other than a backslash closes a string, breaks it off or is one of its contents. -/
theorem stringBody?_cons {quote c : Char} (hc : c ≠ '\\') (rest : Text) :
  stringBody? quote (c :: rest)
    = if c = quote then some ([], rest)
      else if isLineBreak c then none
      else withFront [c] (stringBody? quote rest)
  := by
  rw [stringBody?]
  · exact fun h => absurd h hc
  · exact fun _ _ h => absurd h hc

/-- The contents of a string are read alike whatever stands behind the string. -/
theorem stringBody?_append {quote : Char} {text body rest : Text}
    (h : stringBody? quote text = some (body, rest)) (rest' : Text) :
  stringBody? quote (body ++ quote :: rest') = some (body, rest')
  := by
  fun_induction stringBody? quote text generalizing body with
  | case1 => cases h
  | case2 => cases h
  | case3 c tail ih =>
    obtain ⟨inner, hi, rfl⟩ := withFront_eq_some h
    simp [stringBody?, ih hi, withFront]
  | case4 tail hn hc =>
    cases h
    rw [List.nil_append, stringBody?_cons (ne_backslash hn hc), if_pos rfl]
  | case5 => cases h
  | case6 c tail hn hc hq hb ih =>
    obtain ⟨inner, hi, rfl⟩ := withFront_eq_some h
    simp only [List.cons_append, List.nil_append]
    rw [stringBody?_cons (ne_backslash hn hc), if_neg hq, if_neg hb, ih hi]
    rfl

/-- What is read of a string are contents that may stand between such quotation marks. -/
theorem stringBody?_eq_some_iff {quote : Char} {text body rest : Text} :
  stringBody? quote text = some (body, rest) ↔ IsStringBody quote body ∧ text = body ++ quote :: rest
  := by
  constructor
  · intro h
    exact ⟨stringBody?_append h [], stringBody?_eq h⟩
  · rintro ⟨h, rfl⟩
    apply stringBody?_append h rest

/-- A character other than a backslash closes a template literal or is one of its contents, unless it opens a
substitution. -/
theorem templateChunk?_cons {c : Char} (hc : c ≠ '\\') {rest : Text}
    (hd : ∀ tail : Text, c = '$' → rest = '{' :: tail → False) :
  templateChunk? (c :: rest)
    = if c = '\x60' then some ([], .literal, rest) else withFront [c] (templateChunk? rest)
  := by
  rw [templateChunk?]
  · exact fun h => absurd h hc
  · exact fun _ _ h => absurd h hc
  · exact hd

/-- A chunk is read alike whatever stands behind it. -/
theorem templateChunk?_append {text chunk rest : Text} {stop : ChunkEnd}
    (h : templateChunk? text = some (chunk, stop, rest)) (rest' : Text) :
  templateChunk? (chunk ++ (stop.text ++ rest')) = some (chunk, stop, rest')
  := by
  fun_induction templateChunk? text generalizing chunk with
  | case1 => cases h
  | case2 => cases h
  | case3 c tail ih =>
    obtain ⟨inner, hi, rfl⟩ := withFront_eq_some h
    simp [templateChunk?, ih hi, withFront]
  | case4 tail =>
    cases h
    rfl
  | case5 tail _ =>
    cases h
    rfl
  | case6 c tail hn hc hd hb ih =>
    obtain ⟨inner, hi, rfl⟩ := withFront_eq_some h
    simp only [List.cons_append, List.nil_append]
    rw [templateChunk?_cons (ne_backslash hn hc), if_neg hb, ih hi]
    · rfl
    · rintro tail' rfl he
      -- the chunk would have ended here
      have ht := templateChunk?_eq hi
      rw [List.append_assoc] at ht
      cases inner with
      | nil =>
        cases stop with
        | literal => cases he
        | substitution => cases he
      | cons d inner =>
        cases he
        apply hd _ rfl ht

/-- What is read of a chunk are contents that may stand in front of its end. -/
theorem templateChunk?_eq_some_iff {text chunk rest : Text} {stop : ChunkEnd} :
  templateChunk? text = some (chunk, stop, rest)
    ↔ IsChunk stop chunk ∧ text = chunk ++ (stop.text ++ rest)
  := by
  constructor
  · intro h
    have hc := templateChunk?_append h []
    rw [List.append_nil] at hc
    exact ⟨hc, by rw [templateChunk?_eq h, List.append_assoc]⟩
  · rintro ⟨h, rfl⟩
    apply templateChunk?_append h rest

/-- A character other than a backslash closes a regular expression, breaks it off or is one of its contents. -/
theorem patternBody?_cons {bracketed : Bool} {c : Char} (hc : c ≠ '\\') (rest : Text) :
  patternBody? bracketed (c :: rest)
    = if isLineBreak c then none
      else if c = '/' && !bracketed then some ([], rest)
      else withFront [c] (patternBody? (c == '[' || (bracketed && c != ']')) rest)
  := by
  rw [patternBody?]
  · exact fun h => absurd h hc
  · exact fun _ _ h => absurd h hc

/-- A regular expression is read alike whatever stands behind it. -/
theorem patternBody?_append {bracketed : Bool} {text body rest : Text}
    (h : patternBody? bracketed text = some (body, rest)) (rest' : Text) :
  patternBody? bracketed (body ++ '/' :: rest') = some (body, rest')
  := by
  fun_induction patternBody? bracketed text generalizing body with
  | case1 => cases h
  | case2 => cases h
  | case3 bracketed c tail ih =>
    obtain ⟨inner, hi, rfl⟩ := withFront_eq_some h
    simp [patternBody?, ih hi, withFront]
  | case4 => cases h
  | case5 bracketed c tail hn hc hb hs =>
    cases h
    simp only [Bool.and_eq_true, decide_eq_true_eq, Bool.not_eq_true'] at hs
    rw [List.nil_append, patternBody?_cons (by decide), if_neg (by decide)]
    simp [hs.2]
  | case6 bracketed c tail hn hc hb hs ih =>
    obtain ⟨inner, hi, rfl⟩ := withFront_eq_some h
    simp only [List.cons_append, List.nil_append]
    rw [patternBody?_cons (ne_backslash hn hc), if_neg hb, if_neg hs, ih hi]
    rfl

/-- What is read of a regular expression are contents that may stand between slashes. -/
theorem patternBody?_eq_some_iff {text body rest : Text} :
  patternBody? false text = some (body, rest) ↔ IsPatternBody body ∧ text = body ++ '/' :: rest
  := by
  constructor
  · intro h
    exact ⟨patternBody?_append h [], patternBody?_eq h⟩
  · rintro ⟨h, rfl⟩
    apply patternBody?_append h rest

/-- A block comment has at least the characters that close it. -/
theorem ne_nil_of_blockComment? {text body rest : Text}
    (h : blockComment? text = some (body, rest)) :
  body ≠ []
  := by
  fun_induction blockComment? text generalizing body with
  | case1 => cases h
  | case2 tail =>
    cases h
    simp
  | case3 c tail _ _ =>
    obtain ⟨inner, -, rfl⟩ := withFront_eq_some h
    simp

/-- A block comment is read alike whatever stands behind it. -/
theorem blockComment?_append {text body rest : Text} (h : blockComment? text = some (body, rest))
    (rest' : Text) :
  blockComment? (body ++ rest') = some (body, rest')
  := by
  fun_induction blockComment? text generalizing body with
  | case1 => cases h
  | case2 tail =>
    cases h
    rfl
  | case3 c tail hs ih =>
    obtain ⟨inner, hi, rfl⟩ := withFront_eq_some h
    simp only [List.cons_append, List.nil_append]
    rw [blockComment?, ih hi]
    · rfl
    · rintro tail' rfl he
      -- the comment would have ended here
      have ht := blockComment?_eq hi
      cases inner with
      | nil => apply ne_nil_of_blockComment? hi rfl
      | cons d inner =>
        cases he
        apply hs _ rfl ht

/-- What is read of a block comment is one up to its end. -/
theorem blockComment?_eq_some_iff {text body rest : Text} :
  blockComment? text = some (body, rest) ↔ IsBlockBody body ∧ text = body ++ rest
  := by
  constructor
  · intro h
    have hb := blockComment?_append h []
    rw [List.append_nil] at hb
    exact ⟨hb, blockComment?_eq h⟩
  · rintro ⟨h, rfl⟩
    apply blockComment?_append h rest

/-! ### Runs of characters -/

/-- Whether a text does not begin with a character that `p` holds of. -/
def stops (p : Char → Bool) (text : Text) : Bool :=
  text.head?.all fun c => !p c

theorem identifierEnds_eq_stops (text : Text) :
  identifierEnds text = stops isIdentifierPart text
  := by
  cases text with
  | nil => rfl
  | cons c rest => rfl

/-- A run of characters that is dropped is a longest one. -/
theorem stops_dropWhile (p : Char → Bool) (text : Text) :
  stops p (text.dropWhile p) = true
  := by
  induction text with
  | nil => rfl
  | cons c rest ih =>
    rw [List.dropWhile_cons]
    split
    · exact ih
    · rename_i h
      simpa [stops] using h

/-- A longest run in front of a text is taken. -/
theorem takeWhile_append_of_stops {p : Char → Bool} {run rest : Text} (hp : run.all p = true)
    (hr : stops p rest = true) :
  (run ++ rest).takeWhile p = run
  := by
  rw [List.takeWhile_append_of_pos (List.all_eq_true.mp hp)]
  cases rest with
  | nil => simp
  | cons c rest =>
    simp only [stops, List.head?_cons, Option.all_some, Bool.not_eq_true'] at hr
    simp [hr]

/-- A longest run in front of a text is dropped. -/
theorem dropWhile_append_of_stops {p : Char → Bool} {run rest : Text} (hp : run.all p = true)
    (hr : stops p rest = true) :
  (run ++ rest).dropWhile p = rest
  := by
  rw [List.dropWhile_append_of_pos (List.all_eq_true.mp hp)]
  cases rest with
  | nil => simp
  | cons c rest =>
    simp only [stops, List.head?_cons, Option.all_some, Bool.not_eq_true'] at hr
    simp [hr]

/-! ### Comments -/

/-- Whether a comment begins at the start of a text. -/
def beginsComment : Text → Bool
  | '/' :: '/' :: _ => true
  | '/' :: '*' :: _ => true
  | _ => false

/-- Two characters tell whether a comment begins. -/
theorem beginsComment_cons_cons (c d : Char) (text : Text) :
  beginsComment (c :: d :: text) = (c == '/' && (d == '/' || d == '*'))
  := by
  unfold beginsComment
  split
  · simp_all
  · simp_all
  · rename_i hline hblock
    simp_all

/-- What begins a comment does so whatever stands behind it. -/
theorem beginsComment_append {comment : Text} (h : beginsComment comment = true) (rest : Text) :
  beginsComment (comment ++ rest) = true
  := by
  unfold beginsComment at h
  split at h
  · rfl
  · rfl
  · cases h

/-- Nothing but a slash begins a comment. -/
theorem beginsComment_of_ne {c : Char} (hc : c ≠ '/') (rest : Text) :
  beginsComment (c :: rest) = false
  := by
  unfold beginsComment
  split
  · rename_i h
    cases h
    exact absurd rfl hc
  · rename_i h
    cases h
    exact absurd rfl hc
  · rfl

/-- A character that a line comment goes on with. -/
def isInLine (c : Char) : Bool :=
  c != '\n'

/-- A comment, given what stands behind it. -/
inductive IsComment : Text → Text → Prop where
  | line {body rest : Text} (hb : body.all isInLine = true) (hr : stops isInLine rest = true) :
    IsComment ('/' :: '/' :: body) rest
  | block {body rest : Text} (hb : IsBlockBody body) :
    IsComment ('/' :: '*' :: body) rest

/-- No comment is read exactly where none begins. -/
theorem readComment?_eq_none_iff {before : Trail} {text : Text} :
  readComment? before text = none ↔ beginsComment text = false
  := by
  unfold readComment? beginsComment
  split
  · simp
  · split
    · simp
    · simp
  · simp

/-- A comment is read up to its end. -/
theorem readComment?_of_isComment {comment rest : Text} (h : IsComment comment rest)
    (before : Trail) :
  readComment? before (comment ++ rest)
    = some (.ok ⟨before.pass (Segment.of .comment comment), rest⟩)
  := by
  cases h with
  | @line body _ hb hr =>
    have ht : lineComment (body ++ rest) = body := takeWhile_append_of_stops hb hr
    have hd : behindLine (body ++ rest) = rest := dropWhile_append_of_stops hb hr
    simp only [List.cons_append, readComment?, ht, hd, Trail.add_eq_pass]
  | @block body _ hb =>
    have hr : blockComment? (body ++ rest) = some (body, rest) :=
      blockComment?_eq_some_iff.mpr ⟨hb, rfl⟩
    simp only [List.cons_append, readComment?, hr, Trail.add_eq_pass]

/-- What is read as a comment is one. -/
theorem exists_of_readComment? {before : Trail} {text : Text} {c : Cursor}
    (h : readComment? before text = some (.ok c)) :
  ∃ comment rest, IsComment comment rest ∧ text = comment ++ rest
    ∧ c = ⟨before.pass (Segment.of .comment comment), rest⟩
  := by
  unfold readComment? at h
  split at h
  · rename_i text
    cases h
    use '/' :: '/' :: lineComment text, behindLine text
    refine ⟨.line (List.all_takeWhile) (stops_dropWhile _ _), ?_, ?_⟩
    · simp [lineComment_append_behindLine]
    · simp
  · rename_i text
    split at h
    · cases h
    · rename_i body behind hb
      cases h
      obtain ⟨hbody, rfl⟩ := blockComment?_eq_some_iff.mp hb
      exact ⟨_, _, .block hbody, rfl, by simp⟩
  · cases h

end ImportCensus.Scan
