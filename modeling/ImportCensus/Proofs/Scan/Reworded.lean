import ImportCensus.Proofs.Scan.Run

/-!
# Reworded literals

A literal is reworded when its contents give way to others of the same length that neither end the
literal nor take it for something else.  Two segments that differ in the contents of literals only agree
in whatever a reader looks at beyond the token it reads: in front of a segment it sees the characters up
to the first literal, and behind itself those up to the last, and a literal begins and ends with characters
that stop it.
-/

namespace ImportCensus.Scan

open Segment (of)

/-! ### Contents -/

namespace Part

/-- Whether a part is that of the contents of a literal. -/
def isContents : Part → Bool
  | code => false
  | comment => false
  | quoted _ => true
  | chunk => true
  | pattern => true

/-- Whether a text may be the contents of any literal of this part. -/
def Admits : Part → Text → Prop
  | code, _ => False
  | comment, _ => False
  | quoted quote, text => ∀ c ∈ text, c ≠ quote ∧ c ≠ '\\' ∧ c ≠ '\r' ∧ c ≠ '\n'
  | chunk, text => ∀ c ∈ text, c ≠ '\x60' ∧ c ≠ '\\' ∧ c ≠ '$'
  | pattern, text =>
    (∀ c ∈ text, c ≠ '/' ∧ c ≠ '[' ∧ c ≠ ']' ∧ c ≠ '\\' ∧ c ≠ '\r' ∧ c ≠ '\n')
      ∧ text.head? ≠ some '*'

/-- Contents of a part that may take the place of others: the same, or any that are admitted and as
long. -/
structure Rewords (part : Part) (contents others : Text) : Prop where
  length_eq : others.length = contents.length
  eq_or_admits : others = contents ∨ part.Admits others

variable {part : Part} {contents others : Text}

/-- Contents may take their own place. -/
theorem Rewords.refl (part : Part) (contents : Text) :
  part.Rewords contents contents
  := ⟨rfl, .inl rfl⟩

end Part

/-- Two segments that differ in the contents of literals only: those of any of the literals are
reworded.  The contents of a literal are a longest stretch of characters of their part. -/
inductive Reworded : Segment → Segment → Prop where
  | nil : Reworded [] []
  | other {c : Char} {part : Part} {segment others : Segment} (hp : part.isContents = false)
      (h : Reworded segment others) :
    Reworded ((c, part) :: segment) ((c, part) :: others)
  | literal {part : Part} {contents contents' : Text} {segment others : Segment}
      (hp : part.isContents = true) (hn : contents ≠ [])
      (hm : ∀ passed ∈ segment.head?, passed.2 ≠ part) (hc : part.Rewords contents contents')
      (h : Reworded segment others) :
    Reworded (of part contents ++ segment) (of part contents' ++ others)

namespace Segment

/-- Whether no literal has contents in a segment. -/
def IsPlain (segment : Segment) : Prop :=
  ∀ passed ∈ segment, passed.2.isContents = false

/-- A segment has no contents where neither its first character is one of them nor there are any behind it. -/
theorem isPlain_cons {passed : Char × Part} {segment : Segment} :
  IsPlain (passed :: segment) ↔ passed.2.isContents = false ∧ IsPlain segment
  := List.forall_mem_cons

/-- A segment has no contents where neither of its parts has. -/
theorem isPlain_append {s t : Segment} :
  IsPlain (s ++ t) ↔ IsPlain s ∧ IsPlain t
  := List.forall_mem_append

/-- Characters of code and of comments are no contents. -/
theorem isPlain_of {part : Part} (hp : part.isContents = false) (text : Text) :
  IsPlain (of part text)
  := by
  intro passed hmem
  obtain ⟨c, -, rfl⟩ := List.mem_map.mp hmem
  exact hp

end Segment

namespace Reworded

variable {segment others : Segment} {c : Char} {part : Part}

/-- Without characters nothing is reworded. -/
theorem of_nil (h : Reworded [] others) :
  others = []
  := by
  generalize hs : ([] : Segment) = segment at h
  cases h with
  | nil => rfl
  | other => cases hs
  | literal hp hn => simp [Segment.of, hn] at hs

/-- A reworded segment is as long. -/
theorem length_eq (h : Reworded segment others) :
  others.length = segment.length
  := by
  induction h with
  | nil => rfl
  | other _ _ ih => rw [List.length_cons, List.length_cons, ih]
  | literal _ _ _ hc _ ih => simp [ih, hc.length_eq]

/-- Only contents are reworded. -/
theorem of_cons (h : Reworded ((c, part) :: segment) others) (hp : part.isContents = false) :
  ∃ tail : Segment, others = (c, part) :: tail ∧ Reworded segment tail
  := by
  generalize hs : (c, part) :: segment = whole at h
  cases h with
  | nil => cases hs
  | other _ h =>
    cases hs
    exact ⟨_, rfl, h⟩
  | @literal part' contents _ _ _ hp' hn =>
    cases contents with
    | nil => exact absurd rfl hn
    | cons d contents =>
      cases hs
      rw [hp] at hp'
      cases hp'

/-- A segment without contents is left alone. -/
theorem of_append {plain : Segment} (h : Reworded (plain ++ segment) others) (hp : plain.IsPlain) :
  ∃ tail : Segment, others = plain ++ tail ∧ Reworded segment tail
  := by
  induction plain generalizing others with
  | nil => exact ⟨others, rfl, h⟩
  | cons passed plain ih =>
    obtain ⟨c, part⟩ := passed
    rw [Segment.isPlain_cons] at hp
    obtain ⟨behind, rfl, hbehind⟩ := h.of_cons hp.1
    obtain ⟨tail, rfl, htail⟩ := ih hbehind hp.2
    exact ⟨tail, rfl, htail⟩

/-- Without contents nothing is reworded. -/
theorem eq_of_isPlain (h : Reworded segment others) (hp : segment.IsPlain) :
  others = segment
  := by
  rw [← List.append_nil segment] at h
  obtain ⟨tail, rfl, hnil⟩ := h.of_append hp
  rw [hnil.of_nil, List.append_nil]

/-- A segment without contents may stand in front of a reworded one. -/
theorem append_left (h : Reworded segment others) {plain : Segment} (hp : plain.IsPlain) :
  Reworded (plain ++ segment) (plain ++ others)
  := by
  induction plain with
  | nil => exact h
  | cons passed plain ih =>
    rw [Segment.isPlain_cons] at hp
    exact .other hp.1 (ih hp.2)

/-- A longest stretch of characters of one part is told from what stands behind it in one way. -/
theorem stretch_unique {contents contents' : Text} {tail tail' : Segment}
    (h : ∀ passed ∈ tail.head?, passed.2 ≠ part) (h' : ∀ passed ∈ tail'.head?, passed.2 ≠ part)
    (he : of part contents ++ tail = of part contents' ++ tail') :
  contents = contents' ∧ tail = tail'
  := by
  induction contents generalizing contents' with
  | nil =>
    cases contents' with
    | nil => exact ⟨rfl, he⟩
    | cons d contents' =>
      rw [Segment.of_nil, List.nil_append] at he
      subst he
      exact absurd rfl (h (d, part) rfl)
  | cons c contents ih =>
    cases contents' with
    | nil =>
      rw [Segment.of_nil, List.nil_append] at he
      subst he
      exact absurd rfl (h' (c, part) rfl)
    | cons d contents' =>
      obtain ⟨hhead, he⟩ := List.cons.inj he
      obtain ⟨rfl, rfl⟩ := ih he
      cases hhead
      exact ⟨rfl, rfl⟩

/-- Contents in front of a character of code are reworded as a whole. -/
theorem of_contents {contents : Text} (h : Reworded (of part contents ++ (c, .code) :: segment) others)
    (hp : part.isContents = true) :
  ∃ (contents' : Text) (tail : Segment), others = of part contents' ++ (c, .code) :: tail
    ∧ part.Rewords contents contents' ∧ Reworded segment tail
  := by
  have hcode : ∀ passed ∈ ((c, Part.code) :: segment).head?, passed.2 ≠ part := by
    rintro passed ⟨⟩ rfl
    cases hp
  cases contents with
  | nil =>
    obtain ⟨tail, rfl, htail⟩ := h.of_cons rfl
    exact ⟨[], tail, rfl, .refl part [], htail⟩
  | cons d contents =>
    generalize hs : of part (d :: contents) ++ (c, .code) :: segment = whole at h
    cases h with
    | nil => cases hs
    | other hp' h =>
      cases hs
      rw [hp] at hp'
      cases hp'
    | @literal part' contents' reworded behind others hp' hn hm hc h =>
      cases contents' with
      | nil => exact absurd rfl hn
      | cons e contents' =>
        obtain rfl : part = part' := congrArg Prod.snd (List.cons.inj hs).1
        obtain ⟨hcontents, rfl⟩ := stretch_unique hcode hm hs
        rw [← hcontents] at hc
        obtain ⟨tail, rfl, htail⟩ := h.of_cons rfl
        exact ⟨reworded, tail, rfl, hc, htail⟩

/-- Contents in front of a character of code may be reworded, also where there are none. -/
theorem contents_cons {contents contents' : Text} (hp : part.isContents = true)
    (hc : part.Rewords contents contents') (h : Reworded segment others) :
  Reworded (of part contents ++ (c, .code) :: segment) (of part contents' ++ (c, .code) :: others)
  := by
  by_cases hn : contents = []
  · subst hn
    obtain rfl := List.length_eq_zero_iff.mp hc.length_eq
    exact .other rfl h
  · apply Reworded.literal hp hn _ hc (.other rfl h)
    rintro passed ⟨⟩ rfl
    cases hp

end Reworded

/-! ### Contents in place of others -/

namespace Part

variable {contents contents' : Text}

/-- Reworded contents of a string are contents of a string. -/
theorem Rewords.isStringBody {quote : Char} (h : (quoted quote).Rewords contents contents')
    (hq : isQuote quote = true) (hb : IsStringBody quote contents) :
  IsStringBody quote contents'
  := by
  obtain ⟨-, rfl | hadmits⟩ := h
  · exact hb
  · have hquote : quote ≠ '\\' := by
      rintro rfl
      exact absurd hq (by decide)
    clear hb
    unfold IsStringBody
    induction contents' with
    | nil => rw [List.nil_append, stringBody?_cons hquote, if_pos rfl]
    | cons c contents' ih =>
      obtain ⟨⟨hc, hslash, hreturn, hfeed⟩, hadmits⟩ := List.forall_mem_cons.mp hadmits
      have hbreak : isLineBreak c = false := by simp [isLineBreak, hreturn, hfeed]
      rw [List.cons_append, stringBody?_cons hslash, if_neg hc, if_neg (by simp [hbreak]), ih hadmits]
      rfl

/-- Reworded contents of a chunk are contents of a chunk. -/
theorem Rewords.isChunk {stop : ChunkEnd} (h : chunk.Rewords contents contents')
    (hc : IsChunk stop contents) :
  IsChunk stop contents'
  := by
  obtain ⟨-, rfl | hadmits⟩ := h
  · exact hc
  · clear hc
    unfold IsChunk
    induction contents' with
    | nil =>
      cases stop with
      | literal => rfl
      | substitution => rfl
    | cons c contents' ih =>
      obtain ⟨⟨hbacktick, hslash, hdollar⟩, hadmits⟩ := List.forall_mem_cons.mp hadmits
      rw [List.cons_append, templateChunk?_cons hslash (fun _ h => absurd h hdollar),
        if_neg hbacktick, ih hadmits]
      rfl

/-- Reworded contents of a regular expression are contents of one. -/
theorem Rewords.isPatternBody (h : pattern.Rewords contents contents')
    (hb : IsPatternBody contents) :
  IsPatternBody contents'
  := by
  obtain ⟨-, rfl | ⟨hadmits, -⟩⟩ := h
  · exact hb
  · clear hb
    unfold IsPatternBody
    induction contents' with
    | nil => rfl
    | cons c contents' ih =>
      obtain ⟨⟨hslash, hopening, -, hescape, hreturn, hfeed⟩, hadmits⟩ :=
        List.forall_mem_cons.mp hadmits
      have hbreak : isLineBreak c = false := by simp [isLineBreak, hreturn, hfeed]
      have hbracketed : (c == '[' || (false && c != ']')) = false := by simp [hopening]
      rw [List.cons_append, patternBody?_cons hescape, if_neg (by simp [hbreak]),
        if_neg (by simp [hslash]), hbracketed, ih hadmits]
      rfl

end Part

/-! ### Literals between their delimiters -/

/-- The contents of a literal between the character that opens it and the one that closes it. -/
inductive Delimited : Part → Char → Text → Char → Prop where
  | string {quote : Char} {body : Text} (hq : isQuote quote = true) (hb : IsStringBody quote body) :
    Delimited (.quoted quote) quote body quote
  | chunk {opening closing : Char} {contents : Text} {stop : ChunkEnd}
      (ho : opening = '\x60' ∨ opening = '}') (hc : IsChunk stop contents)
      (hs : stop.text.head? = some closing) :
    Delimited .chunk opening contents closing
  | pattern {body : Text} (hn : body ≠ []) (hc : beginsComment ('/' :: body) = false) :
    Delimited .pattern '/' body '/'

namespace Delimited

variable {part : Part} {opening closing : Char} {contents contents' : Text}

/-- Delimiters enclose the contents of a literal. -/
theorem isContents (h : Delimited part opening contents closing) :
  part.isContents = true
  := by
  cases h with
  | string => rfl
  | chunk => rfl
  | pattern => rfl

/-- Reworded contents stand between the same delimiters. -/
theorem reworded (h : Delimited part opening contents closing) (hc : part.Rewords contents contents') :
  Delimited part opening contents' closing
  := by
  cases h with
  | string hq hb => exact .string hq (hc.isStringBody hq hb)
  | chunk ho hchunk hs => exact .chunk ho (hc.isChunk hchunk) hs
  | pattern hn hcomment =>
    obtain ⟨hlength, rfl | ⟨hadmits, hstar⟩⟩ := hc
    · exact .pattern hn hcomment
    · cases contents' with
      | nil => exact absurd (List.length_eq_zero_iff.mp hlength.symm) hn
      | cons c contents' =>
        apply Delimited.pattern (by simp)
        rw [beginsComment_cons_cons]
        have hslash := (hadmits c List.mem_cons_self).1
        have hstar : c ≠ '*' := by simpa using hstar
        simp [hslash, hstar]

/-- What opens a literal begins neither a word nor a comment, whatever stands behind the literal. -/
theorem opening_stops (h : Delimited part opening contents closing) (rest : Text) :
  isIdentifierPart opening = false ∧ opening ≠ '#'
    ∧ beginsComment (opening :: (contents ++ rest)) = false
  := by
  cases h with
  | string hq =>
    refine ⟨?_, ?_, beginsComment_of_ne (State.ne_of_isQuote hq).2 _⟩
    · simp only [isQuote, Bool.or_eq_true, beq_iff_eq] at hq
      obtain rfl | rfl := hq
      · decide
      · decide
    · rintro rfl
      exact absurd hq (by decide)
  | chunk ho =>
    obtain rfl | rfl := ho
    · exact ⟨by decide, by decide, beginsComment_of_ne (by decide) _⟩
    · exact ⟨by decide, by decide, beginsComment_of_ne (by decide) _⟩
  | pattern hn hc =>
    refine ⟨by decide, by decide, ?_⟩
    cases contents with
    | nil => exact absurd rfl hn
    | cons c contents =>
      rw [beginsComment_cons_cons] at hc
      rw [List.cons_append, beginsComment_cons_cons, hc]

/-- What closes a literal is neither a space nor a dot. -/
theorem closing_stops (h : Delimited part opening contents closing) :
  isSpace closing = false ∧ closing ≠ '.'
  := by
  cases h with
  | string hq =>
    refine ⟨(State.ne_of_isQuote hq).1, ?_⟩
    rintro rfl
    exact absurd hq (by decide)
  | @chunk _ _ _ stop _ _ hs =>
    cases stop with
    | literal =>
      cases hs
      decide
    | substitution =>
      cases hs
      decide
  | pattern => decide

end Delimited

/-- A segment in which all contents stand between delimiters. -/
inductive Framed : Segment → Prop where
  | nil : Framed []
  | other {c : Char} {part : Part} {segment : Segment} (hp : part.isContents = false)
      (h : Framed segment) :
    Framed ((c, part) :: segment)
  | literal {part : Part} {opening closing : Char} {contents : Text} {segment : Segment}
      (hd : Delimited part opening contents closing) (h : Framed segment) :
    Framed ((opening, .code) :: (of part contents ++ (closing, .code) :: segment))

namespace Framed

variable {segment others tail tail' : Segment} {part : Part}

/-- Framed segments one behind the other are framed. -/
theorem append (h : Framed segment) (ht : Framed tail) :
  Framed (segment ++ tail)
  := by
  induction h with
  | nil => exact ht
  | other hp _ ih => exact .other hp ih
  | literal hd _ ih => simpa using Framed.literal hd ih

/-- A segment without contents is framed. -/
theorem of_isPlain (h : segment.IsPlain) :
  Framed segment
  := by
  induction segment with
  | nil => exact .nil
  | cons passed segment ih =>
    rw [Segment.isPlain_cons] at h
    exact .other h.1 (ih h.2)

/-- A string is framed. -/
theorem string {quote : Char} {body : Text} (hq : isQuote quote = true) (hb : IsStringBody quote body) :
  Framed (Segment.string quote body)
  := .literal (.string hq hb) .nil

/-- A chunk is framed together with the character in front of it. -/
theorem chunk {opening : Char} {contents : Text} {stop : ChunkEnd} (ho : opening = '\x60' ∨ opening = '}')
    (hc : IsChunk stop contents) :
  Framed ((opening, .code) :: Segment.chunk contents stop)
  := by
  cases stop with
  | literal => exact .literal (.chunk ho hc rfl) .nil
  | substitution => exact .literal (.chunk ho hc rfl) (.other rfl .nil)

/-- A framed segment begins with a character of code or of a comment, and behind one of a comment it is framed. -/
theorem of_cons {c : Char} (h : Framed ((c, part) :: segment)) :
  part = .code ∨ part = .comment ∧ Framed segment
  := by
  cases h with
  | other hp h =>
    cases part with
    | code => exact .inl rfl
    | comment => exact .inr ⟨rfl, h⟩
    | quoted quote => cases hp
    | chunk => cases hp
    | pattern => cases hp
  | literal => exact .inl rfl

/-- Behind a character of code a segment is framed, unless the character opens a literal with contents. -/
theorem of_code {c : Char} (h : Framed ((c, .code) :: segment)) :
  Framed segment
    ∨ ∃ (part : Part) (d : Char) (contents : Text) (closing : Char) (rest : Segment),
        Delimited part c (d :: contents) closing ∧ Framed rest
          ∧ segment = of part (d :: contents) ++ (closing, .code) :: rest
  := by
  cases h with
  | other _ h => exact .inl h
  | @literal _ _ closing contents rest hd h =>
    cases contents with
    | nil => exact .inl (.other rfl h)
    | cons d contents => exact .inr ⟨_, d, contents, closing, rest, hd, h, rfl⟩

/-- A framed segment is reworded apart from what stands behind it. -/
theorem exists_append (hf : Framed segment) (h : Reworded (segment ++ tail) others) :
  ∃ segment' tail' : Segment,
    others = segment' ++ tail' ∧ Reworded segment segment' ∧ Reworded tail tail'
  := by
  induction hf generalizing others with
  | nil => exact ⟨[], others, rfl, .nil, h⟩
  | other hp _ ih =>
    obtain ⟨behind, rfl, hbehind⟩ := h.of_cons hp
    obtain ⟨segment', tail', rfl, hsegment, htail⟩ := ih hbehind
    exact ⟨_, tail', rfl, .other hp hsegment, htail⟩
  | @literal part opening closing contents segment hd _ ih =>
    obtain ⟨behind, rfl, hbehind⟩ := h.of_cons rfl
    have hbehind : Reworded (of part contents ++ (closing, .code) :: (segment ++ tail)) behind := by
      simpa using hbehind
    obtain ⟨contents', rest, rfl, hc, hrest⟩ := hbehind.of_contents hd.isContents
    obtain ⟨segment', tail', rfl, hsegment, htail⟩ := ih hrest
    refine ⟨_, tail', ?_, .other rfl (.contents_cons hd.isContents hc hsegment), htail⟩
    simp

end Framed

/-- Two segments that differ in contents between delimiters only. -/
structure Renewed (segment others : Segment) : Prop where
  framed : Framed segment
  reworded : Reworded segment others

namespace Renewed

variable {segment others tail tail' : Segment} {part : Part}

/-- Renewed segments begin alike: with the same character of code or of a comment, and either all that
stands behind it is renewed as well, or it opens a literal. -/
theorem cases_head (h : Renewed segment others) :
  (segment = [] ∧ others = [])
    ∨ ∃ (c : Char) (part : Part) (more more' : Segment), segment = (c, part) :: more ∧ others = (c, part) :: more'
      ∧ (Renewed more more' ∨ isIdentifierPart c = false ∧ c ≠ '#'
        ∧ beginsComment (c :: more.text) = false ∧ beginsComment (c :: more'.text) = false)
  := by
  obtain ⟨hf, hr⟩ := h
  cases hf with
  | nil => exact .inl ⟨rfl, hr.of_nil⟩
  | other hp hf =>
    obtain ⟨behind, rfl, hbehind⟩ := hr.of_cons hp
    exact .inr ⟨_, _, _, _, rfl, rfl, .inl ⟨hf, hbehind⟩⟩
  | literal hd hf =>
    obtain ⟨behind, rfl, hbehind⟩ := hr.of_cons rfl
    obtain ⟨contents', rest, rfl, hc, -⟩ := hbehind.of_contents hd.isContents
    refine .inr ⟨_, _, _, _, rfl, rfl, .inr ?_⟩
    obtain ⟨hword, hmark, hcomment⟩ := hd.opening_stops (Segment.text ((_, .code) :: _))
    obtain ⟨-, -, hcomment'⟩ := (hd.reworded hc).opening_stops (Segment.text ((_, .code) :: rest))
    refine ⟨hword, hmark, ?_, ?_⟩
    · simpa using hcomment
    · simpa using hcomment'

/-- A renewed segment begins with the same character. -/
theorem head?_eq (h : Renewed segment others) :
  others.text.head? = segment.text.head?
  := by
  obtain ⟨rfl, rfl⟩ | ⟨c, part, more, more', rfl, rfl, -⟩ := h.cases_head
  · rfl
  · rfl

/-- A run of characters ends in front of a renewed segment where it has ended. -/
theorem stops_eq (h : Renewed segment others) (p : Char → Bool) :
  stops p others.text = stops p segment.text
  := by
  rw [stops, h.head?_eq, stops]

/-- A renewed segment begins with a quotation mark where the other does. -/
theorem beginsQuote_eq (h : Renewed segment others) :
  beginsQuote others.text = beginsQuote segment.text
  := by
  rw [beginsQuote, h.head?_eq, beginsQuote]

/-- Whether a comment begins is told by one character more. -/
theorem beginsComment_cons (h : Renewed segment others) (c : Char) :
  beginsComment (c :: others.text) = beginsComment (c :: segment.text)
  := by
  obtain ⟨rfl, rfl⟩ | ⟨d, part, more, more', rfl, rfl, -⟩ := h.cases_head
  · rfl
  · rw [Segment.text_cons, Segment.text_cons, beginsComment_cons_cons, beginsComment_cons_cons]

/-- A number begins in front of a renewed segment where it has begun. -/
theorem beginsNumber_eq (h : Renewed segment others) (c : Char) :
  State.beginsNumber c others.text = State.beginsNumber c segment.text
  := by
  obtain ⟨rfl, rfl⟩ | ⟨d, part, more, more', rfl, rfl, -⟩ := h.cases_head
  · rfl
  · rfl

/-- A comment begins a renewed segment where one begins the other. -/
theorem beginsComment_eq (h : Renewed segment others) :
  beginsComment others.text = beginsComment segment.text
  := by
  obtain ⟨rfl, rfl⟩ | ⟨c, part, more, more', rfl, rfl, hmore | ⟨-, -, hc, hc'⟩⟩ := h.cases_head
  · rfl
  · exact hmore.beginsComment_cons c
  · exact hc'.trans hc.symm

/-- Spaces and comments end in front of a renewed segment where they have ended. -/
theorem isSettled_eq (h : Renewed segment others) :
  isSettled others.text = isSettled segment.text
  := by
  rw [isSettled, h.stops_eq, h.beginsComment_eq, isSettled]

/-- A renewed segment begins with the same words. -/
theorem beginsWord_eq (h : Renewed segment others) {word : Text}
    (hw : word.all isIdentifierPart = true) :
  beginsWord word others.text = beginsWord word segment.text
  := by
  induction word generalizing segment others with
  | nil => exact h.stops_eq _
  | cons c word ih =>
    rw [List.all_cons, Bool.and_eq_true] at hw
    obtain ⟨rfl, rfl⟩ | ⟨d, part, more, more', rfl, rfl, hmore⟩ := h.cases_head
    · rfl
    · rw [Segment.text_cons, Segment.text_cons, beginsWord_cons, beginsWord_cons]
      obtain hmore | ⟨hd, -⟩ := hmore
      · rw [ih hmore hw.2]
      · -- no word goes on with what opens a literal
        have hne : c ≠ d := by
          rintro rfl
          rw [hw.1] at hd
          cases hd
        simp [hne]

/-- No literal stands where the first line of a source is told. -/
theorem beginsHashbang_of (h : Renewed segment others) (hp : ['#', '!'] <+: others.text) :
  ['#', '!'] <+: segment.text
  := by
  obtain ⟨rfl, rfl⟩ | ⟨c, part, more, more', rfl, rfl, hmore⟩ := h.cases_head
  · exact hp
  · rw [Segment.text_cons, List.cons_prefix_cons] at hp ⊢
    obtain ⟨rfl, rest, hrest⟩ := hp
    obtain hmore | ⟨-, hmark, -⟩ := hmore
    · have hhead := hmore.head?_eq
      rw [← hrest, List.singleton_append, List.head?_cons] at hhead
      obtain ⟨rest', hrest'⟩ := List.head?_eq_some_iff.mp hhead.symm
      rw [hrest', List.cons_prefix_cons]
      exact ⟨rfl, rfl, List.nil_prefix⟩
    · exact absurd rfl hmark

theorem append (h : Renewed segment others) (ht : Renewed tail tail') :
  Renewed (segment ++ tail) (others ++ tail')
  := by
  obtain ⟨hf, hr⟩ := h
  use hf.append ht.framed
  induction hf generalizing others with
  | nil =>
    rw [hr.of_nil]
    exact ht.reworded
  | other hp _ ih =>
    obtain ⟨behind, rfl, hbehind⟩ := hr.of_cons hp
    exact .other hp (ih hbehind)
  | @literal part opening closing contents segment hd _ ih =>
    obtain ⟨behind, rfl, hbehind⟩ := hr.of_cons rfl
    obtain ⟨contents', rest, rfl, hc, hrest⟩ := hbehind.of_contents hd.isContents
    simpa using Reworded.other rfl (.contents_cons hd.isContents hc (ih hrest))

/-- What stands behind a plain segment may be renewed. -/
theorem append_left (h : Renewed segment others) {plain : Segment} (hp : plain.IsPlain) :
  Renewed (plain ++ segment) (plain ++ others)
  := ⟨(Framed.of_isPlain hp).append h.framed, h.reworded.append_left hp⟩

end Renewed

/-! ### Trails -/

/-- Whether a dot is looked for behind a character. -/
def isPassedOver (c : Char) : Bool :=
  isSpace c || c == '.'

namespace Trail

/-- The last characters passed that are spaces or dots, last first. -/
def dotted (before : Trail) : Text :=
  (before.characters.map Prod.fst).takeWhile isPassedOver

/-- Two trails of the same length behind which nothing tells them apart. -/
structure Alike (before other : Trail) : Prop where
  length_eq : other.length = before.length
  dotted_eq : other.dotted = before.dotted

/-- Whether the last character is a dot that does not end a spread is told from the last spaces and
dots. -/
theorem afterDot_eq (before : Trail) :
  afterDot before = match before.dotted.dropWhile isSpace with
    | '.' :: '.' :: '.' :: _ => false
    | '.' :: _ => true
    | _ => false
  := by
  have hspace : isSpace '.' = false := by decide
  unfold afterDot Trail.dotted
  induction before.characters with
  | nil => rfl
  | cons passed characters ih =>
    obtain ⟨c, part⟩ := passed
    rw [List.map_cons, List.takeWhile_cons, List.dropWhile_cons]
    by_cases hc : isSpace c = true
    · have hpassed : isPassedOver c = true := by simp [isPassedOver, hc]
      simp only [hc, hpassed, if_true, List.dropWhile_cons]
      exact ih
    · rw [Bool.not_eq_true] at hc
      simp only [hc, Bool.false_eq_true, if_false]
      by_cases hdot : c = '.'
      · subst hdot
        -- two dots more may follow
        have hpassed : isPassedOver '.' = true := by decide
        simp only [hpassed, if_true, List.dropWhile_cons, hspace, Bool.false_eq_true, if_false]
        obtain _ | ⟨⟨d, _⟩, _ | ⟨⟨e, _⟩, more⟩⟩ := characters
        · rfl
        · by_cases hd : d = '.'
          · subst hd
            rfl
          · by_cases hp : isPassedOver d = true
            · simp [hp]
            · simp [hp]
        · by_cases hd : d = '.'
          · subst hd
            by_cases he : e = '.'
            · subst he
              simp [hpassed]
            · by_cases hp : isPassedOver e = true
              · simp [hpassed, hp, he]
              · simp [hpassed, hp, he]
          · by_cases hp : isPassedOver d = true
            · simp [hp, hd]
            · simp [hp, hd]
      · have hpassed : isPassedOver c = false := by simp [isPassedOver, hc, hdot]
        simp [hpassed, hdot]

/-- What stands behind a dot does so behind a trail that is alike. -/
theorem Alike.afterDot_eq {before other : Trail} (h : Alike before other) :
  afterDot other = afterDot before
  := by
  rw [Trail.afterDot_eq, h.dotted_eq, ← Trail.afterDot_eq]

/-- What is passed over on the way back to a dot is added to what there was. -/
theorem dotted_pass (before : Trail) (c : Char) (part : Part) :
  (before.pass [(c, part)]).dotted = if isPassedOver c then c :: before.dotted else []
  := by
  simp only [dotted, pass, List.reverse_singleton, List.singleton_append, List.map_cons]
  rw [List.takeWhile_cons]

/-- Renewed segments lead to trails alike. -/
theorem Alike.pass {before other : Trail} (h : Alike before other) {segment segment' : Segment}
    (hs : Renewed segment segment') :
  Alike (before.pass segment) (other.pass segment')
  := by
  obtain ⟨hf, hr⟩ := hs
  induction hf generalizing before other segment' with
  | nil =>
    rw [hr.of_nil, pass_nil, pass_nil]
    exact h
  | @other c part segment hp _ ih =>
    obtain ⟨behind, rfl, hbehind⟩ := hr.of_cons hp
    have hcons : Alike (before.pass [(c, part)]) (other.pass [(c, part)]) := by
      constructor
      · rw [length_pass, length_pass, h.length_eq]
      · rw [dotted_pass, dotted_pass, h.dotted_eq]
    simpa using ih hcons hbehind
  | @literal part opening closing contents segment hd _ ih =>
    obtain ⟨behind, rfl, hbehind⟩ := hr.of_cons rfl
    obtain ⟨contents', rest, rfl, hc, hrest⟩ := hbehind.of_contents hd.isContents
    have hliteral : Alike (before.pass ((opening, .code) :: (of part contents ++ [(closing, .code)])))
        (other.pass ((opening, .code) :: (of part contents' ++ [(closing, .code)]))) := by
      obtain ⟨hspace, hdot⟩ := hd.closing_stops
      constructor
      · simp [h.length_eq, hc.length_eq]
      · simp [dotted, Trail.pass, isPassedOver, hspace, hdot]
    simpa using ih hliteral hrest

end Trail

end ImportCensus.Scan
