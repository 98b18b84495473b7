import ImportCensus.Proofs.Comment.Skipped
import ImportCensus.Proofs.Scan.Renewed

/-!
# What is left without comments

Comments are removed from a text without regard to nesting or to regular expressions.  Of a segment of strings,
template literals and comments, in which nothing else delimits a literal or begins a comment, the comments outside
of its template literals are removed.  Whether a segment is of that kind is told from its characters and their
parts: they are read once, from one zone into the next.
-/

namespace ImportCensus.Comment

open Text Scan
open Segment (of)

/-! ### What is left -/

/-- The inside of a template literal, with the backtick that closes it, if no substitution holds a backtick. -/
inductive Held : Segment → Prop where
  | last {chunk : Text} (hc : IsChunk .literal chunk) :
    Held (Segment.chunk chunk .literal)
  | substitution {chunk : Text} {code inside : Segment} (hc : IsChunk .substitution chunk)
      (hs : '\x60' ∉ code.text) (h : Held inside) :
    Held (Segment.chunk chunk .substitution ++ (code ++ ('}', .code) :: inside))

/-- What is left of a segment without the comments outside of its template literals.  Apart from strings and template
literals nothing else delimits a literal or begins a comment: neither in a regular expression, nor at its end, nor
between the brackets of a clause. -/
inductive Leaves : Segment → Text → Prop where
  | nil :
    Leaves [] []
  | character {c : Char} {part : Part} {segment : Segment} {left : Text} (hp : part ≠ .comment)
      (hd : isDelimiter c = false) (hc : beginsComment (c :: segment.text) = false) (h : Leaves segment left) :
    Leaves ((c, part) :: segment) (c :: left)
  | string {quote : Char} {body : Text} {segment : Segment} {left : Text} (hq : isQuote quote = true)
      (hb : IsStringBody quote body) (h : Leaves segment left) :
    Leaves (Segment.string quote body ++ segment) ((Segment.string quote body).text ++ left)
  | template {inside segment : Segment} {left : Text} (hi : Held inside) (h : Leaves segment left) :
    Leaves (('\x60', .code) :: (inside ++ segment)) ('\x60' :: (inside.text ++ left))
  | comment {comment : Text} {segment : Segment} {left : Text} (hc : IsComment comment segment.text)
      (h : Leaves segment left) :
    Leaves (of .comment comment ++ segment) ((of .comment comment).uncommented.text ++ left)

/-- The inside of such a template literal stays. -/
theorem Held.removeFrom_append {inside : Segment} (h : Held inside) (rest : Text) :
  removeFrom (.literal '\x60') (inside.text ++ rest) = inside.text ++ removeFrom .code rest
  := by
  induction h with
  | @last chunk hc =>
    have hchunk := templateChunk?_append hc rest
    rw [Segment.text_chunk, List.append_assoc, removeFrom_templateChunk hchunk, if_pos rfl, List.append_assoc]
  | @substitution chunk code inside hc hs h ih =>
    have hchunk := templateChunk?_append hc (code.text ++ '}' :: (inside.text ++ rest))
    have hcode := removeFrom_substitution hs (inside.text ++ rest)
    simp only [Segment.text_append, Segment.text_chunk, Segment.text_cons, List.append_assoc, List.cons_append]
    rw [removeFrom_templateChunk hchunk, if_neg (by decide), hcode, ih]

/-- What a segment leaves is what is left of its text when the comments are removed. -/
theorem Leaves.remove_eq {segment : Segment} {left : Text} (h : Leaves segment left) :
  remove segment.text = left
  := by
  unfold remove
  induction h with
  | nil => simp [removeFrom]
  | character hp hd hc h ih => rw [Segment.text_cons, removeFrom_cons hd hc, ih]
  | @string quote body segment left hq hb h ih =>
    have hdelimiter : isDelimiter quote = true := by
      apply Bool.or_eq_true_iff.mpr
      exact .inl hq
    have hbody := removeFrom_stringBody (stringBody?_append hb segment.text)
    simp only [Segment.text_append, Segment.text_string, List.cons_append, List.append_assoc, List.nil_append]
    rw [removeFrom_delimiter hdelimiter, hbody, ih]
  | @template inside segment left hi h ih =>
    rw [Segment.text_cons, Segment.text_append, removeFrom_delimiter (by decide), hi.removeFrom_append, ih]
  | comment hc h ih => rw [Segment.text_append, Segment.text_of, (removeFrom_comment hc).1, ih]

/-! ### Zones -/

/-- Where a character may stand: outside of literals, in a string, in a chunk of a template literal, behind the
dollar sign at the end of a chunk, or in a substitution, in which some curly brackets are open. -/
inductive Zone where
  | outside
  | string (quote : Char)
  | chunk
  | opening
  | substitution (depth : Nat)

/-- Whether a segment that begins in a zone ends outside of literals, and no substitution in it holds a backtick.
Outside of literals and comments a quotation mark begins a string, a backtick begins a template literal, and nothing
begins a comment; in a regular expression nothing delimits a literal either. -/
def Zone.isTame : Zone → Segment → Bool
  | outside, [] => true
  | _, [] => false
  | outside, (c, part) :: segment =>
    match part with
    | .code =>
      if c = '\x60' then isTame chunk segment
      else if isQuote c then isTame (string c) segment
      else !beginsComment (c :: Segment.text segment) && isTame outside segment
    | .comment => isTame outside segment
    | .pattern => !isDelimiter c && !beginsComment (c :: Segment.text segment) && isTame outside segment
    | _ => false
  | string quote, (c, part) :: segment =>
    match part with
    | .code => c == quote && isTame outside segment
    | .quoted _ => isTame (string quote) segment
    | _ => false
  | chunk, (c, part) :: segment =>
    match part with
    | .code => if c = '\x60' then isTame outside segment else c == '$' && isTame opening segment
    | .chunk => isTame chunk segment
    | _ => false
  | opening, (c, part) :: segment => part == .code && c == '{' && isTame (substitution 0) segment
  | substitution depth, (c, part) :: segment =>
    if c = '\x60' then false
    else if (c, part) = ('{', .code) then isTame (substitution (depth + 1)) segment
    else if (c, part) = ('}', .code) then
      if depth = 0 then isTame chunk segment else isTame (substitution (depth - 1)) segment
    else isTame (substitution depth) segment

/-- The zone behind a chunk. -/
def Zone.behind : ChunkEnd → Zone
  | .literal => outside
  | .substitution => substitution 0

namespace Zone

variable {segment : Segment}

/-- A comment is passed outside of literals. -/
theorem isTame_comment (comment : Text) :
  outside.isTame (of .comment comment ++ segment) = outside.isTame segment
  := by
  induction comment with
  | nil => rfl
  | cons c comment ih => exact ih

/-- The contents of a string are passed in it. -/
theorem isTame_quoted (quote : Char) (body : Text) :
  (string quote).isTame (of (.quoted quote) body ++ segment) = (string quote).isTame segment
  := by
  induction body with
  | nil => rfl
  | cons c body ih => exact ih

/-- A chunk of a template literal is passed in it. -/
theorem isTame_chunk (contents : Text) :
  chunk.isTame (of .chunk contents ++ segment) = chunk.isTame segment
  := by
  induction contents with
  | nil => rfl
  | cons c contents ih => exact ih

/-- A substitution goes on behind a character other than a backtick, if this is not the bracket that closes it. -/
theorem of_isTame_substitution {depth : Nat} {c : Char} {part : Part}
    (h : (substitution depth).isTame ((c, part) :: segment) = true) :
  c ≠ '\x60' ∧ ((c, part) = ('}', .code) ∧ chunk.isTame segment = true
    ∨ ∃ depth', (substitution depth').isTame segment = true)
  := by
  rw [isTame] at h
  split_ifs at h with hc hopening hclosing hdepth
  · exact ⟨hc, .inr ⟨_, h⟩⟩
  · exact ⟨hc, .inl ⟨hclosing, h⟩⟩
  · exact ⟨hc, .inr ⟨_, h⟩⟩
  · exact ⟨hc, .inr ⟨_, h⟩⟩

/-- Contents of a literal in a substitution hold no backtick, and the substitution goes on behind them. -/
theorem of_isTame_contents {depth : Nat} {part : Part} (hp : part ≠ .code) {contents : Text}
    (h : (substitution depth).isTame (of part contents ++ segment) = true) :
  '\x60' ∉ contents ∧ (substitution depth).isTame segment = true
  := by
  induction contents with
  | nil => exact ⟨List.not_mem_nil, h⟩
  | cons c contents ih =>
    have hne : ∀ d, (c, part) ≠ (d, .code) := fun d h => hp (congrArg Prod.snd h)
    rw [Segment.of_cons, List.cons_append, isTame, if_neg (hne '{'), if_neg (hne '}')] at h
    split_ifs at h with hc
    obtain ⟨hcontents, htail⟩ := ih h
    rw [List.mem_cons, not_or]
    exact ⟨⟨Ne.symm hc, hcontents⟩, htail⟩

/-- Outside of literals no contents are read but those of a regular expression. -/
theorem framed_of_isTame {c : Char} (hf : Framed ((c, .code) :: segment)) (hc : c ≠ '/')
    (ht : outside.isTame segment = true) :
  Framed segment
  := by
  obtain h | ⟨part, d, contents, closing, rest, hd, -, rfl⟩ := hf.of_code
  · exact h
  · cases hd with
    | string => cases ht
    | chunk => cases ht
    | pattern => exact absurd rfl hc

/-- A chunk without contents is read up to its end. -/
theorem exists_stop (hf : Framed segment) (ht : chunk.isTame segment = true) :
  ∃ stop rest, segment = of .code (ChunkEnd.text stop) ++ rest ∧ Framed rest
    ∧ (Zone.behind stop).isTame rest = true
  := by
  cases segment with
  | nil => cases ht
  | cons passed segment =>
    obtain ⟨c, part⟩ := passed
    obtain rfl | ⟨rfl, -⟩ := hf.of_cons
    · by_cases hc : c = '\x60'
      · subst hc
        exact ⟨.literal, segment, rfl, framed_of_isTame hf (by decide) ht, ht⟩
      · simp only [isTame, if_neg hc, Bool.and_eq_true, beq_iff_eq] at ht
        obtain ⟨rfl, hopening⟩ := ht
        cases segment with
        | nil => cases hopening
        | cons passed segment =>
          obtain ⟨d, part⟩ := passed
          simp only [isTame, Bool.and_eq_true, beq_iff_eq] at hopening
          obtain ⟨⟨rfl, rfl⟩, hsubstitution⟩ := hopening
          refine ⟨.substitution, segment, rfl, ?_, hsubstitution⟩
          -- neither the dollar sign nor the bracket opens a literal
          obtain hbracket | ⟨_, _, _, _, _, hd, -, -⟩ := hf.of_code
          · obtain hrest | ⟨_, _, _, _, _, hd, -, -⟩ := hbracket.of_code
            · exact hrest
            · cases hd with
              | string hq => exact absurd hq (by decide)
              | chunk ho => exact absurd ho (by decide)
          · cases hd with
            | string hq => exact absurd hq (by decide)
            | chunk ho => exact absurd ho (by decide)
    · cases ht

/-- A chunk is read up to its end. -/
theorem exists_chunk {c : Char} (hf : Framed ((c, .code) :: segment)) (hc : c = '\x60' ∨ c = '}')
    (ht : chunk.isTame segment = true) :
  ∃ contents stop rest, segment = Segment.chunk contents stop ++ rest ∧ IsChunk stop contents
    ∧ Framed rest ∧ (Zone.behind stop).isTame rest = true
  := by
  obtain h | ⟨part, d, contents, closing, rest, hd, hrest, rfl⟩ := hf.of_code
  · obtain ⟨stop, rest, rfl, hrest, hbehind⟩ := exists_stop h ht
    refine ⟨[], stop, rest, rfl, ?_, hrest, hbehind⟩
    cases stop with
    | literal => rfl
    | substitution => rfl
  · cases hd with
    | string hq =>
      obtain rfl | rfl := hc
      · exact absurd hq (by decide)
      · exact absurd hq (by decide)
    | @chunk _ _ _ stop _ hchunk hs =>
      rw [isTame_chunk] at ht
      obtain ⟨stop', behind, hsegment, hframed, hbehind⟩ := exists_stop (.other rfl hrest) ht
      have hstop : stop' = stop := by
        cases stop with
        | literal =>
          cases hs
          cases stop' with
          | literal => rfl
          | substitution => cases hsegment
        | substitution =>
          cases hs
          cases stop' with
          | literal => cases hsegment
          | substitution => rfl
      subst hstop
      refine ⟨d :: contents, stop', behind, ?_, hchunk, hframed, hbehind⟩
      rw [hsegment, Segment.chunk, List.append_assoc]
    | pattern => exact absurd hc (by decide)

/-- A string is read up to its end. -/
theorem exists_string {quote : Char} (hq : isQuote quote = true) (hf : Framed ((quote, .code) :: segment))
    (ht : (string quote).isTame segment = true) :
  ∃ body rest, (quote, .code) :: segment = Segment.string quote body ++ rest ∧ IsStringBody quote body
    ∧ Framed rest ∧ outside.isTame rest = true
  := by
  have hslash : quote ≠ '/' := (State.ne_of_isQuote hq).2
  obtain h | ⟨part, d, contents, closing, rest, hd, hrest, rfl⟩ := hf.of_code
  · cases segment with
    | nil => cases ht
    | cons passed segment =>
      obtain ⟨c, part⟩ := passed
      obtain rfl | ⟨rfl, -⟩ := h.of_cons
      · simp only [isTame, Bool.and_eq_true, beq_iff_eq] at ht
        obtain ⟨rfl, ht⟩ := ht
        refine ⟨[], segment, rfl, ?_, framed_of_isTame h hslash ht, ht⟩
        have hbackslash : c ≠ '\\' := by
          rintro rfl
          exact absurd hq (by decide)
        rw [IsStringBody, List.nil_append, stringBody?_cons hbackslash, if_pos rfl]
      · cases ht
  · cases hd with
    | string _ hb =>
      rw [isTame_quoted] at ht
      simp only [isTame, beq_self_eq_true, Bool.true_and] at ht
      refine ⟨d :: contents, rest, ?_, hb, hrest, ht⟩
      simp [Segment.string]
    | chunk ho =>
      obtain rfl | rfl := ho
      · exact absurd hq (by decide)
      · exact absurd hq (by decide)
    | pattern => exact absurd rfl hslash

/-! ### Template literals -/

/-- Whether a segment begins with the inside of a template literal, and is tame behind it. -/
def Holds (segment : Segment) : Prop :=
  ∃ inside rest : Segment, segment = inside ++ rest ∧ Held inside ∧ Framed rest ∧ outside.isTame rest = true

/-- Whether a segment begins with the rest of a substitution and the inside of a template literal behind it, and is
tame behind that. -/
def Closes (segment : Segment) : Prop :=
  ∃ code behind : Segment, segment = code ++ ('}', .code) :: behind ∧ '\x60' ∉ code.text ∧ Holds behind

/-- Code without backticks may stand in front of what closes a substitution. -/
theorem Closes.append {front : Segment} (hf : '\x60' ∉ front.text) (h : Closes segment) :
  Closes (front ++ segment)
  := by
  obtain ⟨code, behind, rfl, hcode, hholds⟩ := h
  refine ⟨front ++ code, behind, (List.append_assoc ..).symm, ?_, hholds⟩
  rw [Segment.text_append, List.mem_append, not_or]
  exact ⟨hf, hcode⟩

/-- A character other than a backtick may stand in front of what closes a substitution. -/
theorem Closes.cons {c : Char} {part : Part} (hc : c ≠ '\x60') (h : Closes segment) :
  Closes ((c, part) :: segment)
  := by
  have hfront : '\x60' ∉ Segment.text [(c, part)] := by simpa using Ne.symm hc
  exact h.append hfront

/-- Behind a chunk the inside of a template literal goes on, if the substitutions behind it are closed. -/
theorem holds_of_isTame {c : Char} (hf : Framed ((c, .code) :: segment)) (hc : c = '\x60' ∨ c = '}')
    (ht : chunk.isTame segment = true)
    (hs : ∀ rest : Segment, rest.length < segment.length → Framed rest →
      (substitution 0).isTame rest = true → Closes rest) :
  Holds segment
  := by
  obtain ⟨contents, stop, rest, rfl, hchunk, hrest, hbehind⟩ := exists_chunk hf hc ht
  cases stop with
  | literal => exact ⟨_, rest, rfl, .last hchunk, hrest, hbehind⟩
  | substitution =>
    have hlength : rest.length < (Segment.chunk contents .substitution ++ rest).length := by
      simp [Segment.chunk, ChunkEnd.text]
      omega
    obtain ⟨code, behind, rfl, hcode, inside, rest, rfl, hheld, hframed, htame⟩ := hs rest hlength hrest hbehind
    exact ⟨_, rest, by simp, .substitution hchunk hcode hheld, hframed, htame⟩

/-- A substitution is closed, and the inside of its template literal goes on behind it. -/
theorem closes_of_isTame {depth : Nat} (hf : Framed segment) (ht : (substitution depth).isTame segment = true) :
  Closes segment
  := by
  induction hn : segment.length using Nat.strong_induction_on generalizing segment depth with
  | _ n ih =>
    subst hn
    cases segment with
    | nil => cases ht
    | cons passed segment =>
      obtain ⟨c, part⟩ := passed
      obtain ⟨hc, ⟨hclosing, hchunk⟩ | ⟨depth', htail⟩⟩ := of_isTame_substitution ht
      · cases hclosing
        refine ⟨[], segment, rfl, List.not_mem_nil, holds_of_isTame hf (.inr rfl) hchunk ?_⟩
        intro rest hlength hrest hsubstitution
        exact ih _ (Nat.lt_succ_of_lt hlength) hrest hsubstitution rfl
      · obtain rfl | ⟨rfl, hframed⟩ := hf.of_cons
        · obtain hframed | ⟨part, d, contents, closing, rest, hd, hrest, rfl⟩ := hf.of_code
          · exact .cons hc (ih _ (Nat.lt_succ_self _) hframed htail rfl)
          · -- a literal in the substitution: its contents are passed at one depth
            have hpart : part ≠ .code := by
              rintro rfl
              exact absurd hd.isContents (by decide)
            obtain ⟨hcontents, hbehind⟩ := of_isTame_contents hpart htail
            have hclosing : Framed ((closing, .code) :: rest) := .other rfl hrest
            have hlength : ((closing, Part.code) :: rest).length
                < ((c, Part.code) :: (of part (d :: contents) ++ (closing, .code) :: rest)).length := by
              simp
              omega
            have hcloses := ih _ hlength hclosing hbehind rfl
            exact .cons hc (hcloses.append (by simpa using hcontents))
        · exact .cons hc (ih _ (Nat.lt_succ_self _) hframed htail rfl)

/-! ### Tame segments -/

/-- What stands in a regular expression stays where the segment is tame. -/
theorem exists_leaves_pattern {body : Text} (ht : outside.isTame (of .pattern body ++ segment) = true) :
  outside.isTame segment = true
    ∧ ∀ left, Leaves segment left → Leaves (of .pattern body ++ segment) (body ++ left)
  := by
  induction body with
  | nil => exact ⟨ht, fun _ h => h⟩
  | cons c body ih =>
    simp only [Segment.of_cons, List.cons_append, isTame, Bool.and_eq_true, Bool.not_eq_true'] at ht
    obtain ⟨⟨hdelimiter, hbegins⟩, ht⟩ := ht
    obtain ⟨htail, hleaves⟩ := ih ht
    exact ⟨htail, fun left h => .character (by simp) hdelimiter hbegins (hleaves left h)⟩

end Zone

/-- The inside of a template literal ends with its backtick. -/
theorem Held.getLast?_eq {inside : Segment} (h : Held inside) :
  inside.getLast? = some ('\x60', .code)
  := by
  induction h with
  | last => simp [Segment.chunk, ChunkEnd.text]
  | substitution _ _ _ ih => simp [List.getLast?_append, List.getLast?_cons, ih]

/-- A tame segment as the scanner passes it outside of literals. -/
structure Ready (segment : Segment) : Prop where
  framed : Framed segment
  whole : Whole segment
  tame : Zone.outside.isTame segment = true

/-- A segment begins with something of which all that is not a comment stays, and is ready behind it. -/
def Proceeds (segment : Segment) : Prop :=
  ∃ rest : Segment, rest.length < segment.length ∧ Ready rest
    ∧ ∀ left, Leaves rest left → ∃ whole, Leaves segment whole

section

variable {segment : Segment} {c : Char}

/-- A template literal is passed with its substitutions. -/
theorem proceeds_template (h : Ready (('\x60', .code) :: segment)) :
  Proceeds (('\x60', .code) :: segment)
  := by
  obtain ⟨inside, rest, rfl, hheld, hframed, htame⟩ :=
    Zone.holds_of_isTame h.framed (.inl rfl) h.tame fun _ _ hframed => Zone.closes_of_isTame hframed
  have hwhole : Whole rest := by
    apply @Whole.of_append (('\x60', .code) :: inside) rest h.whole
    simp [List.getLast?_cons, hheld.getLast?_eq]
  refine ⟨rest, ?_, ⟨hframed, hwhole, htame⟩, fun left hleft => ⟨_, .template hheld hleft⟩⟩
  rw [List.length_cons, List.length_append]
  omega

/-- A string is passed with its quotation marks. -/
theorem proceeds_string (hq : isQuote c = true) (h : Ready ((c, .code) :: segment)) :
  Proceeds ((c, .code) :: segment)
  := by
  have hbacktick : c ≠ '\x60' := by
    rintro rfl
    exact absurd hq (by decide)
  have htame := h.tame
  rw [Zone.isTame, if_neg hbacktick, if_pos hq] at htame
  obtain ⟨body, rest, hsegment, hbody, hframed, htame⟩ := Zone.exists_string hq h.framed htame
  rw [hsegment] at h ⊢
  have hwhole : Whole rest := h.whole.of_append (by simp [Segment.string, List.getLast?_cons])
  exact ⟨rest, by simp, ⟨hframed, hwhole, htame⟩, fun left hleft => ⟨_, .string hq hbody hleft⟩⟩

/-- A character is passed alone, or with the regular expression that it begins up to the slash at its end. -/
theorem proceeds_character (hb : c ≠ '\x60') (hq : isQuote c = false) (h : Ready ((c, .code) :: segment)) :
  Proceeds ((c, .code) :: segment)
  := by
  have hdelimiter : isDelimiter c = false := by
    rw [isDelimiter, ← isQuote, hq, Bool.false_or, beq_eq_false_iff_ne]
    exact hb
  have htame := h.tame
  rw [Zone.isTame, if_neg hb, if_neg (Bool.eq_false_iff.mp hq), Bool.and_eq_true, Bool.not_eq_true'] at htame
  obtain ⟨hbegins, htame⟩ := htame
  obtain hframed | ⟨part, d, contents, closing, rest, hd, hrest, rfl⟩ := h.framed.of_code
  · have hwhole : Whole segment := @Whole.of_append [(c, .code)] segment h.whole (by simp)
    exact ⟨segment, Nat.lt_succ_self _, ⟨hframed, hwhole, htame⟩,
      fun left hleft => ⟨_, .character (by simp) hdelimiter hbegins hleft⟩⟩
  · cases hd with
    | string hq' => exact absurd hq' (Bool.eq_false_iff.mp hq)
    | chunk => cases htame
    | pattern =>
      obtain ⟨htail, hleaves⟩ := Zone.exists_leaves_pattern htame
      have hbody : Whole (of .pattern (d :: contents) ++ ('/', .code) :: rest) :=
        @Whole.of_append [('/', .code)] _ h.whole (by simp)
      have hwhole : Whole (('/', .code) :: rest) := by
        apply hbody.of_append
        intro passed hlast
        obtain ⟨_, -, rfl⟩ := List.mem_map.mp (List.mem_of_getLast? hlast)
        simp
      refine ⟨('/', .code) :: rest, ?_, ⟨.other rfl hrest, hwhole, htail⟩,
        fun left hleft => ⟨_, .character (by simp) hdelimiter hbegins (hleaves left hleft)⟩⟩
      simp
      omega

/-- A comment is passed as a whole. -/
theorem proceeds_comment {comment : Text} {rest : Segment} (hc : IsComment comment rest.text)
    (hw : Whole rest) (hf : Framed (of .comment comment ++ rest))
    (ht : Zone.outside.isTame (of .comment comment ++ rest) = true) :
  Proceeds (of .comment comment ++ rest)
  := by
  have hframed : Framed rest := by
    clear hc ht
    induction comment with
    | nil => exact hf
    | cons c comment ih =>
      obtain h | ⟨-, h⟩ := hf.of_cons
      · cases h
      · exact ih h
  rw [Zone.isTame_comment] at ht
  refine ⟨rest, ?_, ⟨hframed, hw, ht⟩, fun left hleft => ⟨_, .comment hc hleft⟩⟩
  cases hc with
  | line =>
    simp
    omega
  | block =>
    simp
    omega

/-- What stands in front of a segment is passed, whatever it begins with. -/
theorem Ready.proceeds (h : Ready segment) (hn : segment ≠ []) :
  Proceeds segment
  := by
  have hf := h.framed
  have ht := h.tame
  cases h.whole with
  | nil => exact absurd rfl hn
  | @cons c part segment hp hw =>
    obtain rfl | ⟨rfl, -⟩ := hf.of_cons
    · by_cases hbacktick : c = '\x60'
      · subst hbacktick
        exact proceeds_template h
      · cases hquote : isQuote c with
        | true => exact proceeds_string hquote h
        | false => exact proceeds_character hbacktick hquote h
    · exact absurd rfl hp
  | comment hc hn hw => exact proceeds_comment hc hw hf ht

/-- Of a segment that is ready something is left without the comments outside of its template literals. -/
theorem Ready.exists_leaves (h : Ready segment) :
  ∃ left, Leaves segment left
  := by
  induction hn : segment.length using Nat.strong_induction_on generalizing segment with
  | _ n ih =>
    subst hn
    by_cases hnil : segment = []
    · subst hnil
      exact ⟨[], .nil⟩
    · obtain ⟨rest, hlength, hrest, hleaves⟩ := h.proceeds hnil
      obtain ⟨left, hleft⟩ := ih _ hlength hrest rfl
      exact hleaves left hleft

end

/-! ### Two readers -/

/-- Of a source that is scanned nothing is removed but the comments outside of its template literals, where nothing
else is taken for a comment or for the delimiter of a literal and no substitution holds a backtick: in a source that
is tame, as its characters and their parts tell.  In any source that is scanned the comments that the scanner passes
are removed, and nothing else, exactly where both take the same characters for comments. -/
theorem remove_of_scan {source : Text} {found : List Occurrence} (h : scan source = .ok found)
    (hh : ¬['#', '!'] <+: source) :
  ∃ passed : Segment, parts source = .ok passed ∧ passed.text = source
    ∧ (∀ left, Leaves passed left → remove source = left)
    ∧ (Zone.outside.isTame passed = true → ∃ left, Leaves passed left)
    ∧ (remove source = passed.uncommented.text
      ↔ skipped .code source = passed.map fun passed => passed.2 == .comment)
  := by
  obtain ⟨f, hf, -⟩ := exists_of_map_eq_ok h
  obtain ⟨hashbang, passed, hline, rfl, hrun⟩ := finish_eq_ok_iff.mp hf
  obtain rfl : hashbang = [] := by
    cases hline with
    | missing => rfl
    | line => exact absurd (List.prefix_append ['#', '!'] _) hh
  refine ⟨passed, parts_eq_ok_iff.mpr ⟨[], passed, f, hline, rfl, hrun, rfl⟩, rfl, ?_, ?_, ?_, ?_⟩
  · intro left hleft
    exact hleft.remove_eq
  · intro htame
    exact Ready.exists_leaves ⟨hrun.framed, hrun.neat.whole, htame⟩
  · exact skipped_eq_of_removeFrom_eq hrun.neat.whole rfl
  · intro hskipped
    rw [Segment.text_nil, List.nil_append] at hskipped ⊢
    rw [remove, removeFrom_eq, uncommented_text_eq, hskipped]

/-- A template literal with a comment in its substitution, which stays, and a comment behind it, which does not. -/
theorem remove_of_scan_template :
  scan "\x60a$\x7b/*b*/1\x7d\x60 // c".toList = .ok []
    ∧ ∃ passed : Segment, parts "\x60a$\x7b/*b*/1\x7d\x60 // c".toList = .ok passed
      ∧ Zone.outside.isTame passed = true
      ∧ Leaves passed "\x60a$\x7b/*b*/1\x7d\x60 ".toList
      ∧ remove "\x60a$\x7b/*b*/1\x7d\x60 // c".toList = "\x60a$\x7b/*b*/1\x7d\x60 ".toList
  := by
  have hscan : scan "\x60a$\x7b/*b*/1\x7d\x60 // c".toList = .ok [] := by decide +kernel
  obtain ⟨passed, hparts, -, hleft, hexists, -⟩ := remove_of_scan hscan (by decide)
  have hwhole : parts "\x60a$\x7b/*b*/1\x7d\x60 // c".toList
      = .ok (('\x60', .code) :: (Segment.chunk ['a'] .substitution
          ++ (of .comment "/*b*/".toList ++ [('1', .code)] ++ ('}', .code) :: Segment.chunk [] .literal)
          ++ ((' ', .code) :: of .comment ['/', '/', ' ', 'c']))) := by
    decide +kernel
  obtain rfl := Except.ok.inj (hparts.symm.trans hwhole)
  have htame : Zone.outside.isTame (('\x60', .code) :: (Segment.chunk ['a'] .substitution
      ++ (of .comment "/*b*/".toList ++ [('1', .code)] ++ ('}', .code) :: Segment.chunk [] .literal)
      ++ ((' ', .code) :: of .comment ['/', '/', ' ', 'c']))) = true := by decide +kernel
  have hremove : remove "\x60a$\x7b/*b*/1\x7d\x60 // c".toList = "\x60a$\x7b/*b*/1\x7d\x60 ".toList := by
    decide +kernel
  obtain ⟨left, hleaves⟩ := hexists htame
  obtain rfl := (hleft left hleaves).symm.trans hremove
  exact ⟨hscan, _, hparts, htame, hleaves, hleft _ hleaves⟩

/-- A quotation mark in a regular expression keeps the comment behind it, the text of a template literal in another
one is taken for a comment, and a comment in a substitution stays. -/
theorem remove_ne_uncommented :
  (scan "/'/ // c".toList = .ok []
      ∧ (parts "/'/ // c".toList).map (fun passed : Segment => passed.uncommented.text) = .ok "/'/ ".toList
      ∧ remove "/'/ // c".toList = "/'/ // c".toList)
    ∧ (scan "\x60$\x7b\x60//\x60\x7d\x60".toList = .ok []
      ∧ (parts "\x60$\x7b\x60//\x60\x7d\x60".toList).map (fun passed : Segment => passed.uncommented.text)
        = .ok "\x60$\x7b\x60//\x60\x7d\x60".toList
      ∧ remove "\x60$\x7b\x60//\x60\x7d\x60".toList = "\x60$\x7b\x60".toList)
    ∧ scan "\x60$\x7b/*c*/1\x7d\x60".toList = .ok []
      ∧ (parts "\x60$\x7b/*c*/1\x7d\x60".toList).map (fun passed : Segment => passed.uncommented.text)
        = .ok "\x60$\x7b1\x7d\x60".toList
      ∧ remove "\x60$\x7b/*c*/1\x7d\x60".toList = "\x60$\x7b/*c*/1\x7d\x60".toList
  := by
  refine ⟨⟨?_, ?_, ?_⟩, ⟨?_, ?_, ?_⟩, ?_, ?_, ?_⟩ <;> decide +kernel

end ImportCensus.Comment
