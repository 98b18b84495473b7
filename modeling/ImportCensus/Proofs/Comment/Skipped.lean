import ImportCensus.Proofs.Comment.Removal
import ImportCensus.Proofs.Scan.Whole

/-!
# What is taken for a comment

Comments are removed from a text without regard to nesting or to regular expressions.  Where that leaves
what the scanner leaves, both have taken the same characters for comments: no text comes about in two ways,
since neither leaves anything that begins a comment where it has taken one out.
-/

namespace ImportCensus.Comment

open Text Scan
open Segment (of)

/-- The text without comments is what is left of the characters one by one. -/
theorem uncommented_text_eq (segment : Segment) :
  segment.uncommented.text
    = (List.zipWith left? segment.text (segment.map fun passed => passed.2 == .comment)).filterMap id
  := by
  induction segment with
  | nil => rfl
  | cons passed segment ih =>
    obtain ⟨c, part⟩ := passed
    by_cases hp : part = .comment
    · subst hp
      by_cases hc : c = '\n'
      · simp [Segment.uncommented_cons_comment, hc, left?, ih]
      · simp [Segment.uncommented_cons_comment, hc, left?, ih]
    · rw [Segment.uncommented_cons_of_ne hp, Segment.text_cons, ih]
      simp [left?, hp]

/-! ### Whole comments -/

section

variable {comment body rest : Text}

/-- A line comment is skipped up to the end of its line. -/
theorem removeFrom_line (hb : body.all isInLine = true) (hr : stops isInLine rest = true) :
  removeFrom .line (body ++ rest) = removeFrom .code rest
    ∧ skipped .line (body ++ rest) = List.replicate body.length true ++ skipped .code rest
  := by
  induction body with
  | nil =>
    cases rest with
    | nil => exact ⟨by simp [removeFrom], by simp [skipped]⟩
    | cons c rest =>
      obtain rfl : c = '\n' := by simpa [stops, isInLine] using hr
      exact ⟨by simp [removeFrom, isDelimiter], by simp [skipped, isDelimiter]⟩
  | cons c body ih =>
    rw [List.all_cons, Bool.and_eq_true] at hb
    have hc : c ≠ '\n' := by simpa [isInLine] using hb.1
    obtain ⟨hremove, hskip⟩ := ih hb.2
    rw [List.cons_append, removeFrom, if_neg hc, skipped, if_neg hc, hremove, hskip]
    exact ⟨rfl, rfl⟩

/-- A block comment is skipped up to its end, apart from its line feeds. -/
theorem removeFrom_block {text : Text} (h : blockComment? text = some (body, rest)) :
  removeFrom .block text = (of .comment body).uncommented.text ++ removeFrom .code rest
    ∧ skipped .block text = List.replicate body.length true ++ skipped .code rest
  := by
  fun_induction blockComment? text generalizing body with
  | case1 => cases h
  | case2 rest' =>
    cases h
    exact ⟨by simp [removeFrom, Segment.uncommented], by simp [skipped]⟩
  | case3 c text hend ih =>
    obtain ⟨inner, hi, rfl⟩ := withFront_eq_some h
    obtain ⟨hremove, hskip⟩ := ih hi
    rw [removeFrom, skipped, hremove, hskip, List.singleton_append, Segment.of_cons,
      Segment.uncommented_cons_comment]
    · by_cases hc : c = '\n'
      · subst hc
        exact ⟨rfl, rfl⟩
      · rw [if_neg hc, if_neg hc]
        exact ⟨rfl, rfl⟩
    · exact hend
    · exact hend

/-- A whole comment is taken for one, where it is not taken for the inside of a literal. -/
theorem removeFrom_comment (hc : IsComment comment rest) :
  removeFrom .code (comment ++ rest) = (of .comment comment).uncommented.text ++ removeFrom .code rest
    ∧ skipped .code (comment ++ rest) = List.replicate comment.length true ++ skipped .code rest
  := by
  cases hc with
  | @line body _ hb hr =>
    obtain ⟨hremove, hskip⟩ := removeFrom_line hb hr
    have hfeeds : (of .comment ('/' :: '/' :: body)).uncommented.text = [] := by
      have hnone : ∀ c ∈ body, c ≠ '\n' := by
        intro c hc
        simpa [isInLine] using List.all_eq_true.mp hb c hc
      simpa [Segment.uncommented, Segment.text, of] using hnone
    rw [hfeeds, List.cons_append, List.cons_append, removeFrom, skipped, hremove, hskip]
    exact ⟨rfl, rfl⟩
  | @block body _ hb =>
    obtain ⟨hremove, hskip⟩ := removeFrom_block (blockComment?_append hb rest)
    have hfeeds : (of .comment ('/' :: '*' :: body)).uncommented = (of .comment body).uncommented := by
      simp [Segment.uncommented_cons_comment]
    rw [hfeeds, List.cons_append, List.cons_append, removeFrom, skipped, hremove, hskip]
    exact ⟨rfl, rfl⟩

/-- A character in front of which no comment begins is kept. -/
theorem skipped_cons {c : Char} (h : beginsComment (c :: rest) = false) :
  removeFrom .code (c :: rest) = c :: removeFrom (if isDelimiter c then .literal c else .code) rest
    ∧ skipped .code (c :: rest) = false :: skipped (if isDelimiter c then .literal c else .code) rest
  := by
  have hne : ∀ tail : Text, c = '/' → ¬(rest = '/' :: tail ∨ rest = '*' :: tail) := by
    rintro tail rfl (rfl | rfl)
    · cases h
    · cases h
  constructor
  · rw [removeFrom]
    · exact fun tail hc hr => hne tail hc (.inl hr)
    · exact fun tail hc hr => hne tail hc (.inr hr)
  · rw [skipped]
    · exact fun tail hc hr => hne tail hc (.inl hr)
    · exact fun tail hc hr => hne tail hc (.inr hr)

/-- Where comments have been taken out, nothing begins one. -/
theorem beginsComment_removeFrom {context : Context} (hc : ∀ delimiter, context ≠ .literal delimiter) (text : Text) :
  beginsComment (removeFrom context text) = false
  := by
  fun_induction skipped context text with
  | case1 => simp [removeFrom, beginsComment]
  | case2 rest ih => simpa [removeFrom] using ih (by simp)
  | case3 rest ih => simpa [removeFrom] using ih (by simp)
  | case4 c rest hline hblock ih =>
    have hbegins : beginsComment (c :: rest) = false := by
      rw [← Bool.not_eq_true]
      intro h
      unfold beginsComment at h
      split at h
      · rename_i heq
        cases heq
        exact hline _ rfl rfl
      · rename_i heq
        cases heq
        exact hblock _ rfl rfl
      · cases h
    rw [(skipped_cons hbegins).1]
    by_cases hslash : c = '/'
    · subst hslash
      cases rest with
      | nil => simp [removeFrom, beginsComment]
      | cons d rest =>
        have hd : beginsComment (d :: rest) = false := by
          apply beginsComment_of_ne
          rintro rfl
          cases hbegins
        rw [if_neg (by decide), (skipped_cons hd).1]
        rw [beginsComment_cons_cons] at hbegins ⊢
        exact hbegins
    · exact beginsComment_of_ne hslash _
  | case5 delimiter => exact absurd rfl (hc delimiter)
  | case6 delimiter => exact absurd rfl (hc delimiter)
  | case7 delimiter => exact absurd rfl (hc delimiter)
  | case8 rest ih =>
    rw [removeFrom, if_pos rfl]
    exact beginsComment_of_ne (by decide) _
  | case9 c rest h ih =>
    rw [removeFrom, if_neg h]
    exact ih (by simp)
  | case10 rest ih => simpa [removeFrom] using ih (by simp)
  | case11 c rest hend ih =>
    rw [removeFrom]
    · by_cases hfeed : c = '\n'
      · rw [if_pos hfeed, hfeed]
        exact beginsComment_of_ne (by decide) _
      · rw [if_neg hfeed]
        exact ih (by simp)
    · exact hend

end

/-! ### Texts and what is taken for a comment -/

/-- What begins a comment stays inside of a literal, behind a backslash too. -/
theorem beginsComment_removeFrom_literal {delimiter : Char} (hd : isDelimiter delimiter = true) {text : Text}
    (h : beginsComment text = true) :
  beginsComment (removeFrom (.literal delimiter) text) = true
    ∧ ∃ behind, removeFrom (.literal delimiter) ('\\' :: text) = '\\' :: behind ∧ beginsComment behind = true
  := by
  obtain ⟨c, tail, rfl, hc⟩ : ∃ c tail, text = '/' :: c :: tail ∧ (c = '/' ∨ c = '*') := by
    unfold beginsComment at h
    split at h
    · exact ⟨_, _, rfl, .inl rfl⟩
    · exact ⟨_, _, rfl, .inr rfl⟩
    · cases h
  have hslash : ¬('/' = delimiter ∨ '/' = '\n' ∧ delimiter ≠ '\x60') := by
    rintro (rfl | ⟨h, -⟩)
    · exact absurd hd (by decide)
    · exact absurd h (by decide)
  have hbackslash : c ≠ '\\' := by
    rintro rfl
    exact absurd hc (by decide)
  obtain ⟨context, -, hremove, -⟩ := @removeFrom_literal delimiter c tail hbackslash
  have hbegins : beginsComment ('/' :: c :: removeFrom context tail) = true := by
    rw [beginsComment_cons_cons]
    simpa using hc
  constructor
  · rw [removeFrom, if_neg hslash, hremove]
    · exact hbegins
    · simp
  · rw [removeFrom, hremove]
    exact ⟨_, rfl, hbegins⟩

/-- Where what begins a comment stays, and what is left is what the scanner leaves, the scanner passes no
comment. -/
theorem exists_cons_of_left {segment : Segment} (h : Whole segment) {left : Text}
    (hl : beginsComment segment.text = true → beginsComment left = true)
    (ht : left = segment.uncommented.text) :
  segment = [] ∨ ∃ c part rest, segment = (c, part) :: rest ∧ part ≠ .comment ∧ Whole rest
  := by
  cases h with
  | nil => exact .inl rfl
  | cons hp h => exact .inr ⟨_, _, _, rfl, hp, h⟩
  | comment hc hn h =>
    have hneat := (Neat.comment hc ⟨h, hn⟩).begins
    rw [Segment.text_append, Segment.text_of, hc.beginsComment] at hl
    rw [← ht, hl rfl] at hneat
    cases hneat

/-- Outside of comments the scanner leaves what begins a comment in another sense. -/
theorem removeFrom_cons_ne {c : Char} {part : Part} {segment : Segment} (hp : part ≠ .comment)
    (h : Whole segment) (hc : beginsComment (c :: segment.text) = true) :
  removeFrom .code (c :: segment.text) ≠ Segment.text (Segment.uncommented ((c, part) :: segment))
  := by
  intro ht
  rw [Segment.uncommented_cons_of_ne hp, Segment.text_cons] at ht
  have hbegins := @beginsComment_removeFrom .code nofun (c :: segment.text)
  cases h with
  | nil => simp [beginsComment] at hc
  | @cons d part segment hp h =>
    rw [ht, Segment.uncommented_cons_of_ne hp, Segment.text_cons, beginsComment_cons_cons] at hbegins
    rw [Segment.text_cons, beginsComment_cons_cons, hbegins] at hc
    cases hc
  | @comment comment segment hcomment hn h =>
    -- the slash in front makes the comment one that runs to the end of the line
    obtain ⟨tail, rfl⟩ : ∃ tail, comment = '/' :: tail := by
      cases hcomment with
      | line => exact ⟨_, rfl⟩
      | block => exact ⟨_, rfl⟩
    rw [Segment.of_cons, List.cons_append, Segment.text_cons] at hc ht
    obtain rfl : c = '/' := by
      rw [beginsComment_cons_cons, Bool.and_eq_true, beq_iff_eq] at hc
      exact hc.1
    rw [removeFrom] at ht
    exact head?_removeFrom_line _ (congrArg List.head? ht)

/-- From inside of a context that is no comment, the text that is left tells what has been skipped. -/
theorem skipped_eq_of_removeFrom_eq {segment : Segment} (h : Whole segment) {context : Context}
    (hc : context.isOutside = true) (ht : removeFrom context segment.text = segment.uncommented.text) :
  skipped context segment.text = segment.map fun passed => passed.2 == .comment
  := by
  induction hn : segment.length using Nat.strong_induction_on generalizing segment context with
  | _ n ih =>
    subst hn
    cases context with
    | line => cases hc
    | block => cases hc
    | code =>
      cases h with
      | nil => rfl
      | @cons c part segment hp h =>
        cases hbegins : beginsComment (c :: segment.text) with
        | true => exact absurd ht (removeFrom_cons_ne hp h hbegins)
        | false =>
          obtain ⟨hremove, hskip⟩ := skipped_cons hbegins
          rw [Segment.text_cons, hremove, Segment.uncommented_cons_of_ne hp, Segment.text_cons] at ht
          have hrest := ih _ (Nat.lt_succ_self _) h (isOutside_behind c) (List.cons.inj ht).2 rfl
          rw [Segment.text_cons, hskip, hrest]
          simp [hp]
      | @comment comment segment hcomment hn h =>
        obtain ⟨hremove, hskip⟩ := removeFrom_comment hcomment
        rw [Segment.uncommented_append, Segment.text_append, Segment.text_append, Segment.text_of, hremove] at ht
        have hlength : segment.length < (of .comment comment ++ segment).length := by
          cases hcomment <;> simp <;> omega
        have hrest := ih _ hlength h rfl (List.append_cancel_left ht) rfl
        have hcomments : (of .comment comment).map (fun passed => passed.2 == .comment)
            = List.replicate comment.length true := by
          rw [of, List.map_map]
          exact List.map_const' ..
        rw [Segment.text_append, Segment.text_of, hskip, hrest, List.map_append, hcomments]
    | literal delimiter =>
      obtain rfl | ⟨c, part, rest, rfl, hp, hrest⟩ :=
        exists_cons_of_left h (fun hl => (beginsComment_removeFrom_literal hc hl).1) ht
      · rfl
      · rw [Segment.uncommented_cons_of_ne hp, Segment.text_cons, Segment.text_cons] at ht
        rw [Segment.text_cons, List.map_cons]
        by_cases hescape : c = '\\'
        · subst hescape
          have hleft : beginsComment (Segment.text rest) = true → beginsComment (Segment.uncommented rest).text = true := by
            intro hbegins
            obtain ⟨behind, hbehind, hb⟩ := (beginsComment_removeFrom_literal hc hbegins).2
            rw [hbehind] at ht
            rwa [← (List.cons.inj ht).2]
          obtain rfl | ⟨d, part', rest, rfl, hp', hrest⟩ := exists_cons_of_left hrest hleft rfl
          · simp [skipped, hp]
          · rw [Segment.text_cons, removeFrom, Segment.uncommented_cons_of_ne hp', Segment.text_cons] at ht
            have hrest := ih _ (Nat.lt_succ_of_lt (Nat.lt_succ_self _)) hrest hc (List.cons.inj (List.cons.inj ht).2).2 rfl
            rw [Segment.text_cons, skipped, hrest]
            simp [hp, hp']
        · obtain ⟨context, houtside, hremove, hskip⟩ := @removeFrom_literal delimiter c (Segment.text rest) hescape
          rw [hremove] at ht
          have hrest := ih _ (Nat.lt_succ_self _) hrest (houtside hc) (List.cons.inj ht).2 rfl
          rw [hskip, hrest]
          simp [hp]

/-! ### Literals -/

/-- A character that neither begins a comment nor delimits a literal stays. -/
theorem removeFrom_cons {c : Char} {rest : Text} (hd : isDelimiter c = false)
    (h : beginsComment (c :: rest) = false) :
  removeFrom .code (c :: rest) = c :: removeFrom .code rest
  := by
  rw [(skipped_cons h).1, hd, if_neg (by decide)]

/-- A delimiter opens a literal and is kept. -/
theorem removeFrom_delimiter {delimiter : Char} (hd : isDelimiter delimiter = true) (rest : Text) :
  removeFrom .code (delimiter :: rest) = delimiter :: removeFrom (.literal delimiter) rest
  := by
  have hslash : delimiter ≠ '/' := by
    rintro rfl
    exact absurd hd (by decide)
  rw [(skipped_cons (beginsComment_of_ne hslash rest)).1, if_pos hd]

/-- The contents of a string stay. -/
theorem removeFrom_stringBody {quote : Char} {text body rest : Text}
    (h : stringBody? quote text = some (body, rest)) :
  removeFrom (.literal quote) text = body ++ quote :: removeFrom .code rest
  := by
  fun_induction stringBody? quote text generalizing body with
  | case1 => cases h
  | case2 => cases h
  | case3 c tail ih =>
    obtain ⟨inner, hi, rfl⟩ := withFront_eq_some h
    rw [removeFrom, ih hi]
    rfl
  | case4 tail hn hc =>
    cases h
    rw [removeFrom_literal_of_ne (ne_backslash hn hc), if_pos (.inl rfl)]
    rfl
  | case5 => cases h
  | case6 c tail hn hc hquote hbreak ih =>
    obtain ⟨inner, hi, rfl⟩ := withFront_eq_some h
    have hfeed : c ≠ '\n' := by
      rintro rfl
      exact hbreak rfl
    rw [removeFrom_literal_of_ne (ne_backslash hn hc), if_neg (by simp [hquote, hfeed]), ih hi]
    rfl

/-- A chunk of a template literal stays, with what ends it. -/
theorem removeFrom_templateChunk {text chunk rest : Text} {stop : ChunkEnd}
    (h : templateChunk? text = some (chunk, stop, rest)) :
  removeFrom (.literal '\x60') text
    = chunk ++ (stop.text ++ removeFrom (if stop = .literal then .code else .literal '\x60') rest)
  := by
  fun_induction templateChunk? text generalizing chunk with
  | case1 => cases h
  | case2 => cases h
  | case3 c tail ih =>
    obtain ⟨inner, hi, rfl⟩ := withFront_eq_some h
    rw [removeFrom, ih hi]
    rfl
  | case4 tail =>
    cases h
    rw [removeFrom_literal_of_ne (by decide), if_neg (by decide), removeFrom_literal_of_ne (by decide),
      if_neg (by decide)]
    rfl
  | case5 tail =>
    cases h
    rw [removeFrom_literal_of_ne (by decide), if_pos (.inl rfl)]
    rfl
  | case6 c tail hn hc hd hb ih =>
    obtain ⟨inner, hi, rfl⟩ := withFront_eq_some h
    rw [removeFrom_literal_of_ne (ne_backslash hn hc), if_neg (by simp [hb]), ih hi]
    rfl

/-- The code of a substitution stays if it holds no backtick.  A backslash at its end takes along the bracket that
closes it. -/
theorem removeFrom_substitution {code : Text} (h : '\x60' ∉ code) (rest : Text) :
  removeFrom (.literal '\x60') (code ++ '}' :: rest) = code ++ '}' :: removeFrom (.literal '\x60') rest
  := by
  induction hn : code.length using Nat.strong_induction_on generalizing code with
  | _ n ih =>
    subst hn
    cases code with
    | nil =>
      rw [List.nil_append, removeFrom_literal_of_ne (by decide), if_neg (by decide)]
      rfl
    | cons c code =>
      rw [List.mem_cons, not_or] at h
      by_cases hc : c = '\\'
      · subst hc
        cases code with
        | nil => rw [List.singleton_append, removeFrom, List.singleton_append]
        | cons d code =>
          have hcode := ih _ (Nat.lt_succ_of_lt (Nat.lt_succ_self _)) (List.not_mem_of_not_mem_cons h.2) rfl
          rw [List.cons_append, List.cons_append, removeFrom, hcode]
          rfl
      · have hcode := ih _ (Nat.lt_succ_self _) h.2 rfl
        rw [List.cons_append, removeFrom_literal_of_ne hc, if_neg (by simpa [eq_comm] using h.1), hcode]
        rfl

end ImportCensus.Comment
