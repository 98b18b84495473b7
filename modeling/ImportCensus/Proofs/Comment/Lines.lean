import Mathlib.Data.List.Forall2
import ImportCensus.Proofs.Comment.Skipped
import ImportCensus.Proofs.Text.Parts

/-!
# Lines without comments

Whatever is taken out of a text, its line feeds stay, and so every line of what is left is a line of the text
without some of its characters.  What is left of a text is read in the contexts in which the text was read, and
nothing in it is taken for a comment.
-/

namespace ImportCensus.Comment

open Text Scan

/-! ### What is left of the characters -/

section

variable {text : Text} {hidden : List Bool}

theorem left?_of_ne {c : Char} (hc : c ≠ '\n') :
  left? c true = none
  := by
  rw [left?, if_pos rfl, if_neg hc]

theorem left?_false (c : Char) :
  left? c false = some c
  := rfl

theorem left?_lineFeed (hidden : Bool) :
  left? '\n' hidden = some '\n'
  := by
  cases hidden with
  | false => rfl
  | true => rfl

/-- Whichever characters are hidden, every line keeps its place and some of its characters. -/
theorem lines_left (h : hidden.length = text.length) :
  List.Forall₂ List.Sublist (splitOn '\n' ((List.zipWith left? text hidden).filterMap id)) (splitOn '\n' text)
  := by
  induction text generalizing hidden with
  | nil => simp [splitOn]
  | cons c text ih =>
    obtain ⟨first, hidden, rfl⟩ := List.exists_cons_of_length_eq_add_one h
    rw [List.length_cons, List.length_cons, Nat.succ_inj] at h
    have hlines := ih h
    rw [List.zipWith_cons_cons]
    by_cases hc : c = '\n'
    · subst hc
      rw [left?_lineFeed, List.filterMap_cons_some (f := id) rfl, splitOn, if_pos rfl, splitOn, if_pos rfl]
      exact .cons (List.Sublist.refl []) hlines
    · obtain ⟨line, lines, htext, hcons⟩ := exists_splitOn_cons hc text
      rw [htext] at hlines
      rw [hcons]
      cases first with
      | true =>
        rw [left?_of_ne hc, List.filterMap_cons_none (f := id) rfl]
        obtain ⟨line', lines', hline, hlines, hleft⟩ := List.forall₂_cons_right_iff.mp hlines
        rw [hleft]
        exact .cons (hline.cons c) hlines
      | false =>
        obtain ⟨line', lines', hleft, hcons'⟩ :=
          exists_splitOn_cons hc ((List.zipWith left? text hidden).filterMap id)
        rw [hleft, List.forall₂_cons] at hlines
        rw [left?_false, List.filterMap_cons_some (f := id) rfl, hcons']
        exact .cons (hlines.1.cons_cons c) hlines.2

/-- Where nothing is hidden everything is left. -/
theorem left_of_notMem (h : hidden.length = text.length) (hnone : true ∉ hidden) :
  (List.zipWith left? text hidden).filterMap id = text
  := by
  induction text generalizing hidden with
  | nil => simp
  | cons c text ih =>
    obtain ⟨first, hidden, rfl⟩ := List.exists_cons_of_length_eq_add_one h
    rw [List.mem_cons, not_or] at hnone
    obtain rfl : first = false := by simpa using Ne.symm hnone.1
    rw [List.zipWith_cons_cons, left?_false, List.filterMap_cons_some (f := id) rfl, ih (Nat.succ_inj.mp h) hnone.2]

end

/-! ### Reading what is left -/

section

variable {context : Context} {text : Text}

/-- Each character of a text is either skipped or not. -/
theorem length_skipped (context : Context) (text : Text) :
  (skipped context text).length = text.length
  := by
  fun_induction skipped context text with
  | case1 => rfl
  | case2 rest ih => simp [ih]
  | case3 rest ih => simp [ih]
  | case4 c rest _ _ ih => simp [ih]
  | case5 delimiter c rest ih => simp [ih]
  | case6 delimiter c rest _ _ ih => simp [ih]
  | case7 delimiter c rest _ _ ih => simp [ih]
  | case8 rest ih => simp [ih]
  | case9 c rest _ ih => simp [ih]
  | case10 rest ih => simp [ih]
  | case11 c rest _ ih => simp [ih]

/-- A text in which nothing is taken for a comment is left as it is. -/
theorem removeFrom_of_notMem (h : true ∉ skipped context text) :
  removeFrom context text = text
  := by
  rw [removeFrom_eq, left_of_notMem (length_skipped context text) h]

/-- The context in which what is left of a text is read, where the text is read in this one. -/
def Context.left : Context → Context
  | code => code
  | literal delimiter => .literal delimiter
  | line => code
  | block => code

/-- What is left is read in the same context, outside of comments. -/
theorem left_of_isOutside (h : context.isOutside = true) :
  context.left = context
  := by
  cases context with
  | code => rfl
  | literal => rfl
  | line => cases h
  | block => cases h

/-- A line feed of the code is not skipped. -/
theorem skipped_lineFeed (rest : Text) :
  skipped .code ('\n' :: rest) = false :: skipped .code rest
  := (skipped_cons (beginsComment_of_ne (by decide) rest)).2

/-- A backslash behind which nothing stands has nothing left behind it. -/
theorem escapes_removeFrom {c : Char} (h : ∀ (d : Char) (tail : Text), c = '\\' → text = d :: tail → False)
    (context : Context) (d : Char) (tail : Text) (hc : c = '\\') (ht : removeFrom context text = d :: tail) :
  False
  := by
  cases text with
  | nil => simp [removeFrom] at ht
  | cons e text => exact h e text hc rfl

/-- In what is left of a text nothing is taken for a comment. -/
theorem notMem_skipped_removeFrom (context : Context) (text : Text) :
  true ∉ skipped context.left (removeFrom context text)
  := by
  fun_induction skipped context text with
  | case1 => simp [removeFrom, skipped]
  | case2 rest ih =>
    rw [removeFrom]
    exact ih
  | case3 rest ih =>
    rw [removeFrom]
    exact ih
  | case4 c rest hline hblock ih =>
    -- what is left of a text begins no comment, so that its first character stays once more
    have hbegins := @beginsComment_removeFrom .code (by simp) (c :: rest)
    rw [left_of_isOutside (isOutside_behind c)] at ih
    have hremove : removeFrom .code (c :: rest)
        = c :: removeFrom (if isDelimiter c then .literal c else .code) rest := by
      rw [removeFrom]
      · exact hline
      · exact hblock
    rw [hremove] at hbegins ⊢
    rw [Context.left, (skipped_cons hbegins).2]
    simpa using ih
  | case5 delimiter c rest ih =>
    rw [removeFrom, Context.left, skipped]
    simpa [Context.left] using ih
  | case6 delimiter c rest hescape h ih =>
    rw [removeFrom, if_pos h, Context.left, skipped, if_pos h]
    · simpa [Context.left] using ih
    · exact escapes_removeFrom hescape .code
    · exact hescape
  | case7 delimiter c rest hescape h ih =>
    rw [removeFrom, if_neg h, Context.left, skipped, if_neg h]
    · simpa [Context.left] using ih
    · exact escapes_removeFrom hescape (.literal delimiter)
    · exact hescape
  | case8 rest ih =>
    rw [removeFrom, if_pos rfl, Context.left, skipped_lineFeed]
    simpa [Context.left] using ih
  | case9 c rest h ih =>
    rw [removeFrom, if_neg h]
    exact ih
  | case10 rest ih =>
    rw [removeFrom]
    exact ih
  | case11 c rest hend ih =>
    rw [removeFrom]
    · by_cases hc : c = '\n'
      · subst hc
        rw [if_pos rfl, Context.left, skipped_lineFeed]
        simpa [Context.left] using ih
      · rw [if_neg hc]
        exact ih
    · exact hend

/-- Without its comments a text has its lines, each without some of its characters, and no comment, so that no
more can be removed from it. -/
theorem remove_lines (text : Text) :
  (remove text).count '\n' = text.count '\n'
    ∧ List.Forall₂ List.Sublist (splitOn '\n' (remove text)) (splitOn '\n' text)
    ∧ true ∉ skipped .code (remove text)
    ∧ remove (remove text) = remove text
  := by
  have hlines : List.Forall₂ List.Sublist (splitOn '\n' (remove text)) (splitOn '\n' text) := by
    rw [remove, removeFrom_eq]
    exact lines_left (length_skipped .code text)
  have hnone : true ∉ skipped .code (remove text) := notMem_skipped_removeFrom .code text
  refine ⟨?_, hlines, hnone, removeFrom_of_notMem hnone⟩
  have hlength := hlines.length_eq
  rw [length_splitOn, length_splitOn] at hlength
  exact Nat.succ_inj.mp hlength

end

end ImportCensus.Comment
