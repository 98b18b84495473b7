import ImportCensus.Salvage

/-!
# Searching a text for statements

How a search goes on: it passes a stretch of text in which no statement begins, it passes what a
statement holds, and it enters a statement where one begins.  A statement is read behind its first word,
and any reading of a clause there tells whether one is found.
-/

namespace ImportCensus

/-! ### Runs of characters -/

namespace Text

variable {α : Type} {p : Char → Bool} {next : Text → Option α}

/-- What is read behind a longest run stands behind a run. -/
theorem exists_of_longestRun {text : Text} {a : α} (h : longestRun p next text = some a) :
  ∃ run rest, text = run ++ rest ∧ run.all p = true ∧ next rest = some a
  := by
  induction text with
  | nil => exact ⟨[], [], rfl, rfl, h⟩
  | cons c text ih =>
    rw [longestRun] at h
    split at h
    · rename_i hc
      obtain htail | ⟨-, hhere⟩ := Option.or_eq_some_iff.mp h
      · obtain ⟨run, rest, rfl, hrun, hnext⟩ := ih htail
        exact ⟨c :: run, rest, rfl, by simp [hc, hrun], hnext⟩
      · exact ⟨[], c :: text, rfl, rfl, hhere⟩
    · exact ⟨[], c :: text, rfl, rfl, h⟩

/-- What is read behind a longest run that is not empty stands behind such a run. -/
theorem exists_of_longestRun₁ {text : Text} {a : α} (h : longestRun₁ p next text = some a) :
  ∃ run rest, text = run ++ rest ∧ run ≠ [] ∧ run.all p = true ∧ next rest = some a
  := by
  cases text with
  | nil => cases h
  | cons c text =>
    rw [longestRun₁] at h
    split at h
    · rename_i hc
      obtain ⟨run, rest, rfl, hrun, hnext⟩ := exists_of_longestRun h
      exact ⟨c :: run, rest, rfl, List.cons_ne_nil c run, by simp [hc, hrun], hnext⟩
    · cases h

/-- Something is read behind a longest run, if it is behind one of the runs. -/
theorem isSome_longestRun {run rest : Text} (hrun : run.all p = true)
    (hnext : (next rest).isSome = true) :
  (longestRun p next (run ++ rest)).isSome = true
  := by
  induction run with
  | nil =>
    cases rest with
    | nil => exact hnext
    | cons c rest =>
      rw [List.nil_append, longestRun]
      split
      · simp [hnext]
      · exact hnext
  | cons c run ih =>
    rw [List.all_cons, Bool.and_eq_true] at hrun
    rw [List.cons_append, longestRun, if_pos hrun.1, Option.isSome_or, ih hrun.2, Bool.true_or]

/-- Something is read behind a longest run that is not empty, if it is behind such a run. -/
theorem isSome_longestRun₁ {run rest : Text} (hn : run ≠ []) (hrun : run.all p = true)
    (hnext : (next rest).isSome = true) :
  (longestRun₁ p next (run ++ rest)).isSome = true
  := by
  cases run with
  | nil => exact absurd rfl hn
  | cons c run =>
    rw [List.all_cons, Bool.and_eq_true] at hrun
    rw [List.cons_append, longestRun₁, if_pos hrun.1]
    apply isSome_longestRun hrun.2 hnext

end Text

namespace Salvage

open Text Scan

/-! ### Clauses -/

/-- The ways to read a clause and an address behind the first word of a statement.  Quotation marks and
blanks may stand before the clause. -/
inductive ReadsClause : Text → Text → Prop where
  | intro {lead bindings rest behind : Text}
      (hl : lead.all (fun c => isQuote c || isBlank c) = true)
      (hb : bindings.all isClauseCharacter = true) (hn : bindings ≠ [])
      (h : behindSource? rest = some behind) :
    ReadsClause (lead ++ (bindings ++ rest)) behind

section

variable {text behind : Text}

/-- What the expression reads of a clause is a clause. -/
theorem readsClause_of_longestRun
    (h : longestRun (fun c => isQuote c || isBlank c) (longestRun₁ isClauseCharacter behindSource?)
      text = some behind) :
  ReadsClause text behind
  := by
  obtain ⟨lead, _, rfl, hlead, hclause⟩ := exists_of_longestRun h
  obtain ⟨bindings, rest, rfl, hn, hbindings, hsource⟩ := exists_of_longestRun₁ hclause
  exact .intro hlead hbindings hn hsource

/-- A statement is read by its clause where there is but one thing that can stand behind it. -/
theorem behindStatement?_of_readsClause (h : ReadsClause text behind)
    (hu : ∀ b, ReadsClause text b → b = behind) :
  behindStatement? text = some behind
  := by
  have hsome : (longestRun (fun c => isQuote c || isBlank c)
      (longestRun₁ isClauseCharacter behindSource?) text).isSome = true := by
    cases h with
    | intro hl hb hn hs =>
      apply isSome_longestRun hl
      apply isSome_longestRun₁ hn hb
      rw [hs]
      rfl
  obtain ⟨b, hb⟩ := Option.isSome_iff_exists.mp hsome
  obtain rfl := hu b (readsClause_of_longestRun hb)
  rw [behindStatement?, hb]
  rfl

/-- Where there is no clause, a statement is read by its specifier. -/
theorem behindStatement?_of_not_readsClause (h : ∀ b, ¬ ReadsClause text b) :
  behindStatement? text = behindSpecifier? text
  := by
  rw [behindStatement?]
  cases hrun : longestRun (fun c => isQuote c || isBlank c)
      (longestRun₁ isClauseCharacter behindSource?) text with
  | none => rfl
  | some b => exact absurd (readsClause_of_longestRun hrun) (h b)

end

/-! ### Finding statements -/

/-- Whether a word may begin behind a text, given whether one may begin before it. -/
def outsideWord (boundary : Bool) : Text → Bool
  | [] => boundary
  | c :: rest => outsideWord (!isWordCharacter c) rest

/-- Whether a word may begin is told from one text and then from the next. -/
theorem outsideWord_append (boundary : Bool) (text more : Text) :
  outsideWord boundary (text ++ more) = outsideWord (outsideWord boundary text) more
  := by
  induction text generalizing boundary with
  | nil => rfl
  | cons c text ih => apply ih

theorem outsideWord_of_ne_nil {text : Text} (h : text ≠ []) (boundary boundary' : Bool) :
  outsideWord boundary text = outsideWord boundary' text
  := by
  cases text with
  | nil => exact absurd rfl h
  | cons c text => rfl

/-- Whether every statement that begins in a text is one of those that `write` gives and ends before
`next`, given what stands behind the text. -/
def Admits {α : Type} (behind? : Text → Option Text) (write : α → Text) (next : Text) (boundary : Bool)
    (text behind : Text) : Prop :=
  ∀ front tail rest left, text = front ++ tail → tail ≠ [] → outsideWord boundary front = true →
    tail ++ behind = importWord ++ rest → behind? rest = some left →
    next <:+ left ∧ ∃ a inner, write a = importWord ++ inner ∧ rest = inner ++ left

/-- Whether no statement begins in a text, given what stands behind it. -/
def Quiet (behind? : Text → Option Text) : (boundary : Bool) → (text behind : Text) → Prop :=
  Admits behind? (nofun : Empty → Text) []

section

variable {α : Type} {behind? : Text → Option Text} {write : α → Text} {next : Text} {boundary : Bool}
  {text more behind : Text}

/-- Statements are admitted in one text and then in the next. -/
theorem Admits.append (h : Admits behind? write next boundary text (more ++ behind))
    (hm : Admits behind? write next (outsideWord boundary text) more behind) :
  Admits behind? write next boundary (text ++ more) behind
  := by
  intro front tail rest left htext hne hfront htail hread
  obtain ⟨middle, rfl, rfl⟩ | ⟨middle, rfl, rfl⟩ := List.append_eq_append_iff.mp htext
  · apply hm middle tail rest left rfl hne _ htail hread
    rwa [outsideWord_append] at hfront
  · by_cases hmiddle : middle = []
    · subst hmiddle
      apply hm [] more rest left rfl (by simpa using hne) _ (by simpa using htail) hread
      simpa [outsideWord] using hfront
    · apply h front middle rest left rfl hmiddle hfront _ hread
      simpa using htail

/-- What is admitted in a text is admitted behind a part of it. -/
theorem Admits.of_append (h : Admits behind? write next boundary (text ++ more) behind) :
  Admits behind? write next (outsideWord boundary text) more behind
  := by
  intro front tail rest left hmore hne hfront htail hread
  apply h (text ++ front) tail rest left (by rw [hmore, List.append_assoc]) hne _ htail hread
  rwa [outsideWord_append]

/-- A text in which no statement begins admits any. -/
theorem Quiet.admits (h : Quiet behind? boundary text behind) :
  Admits behind? write next boundary text behind
  := by
  intro front tail rest left htext hne hfront htail hread
  obtain ⟨-, a, -⟩ := h front tail rest left htext hne hfront htail hread
  cases a

/-- Nothing begins where the first letter does not stand. -/
theorem quiet_of_notMem (h : 'i' ∉ text) :
  Quiet behind? boundary text behind
  := by
  intro front tail rest left htext hne _ htail
  cases tail with
  | nil => exact absurd rfl hne
  | cons c tail =>
    obtain rfl : c = 'i' := (List.cons.inj htail).1
    exact absurd (by simp [htext]) h

/-- Behind the first letter of the word `import`, nothing begins. -/
theorem quiet_importWord (h : behind? behind = none) :
  Quiet behind? boundary importWord behind
  := by
  intro front tail rest left htext hne _ htail hread
  cases front with
  | nil =>
    rw [List.nil_append] at htext
    rw [← htext] at htail
    rw [← List.append_cancel_left htail, h] at hread
    cases hread
  | cons c front =>
    cases tail with
    | nil => exact absurd rfl hne
    | cons d tail =>
      have hmem : d ∈ ['m', 'p', 'o', 'r', 't'] := by
        rw [(List.cons.inj htext).2]
        simp
      obtain rfl : d = 'i' := (List.cons.inj htail).1
      exact absurd hmem (by decide)

/-- A search passes what a statement holds. -/
theorem find_skip (offset : Nat) (boundary : Bool) (text behind : Text) :
  find behind? offset text.length boundary (text ++ behind)
    = find behind? (offset + text.length) 0 (outsideWord boundary text) behind
  := by
  induction text generalizing boundary offset with
  | nil => rfl
  | cons c text ih =>
    have hoffset : offset + (c :: text).length = offset + 1 + text.length := by
      rw [List.length_cons]
      omega
    rw [List.cons_append, List.length_cons, find, ih, ← List.length_cons, hoffset]
    rfl

/-- A search enters a statement. -/
theorem find_statement {inner : Text} (h : behind? (inner ++ behind) = some behind) (offset : Nat) :
  find behind? offset 0 true (importWord ++ inner ++ behind)
    = (offset, importWord ++ inner)
      :: find behind? (offset + (importWord ++ inner).length) 0
        (outsideWord true (importWord ++ inner)) behind
  := by
  obtain ⟨c, text, htext⟩ : ∃ c text, importWord ++ inner = c :: text := ⟨_, _, rfl⟩
  have hafter : (after? importWord (c :: (text ++ behind))).bind behind? = some behind := by
    rw [← List.cons_append, ← htext, List.append_assoc, after?_append, Option.bind_some, h]
  have hlength : (c :: (text ++ behind)).length - behind.length = (c :: text).length := by
    rw [← List.cons_append, List.length_append, Nat.add_sub_cancel]
  have htake : (c :: (text ++ behind)).take (c :: text).length = c :: text := by
    rw [← List.cons_append, List.take_left]
  have hoffset : offset + (c :: text).length = offset + 1 + text.length := by
    rw [List.length_cons]
    omega
  rw [htext, List.cons_append, find, if_pos rfl, hafter]
  simp only [hlength, htake]
  rw [List.length_cons, Nat.add_sub_cancel, find_skip, ← List.length_cons, hoffset]
  rfl

/-- A search goes on where no statement begins. -/
theorem find_cons {c : Char} {text : Text}
    (h : boundary = true → (after? importWord (c :: text)).bind behind? = none) (offset : Nat) :
  find behind? offset 0 boundary (c :: text)
    = find behind? (offset + 1) 0 (!isWordCharacter c) text
  := by
  have hmatch : (if boundary then (after? importWord (c :: text)).bind behind? else none) = none := by
    split
    · rename_i hboundary
      exact h hboundary
    · rfl
  rw [find, hmatch]

/-- An admitted statement at the start of a text ends in the text, if `next` does not begin before its
end. -/
theorem Admits.exists_append (h : Admits behind? write next true text behind) (hb : behind <:+ next)
    (hn : text ≠ []) {left : Text} (hread : (after? importWord (text ++ behind)).bind behind? = some left) :
  ∃ a inner more, write a = importWord ++ inner ∧ text = write a ++ more
    ∧ behind? (inner ++ (more ++ behind)) = some (more ++ behind)
  := by
  obtain ⟨rest, hafter, hrest⟩ := Option.bind_eq_some_iff.mp hread
  rw [after?_eq_some_iff] at hafter
  obtain ⟨hnext, a, inner, hwrite, rfl⟩ := h [] text rest left rfl hn rfl hafter hrest
  obtain ⟨more, rfl⟩ := hb.trans hnext
  refine ⟨a, inner, more, hwrite, ?_, hrest⟩
  have happend : text ++ behind = write a ++ more ++ behind := by
    simpa [hwrite] using hafter
  apply List.append_cancel_right happend

/-- A search finds admitted statements in a text and goes on behind it, if none of them ends farther on. -/
theorem Admits.exists_find (h : Admits behind? write next boundary text behind) (hb : behind <:+ next)
    (offset : Nat) :
  ∃ found : List (Nat × α),
    find behind? offset 0 boundary (text ++ behind)
        = found.map (fun place => (place.1, write place.2))
          ++ find behind? (offset + text.length) 0 (outsideWord boundary text) behind
      ∧ found.Pairwise (fun a b => a.1 < b.1)
      ∧ ∀ place ∈ found, offset ≤ place.1 ∧ place.1 < offset + text.length
  := by
  -- on the length of the text, since what follows a statement is searched behind it
  induction hn : text.length using Nat.strongRecOn generalizing text boundary offset with
  | ind n ih =>
    subst hn
    cases text with
    | nil => exact ⟨[], rfl, .nil, by simp⟩
    | cons c text =>
      by_cases hnone : boundary = true → (after? importWord (c :: (text ++ behind))).bind behind? = none
      · have hrest : Admits behind? write next (!isWordCharacter c) text behind :=
          @Admits.of_append _ _ _ _ _ [c] _ _ h
        obtain ⟨found, hfind, hsorted, hfound⟩ := ih text.length (by simp) hrest (offset + 1) rfl
        have hoffset : offset + (c :: text).length = offset + 1 + text.length := by
          rw [List.length_cons]
          omega
        refine ⟨found, ?_, hsorted, ?_⟩
        · rw [List.cons_append, find_cons hnone, hfind, hoffset]
          rfl
        · intro place hplace
          obtain ⟨hle, hlt⟩ := hfound place hplace
          omega
      · rw [Classical.not_imp] at hnone
        obtain ⟨rfl, hsome⟩ := hnone
        obtain ⟨left, hleft⟩ := Option.ne_none_iff_exists'.mp hsome
        obtain ⟨a, inner, more, hwrite, htext, hread⟩ :=
          h.exists_append hb (List.cons_ne_nil c text) hleft
        have hpos : 0 < (write a).length := by simp [hwrite, importWord]
        rw [htext] at h
        obtain ⟨found, hfind, hsorted, hfound⟩ := ih more.length
          (by rw [htext, List.length_append]; omega) h.of_append (offset + (write a).length) rfl
        rw [htext, List.length_append, outsideWord_append]
        refine ⟨(offset, a) :: found, ?_, ?_, ?_⟩
        · rw [List.append_assoc, hwrite, find_statement hread, ← hwrite, hfind, ← Nat.add_assoc]
          rfl
        · apply List.Pairwise.cons _ hsorted
          intro place hplace
          have hle := (hfound place hplace).1
          simp only
          omega
        · rw [List.forall_mem_cons]
          refine ⟨⟨Nat.le_refl _, by simp only; omega⟩, ?_⟩
          intro place hplace
          obtain ⟨hle, hlt⟩ := hfound place hplace
          omega

end

/-! ### What is found -/

section

variable {behind? : Text → Option Text} {offset skip : Nat} {boundary : Bool} {text : Text}

/-- What a search finds begins with the word `import` where its offset says, and is cut off where the reading
of it ends. -/
theorem exists_of_mem_find {found : Nat × Text} (h : found ∈ find behind? offset skip boundary text) :
  ∃ before rest left, text = before ++ (importWord ++ rest) ∧ found.1 = offset + before.length
    ∧ behind? rest = some left
    ∧ found.2 = (importWord ++ rest).take ((importWord ++ rest).length - left.length)
  := by
  fun_induction find behind? offset skip boundary text with
  | case1 => cases h
  | case2 offset skip boundary c text ih =>
    obtain ⟨before, rest, left, rfl, hoffset, hread⟩ := ih h
    exact ⟨c :: before, rest, left, rfl, by rw [hoffset, List.length_cons]; omega, hread⟩
  | case3 offset boundary c text hnone ih =>
    obtain ⟨before, rest, left, rfl, hoffset, hread⟩ := ih h
    exact ⟨c :: before, rest, left, rfl, by rw [hoffset, List.length_cons]; omega, hread⟩
  | case4 offset boundary c text left hsome length ih =>
    obtain rfl | h := List.mem_cons.mp h
    · have hread : (after? importWord (c :: text)).bind behind? = some left := by
        split at hsome
        · exact hsome
        · cases hsome
      obtain ⟨rest, hafter, hrest⟩ := Option.bind_eq_some_iff.mp hread
      rw [after?_eq_some_iff] at hafter
      refine ⟨[], rest, left, hafter, rfl, hrest, ?_⟩
      simp only [length, hafter]
    · obtain ⟨before, rest, left, rfl, hoffset, hread⟩ := ih h
      exact ⟨c :: before, rest, left, rfl, by rw [hoffset, List.length_cons]; omega, hread⟩

/-- A search finds one thing after the other. -/
theorem pairwise_find :
  (find behind? offset skip boundary text).Pairwise fun a b => a.1 < b.1
  := by
  fun_induction find behind? offset skip boundary text with
  | case1 => exact .nil
  | case2 _ _ _ _ _ ih => exact ih
  | case3 _ _ _ _ _ ih => exact ih
  | case4 offset boundary c text left hsome length ih =>
    apply List.Pairwise.cons _ ih
    intro found hfound
    obtain ⟨before, _, _, _, hoffset, _⟩ := exists_of_mem_find hfound
    simp only [hoffset]
    omega

/-- What two searches find is in order where it is merged by the places. -/
theorem pairwise_merge {α : Type} {found found' : List (Nat × α)} (h : found.Pairwise fun a b => a.1 < b.1)
    (h' : found'.Pairwise fun a b => a.1 < b.1) :
  (List.merge found found' fun a b => a.1 ≤ b.1).Pairwise fun a b => a.1 ≤ b.1
  := by
  have hle : ∀ {found : List (Nat × α)}, found.Pairwise (fun a b => a.1 < b.1) →
      found.Pairwise fun a b => decide (a.1 ≤ b.1) = true := by
    intro found hsorted
    apply hsorted.imp
    intro a b hlt
    exact decide_eq_true (Nat.le_of_lt hlt)
  have hmerge : (List.merge found found' fun a b => a.1 ≤ b.1).Pairwise
      fun a b => decide (a.1 ≤ b.1) = true := by
    apply List.pairwise_merge _ _ _ _ (hle h) (hle h')
    · intro a b c hab hbc
      exact decide_eq_true (Nat.le_trans (of_decide_eq_true hab) (of_decide_eq_true hbc))
    · intro a b
      simpa using Nat.le_total a.1 b.1
  exact hmerge.imp of_decide_eq_true

end

end Salvage

end ImportCensus
