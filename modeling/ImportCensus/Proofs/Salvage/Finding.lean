import Mathlib.Data.List.Chain
import ImportCensus.Proofs.Salvage.Reading

/-!
# Finding pieces

What the two searches for statements make of a piece.  The search for static imports finds a static piece
and passes a dynamic one.  The search for dynamic imports finds a dynamic piece, and in a static one it
finds nothing but dynamic imports of a template that begin in the address.
-/

namespace ImportCensus.Salvage

open Text Scan Written

/-! ### Boundaries of words -/

/-- Whether a word may begin behind a text is told from its last character. -/
theorem outsideWord_eq (boundary : Bool) (text : Text) :
  outsideWord boundary text = text.getLast?.elim boundary (!isWordCharacter ·)
  := by
  induction text generalizing boundary with
  | nil => rfl
  | cons c text ih =>
    rw [outsideWord, ih, List.getLast?_cons]
    cases text.getLast? with
    | none => rfl
    | some d => rfl

/-- A word may begin behind what ends outside of one. -/
theorem outsideWord_eq_true_iff {text : Text} :
  outsideWord true text = true ↔ endsOutsideWord text
  := by
  rw [outsideWord_eq, endsOutsideWord]
  cases text.getLast? with
  | none => simp
  | some c => simp

/-! ### Statements -/

/-- A template literal without substitutions as the argument of a dynamic import. -/
structure Template where
  contents : Text
  isChunk : IsChunk .literal contents

/-- The characters of a dynamic import of a template. -/
def Template.text (template : Template) : Text :=
  importWord ++ '(' :: '\x60' :: (template.contents ++ ['\x60', ')'])

/-- What a search finds: a piece, or a dynamic import of a template. -/
inductive Statement where
  | piece (piece : Piece)
  | template (template : Template)

namespace Statement

/-- The characters of a statement. -/
def text : Statement → Text
  | piece p => p.text
  | template t => t.text

/-- The piece that a statement is. -/
def piece? : Statement → Option Piece
  | piece p => some p
  | template _ => none

end Statement

/-! ### Templates -/

/-- Whether no backtick in a text stands behind a backslash. -/
def Unescaped : Text → Prop :=
  List.IsChain fun c d => c = '\\' → d ≠ '\x60'

/-- A text without backslashes or without backticks escapes none. -/
theorem unescaped_of_notMem {text : Text} (h : '\\' ∉ text ∨ '\x60' ∉ text) :
  Unescaped text
  := by
  apply List.Pairwise.isChain
  rw [List.pairwise_iff_forall_sublist]
  rintro c d hsub rfl rfl
  have hsubset := hsub.subset
  rcases h with h | h
  · exact h (hsubset (by simp))
  · exact h (hsubset (by simp))

/-- A text without backslashes may stand in front of one that escapes nothing. -/
theorem Unescaped.append {text more : Text} (h : '\\' ∉ text) (hm : Unescaped more) :
  Unescaped (text ++ more)
  := by
  refine List.isChain_append.mpr ⟨unescaped_of_notMem (.inl h), hm, ?_⟩
  rintro c hc d - rfl
  exact absurd (List.mem_of_getLast? hc) h

/-- What has no substitution and no backtick is the chunk of a literal, where a backtick ends it. -/
theorem isChunk_of_unescaped {contents : Text} (hd : '$' ∉ contents) (hb : '\x60' ∉ contents)
    (h : Unescaped (contents ++ ['\x60'])) :
  IsChunk .literal contents
  := by
  rw [IsChunk]
  fun_induction templateChunk? contents with
  | case1 => rfl
  | case2 =>
    rw [Unescaped, List.singleton_append, List.isChain_pair] at h
    exact absurd rfl (h rfl)
  | case3 c rest ih =>
    simp only [List.mem_cons, not_or] at hd hb
    have hrest := ih hd.2.2 hb.2.2 (h.suffix ⟨['\\', c], rfl⟩)
    simp only [List.cons_append, templateChunk?, hrest]
    rfl
  | case4 rest => exact absurd List.mem_cons_self hd
  | case5 rest => exact absurd List.mem_cons_self hb
  | case6 c rest hn hc hs hbacktick ih =>
    simp only [List.mem_cons, not_or] at hd hb
    have hrest := ih hd.2 hb.2 (h.suffix ⟨[c], rfl⟩)
    have hbackslash := ne_backslash hn hc
    rw [List.cons_append, templateChunk?_cons hbackslash fun _ hdollar => absurd hdollar.symm hd.1,
      if_neg hbacktick, hrest]
    rfl

/-- Where a template begins behind `import(`, a dynamic import of a template stands. -/
theorem exists_template {text left : Text} (h : BeginsTemplate text left) (hu : Unescaped text) :
  ∃ template : Template, importWord ++ '(' :: text = template.text ++ left
  := by
  obtain ⟨contents, rfl, -, hdollar, hbacktick⟩ := h
  have hchunk : Unescaped (contents ++ ['\x60']) := by
    apply hu.infix
    exact ⟨['\x60'], ')' :: left, by simp⟩
  exact ⟨⟨contents, isChunk_of_unescaped hdollar hbacktick hchunk⟩, by simp [Template.text]⟩

/-- No address holds a backslash. -/
theorem Address.backslash_notMem_text (address : Address) :
  '\\' ∉ address.text
  := by
  have hquote : '\\' ∉ [address.quote] :=
    of_isQuote (p := fun c => '\\' ∉ [c]) address.isQuote (by decide)
  have hbody : '\\' ∉ address.body := by
    intro hmem
    have hplain := List.all_eq_true.mp address.plain _ hmem
    exact absurd hplain (by decide)
  simp only [Quoted.text, List.mem_cons, List.mem_append, not_or] at hquote ⊢
  exact ⟨hquote.1, hbody, hquote⟩

/-- A piece begins with the word for an import. -/
theorem Piece.exists_text (piece : Piece) :
  ∃ inner, piece.text = importWord ++ inner
  := by
  cases piece with
  | static s =>
    obtain ⟨inner, hfront, -⟩ := s.exists_front
    exact ⟨inner ++ s.address.text, by rw [text, hfront, List.append_assoc]⟩
  | dynamic address => exact ⟨_, rfl⟩

/-- No piece holds a backslash. -/
theorem Piece.backslash_notMem_text (piece : Piece) :
  '\\' ∉ piece.text
  := by
  cases piece with
  | static s =>
    rw [text, List.mem_append, not_or]
    refine ⟨?_, s.address.backslash_notMem_text⟩
    intro hmem
    have hclause := s.isClauseCharacter_of_mem hmem
    exact absurd hclause (by decide)
  | dynamic address =>
    have haddress := address.backslash_notMem_text
    simp [text, importWord, haddress]

theorem head?_textOf (rest : List (Piece × Noise)) :
  ∀ c ∈ (textOf rest).head?, c = 'i'
  := by
  intro c hc
  cases rest with
  | nil => cases hc
  | cons next rest =>
    obtain ⟨inner, htext⟩ := next.1.exists_text
    rw [textOf, htext] at hc
    exact (Option.some.inj hc).symm

/-- No backtick in what stands behind a piece is behind a backslash. -/
theorem unescaped_textOf (noise : Noise) (rest : List (Piece × Noise)) :
  Unescaped (noise.text ++ textOf rest)
  := by
  have hnoise : ∀ (noise : Noise) (rest : List (Piece × Noise)), Unescaped (textOf rest) →
      Unescaped (noise.text ++ textOf rest) := by
    intro noise rest hrest
    have hbacktick : '\x60' ∉ noise.text := by
      intro hmem
      exact absurd (noise.bare _ hmem).2 (by decide)
    refine List.isChain_append.mpr ⟨unescaped_of_notMem (.inr hbacktick), hrest, ?_⟩
    intro c _ d hd _
    rw [head?_textOf rest d hd]
    decide
  apply hnoise
  induction rest with
  | nil => exact .nil
  | cons next rest ih =>
    obtain ⟨piece, noise⟩ := next
    apply Unescaped.append piece.backslash_notMem_text
    apply hnoise noise rest ih

/-! ### Comments -/

theorem isBare_of_isClauseCharacter {c : Char} (h : isClauseCharacter c = true) :
  IsBare c
  := by
  constructor
  · rintro rfl
    exact absurd h (by decide)
  · rw [← Bool.not_eq_true]
    intro hdelimiter
    simp only [Comment.isDelimiter, Bool.or_eq_true, beq_iff_eq] at hdelimiter
    rcases hdelimiter with (rfl | rfl) | rfl
    · exact absurd h (by decide)
    · exact absurd h (by decide)
    · exact absurd h (by decide)

/-- A declaration that ends in an address has no comments. -/
theorem Address.removeFrom_append (address : Address) {front : Text}
    (hf : ∀ c ∈ front, isClauseCharacter c = true) (rest : Text) :
  Comment.removeFrom .code (front ++ address.text ++ rest)
    = front ++ address.text ++ Comment.removeFrom .code rest
  := by
  have hbare : ∀ c ∈ front, IsBare c := fun c hc => isBare_of_isClauseCharacter (hf c hc)
  rw [List.append_assoc, Written.removeFrom_append hbare, Quoted.removeFrom_append, List.append_assoc]

/-- A piece has no comments. -/
theorem Piece.removeFrom_append (piece : Piece) (rest : Text) :
  Comment.removeFrom .code (piece.text ++ rest) = piece.text ++ Comment.removeFrom .code rest
  := by
  cases piece with
  | static s => apply s.address.removeFrom_append fun _ => s.isClauseCharacter_of_mem
  | dynamic address =>
    have htext : (dynamic address).text ++ rest
        = (importWord ++ ['(']) ++ (address.text ++ ([')'] ++ rest)) := by
      simp [text]
    rw [htext, Written.removeFrom_append (List.all_iff_forall_prop.mp (by decide)),
      Quoted.removeFrom_append, Written.removeFrom_append (List.all_iff_forall_prop.mp (by decide))]
    simp [text]

/-! ### What begins inside of a piece -/

section

variable {α : Type} {behind? : Text → Option Text} {write : α → Text} {next : Text} {boundary : Bool}
  {behind : Text}

/-- No statement begins in noise. -/
theorem Noise.quiet (noise : Noise) (h : ∀ c ∈ behind.head?, c = 'i') :
  Quiet behind? boundary noise.text behind
  := by
  intro front tail rest _ htext hne _ htail
  have hsilent : ¬ importWord <:+: tail := by
    intro hinfix
    apply noise.silent
    rw [htext]
    apply hinfix.trans (List.suffix_append front tail).isInfix
  obtain ⟨middle, hword, rfl⟩ | ⟨middle, rfl, -⟩ := List.append_eq_append_iff.mp htail
  · cases middle with
    | nil =>
      rw [List.append_nil] at hword
      exact absurd (hword ▸ List.infix_refl tail) hsilent
    | cons c middle =>
      -- what begins in the noise goes on with the first letter of a piece
      obtain rfl : c = 'i' := h c rfl
      cases tail with
      | nil => exact absurd rfl hne
      | cons d tail =>
        have hmem : 'i' ∈ ['m', 'p', 'o', 'r', 't'] := by
          rw [(List.cons.inj hword).2]
          simp
        exact absurd hmem (by decide)
  · exact absurd (List.prefix_append importWord middle).isInfix hsilent

/-- What is found in an address is what is read behind a word `import` in it. -/
theorem Address.admits (address : Address)
    (h : ∀ before inner left : Text, address.body = before ++ (importWord ++ inner) →
      endsOutsideWord before → behind? (inner ++ address.quote :: behind) = some left →
      next <:+ left ∧ ∃ a inner', write a = importWord ++ inner'
        ∧ inner ++ address.quote :: behind = inner' ++ left) :
  Admits behind? write next boundary address.text behind
  := by
  have hletter : 'i' ∉ [address.quote] :=
    of_isQuote (p := fun c => 'i' ∉ [c]) address.isQuote (by decide)
  have hword : (!isWordCharacter address.quote) = true :=
    of_isQuote (p := fun c => (!isWordCharacter c) = true) address.isQuote (by decide)
  have hbody : Admits behind? write next true address.body (address.quote :: behind) := by
    intro front tail rest left htext _ hfront htail hread
    obtain ⟨middle, rfl, rfl⟩ := exists_of_append_quote isQuote_of_mem_importWord address.isQuote
      htail.symm
    apply h front middle left htext _ hread
    rwa [← outsideWord_eq_true_iff]
  have htext : address.text = [address.quote] ++ (address.body ++ [address.quote]) := rfl
  rw [htext]
  apply (quiet_of_notMem hletter).admits.append
  apply Admits.append _ (quiet_of_notMem hletter).admits
  rw [outsideWord, outsideWord, hword]
  exact hbody

end

/-- A dynamic import goes on with its bracket. -/
theorem behindDynamic?_eq_none {c : Char} (h : c ≠ '(') (rest : Text) :
  behindDynamic? (c :: rest) = none
  := by
  unfold behindDynamic?
  split
  · rename_i heq
    exact absurd (List.cons.inj heq).1 h
  · rfl

/-- No quotation mark goes on in the line behind a static import. -/
theorem Static.behindQuote?_eq_none {s : Static} {before behind : Text}
    (h : Piece.FitsBetween before behind (.static s)) :
  behindQuote? behind = none
  := by
  obtain ⟨-, ⟨rest, rfl⟩ | ⟨rest, rfl⟩⟩ := h
  · rfl
  · rfl

section

variable {address : Address} {boundary : Bool} {front behind next : Text}

theorem Address.ne_of_quote (address : Address) :
  address.quote ≠ '('
  := of_isQuote (p := fun c => c ≠ '(') address.isQuote (by decide)

/-- No dynamic import begins before an address. -/
theorem quiet_front (hf : ∀ c ∈ front, isClauseCharacter c = true) :
  Quiet behindDynamic? boundary front (address.text ++ behind)
  := by
  intro start tail rest left htext _ _ htail hread
  rw [address.text_append] at htail
  obtain ⟨middle, rfl, rfl⟩ := exists_of_append_quote isQuote_of_mem_importWord address.isQuote htail.symm
  have hnone : behindDynamic? (middle ++ address.quote :: (address.body ++ address.quote :: behind))
      = none := by
    cases middle with
    | nil => apply behindDynamic?_eq_none address.ne_of_quote
    | cons c middle =>
      apply behindDynamic?_eq_none
      rintro rfl
      have hclause := hf '(' (by simp [htext])
      exact absurd hclause (by decide)
  rw [hnone] at hread
  cases hread

/-- A dynamic import that begins in an address at the end of a line is one of a template. -/
theorem Address.exists_beginsTemplate (hb : behindQuote? behind = none) {start inner left : Text}
    (hbody : address.body = start ++ (importWord ++ inner))
    (hread : behindDynamic? (inner ++ address.quote :: behind) = some left) :
  ∃ inner', inner = '(' :: inner' ∧ BeginsTemplate (inner' ++ address.quote :: behind) left
  := by
  obtain ⟨opening, contents, closing, htext, hne, hliteral⟩ := exists_of_behindDynamic? hread
  cases inner with
  | nil => exact absurd (List.cons.inj htext).1 address.ne_of_quote
  | cons c inner =>
    obtain rfl : c = '(' := (List.cons.inj htext).1
    have hinner : inner ++ address.quote :: behind
        = opening :: (contents ++ closing :: ')' :: left) := (List.cons.inj htext).2
    refine ⟨inner, rfl, ?_⟩
    obtain ⟨hopening, hclosing, hcontents⟩ | ⟨rfl, rfl, hdollar, hbacktick⟩ := hliteral
    · cases inner with
      | nil =>
        -- a literal would have to end in the line behind the address
        have hbehind : behindQuote? behind = some (')' :: left) := by
          rw [(List.cons.inj hinner).2]
          apply behindQuote?_append hcontents hclosing
        rw [hb] at hbehind
        cases hbehind
      | cons d inner =>
        obtain rfl : d = opening := (List.cons.inj hinner).1
        have hplain := address.isQuote_of_mem (c := d) (by simp [hbody])
        rw [hopening] at hplain
        cases hplain
    · exact ⟨contents, hinner, hne, hdollar, hbacktick⟩

/-- In a declaration with an address at the end of a line, the search for dynamic imports finds nothing but
dynamic imports of a template. -/
theorem Address.admits_template (hf : ∀ c ∈ front, isClauseCharacter c = true)
    (hb : behindQuote? behind = none) (he : address.TemplatesEndBefore behind next)
    (hu : Unescaped behind) :
  Admits behindDynamic? Template.text next boundary (front ++ address.text) behind
  := by
  apply (quiet_front hf).admits.append
  apply address.admits
  intro start inner left hbody hstart hread
  obtain ⟨inner, rfl, htemplate⟩ := exists_beginsTemplate hb hbody hread
  have hunescaped : Unescaped (inner ++ address.quote :: behind) := by
    have hbackslash := address.backslash_notMem_text
    simp only [Quoted.text, hbody, List.mem_cons, List.mem_append, not_or] at hbackslash
    rw [← List.singleton_append, ← List.append_assoc]
    apply Unescaped.append _ hu
    simp [hbackslash]
  obtain ⟨template, htext⟩ := exists_template htemplate hunescaped
  refine ⟨he start inner left hbody hstart htemplate, template, _, rfl, ?_⟩
  rw [Template.text, List.append_assoc] at htext
  exact List.append_cancel_left htext

end

/-- A static import is found in a dynamic one only if the address opens it. -/
theorem Address.quiet_dynamic (address : Address) {boundary : Bool} {behind next : Text}
    (he : Piece.EndsBefore behind next (.dynamic address)) :
  Quiet behindStatement? boundary (Piece.dynamic address).text behind
  := by
  have hreads : ∀ {c : Char} {rest b : Text}, c = '(' ∨ c = ')' → ¬ ReadsClause (c :: rest) b := by
    rintro c rest b (rfl | rfl)
    · apply not_readsClause_cons rfl (by decide) (by decide)
    · apply not_readsClause_cons rfl (by decide) (by decide)
  have hbracket : ∀ rest, behindStatement? ('(' :: rest) = none := by
    intro rest
    rw [behindStatement?_of_not_readsClause fun _ => hreads (.inl rfl)]
    rfl
  have htext : (Piece.dynamic address).text = importWord ++ (['('] ++ (address.text ++ [')'])) := rfl
  rw [htext]
  apply (quiet_importWord (hbracket _)).admits.append
  apply (quiet_of_notMem (by decide)).admits.append
  apply Admits.append _ (quiet_of_notMem (by decide))
  apply address.admits
  intro before inner left hbody hbefore hread
  rw [behindStatement?_eq_none address.isQuote] at hread
  · cases hread
  · intro c hc
    have hmem : c ∈ address.body := by simp [hbody, hc]
    exact ⟨address.isQuote_of_mem hmem, address.isBlank_of_mem hmem⟩
  · intro _ b
    apply hreads (.inr rfl)
  · intro hinner
    rw [List.singleton_append, behindQuote?, if_neg (by decide), if_neg (by decide)]
    apply behindQuote?_eq_none
    apply he ⟨before, inner, hbody, hbefore, hinner⟩

/-! ### What a search finds -/

/-- What a search makes of a piece: it finds the piece, or nothing but dynamic imports of a template that
end before `next`. -/
inductive Meets (behind? : Text → Option Text) (boundary : Bool) (behind next : Text) (piece : Piece) :
  (found : Bool) → Prop
  where
  | finds {inner : Text} (hb : boundary = true) (ht : piece.text = importWord ++ inner)
      (h : behind? (inner ++ behind) = some behind) :
    Meets behind? boundary behind next piece true
  | passes (h : Admits behind? Template.text next boundary piece.text behind) :
    Meets behind? boundary behind next piece false

namespace Piece

variable {piece : Piece} {before behind next : Text}

/-- A piece fits in front of more. -/
theorem FitsBetween.append (h : piece.FitsBetween before behind) (more : Text) :
  piece.FitsBetween before (behind ++ more)
  := by
  cases piece with
  | static s =>
    obtain ⟨hbefore, hbehind | hbehind⟩ := h
    · exact ⟨hbefore, .inl (hbehind.trans (List.prefix_append behind more))⟩
    · exact ⟨hbefore, .inr (hbehind.trans (List.prefix_append behind more))⟩
  | dynamic address => exact h

/-- A search for statements meets the static imports. -/
theorem meets_static (hf : piece.FitsBetween before behind) (he : piece.EndsBefore behind next)
    (next' : Text) :
  Meets behindStatement? (outsideWord true before) behind next' piece piece.isStatic
  := by
  cases piece with
  | static s =>
    obtain ⟨inner, hfront, -⟩ := s.exists_front
    have htext : (static s).text = importWord ++ (inner ++ s.address.text) := by
      rw [text, hfront, List.append_assoc]
    apply Meets.finds _ htext
    · rw [List.append_assoc]
      apply s.behindStatement?_eq hfront (Static.behindQuote?_eq_none hf)
    · rw [outsideWord_eq_true_iff]
      intro c hc
      rw [hf.1 c hc]
      decide
  | dynamic address => exact .passes (address.quiet_dynamic he).admits

/-- A search for dynamic imports meets these alone. -/
theorem meets_dynamic (hf : piece.FitsBetween before behind) (he : piece.EndsBefore behind next)
    (hu : Unescaped behind) :
  Meets behindDynamic? (outsideWord true before) behind next piece piece.isDynamic
  := by
  cases piece with
  | static s =>
    have hfront : ∀ c ∈ s.front, isClauseCharacter c = true := fun _ => s.isClauseCharacter_of_mem
    exact .passes (Address.admits_template hfront (Static.behindQuote?_eq_none hf) he hu)
  | dynamic address =>
    apply Meets.finds (outsideWord_eq_true_iff.mpr hf) rfl
    rw [List.cons_append, List.append_assoc]
    apply address.behindDynamic?_eq

end Piece

end ImportCensus.Salvage
