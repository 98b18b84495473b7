import Mathlib.Data.List.Nodup
import ImportCensus.Proofs.Salvage.Finding

/-!
# Merging what is found

A source is made of pieces and of stretches of other text.  Each of the two searches finds the pieces of its
kind at their places, and maybe dynamic imports of a template.  Merged by their places, the finds are the
pieces in order, with such templates among them.
-/

namespace ImportCensus.Salvage

open Text Scan Written

/-! ### Stretches -/

/-- A stretch of a source: a piece, or other text. -/
inductive Stretch where
  | piece (piece : Piece)
  | other (text : Text)

namespace Stretch

/-- The characters of a stretch. -/
def text : Stretch → Text
  | piece p => p.text
  | other t => t

/-- The piece that a stretch is. -/
def piece? : Stretch → Option Piece
  | piece p => some p
  | other _ => none

/-- The characters of stretches. -/
def textOf (stretches : List Stretch) : Text :=
  stretches.flatMap text

theorem textOf_cons (stretch : Stretch) (stretches : List Stretch) :
  textOf (stretch :: stretches) = stretch.text ++ textOf stretches
  := List.flatMap_cons

/-- The characters from the next piece of a kind on. -/
def fromNext (isNext : Piece → Bool) : List Stretch → Text
  | [] => []
  | piece p :: stretches =>
    if isNext p then textOf (piece p :: stretches) else fromNext isNext stretches
  | other _ :: stretches => fromNext isNext stretches

/-- The pieces among stretches with the offsets at which they begin. -/
def places (offset : Nat) : List Stretch → List (Nat × Piece)
  | [] => []
  | piece p :: stretches => (offset, p) :: places (offset + p.text.length) stretches
  | other t :: stretches => places (offset + t.length) stretches

/-- No place is in front of the first offset. -/
theorem le_of_mem_places {offset : Nat} {stretches : List Stretch} :
  ∀ place ∈ places offset stretches, offset ≤ place.1
  := by
  induction stretches generalizing offset with
  | nil => simp [places]
  | cons stretch stretches ih =>
    cases stretch with
    | piece p =>
      rw [places, List.forall_mem_cons]
      refine ⟨Nat.le_refl offset, ?_⟩
      intro place hplace
      exact Nat.le_trans (Nat.le_add_right _ _) (ih place hplace)
    | other t =>
      intro place hplace
      exact Nat.le_trans (Nat.le_add_right _ _) (ih place hplace)

/-- The places of pieces are in order. -/
theorem pairwise_places (offset : Nat) (stretches : List Stretch) :
  (places offset stretches).Pairwise fun a b => a.1 < b.1
  := by
  induction stretches generalizing offset with
  | nil => exact .nil
  | cons stretch stretches ih =>
    cases stretch with
    | piece p =>
      apply List.Pairwise.cons _ (ih _)
      intro place hplace
      have hle := le_of_mem_places place hplace
      have hpos : 0 < p.text.length := by
        obtain ⟨inner, htext⟩ := p.exists_text
        simp [htext, importWord]
      simp only
      omega
    | other t => apply ih

/-- The places are those of the pieces. -/
theorem map_snd_places (offset : Nat) (stretches : List Stretch) :
  (places offset stretches).map Prod.snd = stretches.filterMap piece?
  := by
  induction stretches generalizing offset with
  | nil => rfl
  | cons stretch stretches ih =>
    cases stretch with
    | piece p =>
      have hsome : (piece p).piece? = some p := rfl
      rw [places, List.map_cons, ih, List.filterMap_cons_some hsome]
    | other t =>
      have hnone : (other t).piece? = none := rfl
      rw [places, ih, List.filterMap_cons_none hnone]

end Stretch

/-! ### What a search finds -/

/-- Whether a search finds the pieces of a kind in stretches, and nothing but dynamic imports of a template
in other stretches, given whether a word may begin before them. -/
inductive Searched (behind? : Text → Option Text) (isSought : Piece → Bool) : Bool → List Stretch → Prop where
  | nil {boundary : Bool} :
    Searched behind? isSought boundary []
  | piece {boundary : Bool} {piece : Piece} {rest : List Stretch}
      (hm : Meets behind? boundary (Stretch.textOf rest) (Stretch.fromNext isSought rest) piece
        (isSought piece))
      (h : Searched behind? isSought (outsideWord boundary piece.text) rest) :
    Searched behind? isSought boundary (.piece piece :: rest)
  | other {boundary : Bool} {text : Text} {rest : List Stretch}
      (ha : Admits behind? Template.text (Stretch.fromNext isSought rest) boundary text
        (Stretch.textOf rest))
      (h : Searched behind? isSought (outsideWord boundary text) rest) :
    Searched behind? isSought boundary (.other text :: rest)

/-- The piece at a place, if there is one. -/
def pieceAt? (place : Nat × Statement) : Option (Nat × Piece) :=
  place.2.piece?.map fun piece => (place.1, piece)

/-- Whether statements are what a search finds from an offset on: in order, and the pieces among them are
the given ones. -/
structure Finds (found : List (Nat × Text)) (offset : Nat) (pieces : List (Nat × Piece))
    (statements : List (Nat × Statement)) : Prop where
  eq : found = statements.map fun place => (place.1, place.2.text)
  sorted : statements.Pairwise fun a b => a.1 < b.1
  le : ∀ place ∈ statements, offset ≤ place.1
  pieces : statements.filterMap pieceAt? = pieces

namespace Finds

variable {found : List (Nat × Text)} {offset offset' : Nat} {pieces : List (Nat × Piece)}
  {statements : List (Nat × Statement)}

theorem nil : Finds [] offset [] []
  where
  eq := rfl
  sorted := .nil
  le := by simp
  pieces := rfl

theorem cons (h : Finds found offset' pieces statements) (hlt : offset < offset') (piece : Piece) :
  Finds ((offset, piece.text) :: found) offset ((offset, piece) :: pieces)
    ((offset, .piece piece) :: statements)
  where
  eq := congrArg (List.cons (offset, piece.text)) h.eq
  sorted := by
    apply List.Pairwise.cons _ h.sorted
    intro place hplace
    exact Nat.lt_of_lt_of_le hlt (h.le place hplace)
  le := by
    rw [List.forall_mem_cons]
    refine ⟨Nat.le_refl offset, ?_⟩
    intro place hplace
    exact Nat.le_trans (Nat.le_of_lt hlt) (h.le place hplace)
  pieces := congrArg (List.cons (offset, piece)) h.pieces

/-- A search that goes on behind a text finds no pieces in it where it admits only templates there. -/
theorem exists_of_admits {behind? : Text → Option Text} {next : Text} {boundary : Bool}
    {text behind : Text} (ha : Admits behind? Template.text next boundary text behind)
    (hb : behind <:+ next)
    (h : Finds (find behind? (offset + text.length) 0 (outsideWord boundary text) behind)
      (offset + text.length) pieces statements) :
  ∃ statements', Finds (find behind? offset 0 boundary (text ++ behind)) offset pieces statements'
  := by
  obtain ⟨templates, hfind, hsorted, hbounds⟩ := ha.exists_find hb offset
  refine ⟨templates.map (fun place => (place.1, .template place.2)) ++ statements, ?_, ?_, ?_, ?_⟩
  · rw [hfind, h.eq, List.map_append, List.map_map]
    rfl
  · refine List.pairwise_append.mpr ⟨List.pairwise_map.mpr hsorted, h.sorted, ?_⟩
    intro place hplace next hnext
    obtain ⟨template, htemplate, rfl⟩ := List.mem_map.mp hplace
    have hlt := (hbounds template htemplate).2
    exact Nat.lt_of_lt_of_le hlt (h.le next hnext)
  · rw [List.forall_mem_append, List.forall_mem_map]
    refine ⟨fun place hplace => (hbounds place hplace).1, ?_⟩
    intro place hplace
    exact Nat.le_trans (Nat.le_add_right _ _) (h.le place hplace)
  · have hnone : (templates.map fun place => (place.1, Statement.template place.2)).filterMap pieceAt?
        = [] := by
      rw [List.filterMap_eq_nil_iff, List.forall_mem_map]
      intro place _
      rfl
    rw [List.filterMap_append, hnone, List.nil_append, h.pieces]

/-- A search finds a piece behind a text in which it admits only templates, and goes on behind the piece. -/
theorem exists_of_piece {behind? : Text → Option Text} {boundary : Bool} {pending behind inner : Text}
    {piece : Piece}
    (ha : Admits behind? Template.text (piece.text ++ behind) boundary pending (piece.text ++ behind))
    (hb : outsideWord boundary pending = true) (ht : piece.text = importWord ++ inner)
    (hread : behind? (inner ++ behind) = some behind)
    (h : Finds (find behind? (offset + pending.length + piece.text.length) 0
        (outsideWord true piece.text) behind)
      (offset + pending.length + piece.text.length) pieces statements) :
  ∃ statements', Finds (find behind? offset 0 boundary (pending ++ (piece.text ++ behind))) offset
    ((offset + pending.length, piece) :: pieces) statements'
  := by
  have hpos : 0 < piece.text.length := by simp [ht, importWord]
  have hfind : Finds (find behind? (offset + pending.length) 0 (outsideWord boundary pending)
      (piece.text ++ behind)) (offset + pending.length) ((offset + pending.length, piece) :: pieces)
      ((offset + pending.length, .piece piece) :: statements) := by
    rw [hb, ht, find_statement hread, ← ht]
    apply h.cons
    omega
  apply exists_of_admits ha List.suffix_rfl hfind

/-- A search finds the pieces that it seeks, behind a text in which there are none of them. -/
theorem exists_of_searched {behind? : Text → Option Text} {isSought : Piece → Bool}
    {stretches : List Stretch} {boundary boundary' : Bool}
    (hs : Searched behind? isSought boundary stretches) {pending : Text}
    (ha : Admits behind? Template.text (Stretch.fromNext isSought stretches) boundary' pending
      (Stretch.textOf stretches))
    (hb : outsideWord boundary' pending = boundary) (offset : Nat) :
  ∃ statements, Finds (find behind? offset 0 boundary' (pending ++ Stretch.textOf stretches)) offset
    ((Stretch.places (offset + pending.length) stretches).filter fun place => isSought place.2) statements
  := by
  -- the text grows by the stretches that are passed, until a piece that is sought
  induction hs generalizing pending boundary' offset with
  | nil => exact exists_of_admits ha List.suffix_rfl .nil
  | @piece boundary piece rest hm h ih =>
    rw [Stretch.fromNext] at ha
    rw [Stretch.textOf_cons, Stretch.places, Stretch.text]
    rw [Stretch.textOf_cons, Stretch.text] at ha
    generalize hsought : isSought piece = sought at hm ha
    cases hm with
    | finds hboundary ht hread =>
      obtain ⟨statements, hstatements⟩ := @ih (outsideWord true piece.text) []
        (quiet_of_notMem (by simp)).admits (by rw [hboundary]; rfl)
        (offset + pending.length + piece.text.length)
      rw [List.filter_cons_of_pos (by simpa using hsought)]
      apply exists_of_piece ha (hb.trans hboundary) ht hread
      simpa using hstatements
    | passes hpasses =>
      have hpending : Admits behind? Template.text (Stretch.fromNext isSought rest) boundary'
          (pending ++ piece.text) (Stretch.textOf rest) := by
        apply Admits.append _ (by rwa [hb])
        simpa using ha
      obtain ⟨statements, hstatements⟩ := ih hpending (by rw [outsideWord_append, hb]) offset
      rw [List.filter_cons_of_neg (by simpa using hsought)]
      exact ⟨statements, by simpa [Nat.add_assoc] using hstatements⟩
  | @other boundary text rest hadmits h ih =>
    rw [Stretch.textOf_cons, Stretch.places, Stretch.text]
    rw [Stretch.textOf_cons, Stretch.text, Stretch.fromNext] at ha
    have hpending : Admits behind? Template.text (Stretch.fromNext isSought rest) boundary'
        (pending ++ text) (Stretch.textOf rest) := by
      apply Admits.append ha
      rwa [hb]
    obtain ⟨statements, hstatements⟩ := ih hpending (by rw [outsideWord_append, hb]) offset
    exact ⟨statements, by simpa [Nat.add_assoc] using hstatements⟩

end Finds

/-! ### Merging by places -/

/-- What two searches find, merged by places, has all the pieces in order where each piece is found by one
of the two searches. -/
theorem filterMap_merge {found found' : List (Nat × Text)} {offset offset' : Nat}
    {pieces : List (Nat × Piece)} {statements statements' : List (Nat × Statement)}
    (h : pieces.Pairwise fun a b => a.1 < b.1) {p : Nat × Piece → Bool}
    (hl : Finds found offset (pieces.filter p) statements)
    (hr : Finds found' offset' (pieces.filter fun place => !p place) statements') :
  (List.merge statements statements' fun a b => a.1 ≤ b.1).filterMap pieceAt? = pieces
  := by
  have hsorted : ((List.merge statements statements' fun a b => a.1 ≤ b.1).filterMap pieceAt?).Pairwise
      fun a b => a.1 ≤ b.1 := by
    apply (pairwise_merge hl.sorted hr.sorted).filterMap
    rintro ⟨i, s⟩ ⟨j, t⟩ hij b hb c hc
    obtain ⟨_, -, rfl⟩ := Option.map_eq_some_iff.mp hb
    obtain ⟨_, -, rfl⟩ := Option.map_eq_some_iff.mp hc
    exact hij
  have hperm : ((List.merge statements statements' fun a b => a.1 ≤ b.1).filterMap pieceAt?).Perm
      pieces := by
    apply ((List.merge_perm_append _).filterMap pieceAt?).trans
    rw [List.filterMap_append, hl.pieces, hr.pieces]
    apply List.filter_append_perm
  apply List.Perm.eq_of_pairwise _ hsorted (h.imp Nat.le_of_lt) hperm
  intro a b ha hb hab hba
  have hnodup : (pieces.map Prod.fst).Nodup := List.pairwise_map.mpr (h.imp Nat.ne_of_lt)
  exact List.inj_on_of_nodup_map hnodup (hperm.subset ha) hb (Nat.le_antisymm hab hba)

/-- The statements that are salvaged from a source without comments are its pieces, in order, and dynamic
imports of a template. -/
theorem exists_statements {stretches : List Stretch}
    (hr : Comment.remove (Stretch.textOf stretches) = Stretch.textOf stretches)
    (hs : Searched behindStatement? Piece.isStatic true stretches)
    (hd : Searched behindDynamic? Piece.isDynamic true stretches) :
  ∃ found : List Statement, statements (Stretch.textOf stretches) = found.map Statement.text
    ∧ found.filterMap Statement.piece? = stretches.filterMap Stretch.piece?
  := by
  have hempty : ∀ {behind? : Text → Option Text} {next : Text},
      Admits behind? Template.text next true [] (Stretch.textOf stretches) := by
    intro behind? next
    apply (quiet_of_notMem (by simp)).admits
  obtain ⟨static, hstatic⟩ := Finds.exists_of_searched hs hempty rfl 0
  obtain ⟨dynamic, hdynamic⟩ := Finds.exists_of_searched hd hempty rfl 0
  have hpieces := filterMap_merge (Stretch.pairwise_places _ _) hstatic hdynamic
  refine ⟨(List.merge static dynamic fun a b => a.1 ≤ b.1).map Prod.snd, ?_, ?_⟩
  · have hmap := @List.map_merge _ _ (fun place : Nat × Statement => (place.1, place.2.text))
      (fun a b => a.1 ≤ b.1) (fun a b => a.1 ≤ b.1) static dynamic (fun _ _ _ _ => rfl)
    rw [List.nil_append] at hstatic hdynamic
    rw [statements, hr, hstatic.eq, hdynamic.eq, ← hmap, List.map_map, List.map_map]
    rfl
  · rw [← Stretch.map_snd_places, ← hpieces, List.map_filterMap, List.filterMap_map]
    apply List.filterMap_congr
    rintro ⟨_, statement⟩ -
    cases statement
    · rfl
    · rfl

end ImportCensus.Salvage
