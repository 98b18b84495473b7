import ImportCensus.Scan.State

/-!
# Scanning

`scan` finds the imports of a module source without parsing it.  It follows strings, template
literals, comments, regular expressions and brackets, so far as to tell an import from what only
looks like one.  `parts` is the same source with the part that each of its characters plays.
-/

namespace ImportCensus

namespace Scan

namespace State

theorem length_template {s s' : State} {opened : Nat} {before : Trail} {rest : Text}
    (h : s.template opened before rest = .ok s') :
  s'.cursor.rest.length < rest.length
  := by
  unfold template at h
  split at h
  · cases h
  · rename_i chunk behind hc
    cases h
    simp [goto, templateChunk?_eq hc, ChunkEnd.text]
    omega
  · rename_i chunk behind hc
    cases h
    simp [enter, templateChunk?_eq hc, ChunkEnd.text]
    omega

theorem length_slash {s s' : State} {before : Trail} {rest : Text}
    (h : s.slash before rest = .ok s') :
  s'.cursor.rest.length ≤ rest.length
  := by
  unfold slash at h
  split at h
  · cases h
  · rename_i cursor hc
    cases h
    exact Nat.le_of_lt_succ (length_readComment? hc)
  · split at h
    · cases h
      simp [goto]
    · split at h
      · cases h
      · rename_i body behind hb
        cases h
        have := length_behindWord_le behind
        simp [goto, patternBody?_eq hb]
        omega

theorem length_close {s s' : State} {b : Bracket} {before : Trail} {rest : Text}
    (h : s.close b before rest = .ok s') :
  s'.cursor.rest.length ≤ rest.length
  := by
  unfold close at h
  split at h
  · cases h
  · simp only at h
    split at h
    · cases h
      simp
    · split at h
      · exact Nat.le_of_lt (length_template h)
      · cases h

theorem length_importStatement {s s' : State} {statementStart : Nat} {before : Trail} {rest : Text}
    (h : s.importStatement statementStart before rest = .ok s') :
  s'.cursor.rest.length ≤ rest.length
  := by
  unfold importStatement at h
  split at h
  · cases h
  · rename_i before' rest' ht
    have hl := length_skipTrivia ht
    split at h
    · cases h
      simp [enter] at *
      omega
    · cases h
      simpa [goto] using hl
    · split at h
      · split at h
        · cases h
        · rename_i q behind _ _
          split at h
          · cases hd : readSpecifier statementStart before' q behind with
            | error => simp [hd, Except.map] at h
            | ok d =>
              have := length_readSpecifier hd
              simp only [hd, Except.map, Except.ok.injEq] at h
              subst h
              simp [declare] at *
              omega
          · cases hd : importClause statementStart before' (q :: behind) with
            | error => simp [hd, Except.map] at h
            | ok d =>
              have := length_importClause hd
              simp only [hd, Except.map, Except.ok.injEq] at h
              subst h
              simp [declare] at *
              omega
      · cases h
        simpa [goto] using hl

theorem length_word {s s' : State} {before : Trail} {c : Char} {rest : Text}
    (h : s.word before c rest = .ok s') :
  s'.cursor.rest.length ≤ rest.length
  := by
  have hw := length_behindWord_le rest
  unfold word at h
  simp only at h
  split at h
  · exact Nat.le_trans (length_importStatement h) hw
  · split at h
    · cases hd : exportClause before.length (before.add .code (wordOf c rest))
          (behindWord rest) with
      | error => simp [hd, Except.map] at h
      | ok d =>
        have := length_exportClause hd
        simp only [hd, Except.map, Except.ok.injEq] at h
        subst h
        simp [declare]
        omega
    · cases h
      simpa [goto] using hw

/-- A step leaves less of the source. -/
theorem length_step {s s' : State} {c : Char} {rest : Text} (h : s.step c rest = .ok s') :
  s'.cursor.rest.length ≤ rest.length
  := by
  unfold step at h
  simp only at h
  split at h
  · cases h
    simp
  · split at h
    · exact length_slash h
    · split at h
      · cases hs : readString s.cursor.before c rest with
        | error => simp [hs, Except.map] at h
        | ok cursor =>
          have := length_readString hs
          simp only [hs, Except.map, Except.ok.injEq] at h
          subst h
          simp
          omega
      · split at h
        · exact Nat.le_of_lt (length_template h)
        · split at h
          · cases h
            simp [enter]
          · split at h
            · exact length_close h
            · split at h
              · exact length_word h
              · split at h
                · cases h
                  exact (List.dropWhile_suffix _).length_le
                · cases h
                  simp [goto]

/-- The state at the end of the source. -/
def run (s : State) : Except ScanError State :=
  match _h : s.cursor.rest with
  | [] =>
    match s.frames with
    | [] => .ok s
    | frame :: _ => .error (.unclosed frame.opener frame.position)
  | c :: rest =>
    match _hs : s.step c rest with
    | .error e => .error e
    | .ok next => next.run
termination_by s.cursor.rest.length
decreasing_by
  have := length_step _hs
  simp [_h]
  omega

/-- The state in front of the first token of a source.  A first line that begins with `#!` is
passed like a comment. -/
def start (source : Text) : State :=
  match source with
  | '#' :: '!' :: _ =>
    { initial source with
      cursor := ⟨Trail.empty.add .comment (lineComment source), behindLine source⟩ }
  | _ => initial source

end State

/-- The state behind a whole source. -/
def finish (source : Text) : Except ScanError State :=
  (State.start source).run

/-- The characters of a source, in order, each with the part it plays. -/
def parts (source : Text) : Except ScanError (List (Char × Part)) :=
  (finish source).map fun s => s.cursor.before.characters.reverse

end Scan

/-- The imports of a source, in the order in which their statements begin. -/
def scan (source : Text) : Except ScanError (List Scan.Occurrence) :=
  (Scan.finish source).map Scan.State.found

/-- The text of an occurrence's specifier. -/
def Scan.Occurrence.text (source : Text) (o : Scan.Occurrence) : Text :=
  source.slice o.start o.stop

end ImportCensus
