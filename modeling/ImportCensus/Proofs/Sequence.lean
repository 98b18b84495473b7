import Mathlib.Data.List.Induction
import Mathlib.Data.List.Nodup

/-!
# Sequences

Lists without repetitions, and lists of attempts, the first failure of which is the failure of all.
-/

namespace ImportCensus

/-! ### Lists without repetitions -/

section

variable {α : Type} [BEq α] [LawfulBEq α]

/-- One more item is kept where it is new. -/
theorem eraseDups_concat (list : List α) (a : α) [Decidable (a ∈ list)] :
  (list ++ [a]).eraseDups = if a ∈ list then list.eraseDups else list.eraseDups ++ [a]
  := by
  rw [List.eraseDups_append]
  by_cases h : a ∈ list
  · simp [List.removeAll, h]
  · simp [List.removeAll, h, List.eraseDups_cons]

/-- Without its duplicates a list has no element twice. -/
theorem nodup_eraseDups (list : List α) :
  list.eraseDups.Nodup
  := by
  classical
  induction list using List.reverseRecOn with
  | nil => exact List.nodup_nil
  | append_singleton list a ih =>
    rw [eraseDups_concat]
    split
    · exact ih
    · rename_i h
      rw [← List.mem_eraseDups] at h
      rw [← List.concat_eq_append]
      apply ih.concat h

/-- Repetitions may be left out before the items that `p` does not hold of, or after them. -/
theorem eraseDups_filter (p : α → Bool) (list : List α) :
  (list.filter p).eraseDups = list.eraseDups.filter p
  := by
  classical
  induction list using List.reverseRecOn with
  | nil => rfl
  | append_singleton list a ih =>
    rw [List.filter_append, List.filter_singleton, eraseDups_concat list]
    cases hp : p a with
    | false =>
      rw [Bool.cond_false, List.append_nil, ih]
      split
      · rfl
      · rw [List.filter_append, List.filter_singleton, hp, Bool.cond_false, List.append_nil]
    | true =>
      rw [Bool.cond_true, eraseDups_concat]
      by_cases h : a ∈ list
      · rw [if_pos h, if_pos (List.mem_filter.mpr ⟨h, hp⟩), ih]
      · rw [if_neg h, if_neg (fun hmem => h (List.mem_filter.mp hmem).1), ih, List.filter_append,
          List.filter_singleton, hp, Bool.cond_true]

/-- The items of two lists, each once: those of the first, and behind them those of the second that are
new. -/
theorem eraseDups_append_eq_filter (first second : List α) :
  (first ++ second).eraseDups
    = first.eraseDups ++ second.eraseDups.filter fun a => a ∉ first.eraseDups
  := by
  have hnew : second.removeAll first = second.filter fun a => a ∉ first.eraseDups := by
    apply List.filter_congr
    intro a _
    simp
  rw [List.eraseDups_append, hnew, eraseDups_filter]

end

/-! ### Attempts -/

section

variable {ε α β : Type}

/-- An answer to what goes on from an attempt comes from an answer to the attempt. -/
theorem exists_of_bind_eq_ok {x : Except ε α} {f : α → Except ε β} {b : β} (h : x >>= f = .ok b) :
  ∃ a, x = .ok a ∧ f a = .ok b
  := by
  cases x with
  | error e => cases h
  | ok a => exact ⟨a, rfl, h⟩

/-- An answer that has been carried through `f` comes from an answer. -/
theorem exists_of_map_eq_ok {f : α → β} {x : Except ε α} {b : β} (h : x.map f = .ok b) :
  ∃ a, x = .ok a ∧ b = f a
  := by
  cases x with
  | error e => cases h
  | ok a =>
    cases h
    exact ⟨a, rfl, rfl⟩

/-- A failure that has been carried past `f` is one of the attempt. -/
theorem eq_error_of_map_eq_error {f : α → β} {x : Except ε α} {e : ε} (h : x.map f = .error e) :
  x = .error e
  := by
  cases x with
  | error e' =>
    cases h
    rfl
  | ok a => cases h

variable {list : List α}

/-- Attempts that come to the same for all items of a list come to the same for the list. -/
theorem mapM_congr {f g : α → Except ε β} (h : ∀ a ∈ list, f a = g a) :
  list.mapM f = list.mapM g
  := by
  induction list with
  | nil => rfl
  | cons a list ih =>
    rw [List.forall_mem_cons] at h
    rw [List.mapM_cons, List.mapM_cons, h.1, ih h.2]

/-- An answer for a list is made of answers for its items. -/
theorem exists_of_mem_mapM {f : α → Except ε β} {answers : List β} (h : list.mapM f = .ok answers)
    {b : β} (hb : b ∈ answers) :
  ∃ a ∈ list, f a = .ok b
  := by
  induction list generalizing answers with
  | nil =>
    cases h
    cases hb
  | cons a list ih =>
    rw [List.mapM_cons] at h
    obtain ⟨first, hfirst, h⟩ := exists_of_bind_eq_ok h
    obtain ⟨rest, hrest, h⟩ := exists_of_bind_eq_ok h
    cases h
    obtain rfl | hmem := List.mem_cons.mp hb
    · exact ⟨a, List.mem_cons_self, hfirst⟩
    · obtain ⟨a', ha', hf⟩ := ih hrest hmem
      exact ⟨a', List.mem_cons_of_mem a ha', hf⟩

end

end ImportCensus
