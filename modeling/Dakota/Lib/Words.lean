import Dakota.Lib.Numerals
import Mathlib

/-!
# Words

The maximal runs of a list between separators (`words`). A separator at either end changes nothing,
and between two lists it separates their words.
-/

namespace Dakota

variable {α : Type} (p : α → Bool)

/-- The nonempty parts between separators. -/
def words (l : List α) : List (List α) := (l.splitOnP p).filter fun w => !w.isEmpty

variable {p} {l l' w : List α} {c : α}

theorem words_nil : words p [] = [] := rfl

theorem words_append_cons (hc : p c) : words p (l ++ c :: l') = words p l ++ words p l' := by
  unfold words
  rw [List.splitOnP_append_cons _ _ hc, List.filter_append]

theorem words_cons (hc : p c) : words p (c :: l) = words p l := by
  have h : words p ([] ++ c :: l) = words p [] ++ words p l := words_append_cons hc
  rwa [List.nil_append, words_nil, List.nil_append] at h

theorem words_concat (hc : p c) : words p (l ++ [c]) = words p l := by
  rw [words_append_cons hc, words_nil, List.append_nil]

/-- A nonempty list without separators is one word. -/
theorem words_eq_singleton (hne : w ≠ []) (hw : ∀ x ∈ w, p x = false) : words p w = [w] := by
  unfold words
  rw [List.splitOnP_eq_singleton hw, List.filter_cons_of_pos, List.filter_nil]
  simpa using hne

theorem words_append_replicate (hc : p c) (n : Nat) :
    words p (l ++ List.replicate n c) = words p l := by
  induction n with
  | zero => rw [List.replicate_zero, List.append_nil]
  | succ n ih => rw [List.replicate_succ', ← List.append_assoc, words_concat hc, ih]

theorem words_replicate_append (hc : p c) (n : Nat) :
    words p (List.replicate n c ++ l) = words p l := by
  induction n with
  | zero => rfl
  | succ n ih => rw [List.replicate_succ, List.cons_append, words_cons hc, ih]

theorem words_dropWhile : words p (l.dropWhile p) = words p l := by
  induction l with
  | nil => rfl
  | cons c l ih =>
    by_cases hc : p c
    · rw [List.dropWhile_cons_of_pos hc, words_cons hc, ih]
    · rw [List.dropWhile_cons_of_neg hc]

theorem words_rdropWhile : words p (l.rdropWhile p) = words p l := by
  induction l using List.reverseRecOn with
  | nil => rfl
  | append_singleton l c ih =>
    by_cases hc : p c
    · rw [List.rdropWhile_concat_pos _ _ _ hc, words_concat hc, ih]
    · rw [List.rdropWhile_concat_neg _ _ _ hc]

theorem nil_notMem_words : [] ∉ words p l := by
  intro h
  simpa using (List.mem_filter.mp h).2

/-- An element that is no separator starts the first word. -/
theorem words_cons_of_neg (hc : p c = false) : ∃ w ws, words p (c :: l) = (c :: w) :: ws := by
  have hword : ∀ x ∈ c :: l.takeWhile (!p ·), p x = false := by
    intro x hx
    rcases List.mem_cons.mp hx with rfl | hx
    · exact hc
    · simpa using List.mem_takeWhile_imp hx
  have hsplit : c :: l = c :: l.takeWhile (!p ·) ++ l.dropWhile (!p ·) := by
    rw [List.cons_append, List.takeWhile_append_dropWhile]
  rw [hsplit]
  cases hrest : l.dropWhile (!p ·) with
  | nil =>
    rw [List.append_nil, words_eq_singleton (List.cons_ne_nil _ _) hword]
    exact ⟨_, _, rfl⟩
  | cons x rest =>
    have hx : p x = true := by
      have := List.head?_dropWhile_not (!p ·) l
      rw [hrest] at this
      simpa using this
    rw [words_append_cons hx, words_eq_singleton (List.cons_ne_nil _ _) hword]
    exact ⟨_, _, rfl⟩

end Dakota
