import Dakota.Lib.Numerals
import Mathlib

/-!
# Windows of a list

The elements of a list with positions in a range, as a loop with a position counter collects them.

* `window_append`: the window of two lists, one after the other.
* `flatMap_window`: the windows between split points put together.
-/

namespace Dakota

variable {α β : Type} {lo hi pos : Nat} {l l' : List α}

/-- The elements with positions in `[lo, hi)`, if the positions start at `pos`. -/
def window (lo hi : Nat) : Nat → List α → List α
  | _, [] => []
  | pos, a :: l =>
    if lo ≤ pos ∧ pos < hi then a :: window lo hi (pos + 1) l else window lo hi (pos + 1) l

theorem window_append : window lo hi pos (l ++ l') =
    window lo hi pos l ++ window lo hi (pos + l.length) l' := by
  induction l generalizing pos with
  | nil => rfl
  | cons a l ih =>
    rw [List.cons_append, window, window, ih, List.length_cons, Nat.add_right_comm, Nat.add_assoc]
    split <;> rfl

theorem window_eq_nil (h : hi ≤ pos) : window lo hi pos l = [] := by
  induction l generalizing pos with
  | nil => rfl
  | cons a l ih =>
    rw [window, if_neg (by omega)]
    exact ih (by omega)

theorem map_window (f : α → β) : (window lo hi pos l).map f = window lo hi pos (l.map f) := by
  induction l generalizing pos with
  | nil => rfl
  | cons a l ih =>
    rw [List.map_cons, window, window, ← ih]
    split <;> rfl

theorem mem_of_mem_window {a : α} (h : a ∈ window lo hi pos l) : a ∈ l := by
  induction l generalizing pos with
  | nil => exact h
  | cons b l ih =>
    rw [window] at h
    split at h
    · rcases List.mem_cons.mp h with rfl | h
      · exact List.mem_cons_self
      · exact List.mem_cons_of_mem _ (ih h)
    · exact List.mem_cons_of_mem _ (ih h)

theorem window_all (h : pos + l.length ≤ hi) : window 0 hi pos l = l := by
  induction l generalizing pos with
  | nil => rfl
  | cons a l ih =>
    rw [List.length_cons] at h
    rw [window, if_pos (by omega), ih (by omega)]

/-- Two windows side by side. -/
theorem window_add {mid : Nat} (h₁ : lo ≤ mid) (h₂ : mid ≤ hi) :
    window lo mid pos l ++ window mid hi pos l = window lo hi pos l := by
  induction l generalizing pos with
  | nil => rfl
  | cons a l ih =>
    simp only [window]
    rcases Nat.lt_or_ge pos mid with hpos | hpos
    · rw [if_neg (show ¬(mid ≤ pos ∧ pos < hi) by omega)]
      by_cases hlo : lo ≤ pos
      · rw [if_pos ⟨hlo, hpos⟩, if_pos ⟨hlo, by omega⟩, List.cons_append, ih]
      · rw [if_neg (by omega), if_neg (by omega), ih]
    · rw [if_neg (show ¬(lo ≤ pos ∧ pos < mid) by omega), window_eq_nil (by omega),
        List.nil_append, ← ih, window_eq_nil (show mid ≤ pos + 1 by omega), List.nil_append]
      by_cases hhi : pos < hi
      · rw [if_pos ⟨hpos, hhi⟩, if_pos ⟨by omega, hhi⟩]
      · rw [if_neg (by omega), if_neg (by omega)]

/-- The windows between split points, put together. -/
theorem flatMap_window {ps : List Nat} {p : Nat} (h : (p :: ps).Pairwise (· < ·)) :
    ((p :: ps).zip ps).flatMap (fun q => window q.1 q.2 pos l) =
      window p ((p :: ps).getLast (List.cons_ne_nil p ps)) pos l := by
  induction ps generalizing p with
  | nil =>
    have hnil {m : Nat} {l : List α} : window p p m l = [] := by
      induction l generalizing m with
      | nil => rfl
      | cons a l ih => rw [window, if_neg (by omega), ih]
    exact hnil.symm
  | cons q ps ih =>
    obtain ⟨hp, hps⟩ := List.pairwise_cons.mp h
    rw [List.zip_cons_cons, List.flatMap_cons, ih hps, List.getLast_cons_cons]
    refine window_add (hp q List.mem_cons_self).le ?_
    rcases List.mem_cons.mp (List.getLast_mem (List.cons_ne_nil q ps)) with heq | hmem
    · exact heq.ge
    · exact ((List.pairwise_cons.mp hps).1 _ hmem).le

end Dakota
