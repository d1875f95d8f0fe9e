import Dakota.Lib.Numerals
import Mathlib

/-!
# Loops over a range

* `foldl_range_add`, `foldl_range_mul`: a loop that adds up the values of a function, or multiplies
  them.
* `foldl_range_append`, `foldl_range_bump`, `foldl_range_fill`: a loop that appends to a list, adds
  to consecutive entries of a table, or sets them.
* `foldl_range_inv`, `foldlM_range_inv`: an invariant with the number of passes; in the second a pass
  may fail, and no pass does.
-/

namespace Dakota

theorem foldl_range_add {A : Type} [AddCommMonoid A] (f : ℕ → A) (start : A) (n : ℕ) :
    (List.range n).foldl (fun sum i => sum + f i) start = start + ∑ i ∈ Finset.range n, f i := by
  induction n with
  | zero => simp
  | succ n ih =>
    rw [List.range_succ, List.foldl_append, ih, Finset.sum_range_succ, ← add_assoc]
    rfl

theorem foldl_range_mul {A : Type} [CommMonoid A] (f : ℕ → A) (start : A) (n : ℕ) :
    (List.range n).foldl (fun prod i => prod * f i) start =
      start * ∏ i ∈ Finset.range n, f i := by
  induction n with
  | zero => simp
  | succ n ih =>
    rw [List.range_succ, List.foldl_append, ih, Finset.prod_range_succ, ← mul_assoc]
    rfl

theorem sum_map_range {A : Type} [AddCommMonoid A] (f : ℕ → A) (n : ℕ) :
    ((List.range n).map f).sum = ∑ i ∈ Finset.range n, f i := rfl

/-- A loop that appends to a list. -/
theorem foldl_range_append {A : Type} (f : ℕ → List A) (start : List A) (n : ℕ) :
    (List.range n).foldl (fun l i => l ++ f i) start = start ++ (List.range n).flatMap f := by
  induction n with
  | zero => simp
  | succ n ih =>
    rw [List.range_succ, List.foldl_append, ih, List.flatMap_append, ← List.append_assoc]
    simp

/-- The same with a counter that goes up by one in each pass. -/
theorem foldl_range_append_count {A : Type} (f : ℕ → ℕ → List A) (start : List A) (count n : ℕ) :
    (List.range n).foldl (fun (st : List A × ℕ) i => (st.1 ++ f i st.2, st.2 + 1))
        (start, count) =
      (start ++ (List.range n).flatMap fun i => f i (count + i), count + n) := by
  induction n with
  | zero => simp
  | succ n ih =>
    rw [List.range_succ, List.foldl_append, ih, List.flatMap_append, ← List.append_assoc]
    simp [Nat.add_assoc]

/-- A loop that adds to consecutive entries of a table. -/
theorem foldl_range_bump {A : Type} [AddMonoid A] (f : ℕ → A) (start : ℕ → A) (first n : ℕ) :
    (List.range n).foldl
        (fun c k => Function.update c (first + k) (c (first + k) + f k)) start =
      fun i => start i + if first ≤ i ∧ i < first + n then f (i - first) else 0 := by
  induction n with
  | zero =>
    funext i
    rw [if_neg (by omega), add_zero]
    rfl
  | succ n ih =>
    rw [List.range_succ, List.foldl_append, ih]
    funext i
    by_cases hi : i = first + n
    · subst hi
      simp
    · have hiff : (first ≤ i ∧ i < first + (n + 1)) ↔ (first ≤ i ∧ i < first + n) := by omega
      rw [List.foldl_cons, List.foldl_nil, Function.update_of_ne hi, if_congr hiff rfl rfl]

/-- A loop that sets the first entries of a table. -/
theorem foldl_range_set (f start : ℕ → ℕ) (n : ℕ) :
    (List.range n).foldl (fun c k => Function.update c k (f k)) start =
      fun i => if i < n then f i else start i := by
  induction n with
  | zero => rfl
  | succ n ih =>
    rw [List.range_succ, List.foldl_append, ih]
    funext i
    rw [List.foldl_cons, List.foldl_nil]
    by_cases hi : i = n
    · subst hi
      simp
    · have hiff : i < n + 1 ↔ i < n := by omega
      rw [Function.update_of_ne hi, if_congr hiff rfl rfl]

/-- A loop that sets consecutive entries of a table, with the index as a counter. -/
theorem foldl_range_fill (f : ℕ → ℕ) (start : ℕ → ℕ) (first n : ℕ) :
    (List.range n).foldl
        (fun (st : (ℕ → ℕ) × ℕ) k => (Function.update st.1 st.2 (f k), st.2 + 1)) (start, first) =
      (fun i => if first ≤ i ∧ i < first + n then f (i - first) else start i, first + n) := by
  induction n with
  | zero =>
    refine Prod.ext (funext fun i => ?_) rfl
    exact (if_neg (by omega)).symm
  | succ n ih =>
    rw [List.range_succ, List.foldl_append, ih]
    refine Prod.ext (funext fun i => ?_) rfl
    by_cases hi : i = first + n
    · subst hi
      simp
    · have hiff : (first ≤ i ∧ i < first + (n + 1)) ↔ (first ≤ i ∧ i < first + n) := by omega
      simp only [List.foldl_cons, List.foldl_nil]
      rw [Function.update_of_ne hi, if_congr hiff rfl rfl]

/-- What holds at the start and is kept by each pass, in the number of passes. -/
theorem foldl_range_inv {σ : Type} (step : σ → ℕ → σ) (start : σ) (n : ℕ) (inv : ℕ → σ → Prop)
    (h₀ : inv 0 start) (hstep : ∀ i s, i < n → inv i s → inv (i + 1) (step s i)) :
    inv n ((List.range n).foldl step start) := by
  induction n with
  | zero => exact h₀
  | succ n ih =>
    rw [List.range_succ, List.foldl_append]
    exact hstep n _ (Nat.lt_succ_self n) (ih fun i s hi => hstep i s (Nat.lt_succ_of_lt hi))

/-- The same for passes that may fail: none does where the invariant holds. -/
theorem foldlM_range_inv {σ ε : Type} (step : σ → ℕ → Except ε σ) (start : σ) (n : ℕ)
    (inv : ℕ → σ → Prop) (h₀ : inv 0 start)
    (hstep : ∀ i s, i < n → inv i s → ∃ s', step s i = .ok s' ∧ inv (i + 1) s') :
    ∃ s', (List.range n).foldlM step start = .ok s' ∧ inv n s' := by
  induction n with
  | zero => exact ⟨start, rfl, h₀⟩
  | succ n ih =>
    obtain ⟨s, hs, hinv⟩ := ih fun i s hi => hstep i s (Nat.lt_succ_of_lt hi)
    obtain ⟨s', hs', hinv'⟩ := hstep n s (Nat.lt_succ_self n) hinv
    refine ⟨s', ?_, hinv'⟩
    rw [List.range_succ, List.foldlM_append, hs]
    change List.foldlM step s [n] = _
    rw [List.foldlM_cons, hs']
    rfl

end Dakota
