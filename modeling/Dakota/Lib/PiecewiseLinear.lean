import Dakota.Lib.Numerals
import Mathlib

/-!
# Piecewise linear interpolation

The interpolant of the values `y 0, …, y n` at the nodes `x 0 < … < x n`, constant outside, as one
sum: each interval adds its slope times the part of it that lies before the point.

* `piecewiseLinear_of_le`, `piecewiseLinear_of_ge`: constant outside the nodes.
* `piecewiseLinear_of_mem`: affine on each interval.
-/

namespace Dakota

variable {K : Type} [Field K] [LinearOrder K]

/-- The part of the interval from `a` to `b` that lies before `p`. -/
def partBefore (a b p : K) : K := max a (min p b) - a

def piecewiseLinear (n : ℕ) (x y : ℕ → K) (p : K) : K :=
  y 0 + ∑ i ∈ Finset.range n, (y (i + 1) - y i) / (x (i + 1) - x i) * partBefore (x i) (x (i + 1)) p

variable {n : ℕ} {x y : ℕ → K} {p : K}

theorem partBefore_of_le {a b : K} (h : p ≤ a) : partBefore a b p = 0 := by
  rw [partBefore, max_eq_left ((min_le_left p b).trans h), sub_self]

theorem partBefore_of_mem {a b : K} (ha : a ≤ p) (hb : p ≤ b) : partBefore a b p = p - a := by
  rw [partBefore, min_eq_left hb, max_eq_right ha]

theorem partBefore_of_ge {a b : K} (hab : a ≤ b) (hb : b ≤ p) : partBefore a b p = b - a := by
  rw [partBefore, min_eq_right hb, max_eq_right hab]

omit [Field K] in
theorem nodes_le (hx : ∀ i < n, x i < x (i + 1)) {i j : ℕ} (hij : i ≤ j) (hj : j ≤ n) :
    x i ≤ x j := by
  induction j, hij using Nat.le_induction with
  | base => exact le_rfl
  | succ j _ ih => exact (ih (by omega)).trans (hx j (by omega)).le

/-- The intervals before the point add up. -/
theorem sum_slopes_before (hx : ∀ i < n, x i < x (i + 1)) {m : ℕ} (hm : m ≤ n) (hp : x m ≤ p) :
    ∑ i ∈ Finset.range m, (y (i + 1) - y i) / (x (i + 1) - x i) * partBefore (x i) (x (i + 1)) p =
      y m - y 0 := by
  rw [← Finset.sum_range_sub]
  refine Finset.sum_congr rfl fun i hi => ?_
  have him : i + 1 ≤ m := Finset.mem_range.mp hi
  have hlt : x i < x (i + 1) := hx i (by omega)
  have hle : x (i + 1) ≤ p := (nodes_le hx him hm).trans hp
  rw [partBefore_of_ge hlt.le hle, div_mul_cancel₀ _ (sub_ne_zero.mpr hlt.ne')]

/-- The intervals after the point add nothing. -/
theorem sum_slopes_after (hx : ∀ i < n, x i < x (i + 1)) {m : ℕ} (hp : p ≤ x m) :
    ∑ i ∈ Finset.Ico m n, (y (i + 1) - y i) / (x (i + 1) - x i) * partBefore (x i) (x (i + 1)) p =
      0 := by
  refine Finset.sum_eq_zero fun i hi => ?_
  obtain ⟨hmi, hin⟩ := Finset.mem_Ico.mp hi
  rw [partBefore_of_le (hp.trans (nodes_le hx hmi hin.le)), mul_zero]

theorem piecewiseLinear_of_le (hx : ∀ i < n, x i < x (i + 1)) (hp : p ≤ x 0) :
    piecewiseLinear n x y p = y 0 := by
  rw [piecewiseLinear, Finset.range_eq_Ico, sum_slopes_after hx hp, add_zero]

theorem piecewiseLinear_of_ge (hx : ∀ i < n, x i < x (i + 1)) (hp : x n ≤ p) :
    piecewiseLinear n x y p = y n := by
  rw [piecewiseLinear, sum_slopes_before hx le_rfl hp, add_sub_cancel]

theorem piecewiseLinear_of_mem (hx : ∀ i < n, x i < x (i + 1)) {i : ℕ} (hi : i < n) (hl : x i ≤ p)
    (hr : p ≤ x (i + 1)) :
    piecewiseLinear n x y p = y i + (y (i + 1) - y i) / (x (i + 1) - x i) * (p - x i) := by
  have hafter := sum_slopes_after (y := y) hx hr
  have hbefore := sum_slopes_before (y := y) hx hi.le hl
  rw [piecewiseLinear, ← Finset.sum_range_add_sum_Ico _ (Nat.succ_le_of_lt hi), hafter, add_zero,
    Finset.sum_range_succ, hbefore, partBefore_of_mem hl hr]
  ring

end Dakota
