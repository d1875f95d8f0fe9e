import Dakota.Lib.Numerals
import Mathlib

/-!
# Secant updates of a symmetric matrix

Corrections of a matrix `B` by products `v vᵀ`, and the secant equation `B s = y`.

* `fromUpper`: a symmetric matrix from its upper half.
* `rankOne_mulVec`: with `v = y - B s`, the correction `v vᵀ / (v · s)` gives `B s = y`.
* `rankTwo_mulVec`: so does `y yᵀ / (y · s) - (B s) (B s)ᵀ / (s · B s)`.
-/

namespace Dakota

open Matrix

variable {K : Type} {n : Nat}

/-- The symmetric matrix with the upper half of another one. -/
def fromUpper (M : Matrix (Fin n) (Fin n) K) : Matrix (Fin n) (Fin n) K :=
  fun j k => M (min j k) (max j k)

theorem fromUpper_isSymm (M : Matrix (Fin n) (Fin n) K) : (fromUpper M).IsSymm := by
  ext j k
  change M (min k j) (max k j) = M (min j k) (max j k)
  rw [min_comm, max_comm]

theorem fromUpper_of_isSymm {M : Matrix (Fin n) (Fin n) K} (h : M.IsSymm) : fromUpper M = M := by
  ext j k
  unfold fromUpper
  rcases le_total j k with hjk | hjk
  · rw [min_eq_left hjk, max_eq_right hjk]
  · rw [min_eq_right hjk, max_eq_left hjk]
    exact h.apply j k

variable [Field K] {B : Matrix (Fin n) (Fin n) K} {s y v : Fin n → K} {c : K}

/-- `B + v vᵀ / c` -/
def rankOne (B : Matrix (Fin n) (Fin n) K) (v : Fin n → K) (c : K) : Matrix (Fin n) (Fin n) K :=
  fun j k => B j k + v j * v k / c

theorem rankOne_isSymm (h : B.IsSymm) : (rankOne B v c).IsSymm := by
  ext j k
  change B k j + v k * v j / c = B j k + v j * v k / c
  rw [h.apply, mul_comm]

theorem rankOne_apply_mulVec : rankOne B v c *ᵥ s = B *ᵥ s + (v ⬝ᵥ s / c) • v := by
  funext j
  simp only [mulVec, dotProduct, rankOne, Pi.add_apply, Pi.smul_apply, smul_eq_mul, add_mul,
    Finset.sum_add_distrib, Finset.sum_div, Finset.sum_mul]
  congr 1
  exact Finset.sum_congr rfl fun k _ => by ring

theorem rankOne_mulVec (hv : v = y - B *ᵥ s) (hc : v ⬝ᵥ s ≠ 0) :
    rankOne B v (v ⬝ᵥ s) *ᵥ s = y := by
  rw [rankOne_apply_mulVec, div_self hc, one_smul, hv, add_sub_cancel]

theorem rankTwo_mulVec (hy : y ⬝ᵥ s ≠ 0) (hB : s ⬝ᵥ (B *ᵥ s) ≠ 0) :
    rankOne (rankOne B y (y ⬝ᵥ s)) (B *ᵥ s) (-(s ⬝ᵥ (B *ᵥ s))) *ᵥ s = y := by
  rw [rankOne_apply_mulVec, rankOne_apply_mulVec, div_self hy, dotProduct_comm (B *ᵥ s), div_neg,
    div_self hB, one_smul, neg_one_smul]
  abel

end Dakota
