import Dakota.Lib.Numerals
import Mathlib

/-!
# Least-squares problems with bounds

`min |A x - b|` over the `x` within bounds, by its entries. A problem that another one agrees with in
all entries of its dimensions has the same solutions (`Agrees.isSolution_iff`).

An array that is written row by row is `rowMajor`; a solver that expects columns reads the entry in
row `r` and column `c` at `r + c * ld` of it.
-/

namespace Dakota

/-- A problem `min |A x - b|` with its dimensions, and the bounds that `x` has. -/
structure LeastSquares (K : Type) where
  rows : ℕ
  cols : ℕ
  entry : ℕ → ℕ → K
  rhs : ℕ → K
  lower : ℕ → Option K
  upper : ℕ → Option K

namespace LeastSquares

variable {K : Type} [Field K] [LinearOrder K] {p q : LeastSquares K} {x y : ℕ → K}

def Feasible (p : LeastSquares K) (x : ℕ → K) : Prop :=
  ∀ c < p.cols, (∀ l ∈ p.lower c, l ≤ x c) ∧ ∀ u ∈ p.upper c, x c ≤ u

/-- The square of `|A x - b|`. -/
def residual (p : LeastSquares K) (x : ℕ → K) : K :=
  ∑ r ∈ Finset.range p.rows, (∑ c ∈ Finset.range p.cols, p.entry r c * x c - p.rhs r) ^ 2

structure IsSolution (p : LeastSquares K) (x : ℕ → K) : Prop where
  feasible : p.Feasible x
  minimal : ∀ y, p.Feasible y → p.residual x ≤ p.residual y

/-- The two problems are the same within their dimensions. -/
structure Agrees (p q : LeastSquares K) : Prop where
  rows : p.rows = q.rows
  cols : p.cols = q.cols
  entry : ∀ r < q.rows, ∀ c < q.cols, p.entry r c = q.entry r c
  rhs : ∀ r < q.rows, p.rhs r = q.rhs r
  lower : ∀ c < q.cols, p.lower c = q.lower c
  upper : ∀ c < q.cols, p.upper c = q.upper c

omit [Field K] in
theorem Agrees.feasible_congr (h : p.Agrees q) : p.Feasible x ↔ q.Feasible x := by
  unfold Feasible
  rw [h.cols]
  refine forall₂_congr fun c hc => ?_
  rw [h.lower c hc, h.upper c hc]

omit [LinearOrder K] in
theorem Agrees.residual_eq (h : p.Agrees q) : p.residual x = q.residual x := by
  unfold residual
  rw [h.rows, h.cols]
  refine Finset.sum_congr rfl fun r hr => ?_
  have hrow : ∑ c ∈ Finset.range q.cols, p.entry r c * x c =
      ∑ c ∈ Finset.range q.cols, q.entry r c * x c :=
    Finset.sum_congr rfl fun c hc => by
      rw [h.entry r (Finset.mem_range.mp hr) c (Finset.mem_range.mp hc)]
  rw [hrow, h.rhs r (Finset.mem_range.mp hr)]

theorem Agrees.isSolution_iff (h : p.Agrees q) : p.IsSolution x ↔ q.IsSolution x := by
  constructor
  · intro hx
    refine ⟨h.feasible_congr.mp hx.feasible, fun y hy => ?_⟩
    rw [← h.residual_eq, ← h.residual_eq]
    exact hx.minimal y (h.feasible_congr.mpr hy)
  · intro hx
    refine ⟨h.feasible_congr.mpr hx.feasible, fun y hy => ?_⟩
    rw [h.residual_eq, h.residual_eq]
    exact hx.minimal y (h.feasible_congr.mp hy)

end LeastSquares

section

variable {K : Type} [Zero K]

/-- The array of a matrix whose rows have been written one after the other, and zeros. -/
def rowMajor (rows cols : ℕ) (entry : ℕ → ℕ → K) (k : ℕ) : K :=
  if k / cols < rows then entry (k / cols) (k % cols) else 0

theorem rowMajor_congr {rows cols k : ℕ} {entry entry' : ℕ → ℕ → K}
    (h : ∀ r < rows, ∀ c, entry r c = entry' r c) :
    rowMajor rows cols entry k = rowMajor rows cols entry' k := by
  unfold rowMajor
  split_ifs with hk
  · exact h _ hk _
  · rfl

/-- The row after the last one. -/
theorem rowMajor_succ {rows cols k : ℕ} {entry : ℕ → ℕ → K} (hcols : 0 < cols) :
    rowMajor (rows + 1) cols entry k =
      if rows * cols ≤ k ∧ k < rows * cols + cols then entry rows (k - rows * cols)
      else rowMajor rows cols entry k := by
  have hdiv : k / cols < rows + 1 ↔ k < rows * cols + cols := by
    rw [Nat.div_lt_iff_lt_mul hcols, Nat.succ_mul]
  have hdiv' : k / cols < rows ↔ k < rows * cols := Nat.div_lt_iff_lt_mul hcols
  unfold rowMajor
  by_cases hrow : rows * cols ≤ k ∧ k < rows * cols + cols
  · have hlast : k / cols = rows := by
      have := hdiv.mpr hrow.2
      have := mt hdiv'.mp (Nat.not_lt.mpr hrow.1)
      omega
    have hmod : k % cols = k - rows * cols := by
      rw [Nat.mod_eq_sub_div_mul, hlast]
    rw [if_pos hrow, if_pos (hdiv.mpr hrow.2), hlast, hmod]
  · rw [if_neg hrow]
    refine if_congr ?_ rfl rfl
    rw [hdiv, hdiv']
    omega

end

end Dakota
