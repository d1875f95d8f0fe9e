import Dakota.Response.RealArrays
import Mathlib.Analysis.Matrix.LDL
import Mathlib.Analysis.Matrix.PosDef
import Mathlib.Algebra.Order.Star.Real

/-!
# Exact Cholesky factors

* `ExactCholesky`: the factorisation and the triangular inverse, exact where they are defined.
* `ExactCholesky.ofLDL`: there is one, from the LDL decomposition.
-/

namespace Dakota

open Matrix

/-- The first `n` rows and columns of a table, as a matrix. -/
def square (n : ℕ) (f : ℕ → ℕ → ℝ) : Matrix (Fin n) (Fin n) ℝ := Matrix.of fun i j => f i j

@[simp] theorem square_apply (n : ℕ) (f : ℕ → ℕ → ℝ) (i j : Fin n) : square n f i j = f i j := rfl

/-! ## Cholesky factors -/

/-- `POTRF` and `TRTRI` in exact arithmetic. What they do to matrices that are not positive
definite, or to factors without an inverse, is left open. -/
structure ExactCholesky where
  potrf : RealSymMatrix → Option RealSymMatrix
  trtri : RealMatrix → Option RealMatrix
  /-- `A = L Lᵀ`, with a positive diagonal. -/
  potrf_spec : ∀ a, (square a.numRows a.get).PosDef → ∃ l, potrf a = some l ∧
    l.numRows = a.numRows ∧ (∀ i < a.numRows, 0 < l.get i i) ∧
    square a.numRows l.lowerTriangle * (square a.numRows l.lowerTriangle)ᵀ = square a.numRows a.get
  /-- The inverse of a lower triangle with a nonzero diagonal. -/
  trtri_spec : ∀ l : RealMatrix, l.numCols = l.numRows → (∀ i < l.numRows, l.entry i i ≠ 0) →
    (∀ i j, i < j → l.entry i j = 0) → ∃ r, trtri l = some r ∧ r.numRows = l.numRows ∧
    r.numCols = l.numRows ∧ square l.numRows r.entry * square l.numRows l.entry = 1

namespace ExactCholesky

/-- A positive definite matrix has a Cholesky factor: the columns of the LDL decomposition, scaled
and with the signs of its diagonal. -/
theorem exists_factor {n : ℕ} {a : Matrix (Fin n) (Fin n) ℝ} (h : a.PosDef) :
    ∃ l : Matrix (Fin n) (Fin n) ℝ, (∀ i j, i < j → l i j = 0) ∧ (∀ i, 0 < l i i) ∧
      l * lᵀ = a := by
  have hunit : IsUnit (LDL.lowerInv h) := isUnit_of_invertible _
  have hlow : (LDL.lower h).IsLowerTriangular :=
    blockTriangular_inv_of_blockTriangular fun i j hij => LDL.lowerInv_triangular h hij
  have hdet : (LDL.lower h).det ≠ 0 := by
    exact (isUnit_nonsing_inv_det _ ((isUnit_iff_isUnit_det _).mp hunit)).ne_zero
  have hdiag : ∀ i, LDL.lower h i i ≠ 0 := by
    rw [det_of_isLowerTriangular _ hlow, Finset.prod_ne_zero_iff] at hdet
    exact fun i => hdet i (Finset.mem_univ i)
  have hpos : ∀ i, 0 < LDL.diagEntries h i := by
    rw [← posDef_diagonal_iff]
    have := h.mul_mul_conjTranspose_same (vecMul_injective_of_isUnit hunit)
    rwa [← LDL.diag_eq_lowerInv_conj] at this
  let scale : Fin n → ℝ := fun i => SignType.sign (LDL.lower h i i) * √(LDL.diagEntries h i)
  have hscale : diagonal scale * diagonal scale = LDL.diag h := by
    rw [diagonal_mul_diagonal, LDL.diag]
    congr 1
    funext i
    have hsign : ((SignType.sign (LDL.lower h i i) : ℝ)) * SignType.sign (LDL.lower h i i) = 1 := by
      rcases lt_or_gt_of_ne (hdiag i) with hi | hi <;> simp [hi]
    calc scale i * scale i
        = (SignType.sign (LDL.lower h i i) * SignType.sign (LDL.lower h i i)) *
            (√(LDL.diagEntries h i) * √(LDL.diagEntries h i)) := by simp only [scale]; ring
      _ = LDL.diagEntries h i := by rw [hsign, Real.mul_self_sqrt (hpos i).le, one_mul]
  refine ⟨LDL.lower h * diagonal scale, fun i j hij => ?_, fun i => ?_, ?_⟩
  · rw [mul_diagonal, hlow hij, zero_mul]
  · rw [mul_diagonal]
    simp only [scale]
    rw [← mul_assoc, self_mul_sign]
    exact mul_pos (abs_pos.mpr (hdiag i)) (Real.sqrt_pos.mpr (hpos i))
  · rw [transpose_mul, diagonal_transpose, Matrix.mul_assoc, ← Matrix.mul_assoc (diagonal scale),
      hscale, ← Matrix.mul_assoc, ← conjTranspose_eq_transpose_of_trivial]
    exact LDL.lower_conj_diag h

/-- The table of a square matrix. -/
noncomputable def table {n : ℕ} (m : Matrix (Fin n) (Fin n) ℝ) (i j : ℕ) : ℝ :=
  if h : i < n ∧ j < n then m ⟨i, h.1⟩ ⟨j, h.2⟩ else 0

@[simp] theorem square_table {n : ℕ} (m : Matrix (Fin n) (Fin n) ℝ) : square n (table m) = m := by
  ext i j
  simp [table]

theorem table_apply {n : ℕ} (m : Matrix (Fin n) (Fin n) ℝ) {i j : ℕ} (hi : i < n) (hj : j < n) :
    table m i j = m ⟨i, hi⟩ ⟨j, hj⟩ := dif_pos ⟨hi, hj⟩

/-- The symmetric matrix with the lower triangle of `m`. -/
noncomputable def ofLower {n : ℕ} (m : Matrix (Fin n) (Fin n) ℝ) : RealSymMatrix := ⟨n, table m⟩

theorem ofLower_diag {n : ℕ} (m : Matrix (Fin n) (Fin n) ℝ) (i : Fin n) :
    (ofLower m).get i i = m i i := by
  rw [RealSymMatrix.get, max_self, min_self]
  exact table_apply m i.2 i.2

theorem ofLower_lowerTriangle {n : ℕ} {m : Matrix (Fin n) (Fin n) ℝ}
    (h : ∀ i j, i < j → m i j = 0) : square n (ofLower m).lowerTriangle = m := by
  ext i j
  rw [square_apply, RealSymMatrix.lowerTriangle]
  by_cases hji : (j : ℕ) ≤ i
  · rw [if_pos hji, RealSymMatrix.get, max_eq_left hji, min_eq_right hji]
    exact table_apply m i.2 j.2
  · rw [if_neg hji, h i j (not_le.mp hji)]

open Classical in
/-- The factor of the LDL decomposition, and the inverse matrix. -/
noncomputable def ofLDL : ExactCholesky where
  potrf a := if h : (square a.numRows a.get).PosDef then
      some (ofLower (exists_factor h).choose)
    else none
  trtri l := some ⟨l.numRows, l.numRows, table (square l.numRows l.entry)⁻¹⟩
  potrf_spec a h := by
    obtain ⟨hlow, hpos, hmul⟩ := (exists_factor h).choose_spec
    refine ⟨_, dif_pos h, rfl, fun i hi => ?_, ?_⟩
    · rw [ofLower_diag _ ⟨i, hi⟩]
      exact hpos ⟨i, hi⟩
    · rw [ofLower_lowerTriangle hlow, hmul]
  trtri_spec l _ hdiag hlow := by
    refine ⟨_, rfl, rfl, rfl, ?_⟩
    rw [square_table]
    have htri : (square l.numRows l.entry).IsLowerTriangular := fun i j hij => hlow i j hij
    refine nonsing_inv_mul _ ?_
    rw [det_of_isLowerTriangular _ htri]
    exact (Finset.prod_ne_zero_iff.mpr fun i _ => hdiag _ (Fin.is_lt i)).isUnit

end ExactCholesky

end Dakota
