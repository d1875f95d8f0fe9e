import Dakota.Lib.Numerals
import Mathlib.LinearAlgebra.Matrix.NonsingularInverse
import Mathlib.LinearAlgebra.Matrix.Block

/-!
# Matrices assembled from diagonal blocks

`assemble e D` is the matrix over `ι` with the blocks `D k` on its diagonal, where `e` says which
position of `ι` is which position of which block. Products, transposes, determinants and the action
on vectors are those of the blocks.

`whitened_inv` is the rule for a square root of an inverse: a `W` with `W S Wᵀ = 1` gives
`S⁻¹ = Wᵀ W`, and so `v · S⁻¹ v` is the squared norm of `W v`.
-/

namespace Dakota

open Matrix

section Assemble

variable {R : Type} [CommRing R] {o ι : Type} {m : o → Type} [DecidableEq o]
variable (e : (Σ k, m k) ≃ ι)

/-- The blocks on the diagonal, zero elsewhere. -/
def assemble (D : ∀ k, Matrix (m k) (m k) R) : Matrix ι ι R :=
  (blockDiagonal' D).submatrix e.symm e.symm

@[simp] theorem assemble_same (D : ∀ k, Matrix (m k) (m k) R) (k : o) (i j : m k) :
    assemble e D (e ⟨k, i⟩) (e ⟨k, j⟩) = D k i j := by
  simp [assemble]

theorem assemble_apart (D : ∀ k, Matrix (m k) (m k) R) {k l : o} (i : m k) (j : m l) (h : k ≠ l) :
    assemble e D (e ⟨k, i⟩) (e ⟨l, j⟩) = 0 := by
  simp [assemble, blockDiagonal'_apply_ne D i j h]

/-- A matrix is assembled from what stands in its blocks when the rest is zero. -/
theorem eq_assemble {M : Matrix ι ι R} {D : ∀ k, Matrix (m k) (m k) R}
    (hsame : ∀ k i j, M (e ⟨k, i⟩) (e ⟨k, j⟩) = D k i j)
    (hapart : ∀ k l (i : m k) (j : m l), k ≠ l → M (e ⟨k, i⟩) (e ⟨l, j⟩) = 0) :
    M = assemble e D := by
  ext p q
  obtain ⟨⟨k, i⟩, rfl⟩ := e.surjective p
  obtain ⟨⟨l, j⟩, rfl⟩ := e.surjective q
  by_cases h : k = l
  · subst h
    rw [hsame, assemble_same]
  · rw [hapart k l i j h, assemble_apart e D i j h]

theorem assemble_transpose (D : ∀ k, Matrix (m k) (m k) R) :
    (assemble e D)ᵀ = assemble e fun k => (D k)ᵀ := by
  rw [assemble, transpose_submatrix, blockDiagonal'_transpose, assemble]

theorem assemble_one [∀ k, DecidableEq (m k)] [DecidableEq ι] :
    assemble e (fun k => (1 : Matrix (m k) (m k) R)) = 1 := by
  have : (fun k => (1 : Matrix (m k) (m k) R)) = 1 := rfl
  rw [assemble, this, blockDiagonal'_one, submatrix_one_equiv]

variable [Fintype o] [∀ k, Fintype (m k)] [Fintype ι]

theorem assemble_mul (D E : ∀ k, Matrix (m k) (m k) R) :
    assemble e D * assemble e E = assemble e fun k => D k * E k := by
  rw [assemble, assemble, submatrix_mul_equiv, ← blockDiagonal'_mul, assemble]

omit [DecidableEq o] in
/-- A sum over all positions is a sum over the blocks of the sums over their positions. -/
theorem sum_places (f : ι → R) : ∑ p, f p = ∑ k, ∑ i, f (e ⟨k, i⟩) := by
  rw [← Fintype.sum_equiv e (fun x => f (e x)) f fun _ => rfl, Fintype.sum_sigma]

/-- Each block acts on its own stretch of the vector. -/
theorem assemble_mulVec (D : ∀ k, Matrix (m k) (m k) R) (v : ι → R) (k : o) (i : m k) :
    (assemble e D *ᵥ v) (e ⟨k, i⟩) = (D k *ᵥ fun j => v (e ⟨k, j⟩)) i := by
  rw [mulVec, dotProduct, sum_places e, Finset.sum_eq_single k]
  · simp [mulVec, dotProduct]
  · intro l _ h
    exact Finset.sum_eq_zero fun j _ => by rw [assemble_apart e D i j h.symm, zero_mul]
  · simp

end Assemble

/-- The determinant is the product of those of the blocks. -/
theorem assemble_det {R : Type} [CommRing R] {o ι : Type} {m : o → Type} [Fintype o]
    [LinearOrder o] [∀ k, Fintype (m k)] [∀ k, DecidableEq (m k)] [Fintype ι] [DecidableEq ι]
    (e : (Σ k, m k) ≃ ι) (D : ∀ k, Matrix (m k) (m k) R) :
    (assemble e D).det = ∏ k, (D k).det := by
  rw [assemble, det_submatrix_equiv_self, (blockTriangular_blockDiagonal' D).det_fintype]
  refine Finset.prod_congr rfl fun k _ => ?_
  rw [← det_submatrix_equiv_self (Equiv.sigmaSubtype k).symm]
  congr 1
  ext i j
  exact blockDiagonal'_apply_eq D k i j

section Whitening

variable {R : Type} [CommRing R] {ι : Type} [Fintype ι] [DecidableEq ι] {S W : Matrix ι ι R}

theorem whitened_inv (h : W * S * Wᵀ = 1) : S⁻¹ = Wᵀ * W := by
  rw [Matrix.mul_assoc, mul_eq_one_comm, Matrix.mul_assoc] at h
  exact inv_eq_right_inv h

theorem whitened_quadratic (h : W * S * Wᵀ = 1) (v : ι → R) :
    v ⬝ᵥ S⁻¹ *ᵥ v = W *ᵥ v ⬝ᵥ W *ᵥ v := by
  rw [whitened_inv h, ← mulVec_mulVec, dotProduct_mulVec, vecMul_transpose]

end Whitening

end Dakota
