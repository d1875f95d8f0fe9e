import Dakota.Calibration.Covariance
import Dakota.Lib.BlockDiagonal
import Dakota.Lib.RangeLoop

/-!
# What a covariance block holds

`CovarianceBlock` is a block as a caller means it and `cov` its matrix. `Stored` says that a
`CovarianceMatrix` holds it, with the factor that goes with it.

* `setCovariance_stored`, `copy_stored`: the writers store what they are given.
* `whitened`: what the block multiplies vectors with is an inverse square root of `cov`.
* `gradients_eq_inverseSqrtTimes`: gradients are multiplied with the same.
* The dense matrix of a full block misses its diagonal: `denseCovariance_full_diag`.
* `hessian_spec`: the Hessians of a block whose first one is absent are left alone.
-/

namespace Dakota

open Matrix

inductive CovarianceBlock
  | full (a : RealMatrix)
  | diagonal (d : RealVector)

namespace CovarianceBlock

def size : CovarianceBlock → ℕ
  | full a => a.numRows
  | diagonal d => d.length

/-- The matrix of the block. -/
def cov : CovarianceBlock → ℕ → ℕ → ℝ
  | full a => a.entry
  | diagonal d => fun i j => if i = j then d.values i else 0

theorem square_cov_diagonal (d : RealVector) (n : ℕ) :
    square n (cov (.diagonal d)) = Matrix.diagonal fun i : Fin n => d.values i := by
  ext i j
  simp [cov, diagonal_apply, Fin.ext_iff]

/-- Symmetric and positive definite, or a positive diagonal; at least one residual. -/
def Valid : CovarianceBlock → Prop
  | full a => 0 < a.numRows ∧ a.numRows = a.numCols ∧ (square a.numRows a.entry).PosDef
  | diagonal d => 0 < d.length ∧ ∀ i < d.length, 0 < d.values i

theorem Valid.size_pos {b : CovarianceBlock} (h : b.Valid) : 0 < b.size := by
  cases b with
  | full a => exact h.1
  | diagonal d => exact h.1

theorem Valid.posDef {b : CovarianceBlock} (h : b.Valid) : (square b.size b.cov).PosDef := by
  cases b with
  | full a => exact h.2.2
  | diagonal d =>
    rw [size, square_cov_diagonal]
    exact PosDef.diagonal fun i => h.2 i i.2

theorem Valid.cov_comm {b : CovarianceBlock} (h : b.Valid) {i j : ℕ} (hi : i < b.size)
    (hj : j < b.size) : b.cov i j = b.cov j i := by
  have := h.posDef.isHermitian.apply ⟨i, hi⟩ ⟨j, hj⟩
  simpa using this.symm

theorem Valid.cov_diag_pos {b : CovarianceBlock} (h : b.Valid) {i : ℕ} (hi : i < b.size) :
    0 < b.cov i i := h.posDef.diag_pos (i := ⟨i, hi⟩)

/-- The block-diagonal matrix of blocks that follow one another. -/
def covOf : List CovarianceBlock → ℕ → ℕ → ℝ
  | [], _, _ => 0
  | b :: bs, p, q =>
    if p < b.size ∧ q < b.size then b.cov p q
    else if b.size ≤ p ∧ b.size ≤ q then covOf bs (p - b.size) (q - b.size)
    else 0

/-- A row of the matrix has the row of its block, and zeros. -/
theorem covOf_row (pre : List CovarianceBlock) (b : CovarianceBlock) (post : List CovarianceBlock)
    {i : ℕ} (hi : i < b.size) (q : ℕ) :
    covOf (pre ++ b :: post) (total size pre + i) q =
      if total size pre ≤ q ∧ q < total size pre + b.size then b.cov i (q - total size pre)
      else 0 := by
  induction pre generalizing q with
  | nil =>
    simp only [List.nil_append, covOf, total_nil, Nat.zero_add, Nat.zero_le, true_and, hi,
      Nat.sub_zero, not_le.mpr hi, false_and, if_false]
  | cons c pre ih =>
    have hbehind : ¬ (total size (c :: pre) + i < c.size ∧ q < c.size) := by
      rw [total_cons]
      omega
    rw [List.cons_append, covOf, if_neg hbehind]
    by_cases hq : c.size ≤ q
    · have hrow : total size (c :: pre) + i - c.size = total size pre + i := by
        rw [total_cons]
        omega
      have hcol : q - c.size - total size pre = q - total size (c :: pre) := by
        rw [total_cons]
        omega
      rw [if_pos ⟨by rw [total_cons]; omega, hq⟩, hrow, ih, hcol, total_cons]
      exact if_congr (by omega) rfl rfl
    · rw [if_neg fun h => hq h.2, total_cons, if_neg (by omega)]

end CovarianceBlock

/-- The component `(i, j)` of Hessian `m`, absent ones not contributing. -/
def RealSymMatrixArray.component (hessians : RealSymMatrixArray) (present : ℕ → Bool)
    (i j m : ℕ) : ℝ := if present m then (hessians.entry m).get i j else 0

namespace CovarianceMatrix

/-- The factor of a full matrix is up to date. -/
structure Factored (c : CovarianceMatrix) : Prop where
  diag_pos : ∀ i < c.numDOF, 0 < c.covCholFactor.get i i
  factor : square c.numDOF c.covCholFactor.lowerTriangle *
    (square c.numDOF c.covCholFactor.lowerTriangle)ᵀ = square c.numDOF c.covMatrix.get
  inverse : square c.numDOF c.cholFactorInv.entry *
    square c.numDOF c.covCholFactor.lowerTriangle = 1

/-- The object holds the block. -/
def Stored (c : CovarianceMatrix) : CovarianceBlock → Prop
  | .full a => c.covIsDiagonal = false ∧ c.numDOF = a.numRows ∧ c.covMatrix.numRows = a.numRows ∧
      (∀ i < a.numRows, ∀ j < a.numRows, c.covMatrix.get i j = a.entry i j) ∧ c.Factored
  | .diagonal d => c.covIsDiagonal = true ∧ c.numDOF = d.length ∧ c.covDiagonal.length = d.length ∧
      ∀ i < d.length, c.covDiagonal.values i = d.values i

theorem Stored.numDOF_eq {c : CovarianceMatrix} {b : CovarianceBlock} (h : c.Stored b) :
    c.numDOF = b.size := by
  cases b with
  | full a => exact h.2.1
  | diagonal d => exact h.2.1

theorem Stored.square_cov_full {c : CovarianceMatrix} {a : RealMatrix} (h : c.Stored (.full a)) :
    square c.numDOF (CovarianceBlock.cov (.full a)) = square c.numDOF c.covMatrix.get := by
  ext i j
  exact (h.2.2.2.1 i (h.2.1 ▸ i.2) j (h.2.1 ▸ j.2)).symm

section Writers

variable (la : ExactCholesky)

/-- Factoring a positive definite matrix changes nothing but the factor. -/
theorem factorCovarianceMatrix_spec {c : CovarianceMatrix} (hn : c.covMatrix.numRows = c.numDOF)
    (h : (square c.numDOF c.covMatrix.get).PosDef) :
    ∃ factor inv, factorCovarianceMatrix la c =
      .ok { c with covCholFactor := factor, cholFactorInv := inv } ∧
      Factored { c with covCholFactor := factor, cholFactorInv := inv } := by
  obtain ⟨l, hl, -, hpos, hmul⟩ := la.potrf_spec c.covMatrix (by rw [hn]; exact h)
  rw [hn] at hpos hmul
  obtain ⟨inv, hinv, -, -, hone⟩ := la.trtri_spec ⟨c.numDOF, c.numDOF, l.lowerTriangle⟩ rfl
    (fun i hi => by simpa [RealSymMatrix.lowerTriangle] using (hpos i hi).ne')
    (fun i j hij => by simp [RealSymMatrix.lowerTriangle, Nat.not_le.mpr hij])
  refine ⟨l, inv, ?_, hpos, hmul, hone⟩
  simp only [factorCovarianceMatrix, hl, invertCholeskyFactor, hinv]

theorem setCovariance_stored (c : CovarianceMatrix) {a : RealMatrix}
    (h : CovarianceBlock.Valid (.full a)) :
    ∃ c', c.setCovariance la a = .ok c' ∧ c'.Stored (.full a) ∧ c'.covDiagonal = c.covDiagonal := by
  have hget : ∀ i < a.numRows, ∀ j < a.numRows,
      RealSymMatrix.get ⟨a.numRows, a.entry⟩ i j = a.entry i j := by
    intro i hi j hj
    rcases le_total i j with hij | hij
    · rw [RealSymMatrix.get, max_eq_right hij, min_eq_left hij]
      exact h.cov_comm (b := .full a) hj hi
    · rw [RealSymMatrix.get, max_eq_left hij, min_eq_right hij]
  have hsquare : square a.numRows (RealSymMatrix.get ⟨a.numRows, a.entry⟩) =
      square a.numRows a.entry := by
    ext i j
    exact hget i i.2 j j.2
  obtain ⟨factor, inv, hrun, hfac⟩ := factorCovarianceMatrix_spec la
    (c := { c with
      numDOF := a.numRows, covMatrix := ⟨a.numRows, a.entry⟩, covIsDiagonal := false }) rfl
    (by rw [hsquare]; exact h.2.2)
  exact ⟨_, (if_neg (not_not.mpr h.2.1)).trans hrun, ⟨rfl, rfl, rfl, hget, hfac⟩, rfl⟩

theorem setCovarianceDiagonal_stored (c : CovarianceMatrix) (d : RealVector) :
    (c.setCovarianceDiagonal d).Stored (.diagonal d) := ⟨rfl, rfl, rfl, fun _ _ => rfl⟩

/-- A copy holds the block of its source, when a full source has no diagonal left over. -/
theorem copy_stored (c : CovarianceMatrix) {s : CovarianceMatrix} {b : CovarianceBlock}
    (hb : b.Valid) (h : s.Stored b)
    (hleft : s.covIsDiagonal = false → s.covDiagonal.length = 0) :
    ∃ c', c.copy la s = .ok c' ∧ c'.Stored b := by
  cases b with
  | diagonal d =>
    obtain ⟨hdiag, hdof, hlen, hval⟩ := h
    have hpos : 0 < s.covDiagonal.length := hlen ▸ hb.1
    exact ⟨_, if_pos hpos, hdiag, hdof, hlen, hval⟩
  | full a =>
    obtain ⟨hdiag, hdof, hrows, hget, -⟩ := id h
    have hsquare : square s.numDOF s.covMatrix.get = square s.numDOF a.entry :=
      (Stored.square_cov_full h).symm
    obtain ⟨factor, inv, hrun, hfac⟩ := factorCovarianceMatrix_spec la
      (c := { c with
        numDOF := s.numDOF, covIsDiagonal := s.covIsDiagonal, covMatrix := s.covMatrix })
      (hrows.trans hdof.symm) (by rw [hsquare, hdof]; exact hb.2.2)
    have hpos : 0 < s.covMatrix.numRows := hrows ▸ hb.1
    exact ⟨_, (if_neg (hleft hdiag).not_gt).trans ((if_pos hpos).trans hrun), hdiag, hdof, hrows,
      hget, hfac⟩

end Writers

/-! ## The readers of one block -/

variable {c : CovarianceMatrix} {b : CovarianceBlock}

/-- The inverse square root that a block multiplies vectors with. -/
noncomputable def invSqrt (c : CovarianceMatrix) (i j : ℕ) : ℝ :=
  if c.covIsDiagonal then (if i = j then (√(c.covDiagonal.values i))⁻¹ else 0)
  else c.cholFactorInv.entry i j

theorem inverseSqrtTimes_eq (v : ℕ → ℝ) (i : Fin c.numDOF) :
    c.inverseSqrtTimes v i = (square c.numDOF c.invSqrt *ᵥ fun k => v k) i := by
  simp only [inverseSqrtTimes, mulVec, dotProduct, square_apply, invSqrt]
  split
  · simp [← Fin.ext_iff, div_eq_inv_mul]
  · exact Finset.sum_range fun k => c.cholFactorInv.entry i k * v k

theorem applyCovarianceInverseSqrt_view (v : RealVector) (start : ℕ) :
    c.applyCovarianceInverseSqrt (v.view start c.numDOF) =
      .ok ⟨c.numDOF, c.inverseSqrtTimes fun k => v.values (start + k)⟩ := if_neg (not_not.mpr rfl)

/-- Gradients are multiplied with the same map, row by row. -/
theorem gradients_eq_inverseSqrtTimes (g : RealMatrix) (start : ℕ) :
    ∃ r, c.applyCovarianceInverseSqrtToGradients (g.view start c.numDOF) = .ok r ∧
      r.numCols = c.numDOF ∧
      ∀ i j, r.entry i j = c.inverseSqrtTimes (fun k => g.entry i (start + k)) j := by
  refine ⟨_, if_neg (not_not.mpr rfl), rfl, fun i j => ?_⟩
  simp only [inverseSqrtTimes]
  split
  · rfl
  · exact Finset.sum_congr rfl fun k _ => mul_comm _ _

theorem inverseSqrtTimes_linear (v : ℕ → ℝ) (s : ℝ) (i : ℕ) :
    c.inverseSqrtTimes (fun k => v k * s) i = c.inverseSqrtTimes v i * s := by
  simp only [inverseSqrtTimes]
  split
  · ring
  · rw [Finset.sum_mul]
    exact Finset.sum_congr rfl fun k _ => (mul_assoc _ _ _).symm

/-- The map of a block is an inverse square root of its matrix. -/
theorem whitened (hb : b.Valid) (h : c.Stored b) :
    square c.numDOF c.invSqrt * square c.numDOF b.cov * (square c.numDOF c.invSqrt)ᵀ = 1 := by
  cases b with
  | diagonal d =>
    obtain ⟨hdiag, hdof, -, hval⟩ := h
    have hinv : square c.numDOF c.invSqrt =
        Matrix.diagonal fun i : Fin c.numDOF => (√(d.values i))⁻¹ := by
      ext i j
      simp [invSqrt, hdiag, diagonal_apply, Fin.ext_iff, hval i (hdof ▸ i.2)]
    rw [CovarianceBlock.square_cov_diagonal, hinv, diagonal_transpose, diagonal_mul_diagonal,
      diagonal_mul_diagonal, ← diagonal_one]
    congr 1
    funext i
    have hpos : 0 < d.values i := hb.2 i (hdof ▸ i.2)
    have hsqrt : √(d.values i) ≠ 0 := (Real.sqrt_pos.mpr hpos).ne'
    calc (√(d.values i))⁻¹ * d.values i * (√(d.values i))⁻¹
        = (√(d.values i))⁻¹ * (√(d.values i) * √(d.values i)) * (√(d.values i))⁻¹ := by
          rw [Real.mul_self_sqrt hpos.le]
      _ = 1 := by field_simp
  | full a =>
    have hcov := h.square_cov_full
    obtain ⟨hdiag, -, -, -, hfac⟩ := h
    have hinv : square c.numDOF c.invSqrt = square c.numDOF c.cholFactorInv.entry := by
      ext i j
      simp [invSqrt, hdiag]
    rw [hcov, hinv, ← hfac.factor, ← Matrix.mul_assoc, hfac.inverse, Matrix.one_mul,
      ← transpose_mul, hfac.inverse, transpose_one]

theorem getMainDiagonal_eq (h : c.Stored b) {i : ℕ} (hi : i < c.numDOF) :
    c.getMainDiagonal.values i = b.cov i i := by
  cases b with
  | diagonal d =>
    obtain ⟨hdiag, hdof, -, hval⟩ := h
    simp [getMainDiagonal, hdiag, CovarianceBlock.cov, hval i (hdof ▸ hi)]
  | full a =>
    obtain ⟨hdiag, hdof, -, hget, -⟩ := h
    simp [getMainDiagonal, hdiag, CovarianceBlock.cov, hget i (hdof ▸ hi) i (hdof ▸ hi)]

theorem asCorrelation_eq (hb : b.Valid) (h : c.Stored b) {i j : ℕ} (hi : i < c.numDOF)
    (hj : j < c.numDOF) :
    c.asCorrelation.get i j = b.cov i j / (√(b.cov i i) * √(b.cov j j)) := by
  have hdof := h.numDOF_eq
  by_cases hij : i = j
  · subst hij
    have hpos := hb.cov_diag_pos (hdof ▸ hi)
    rw [Real.mul_self_sqrt hpos.le, div_self hpos.ne', RealSymMatrix.get, max_self, min_self]
    exact if_pos rfl
  · have hne : max i j ≠ min i j := by omega
    have hlt : min i j < max i j := by omega
    rw [RealSymMatrix.get, asCorrelation]
    simp only [if_neg hne]
    cases b with
    | diagonal d =>
      have hzero : CovarianceBlock.cov (.diagonal d) i j = 0 := if_neg hij
      rw [if_pos h.1, hzero, zero_div]
    | full a =>
      obtain ⟨hdiag, hrows, -, hget, -⟩ := h
      have hi' : i < a.numRows := hrows ▸ hi
      have hj' : j < a.numRows := hrows ▸ hj
      rw [if_neg (by simp [hdiag]), if_pos hlt]
      rcases le_total i j with hle | hle
      · have hcomm : a.entry i j = a.entry j i := hb.cov_comm (b := .full a) hi' hj'
        rw [max_eq_right hle, min_eq_left hle, hget j hj' i hi', hget i hi' i hi',
          hget j hj' j hj', div_div, mul_comm (√_), ← hcomm]
        rfl
      · rw [max_eq_left hle, min_eq_right hle, hget j hj' j hj', hget i hi' i hi',
          hget i hi' j hj', div_div]
        rfl

theorem determinant_eq_prod (c : CovarianceMatrix) :
    c.determinant = ∏ i : Fin c.numDOF, if c.covIsDiagonal then c.covDiagonal.values i
      else c.covCholFactor.get i i * c.covCholFactor.get i i := by
  rw [determinant, foldl_range_mul, one_mul]
  exact Finset.prod_range _

theorem determinant_eq (h : c.Stored b) : c.determinant = (square c.numDOF b.cov).det := by
  rw [determinant_eq_prod]
  cases b with
  | diagonal d =>
    obtain ⟨hdiag, hdof, -, hval⟩ := h
    rw [CovarianceBlock.square_cov_diagonal, det_diagonal]
    exact Finset.prod_congr rfl fun i _ => by rw [if_pos hdiag, hval i (hdof ▸ i.2)]
  | full a =>
    have hcov := h.square_cov_full
    obtain ⟨hdiag, -, -, -, hfac⟩ := h
    have htri : (square c.numDOF c.covCholFactor.lowerTriangle).IsLowerTriangular :=
      fun i j hij => if_neg (not_le.mpr hij)
    rw [hcov, ← hfac.factor, det_mul, det_transpose, det_of_isLowerTriangular _ htri,
      ← Finset.prod_mul_distrib]
    exact Finset.prod_congr rfl fun i _ => by simp [hdiag, RealSymMatrix.lowerTriangle]

theorem denseCovariance_diagonal {d : RealVector} (h : c.Stored (.diagonal d)) {i j : ℕ}
    (hi : i < c.numDOF) : c.denseCovariance.get i j = CovarianceBlock.cov (.diagonal d) i j := by
  obtain ⟨hdiag, hdof, -, hval⟩ := h
  rw [RealSymMatrix.get, denseCovariance, CovarianceBlock.cov]
  simp only [if_pos hdiag]
  by_cases hij : i = j
  · subst hij
    simp [hval i (hdof ▸ hi)]
  · rw [if_neg hij, if_neg (by omega)]

/-- The loop of a full block never reaches the diagonal. -/
theorem denseCovariance_full_diag {a : RealMatrix} (h : c.Stored (.full a)) (i : ℕ) :
    c.denseCovariance.get i i = 0 := by
  simp [RealSymMatrix.get, denseCovariance, h.1]

/-! ## Hessians -/

theorem inverseSqrtTimes_congr {u v : ℕ → ℝ} {i : ℕ} (hi : i < c.numDOF)
    (h : ∀ k < c.numDOF, u k = v k) : c.inverseSqrtTimes u i = c.inverseSqrtTimes v i := by
  simp only [inverseSqrtTimes]
  split
  · rw [h i hi]
  · exact Finset.sum_congr rfl fun k hk => by rw [h k (Finset.mem_range.mp hk)]

/-- Leaving a diagonal block alone because its first Hessian is absent changes nothing. -/
def SkipHarmless (c : CovarianceMatrix) (present : ℕ → Bool) (start : ℕ) : Prop :=
  present start = true ∨
    ∀ i < c.numDOF, present (start + i) = true → c.covDiagonal.values i = 1

/-- What the Hessian of residual `start + i` has become in a block that starts at `start`. -/
structure HessianMade (c : CovarianceMatrix) (present : ℕ → Bool) (rows : ℕ)
    (hessians : RealSymMatrixArray) (start i : ℕ) (r : RealSymMatrix) : Prop where
  numRows : r.numRows = (hessians.entry (start + i)).numRows
  skipped : present start = false → r = hessians.entry (start + i)
  mapped : present start = true → present (start + i) = true → ∀ a < rows, ∀ b < rows,
    r.get a b = c.inverseSqrtTimes (fun k => hessians.component present a b (start + k)) i

theorem HessianMade.congr {present : ℕ → Bool} {rows start i : ℕ} {s t : RealSymMatrixArray}
    {r : RealSymMatrix} (hi : i < c.numDOF)
    (h : ∀ k < c.numDOF, t.entry (start + k) = s.entry (start + k))
    (hr : c.HessianMade present rows t start i r) : c.HessianMade present rows s start i r where
  numRows := by rw [← h i hi]; exact hr.numRows
  skipped hp := by rw [← h i hi]; exact hr.skipped hp
  mapped hp hpi a ha b hb := by
    rw [hr.mapped hp hpi a ha b hb]
    exact inverseSqrtTimes_congr hi fun k hk => by
      simp only [RealSymMatrixArray.component, h k hk]

/-- The first Hessian of the block decides: without it the block is left alone. -/
theorem hessian_spec (t : RealSymMatrixArray) {start rows : ℕ} {present : ℕ → Bool}
    (hn : 0 < c.numDOF) (hsize : start + c.numDOF ≤ t.size) (hrows : 0 < rows)
    (hshape : ∀ i < c.numDOF,
      (t.entry (start + i)).numRows = if present (start + i) then rows else 0)
    (hcomplete : c.covIsDiagonal = false → ∀ i < c.numDOF, present (start + i) = present start) :
    ∃ t', c.applyCovarianceInverseSqrtToHessian t start = .ok t' ∧ t'.size = t.size ∧
      (∀ i < c.numDOF, c.HessianMade present rows t start i (t'.entry (start + i))) ∧
      ∀ m, m < start ∨ start + c.numDOF ≤ m → t'.entry m = t.entry m := by
  have hfirst : (t.entry start).numRows = if present start then rows else 0 := hshape 0 hn
  rw [applyCovarianceInverseSqrtToHessian]
  simp only [if_neg (show ¬ t.size - start < c.numDOF by omega)]
  cases hp : present start with
  | false =>
    have hzero : (t.entry start).numRows = 0 := by rw [hfirst, hp]; rfl
    rw [if_pos hzero]
    exact ⟨t, rfl, rfl, fun i _ => ⟨rfl, fun _ => rfl, fun h => by simp [hp] at h⟩, fun _ _ => rfl⟩
  | true =>
    rw [hp, if_pos rfl] at hfirst
    rw [if_neg (hfirst.trans_ne hrows.ne')]
    have hwindow : ∀ i < c.numDOF, start ≤ start + i ∧ start + i < start + c.numDOF := by omega
    have houtside : ∀ m, m < start ∨ start + c.numDOF ≤ m →
        ¬ (start ≤ m ∧ m < start + c.numDOF) := by omega
    cases hdiag : c.covIsDiagonal with
    | true =>
      refine ⟨_, if_pos rfl, rfl, fun i hi => ?_, fun m hm => if_neg (houtside m hm)⟩
      simp only [if_pos (hwindow i hi), Nat.add_sub_cancel_left]
      refine ⟨rfl, fun h => by simp [hp] at h, fun _ hpi a _ b _ => ?_⟩
      simp only [RealSymMatrix.get, inverseSqrtTimes, hdiag, if_true,
        RealSymMatrixArray.component, hpi]
      exact mul_one_div _ _
    | false =>
      have hall : ∀ k < c.numDOF, present (start + k) = true :=
        fun k hk => (hcomplete hdiag k hk).trans hp
      have hnone : ¬ ∃ k < c.numDOF, (t.entry (start + k)).numRows = 0 := by
        rintro ⟨k, hk, h⟩
        rw [hshape k hk, if_pos (hall k hk)] at h
        omega
      refine ⟨_, (if_neg (by simp)).trans (if_neg hnone), rfl, fun i hi => ?_,
        fun m hm => if_neg (houtside m hm)⟩
      simp only [if_pos (hwindow i hi), Nat.add_sub_cancel_left]
      refine ⟨rfl, fun h => by simp [hp] at h, fun _ _ a ha b hb => ?_⟩
      rw [RealSymMatrix.get, hfirst]
      simp only [if_pos (show max a b < rows ∧ min a b < rows by omega)]
      refine inverseSqrtTimes_congr hi fun k hk => ?_
      rw [RealSymMatrixArray.component, if_pos (hall k hk), RealSymMatrix.get, RealSymMatrix.get]
      congr 1 <;> omega

/-- The Hessian of a residual is what the map of the block makes of the components. -/
theorem HessianMade.get_eq {present : ℕ → Bool} {rows start i : ℕ} {hessians : RealSymMatrixArray}
    {r : RealSymMatrix} (hr : c.HessianMade present rows hessians start i r) (hi : i < c.numDOF)
    (hcomplete : c.covIsDiagonal = false → ∀ i < c.numDOF, present (start + i) = present start)
    (hskip : c.covIsDiagonal = true → c.SkipHarmless present start)
    (hp : present (start + i) = true) {a b : ℕ} (ha : a < rows) (hb : b < rows) :
    r.get a b = c.inverseSqrtTimes (fun k => hessians.component present a b (start + k)) i := by
  cases hfirst : present start with
  | true => exact hr.mapped hfirst hp a ha b hb
  | false =>
    cases hdiag : c.covIsDiagonal with
    | false =>
      rw [hcomplete hdiag i hi, hfirst] at hp
      cases hp
    | true =>
      have hone : c.covDiagonal.values i = 1 := by
        rcases hskip hdiag with h | h
        · rw [hfirst] at h
          cases h
        · exact h i hi hp
      rw [hr.skipped hfirst, inverseSqrtTimes, if_pos hdiag, hone, Real.sqrt_one, div_one,
        RealSymMatrixArray.component, if_pos hp]

end CovarianceMatrix

end Dakota
