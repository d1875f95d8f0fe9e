import Dakota.Calibration.CovarianceStore

/-!
# The views of an experiment covariance

`Holds` says that the blocks of an `ExperimentCovariance` hold a list of blocks, and `Holds.matrix`
is the matrix they stand for. Each reader walks the blocks with a running offset; what it makes of
block `k` stands at the positions of block `k`.

* `Holds.agree`: all views but the dense matrix describe `Holds.matrix`, full blocks included.
* `Holds.square_dense`: the dense matrix is assembled from the dense matrices of the blocks.
* `Holds.hessians_run`: what becomes of each Hessian.
-/

namespace Dakota

open Matrix

/-! ## What the views are to agree on -/

/-- The vector as `Matrix` has it. -/
def RealVector.toFun (v : RealVector) (n : ℕ) : Fin n → ℝ := fun i => v.values i

namespace ExperimentCovariance

/-- Where the block after `pre` starts. -/
abbrev startOf (pre : List CovarianceMatrix) : ℕ := total CovarianceMatrix.numDOF pre

/-- Vectors and gradients are multiplied with one matrix. -/
structure MapsWith (cov : ExperimentCovariance)
    (w : Matrix (Fin cov.numDOF) (Fin cov.numDOF) ℝ) : Prop where
  vectors : ∀ v : RealVector, v.length = cov.numDOF → ∃ r, cov.applyInverseSqrt v = .ok r ∧
    r.length = cov.numDOF ∧ r.toFun cov.numDOF = w *ᵥ v.toFun cov.numDOF
  gradients : ∀ g : RealMatrix, g.numCols = cov.numDOF →
    ∃ r, cov.applyInverseSqrtToGradients g = .ok r ∧ r.numRows = g.numRows ∧
      r.numCols = cov.numDOF ∧
      ∀ i (j : Fin cov.numDOF), r.entry i j = (w *ᵥ fun k => g.entry i k) j

/-- The Hessians of a full block are all there or all absent. -/
def FullBlocksComplete (cov : ExperimentCovariance) (present : ℕ → Bool) : Prop :=
  ∀ pre c post, cov.covMatrices = pre ++ c :: post → c.covIsDiagonal = false →
    ∀ i < c.numDOF, present (startOf pre + i) =
      present (startOf pre)

/-- The Hessians that `present` selects are there, with the given number of rows. -/
def HasHessians (cov : ExperimentCovariance) (present : ℕ → Bool) (rows : ℕ)
    (hessians : RealSymMatrixArray) : Prop :=
  hessians.size = cov.numDOF ∧
    ∀ m < cov.numDOF, (hessians.entry m).numRows = if present m then rows else 0

/-- Every component of the Hessians is multiplied with `w`, and what was absent stays so. -/
def HessiansMapWith (cov : ExperimentCovariance) (present : ℕ → Bool)
    (w : Matrix (Fin cov.numDOF) (Fin cov.numDOF) ℝ) : Prop :=
  cov.FullBlocksComplete present → ∀ rows hessians, 0 < rows →
    cov.HasHessians present rows hessians →
    ∃ r, cov.applyInverseSqrtToHessians hessians = .ok r ∧ cov.HasHessians present rows r ∧
      ∀ m : Fin cov.numDOF, present m → ∀ i < rows, ∀ j < rows,
        (r.entry m).get i j = (w *ᵥ fun k => hessians.component present i j k) m

/-- Views of the matrix `s`. -/
structure ViewsOf (cov : ExperimentCovariance)
    (s : Matrix (Fin cov.numDOF) (Fin cov.numDOF) ℝ) : Prop where
  quadratic : ∀ v : RealVector, v.length = cov.numDOF → cov.applyExperimentCovariance v =
    .ok (v.toFun cov.numDOF ⬝ᵥ s⁻¹ *ᵥ v.toFun cov.numDOF)
  squaredNorm : ∀ v : RealVector, v.length = cov.numDOF → ∃ r, cov.applyInverseSqrt v = .ok r ∧
    ∑ i : Fin cov.numDOF, r.values i ^ 2 = v.toFun cov.numDOF ⬝ᵥ s⁻¹ *ᵥ v.toFun cov.numDOF
  determinant : cov.determinant = s.det
  mainDiagonal : cov.getMainDiagonal.length = cov.numDOF ∧
    ∀ i : Fin cov.numDOF, cov.getMainDiagonal.values i = s i i
  correlation : (cov.asCorrelation {}).numRows = cov.numDOF ∧ ∀ i j : Fin cov.numDOF,
    (cov.asCorrelation {}).get i j = s i j / (√(s i i) * √(s j j))

/-! ## The readers, block by block -/

section Runs

variable (cov : ExperimentCovariance)

theorem inverseSqrt_run {v : RealVector} (hv : v.length = cov.numDOF) :
    ∃ r, cov.applyInverseSqrt v = .ok r ∧ r.length = cov.numDOF ∧
      ∀ pre c post, cov.covMatrices = pre ++ c :: post → ∀ i < c.numDOF,
        r.values (startOf pre + i) =
          c.inverseSqrtTimes (fun k => v.values (startOf pre + k)) i := by
  rw [applyInverseSqrt, if_neg (not_not.mpr hv)]
  exact forBlocks_window CovarianceMatrix.numDOF _ _ _ (fun (r : RealVector) i => r.values i)
    (fun r => r.length = cov.numDOF)
    (fun o c i x => x = c.inverseSqrtTimes (fun k => v.values (o + k)) i) hv
    fun pre c post t _ ht _ => by
      refine ⟨t.writeView (startOf pre) ⟨c.numDOF, _⟩, ?_, ht,
        fun i hi => RealVector.writeView_inside _ _ _ hi,
        fun j hj => RealVector.writeView_outside _ _ _ hj⟩
      rw [CovarianceMatrix.applyCovarianceInverseSqrt_view]
      rfl

theorem gradients_run {g : RealMatrix} (hg : g.numCols = cov.numDOF) :
    ∃ r, cov.applyInverseSqrtToGradients g = .ok r ∧
      (r.numRows = g.numRows ∧ r.numCols = cov.numDOF) ∧
      ∀ pre c post, cov.covMatrices = pre ++ c :: post → ∀ j < c.numDOF, ∀ i,
        r.entry i (startOf pre + j) =
          c.inverseSqrtTimes (fun k => g.entry i (startOf pre + k)) j := by
  rw [applyInverseSqrtToGradients, if_neg (not_not.mpr hg)]
  exact forBlocks_window CovarianceMatrix.numDOF _ _ _ (fun (r : RealMatrix) j i => r.entry i j)
    (fun r => r.numRows = g.numRows ∧ r.numCols = cov.numDOF)
    (fun o c j x => ∀ i, x i = c.inverseSqrtTimes (fun k => g.entry i (o + k)) j) ⟨rfl, hg⟩
    fun pre c post t _ ht _ => by
      obtain ⟨sub, hsub, hcols, hentry⟩ :=
        CovarianceMatrix.gradients_eq_inverseSqrtTimes (c := c) g (startOf pre)
      refine ⟨t.writeView (startOf pre) sub, ?_, ht, fun j hj i => ?_,
        fun j hj => ?_⟩
      · rw [hsub]
        rfl
      · exact (RealMatrix.writeView_inside _ _ _ _ (hcols.symm ▸ hj)).trans (hentry i j)
      · funext i
        exact RealMatrix.writeView_outside _ _ _ _ (hcols.symm ▸ hj)

/-- The quadratic form adds up the squares of what the inverse square root gives. -/
theorem experimentCovariance_run {v r : RealVector} (hv : v.length = cov.numDOF)
    (hr : ∀ pre c post, cov.covMatrices = pre ++ c :: post → ∀ i < c.numDOF,
      r.values (startOf pre + i) =
        c.inverseSqrtTimes (fun k => v.values (startOf pre + k)) i) :
    cov.applyExperimentCovariance v =
      .ok (∑ i ∈ Finset.range (startOf cov.covMatrices), r.values i * r.values i) := by
  rw [applyExperimentCovariance, if_neg (not_not.mpr hv)]
  obtain ⟨s, hrun, rfl⟩ := forBlocks_inv CovarianceMatrix.numDOF cov.covMatrices (0 : ℝ)
    (fun result shift c => do
      return result + (← c.applyCovarianceInverse (v.view shift c.numDOF)))
    (fun done s => s = ∑ i ∈ Finset.range (startOf done),
      r.values i * r.values i) (by simp) (by
      rintro pre c post s hbs rfl
      refine ⟨_, by
        rw [CovarianceMatrix.applyCovarianceInverse,
          CovarianceMatrix.applyCovarianceInverseSqrt_view]
        rfl, ?_⟩
      have hnext : startOf (pre ++ [c]) = startOf pre + c.numDOF := by simp [startOf]
      rw [hnext, Finset.sum_range_add]
      congr 1
      exact Finset.sum_congr rfl fun i hi => by
        rw [hr pre c post hbs i (Finset.mem_range.mp hi)])
  exact hrun

theorem mainDiagonal_run (pre : List CovarianceMatrix) (c : CovarianceMatrix)
    (post : List CovarianceMatrix) (h : cov.covMatrices = pre ++ c :: post) (i : ℕ)
    (hi : i < c.numDOF) :
    cov.getMainDiagonal.values (startOf pre + i) =
      c.getMainDiagonal.values i :=
  walkBlocks_window CovarianceMatrix.numDOF (fun (r : RealVector) i => r.values i)
    (fun _ c i x => x = c.getMainDiagonal.values i)
    (fun _ _ _ _ _ _ => ⟨fun _ hi => RealVector.writeView_inside _ _ _ hi,
      fun _ hj => RealVector.writeView_outside _ _ _ hj⟩) pre c post h i hi

theorem reshaped_empty_get (p q : ℕ) : (cov.reshaped {}).get p q = 0 := by
  rw [reshaped]
  split <;> rfl

theorem symBlocks_numRows (sub : CovarianceMatrix → RealSymMatrix) :
    (walkBlocks CovarianceMatrix.numDOF cov.covMatrices (cov.reshaped {})
      fun a row c => a.writeView row (sub c)).numRows = cov.numDOF := by
  refine walkBlocks_keep CovarianceMatrix.numDOF _ _ _
    (fun a : RealSymMatrix => a.numRows = cov.numDOF) ?_ fun _ _ _ ha => ha
  rw [reshaped]
  split
  · rfl
  · rename_i hrows
    exact not_not.mp hrows

/-- A symmetric matrix filled through views of its diagonal blocks, from zero. -/
theorem symBlocks_run (sub : CovarianceMatrix → RealSymMatrix)
    (hsub : ∀ c, (sub c).numRows = c.numDOF) (pre : List CovarianceMatrix) (c : CovarianceMatrix)
    (post : List CovarianceMatrix) (h : cov.covMatrices = pre ++ c :: post) (i : ℕ)
    (hi : i < c.numDOF) (q : ℕ) :
    (walkBlocks CovarianceMatrix.numDOF cov.covMatrices (cov.reshaped {})
      fun a row c => a.writeView row (sub c)).get (startOf pre + i) q =
    if startOf pre ≤ q ∧ q < startOf pre + c.numDOF then (sub c).get i (q - startOf pre)
    else 0 := by
  refine walkBlocks_window CovarianceMatrix.numDOF (fun (r : RealSymMatrix) p q => r.get p q)
    (fun o c i (x : ℕ → ℝ) =>
      ∀ q, x q = if o ≤ q ∧ q < o + c.numDOF then (sub c).get i (q - o) else 0)
    (fun pre c post t _ ht => ⟨fun i hi q => ?_, fun j hj => ?_⟩) pre c post h i hi q
  · by_cases hq : startOf pre ≤ q ∧ q < startOf pre + c.numDOF
    · obtain ⟨k, rfl⟩ := Nat.exists_eq_add_of_le hq.1
      rw [if_pos hq, Nat.add_sub_cancel_left]
      exact RealSymMatrix.writeView_inside _ _ _ (hsub c ▸ hi) (hsub c ▸ by omega)
    · rw [if_neg hq]
      calc (t.writeView (startOf pre) (sub c)).get (startOf pre + i) q
          = (t.writeView (startOf pre) (sub c)).get q (startOf pre + i) :=
            RealSymMatrix.get_comm _ _ _
        _ = t.get q (startOf pre + i) :=
            RealSymMatrix.writeView_outside _ _ _ (by rw [hsub]; omega)
        _ = t.get (startOf pre + i) q := RealSymMatrix.get_comm _ _ _
        _ = (cov.reshaped {}).get (startOf pre + i) q := congrFun (ht i hi) q
        _ = 0 := cov.reshaped_empty_get _ _
  · funext q
    exact RealSymMatrix.writeView_outside _ _ _ (hsub c ▸ hj)

end Runs

/-! ## The matrix of the blocks -/

/-- The object holds the blocks, one after the other. -/
structure Holds (cov : ExperimentCovariance) (blocks : List CovarianceBlock) : Prop where
  stored : List.Forall₂ CovarianceMatrix.Stored cov.covMatrices blocks
  valid : ∀ b ∈ blocks, b.Valid
  numBlocks_eq : cov.numBlocks = cov.covMatrices.length
  numDOF_eq : cov.numDOF = startOf cov.covMatrices

theorem startOf_eq_size {cs : List CovarianceMatrix} {bs : List CovarianceBlock}
    (h : List.Forall₂ CovarianceMatrix.Stored cs bs) :
    startOf cs = total CovarianceBlock.size bs := by
  induction h with
  | nil => rfl
  | cons hs _ ih =>
    rw [startOf] at ih
    rw [startOf, total_cons, total_cons, hs.numDOF_eq, ih]

namespace Holds

variable {cov : ExperimentCovariance} {blocks : List CovarianceBlock} (h : cov.Holds blocks)
include h

/-- The positions of the residuals: a block and a position in it. -/
def position : (Σ k : Fin cov.covMatrices.length, Fin (cov.covMatrices.get k).numDOF) ≃
    Fin cov.numDOF :=
  (place CovarianceMatrix.numDOF cov.covMatrices).trans (finCongr h.numDOF_eq.symm)

theorem position_val (k : Fin cov.covMatrices.length) (i : Fin (cov.covMatrices.get k).numDOF) :
    (h.position ⟨k, i⟩ : ℕ) = startOf (cov.covMatrices.take k) + i := place_val _ _ k i

/-- A position in another block is not inside block `k`. -/
theorem position_apart {k l : Fin cov.covMatrices.length} (hkl : k ≠ l)
    (j : Fin (cov.covMatrices.get l).numDOF) :
    ¬ (startOf (cov.covMatrices.take k) ≤ h.position ⟨l, j⟩ ∧
      h.position ⟨l, j⟩ < startOf (cov.covMatrices.take k) + (cov.covMatrices.get k).numDOF) := by
  rintro ⟨hle, hlt⟩
  obtain ⟨m, hm⟩ := Nat.exists_eq_add_of_le hle
  have hmk : m < (cov.covMatrices.get k).numDOF := by omega
  have hsame : h.position ⟨l, j⟩ = h.position ⟨k, ⟨m, hmk⟩⟩ := Fin.ext (by rw [hm, position_val])
  exact hkl (congrArg Sigma.fst (h.position.injective hsame)).symm

/-- What block `k` holds. -/
def block (k : Fin cov.covMatrices.length) : CovarianceBlock :=
  blocks.get (k.cast h.stored.length_eq)

theorem stored_block (k : Fin cov.covMatrices.length) :
    (cov.covMatrices.get k).Stored (h.block k) := h.stored.get k.2 (h.stored.length_eq ▸ k.2)

theorem valid_block (k : Fin cov.covMatrices.length) : (h.block k).Valid :=
  h.valid _ (List.get_mem _ _)

/-- The covariance that the blocks stand for. -/
noncomputable def matrix : Matrix (Fin cov.numDOF) (Fin cov.numDOF) ℝ :=
  assemble h.position fun k => square _ (h.block k).cov

/-- What vectors are multiplied with. -/
noncomputable def root : Matrix (Fin cov.numDOF) (Fin cov.numDOF) ℝ :=
  assemble h.position fun k => square _ (cov.covMatrices.get k).invSqrt

theorem whitened : h.root * h.matrix * h.rootᵀ = 1 := by
  rw [root, matrix, assemble_transpose, assemble_mul, assemble_mul, ← assemble_one h.position]
  congr 1
  funext k
  exact CovarianceMatrix.whitened (h.valid_block k) (h.stored_block k)

theorem root_mulVec (v : ℕ → ℝ) (k : Fin cov.covMatrices.length)
    (i : Fin (cov.covMatrices.get k).numDOF) :
    (h.root *ᵥ fun q => v q) (h.position ⟨k, i⟩) = (cov.covMatrices.get k).inverseSqrtTimes
      (fun m => v (startOf (cov.covMatrices.take k) + m)) i := by
  rw [root, assemble_mulVec, CovarianceMatrix.inverseSqrtTimes_eq]
  simp only [position_val]

/-- A vector is multiplied with `root` when each block multiplies its own stretch. -/
theorem eq_root_mulVec {v r : ℕ → ℝ}
    (hr : ∀ pre c post, cov.covMatrices = pre ++ c :: post → ∀ i < c.numDOF,
      r (startOf pre + i) = c.inverseSqrtTimes (fun k => v (startOf pre + k)) i)
    (p : Fin cov.numDOF) : r p = (h.root *ᵥ fun q => v q) p := by
  obtain ⟨⟨k, i⟩, rfl⟩ := h.position.surjective p
  rw [root_mulVec, position_val, hr _ _ _ (eq_take_get_drop cov.covMatrices k) i i.2]

theorem mapsWith : cov.MapsWith h.root where
  vectors v hv := by
    obtain ⟨r, hrun, hlen, hr⟩ := cov.inverseSqrt_run hv
    exact ⟨r, hrun, hlen, funext (h.eq_root_mulVec hr)⟩
  gradients g hg := by
    obtain ⟨r, hrun, ⟨hrows, hcols⟩, hr⟩ := cov.gradients_run hg
    exact ⟨r, hrun, hrows, hcols, fun i =>
      h.eq_root_mulVec fun pre c post hc j hj => hr pre c post hc j hj i⟩

theorem square_symBlocks (sub : CovarianceMatrix → RealSymMatrix)
    (hsub : ∀ c, (sub c).numRows = c.numDOF) :
    square cov.numDOF (walkBlocks CovarianceMatrix.numDOF cov.covMatrices (cov.reshaped {})
      fun a row c => a.writeView row (sub c)).get =
    assemble h.position fun k => square _ (sub (cov.covMatrices.get k)).get := by
  refine eq_assemble _ (fun k i j => ?_) fun k l i j hkl => ?_
  · rw [square_apply, position_val, position_val,
      symBlocks_run cov sub hsub _ _ _ (eq_take_get_drop cov.covMatrices k) i i.2,
      if_pos (by omega), Nat.add_sub_cancel_left, square_apply]
  · rw [square_apply, position_val, position_val,
      symBlocks_run cov sub hsub _ _ _ (eq_take_get_drop cov.covMatrices k) i i.2, if_neg]
    exact h.position_val l j ▸ h.position_apart hkl j

/-- The dense matrix has the dense matrices of the blocks. -/
theorem square_dense : square cov.numDOF (cov.denseCovariance {}).get =
    assemble h.position fun k => square _ (cov.covMatrices.get k).denseCovariance.get :=
  h.square_symBlocks _ fun _ => rfl

theorem matrix_same (k : Fin cov.covMatrices.length) (i j : Fin (cov.covMatrices.get k).numDOF) :
    h.matrix (h.position ⟨k, i⟩) (h.position ⟨k, j⟩) = (h.block k).cov i j := by
  rw [matrix, assemble_same, square_apply]

theorem correlation_eq (p q : Fin cov.numDOF) : (cov.asCorrelation {}).get p q =
    h.matrix p q / (√(h.matrix p p) * √(h.matrix q q)) := by
  have hrun : (cov.asCorrelation {}).get p q = assemble h.position
      (fun k => square _ (cov.covMatrices.get k).asCorrelation.get) p q :=
    congrFun (congrFun (h.square_symBlocks CovarianceMatrix.asCorrelation fun _ => rfl) p) q
  rw [hrun]
  obtain ⟨⟨k, i⟩, rfl⟩ := h.position.surjective p
  obtain ⟨⟨l, j⟩, rfl⟩ := h.position.surjective q
  by_cases hkl : k = l
  · subst hkl
    rw [assemble_same, square_apply, matrix_same, matrix_same, matrix_same]
    exact CovarianceMatrix.asCorrelation_eq (h.valid_block k) (h.stored_block k) i.2 j.2
  · rw [assemble_apart _ _ _ _ hkl, matrix, assemble_apart _ _ _ _ hkl, zero_div]

theorem determinant_eq : cov.determinant = h.matrix.det := by
  rw [ExperimentCovariance.determinant, foldl_range_mul, one_mul, h.numBlocks_eq, matrix,
    assemble_det, Finset.prod_range]
  refine Finset.prod_congr rfl fun k _ => ?_
  rw [← CovarianceMatrix.determinant_eq (h.stored_block k)]
  simp

/-- All the views but the dense matrix are views of `matrix`, with full blocks too. -/
theorem viewsOf : cov.ViewsOf h.matrix where
  quadratic v hv := by
    obtain ⟨r, -, -, hr⟩ := cov.inverseSqrt_run hv
    rw [cov.experimentCovariance_run hv hr, whitened_quadratic h.whitened, ← h.numDOF_eq,
      Finset.sum_range]
    congr 1
    exact Finset.sum_congr rfl fun p _ => by rw [h.eq_root_mulVec hr p]; rfl
  squaredNorm v hv := by
    obtain ⟨r, hrun, -, hr⟩ := cov.inverseSqrt_run hv
    refine ⟨r, hrun, ?_⟩
    rw [whitened_quadratic h.whitened]
    exact Finset.sum_congr rfl fun p _ => by rw [h.eq_root_mulVec hr p, sq]; rfl
  determinant := h.determinant_eq
  mainDiagonal := by
    refine ⟨?_, fun p => ?_⟩
    · exact walkBlocks_keep CovarianceMatrix.numDOF _ _ _
        (fun r : RealVector => r.length = cov.numDOF) h.numDOF_eq.symm fun _ _ _ hr => hr
    · obtain ⟨⟨k, i⟩, rfl⟩ := h.position.surjective p
      rw [position_val, matrix_same,
        cov.mainDiagonal_run _ _ _ (eq_take_get_drop cov.covMatrices k) i i.2]
      exact CovarianceMatrix.getMainDiagonal_eq (h.stored_block k) i.2
  correlation := ⟨cov.symBlocks_numRows _, h.correlation_eq⟩

/-- The matrix depends on the blocks only. -/
theorem matrix_eq_covOf : h.matrix = square cov.numDOF (CovarianceBlock.covOf blocks) := by
  have hstart : ∀ k : Fin cov.covMatrices.length, startOf (cov.covMatrices.take k) =
      total CovarianceBlock.size (blocks.take k) :=
    fun k => startOf_eq_size (List.forall₂_take k h.stored)
  have hsplit : ∀ k : Fin cov.covMatrices.length,
      blocks = blocks.take k ++ h.block k :: blocks.drop (k + 1) :=
    fun k => eq_take_get_drop blocks (k.cast h.stored.length_eq)
  have hrow : ∀ k (i : Fin (cov.covMatrices.get k).numDOF) q,
      CovarianceBlock.covOf blocks (h.position ⟨k, i⟩) q =
        if startOf (cov.covMatrices.take k) ≤ q ∧
          q < startOf (cov.covMatrices.take k) + (cov.covMatrices.get k).numDOF then
          (h.block k).cov i (q - startOf (cov.covMatrices.take k))
        else 0 := fun k i q => by
    have hsize := (h.stored_block k).numDOF_eq
    have hcov := CovarianceBlock.covOf_row (blocks.take k) (h.block k) (blocks.drop (k + 1))
      (i.2.trans_eq hsize) q
    rw [← hsplit k, ← hstart, ← hsize] at hcov
    rw [position_val]
    exact hcov
  refine (eq_assemble _ (fun k i j => ?_) fun k l i j hkl => ?_).symm
  · rw [square_apply, hrow, position_val, if_pos (by omega), Nat.add_sub_cancel_left, square_apply]
  · rw [square_apply, hrow, if_neg (h.position_apart hkl j)]

/-- Without full blocks the dense matrix is the one they stand for. -/
theorem square_dense_eq (hdiag : ∀ c ∈ cov.covMatrices, c.covIsDiagonal = true) :
    square cov.numDOF (cov.denseCovariance {}).get = h.matrix := by
  rw [h.square_dense, matrix]
  congr 1
  funext k
  ext i j
  have hstored := h.stored_block k
  have hk := hdiag _ (List.get_mem cov.covMatrices k)
  rw [square_apply, square_apply]
  cases hb : h.block k with
  | diagonal d =>
    rw [hb] at hstored
    exact CovarianceMatrix.denseCovariance_diagonal hstored i.2
  | full a =>
    rw [hb] at hstored
    rw [hstored.1] at hk
    cases hk

/-! ## Hessians -/

theorem numDOF_pos {pre post : List CovarianceMatrix} {c : CovarianceMatrix}
    (hc : cov.covMatrices = pre ++ c :: post) : 0 < c.numDOF := by
  have hmem : c ∈ cov.covMatrices := by simp [hc]
  obtain ⟨k, rfl⟩ := List.get_of_mem hmem
  rw [(h.stored_block k).numDOF_eq]
  exact (h.valid_block k).size_pos

theorem end_le {pre post : List CovarianceMatrix} {c : CovarianceMatrix}
    (hc : cov.covMatrices = pre ++ c :: post) : startOf pre + c.numDOF ≤ cov.numDOF := by
  rw [h.numDOF_eq, hc]
  simp [startOf]

theorem hessians_run {present : ℕ → Bool} {rows : ℕ} {hessians : RealSymMatrixArray}
    (hcomplete : cov.FullBlocksComplete present) (hrows : 0 < rows)
    (hhas : cov.HasHessians present rows hessians) :
    ∃ r, cov.applyInverseSqrtToHessians hessians = .ok r ∧ r.size = cov.numDOF ∧
      ∀ pre c post, cov.covMatrices = pre ++ c :: post → ∀ i < c.numDOF,
        c.HessianMade present rows (deepCopy hessians) (startOf pre) i
          (r.entry (startOf pre + i)) := by
  rw [applyInverseSqrtToHessians, if_neg (not_not.mpr hhas.1)]
  refine forBlocks_window CovarianceMatrix.numDOF _ _ _
    (fun (r : RealSymMatrixArray) m => r.entry m) (fun r => r.size = cov.numDOF)
    (fun o c i x => c.HessianMade present rows (deepCopy hessians) o i x) hhas.1
    fun pre c post t hc ht hsame => ?_
  have hend := h.end_le hc
  obtain ⟨t', hrun, hsize, hmade, hout⟩ := CovarianceMatrix.hessian_spec t (h.numDOF_pos hc)
    (ht.symm ▸ hend) hrows (fun i hi => by
      rw [hsame i hi, deepCopy, ← hhas.2 (startOf pre + i) (by omega)]
      dsimp only
      split
      · rename_i hzero
        exact hzero.symm
      · rfl) (hcomplete pre c post hc)
  exact ⟨t', hrun, hsize.trans ht, fun i hi => (hmade i hi).congr hi hsame, hout⟩

omit h in
theorem deepCopy_entry {present : ℕ → Bool} {rows m : ℕ} {hessians : RealSymMatrixArray}
    (hrows : 0 < rows) (hhas : cov.HasHessians present rows hessians) (hm : m < cov.numDOF)
    (hp : present m = true) : (deepCopy hessians).entry m = hessians.entry m := by
  have hne : (hessians.entry m).numRows ≠ 0 := by
    rw [hhas.2 m hm, if_pos hp]
    exact hrows.ne'
  exact if_neg hne

omit h in
theorem deepCopy_component {present : ℕ → Bool} {rows m : ℕ} {hessians : RealSymMatrixArray}
    (hrows : 0 < rows) (hhas : cov.HasHessians present rows hessians) (hm : m < cov.numDOF)
    (a b : ℕ) :
    (deepCopy hessians).component present a b m = hessians.component present a b m := by
  rw [RealSymMatrixArray.component, RealSymMatrixArray.component]
  split
  · rename_i hp
    rw [deepCopy_entry hrows hhas hm hp]
  · rfl

/-- Hessians go through `root` when each block that is left alone has nothing to scale. -/
theorem hessiansMapWith {present : ℕ → Bool}
    (hskip : ∀ pre c post, cov.covMatrices = pre ++ c :: post → c.covIsDiagonal = true →
      c.SkipHarmless present (startOf pre)) : cov.HessiansMapWith present h.root := by
  intro hcomplete rows hessians hrows hhas
  obtain ⟨r, hrun, hsize, hmade⟩ := h.hessians_run hcomplete hrows hhas
  have hat : ∀ (k : Fin cov.covMatrices.length) (i : Fin (cov.covMatrices.get k).numDOF),
      (cov.covMatrices.get k).HessianMade present rows (deepCopy hessians)
        (startOf (cov.covMatrices.take k)) i (r.entry (h.position ⟨k, i⟩)) := by
    intro k i
    rw [h.position_val]
    exact hmade _ _ _ (eq_take_get_drop cov.covMatrices k) i i.2
  refine ⟨r, hrun, ⟨hsize, fun m hm => ?_⟩, fun m hp a ha b hb => ?_⟩
  · obtain ⟨⟨k, i⟩, hki⟩ := h.position.surjective ⟨m, hm⟩
    have hval : m = startOf (cov.covMatrices.take k) + i := by
      rw [← h.position_val, hki]
    have hrows' := (hat k i).numRows
    rw [hki, ← hval] at hrows'
    rw [hrows', ← hhas.2 m hm, deepCopy]
    dsimp only
    split
    · rename_i hzero
      exact hzero.symm
    · rfl
  · obtain ⟨⟨k, i⟩, rfl⟩ := h.position.surjective m
    have hc := eq_take_get_drop cov.covMatrices k
    rw [h.root_mulVec, (hat k i).get_eq i.2 (hcomplete _ _ _ hc) (hskip _ _ _ hc)
      (h.position_val k i ▸ hp) ha hb]
    refine CovarianceMatrix.inverseSqrtTimes_congr i.2 fun j hj => ?_
    have hend := h.end_le hc
    exact deepCopy_component hrows hhas (by omega) a b

/-- With diagonal blocks only, Hessians that go through the map of the vectors show that no block
left alone had anything to scale. -/
theorem skipHarmless {present : ℕ → Bool} {w : Matrix (Fin cov.numDOF) (Fin cov.numDOF) ℝ}
    (hdiag : ∀ c ∈ cov.covMatrices, c.covIsDiagonal = true) (hw : cov.MapsWith w)
    (hhess : cov.HessiansMapWith present w) {pre post : List CovarianceMatrix}
    {c : CovarianceMatrix} (hc : cov.covMatrices = pre ++ c :: post) :
    c.SkipHarmless present (startOf pre) := by
  cases hfirst : present (startOf pre) with
  | true => exact .inl hfirst
  | false =>
    refine .inr fun i hi hp => ?_
    have hm : startOf pre + i < cov.numDOF := by
      have := h.end_le hc
      omega
    have hcomplete : cov.FullBlocksComplete present := fun p d q hd hfull => by
      rw [hdiag d (by simp [hd])] at hfull
      cases hfull
    -- every Hessian is one by one, with entry one
    let hessians : RealSymMatrixArray :=
      ⟨cov.numDOF, fun m => if present m then ⟨1, fun _ _ => 1⟩ else {}⟩
    have hentry : ∀ m, present m = true → hessians.entry m = ⟨1, fun _ _ => 1⟩ :=
      fun m hpm => if_pos hpm
    have hhas : cov.HasHessians present 1 hessians := ⟨rfl, fun m _ => by
      simp only [hessians]
      split <;> rfl⟩
    obtain ⟨r, hrun, -, hmap⟩ := hhess hcomplete 1 hessians one_pos hhas
    obtain ⟨r', hrun', -, hmade⟩ := h.hessians_run hcomplete one_pos hhas
    rw [hrun] at hrun'
    cases hrun'
    -- the Hessian is as it was
    have hold : (r.entry (startOf pre + i)).get 0 0 = 1 := by
      rw [(hmade pre c post hc i hi).skipped hfirst, deepCopy_entry one_pos hhas hm hp, hentry _ hp]
      rfl
    -- the vector of its components is scaled
    let v : RealVector := ⟨cov.numDOF, hessians.component present 0 0⟩
    have hv : v.values (startOf pre + i) = 1 := by
      have hcomp : v.values (startOf pre + i) = (hessians.entry (startOf pre + i)).get 0 0 :=
        if_pos hp
      rw [hcomp, hentry _ hp]
      rfl
    obtain ⟨u, hu, -, hutofun⟩ := hw.vectors v rfl
    obtain ⟨u', hu', -, hblock⟩ := cov.inverseSqrt_run (v := v) rfl
    rw [hu] at hu'
    cases hu'
    have hscaled : u.values (startOf pre + i) = 1 / √(c.covDiagonal.values i) := by
      rw [hblock pre c post hc i hi, CovarianceMatrix.inverseSqrtTimes,
        if_pos (hdiag c (by simp [hc])), hv]
    have hsame : 1 / √(c.covDiagonal.values i) = 1 :=
      calc 1 / √(c.covDiagonal.values i) = u.values (startOf pre + i) := hscaled.symm
        _ = (w *ᵥ v.toFun cov.numDOF) ⟨_, hm⟩ := congrFun hutofun ⟨_, hm⟩
        _ = (r.entry (startOf pre + i)).get 0 0 :=
          (hmap ⟨_, hm⟩ hp 0 one_pos 0 one_pos).symm
        _ = 1 := hold
    rw [one_div, inv_eq_one] at hsame
    exact Real.sqrt_eq_one.mp hsame

end Holds

end ExperimentCovariance

end Dakota
