import Dakota.Calibration.Cholesky
import Dakota.Lib.BlockLoop
import Mathlib.Analysis.SpecialFunctions.Log.Basic

/-!
# Experiment covariances

`CovarianceMatrix` and `ExperimentCovariance` of `src/src/ExperimentDataUtils.cpp`. A block is
either a diagonal or a full matrix with its Cholesky factor and the inverse of the factor; the
covariance of an experiment is a list of blocks, and each routine walks them with a running offset
and works through views.

* `setCovariance`, `copy`, `setCovarianceMatrices`, `assign`: the writers. What they do not set
  keeps what an earlier call left there.
* The rest are the readers: dense matrix, correlation, diagonal, determinant, and the inverse square
  root applied to vectors, gradients and Hessians.
-/

namespace Dakota

/-! ## One block -/

structure CovarianceMatrix where
  numDOF : ℕ := 0
  covMatrix : RealSymMatrix := {}
  covDiagonal : RealVector := {}
  covCholFactor : RealSymMatrix := {}
  cholFactorInv : RealMatrix := {}
  covIsDiagonal : Bool := false

namespace CovarianceMatrix

section Writers

variable (la : ExactCholesky)

/-- `invert_cholesky_factor` -/
def invertCholeskyFactor (c : CovarianceMatrix) : Except String CovarianceMatrix :=
  match la.trtri ⟨c.numDOF, c.numDOF, c.covCholFactor.lowerTriangle⟩ with
  | none => .error "Inverting the covariance Cholesky factor failed\n"
  | some inv => .ok { c with cholFactorInv := inv }

/-- `factor_covariance_matrix` -/
def factorCovarianceMatrix (c : CovarianceMatrix) : Except String CovarianceMatrix :=
  match la.potrf c.covMatrix with
  | none => .error "The covariance matrix is not positive definite\n"
  | some factor => invertCholeskyFactor la { c with covCholFactor := factor }

/-- `set_covariance(const RealMatrix&)`; of `cov` the lower triangle is read. -/
def setCovariance (c : CovarianceMatrix) (cov : RealMatrix) : Except String CovarianceMatrix :=
  if cov.numRows ≠ cov.numCols then .error "Covariance matrix must be square."
  else factorCovarianceMatrix la { c with
    numDOF := cov.numRows
    covMatrix := ⟨cov.numRows, cov.entry⟩
    covIsDiagonal := false }

/-- `set_covariance(const RealVector&)` -/
def setCovarianceDiagonal (c : CovarianceMatrix) (cov : RealVector) : CovarianceMatrix :=
  { c with covDiagonal := cov, covIsDiagonal := true, numDOF := cov.length }

/-- `set_covariance(Real)` -/
def setCovarianceScalar (c : CovarianceMatrix) (cov : ℝ) : CovarianceMatrix :=
  c.setCovarianceDiagonal ⟨1, fun _ => cov⟩

/-- `copy(source)`; a source with a diagonal, also one no longer in use, hands on nothing else. -/
def copy (c source : CovarianceMatrix) : Except String CovarianceMatrix :=
  let c := { c with numDOF := source.numDOF, covIsDiagonal := source.covIsDiagonal }
  if 0 < source.covDiagonal.length then .ok { c with covDiagonal := source.covDiagonal }
  else if 0 < source.covMatrix.numRows then
    factorCovarianceMatrix la { c with covMatrix := source.covMatrix }
  else .ok c

end Writers

variable (c : CovarianceMatrix)

/-- `dense_covariance`; for a full matrix the loop over `j` stops before the diagonal. -/
def denseCovariance : RealSymMatrix where
  numRows := c.numDOF
  lower i j :=
    if c.covIsDiagonal then (if i = j then c.covDiagonal.values i else 0)
    else if j < i then c.covMatrix.get i j else 0

/-- `as_correlation` -/
noncomputable def asCorrelation : RealSymMatrix where
  numRows := c.numDOF
  lower i j :=
    if i = j then 1
    else if c.covIsDiagonal then 0
    else if j < i then c.covMatrix.get i j / √(c.covMatrix.get i i) / √(c.covMatrix.get j j)
    else 0

/-- `get_main_diagonal` -/
def getMainDiagonal : RealVector where
  length := c.numDOF
  values i := if c.covIsDiagonal then c.covDiagonal.values i else c.covMatrix.get i i

/-- `determinant` -/
def determinant : ℝ :=
  (List.range c.numDOF).foldl (fun det i => det *
    if c.covIsDiagonal then c.covDiagonal.values i
    else c.covCholFactor.get i i * c.covCholFactor.get i i) 1

/-- `log_determinant` -/
noncomputable def logDeterminant : ℝ :=
  (List.range c.numDOF).foldl (fun logDet i => logDet +
    if c.covIsDiagonal then Real.log (c.covDiagonal.values i)
    else Real.log (c.covCholFactor.get i i) + Real.log (c.covCholFactor.get i i)) 0

/-- What `apply_covariance_inverse_sqrt` fills the result with. -/
noncomputable def inverseSqrtTimes (v : ℕ → ℝ) (i : ℕ) : ℝ :=
  if c.covIsDiagonal then v i / √(c.covDiagonal.values i)
  else ∑ k ∈ Finset.range c.numDOF, c.cholFactorInv.entry i k * v k

/-- `apply_covariance_inverse_sqrt` -/
noncomputable def applyCovarianceInverseSqrt (v : RealVector) : Except String RealVector :=
  if v.length ≠ c.numDOF then .error "Vector and covariance are incompatible for multiplication."
  else .ok ⟨c.numDOF, c.inverseSqrtTimes v.values⟩

/-- `apply_covariance_inverse` -/
noncomputable def applyCovarianceInverse (v : RealVector) : Except String ℝ := do
  let result ← c.applyCovarianceInverseSqrt v
  return ∑ i ∈ Finset.range result.length, result.values i * result.values i

/-- `apply_covariance_inverse_sqrt_to_gradients` -/
noncomputable def applyCovarianceInverseSqrtToGradients (gradients : RealMatrix) :
    Except String RealMatrix :=
  if gradients.numCols ≠ c.numDOF then
    .error "Gradients and covariance are incompatible for multiplication."
  else .ok {
    numRows := gradients.numRows
    numCols := c.numDOF
    entry i j :=
      if c.covIsDiagonal then gradients.entry i j / √(c.covDiagonal.values j)
      else ∑ k ∈ Finset.range c.numDOF, gradients.entry i k * c.cholFactorInv.entry j k }

/-- `apply_covariance_inverse_sqrt_to_hessian`, in place from `start` on; the size of the first
Hessian stands for that of all. -/
noncomputable def applyCovarianceInverseSqrtToHessian (hessians : RealSymMatrixArray)
    (start : ℕ) : Except String RealSymMatrixArray :=
  let numRows := (hessians.entry start).numRows
  if hessians.size - start < c.numDOF then
    .error "Hessians and covariance are incompatible for multiplication."
  else if numRows = 0 then .ok hessians
  else if c.covIsDiagonal then .ok { hessians with
    entry m :=
      if start ≤ m ∧ m < start + c.numDOF then
        ⟨(hessians.entry m).numRows, fun i j =>
          (hessians.entry m).lower i j * (1 / √(c.covDiagonal.values (m - start)))⟩
      else hessians.entry m }
  else if ∃ k < c.numDOF, (hessians.entry (start + k)).numRows = 0 then
    .error ("Error: all Hessians must be defined in " ++
      "CovarianceMatrix::apply_covariance_inverse_sqrt_to_hessian().")
  else .ok { hessians with
    entry m :=
      if start ≤ m ∧ m < start + c.numDOF then
        ⟨(hessians.entry m).numRows, fun i j =>
          if i < numRows ∧ j < numRows then
            c.inverseSqrtTimes (fun k => (hessians.entry (start + k)).get i j) (m - start)
          else (hessians.entry m).lower i j⟩
      else hessians.entry m }

end CovarianceMatrix

/-! ## The blocks of an experiment -/

structure ExperimentCovariance where
  covMatrices : List CovarianceMatrix := []
  numBlocks : ℕ := 0
  numDOF : ℕ := 0

/-- What a caller of `set_covariance_matrices` gives. -/
structure CovarianceInput where
  matrices : List RealMatrix := []
  diagonals : List RealVector := []
  scalars : List ℝ := []
  matrixMapIndices : List ℕ := []
  diagonalMapIndices : List ℕ := []
  scalarMapIndices : List ℕ := []

namespace ExperimentCovariance

section Writers

variable (la : ExactCholesky)

/-- One loop of `set_covariance_matrices`, over blocks of one kind with their indices. -/
def setBlocks {X : Type} (indexMap : String)
    (setBlock : CovarianceMatrix → X → Except String CovarianceMatrix) (dof : X → ℕ)
    (given : List (ℕ × X)) (cov : ExperimentCovariance) : Except String ExperimentCovariance :=
  given.foldlM (fun cov (index, x) =>
    if cov.numBlocks ≤ index then .error (indexMap ++ " was out of bounds.")
    else do
      let block ← setBlock (cov.covMatrices.getD index {}) x
      return { cov with
        covMatrices := cov.covMatrices.set index block
        numDOF := cov.numDOF + dof x }) cov

/-- `covMatrices_.resize(n)` -/
def resize (blocks : List CovarianceMatrix) (n : ℕ) : List CovarianceMatrix :=
  (List.range n).map fun i => blocks.getD i {}

/-- `set_covariance_matrices` -/
def setCovarianceMatrices (cov : ExperimentCovariance) (given : CovarianceInput) :
    Except String ExperimentCovariance :=
  if given.matrices.length ≠ given.matrixMapIndices.length then
    .error "must specify a index map for each full covariance matrix."
  else if given.diagonals.length ≠ given.diagonalMapIndices.length then
    .error "must specify a index map for each diagonal covariance matrix."
  else if given.scalars.length ≠ given.scalarMapIndices.length then
    .error "must specify a index map for each scalar covariance matrix."
  else do
    let numBlocks := given.matrixMapIndices.length + given.diagonalMapIndices.length +
      given.scalarMapIndices.length
    let cov : ExperimentCovariance := ⟨resize cov.covMatrices numBlocks, numBlocks, 0⟩
    let cov ← setBlocks "matrix_map_indices" (CovarianceMatrix.setCovariance la)
      RealMatrix.numRows (given.matrixMapIndices.zip given.matrices) cov
    let cov ← setBlocks "diagonal_map_indices" (fun c x => .ok (c.setCovarianceDiagonal x))
      RealVector.length (given.diagonalMapIndices.zip given.diagonals) cov
    let cov ← setBlocks "scalar_map_indices" (fun c x => .ok (c.setCovarianceScalar x))
      (fun _ => 0) (given.scalarMapIndices.zip given.scalars) cov
    return { cov with numDOF := cov.numDOF + given.scalars.length }

/-- `operator=` -/
def assign (cov source : ExperimentCovariance) : Except String ExperimentCovariance := do
  let blocks ← ((resize cov.covMatrices source.covMatrices.length).zip source.covMatrices).mapM
    fun (c, s) => c.copy la s
  return ⟨blocks, source.numBlocks, source.numDOF⟩

end Writers

variable (cov : ExperimentCovariance)

/-- `apply_experiment_covariance` -/
noncomputable def applyExperimentCovariance (v : RealVector) : Except String ℝ :=
  if v.length ≠ cov.numDOF then
    .error "apply_covariance_inverse: vector is inconsistent with covariance matrix"
  else forBlocks CovarianceMatrix.numDOF cov.covMatrices 0 fun result shift c => do
    return result + (← c.applyCovarianceInverse (v.view shift c.numDOF))

/-- `apply_experiment_covariance_inverse_sqrt` -/
noncomputable def applyInverseSqrt (v : RealVector) : Except String RealVector :=
  if v.length ≠ cov.numDOF then
    .error "apply_covariance_inverse_sqrt: vector is inconsistent with covariance matrix"
  else forBlocks CovarianceMatrix.numDOF cov.covMatrices ⟨v.length, fun _ => 0⟩
    fun result shift c => do
      return result.writeView shift (← c.applyCovarianceInverseSqrt (v.view shift c.numDOF))

/-- `apply_experiment_covariance_inverse_sqrt_to_gradients` -/
noncomputable def applyInverseSqrtToGradients (gradients : RealMatrix) :
    Except String RealMatrix :=
  if gradients.numCols ≠ cov.numDOF then
    .error ("apply_covariance_inverse_sqrt_to_gradients: gradients is inconsistent with " ++
      "covariance matrix")
  else forBlocks CovarianceMatrix.numDOF cov.covMatrices
    ⟨gradients.numRows, gradients.numCols, fun _ _ => 0⟩
    fun result shift c => do
      return result.writeView shift
        (← c.applyCovarianceInverseSqrtToGradients (gradients.view shift c.numDOF))

/-- The deep copy into an array that was empty; Hessians that are absent are not copied. -/
def deepCopy (hessians : RealSymMatrixArray) : RealSymMatrixArray where
  size := hessians.size
  entry m := if (hessians.entry m).numRows = 0 then {} else hessians.entry m

/-- `apply_experiment_covariance_inverse_sqrt_to_hessians` -/
noncomputable def applyInverseSqrtToHessians (hessians : RealSymMatrixArray) :
    Except String RealSymMatrixArray :=
  if hessians.size ≠ cov.numDOF then
    .error ("apply_covariance_inverse_sqrt_to_hessians: hessians is inconsistent with " ++
      "covariance matrix")
  else forBlocks CovarianceMatrix.numDOF cov.covMatrices (deepCopy hessians)
    fun result shift c => c.applyCovarianceInverseSqrtToHessian result shift

/-- `get_main_diagonal` -/
def getMainDiagonal : RealVector :=
  walkBlocks CovarianceMatrix.numDOF cov.covMatrices
    ⟨total CovarianceMatrix.numDOF cov.covMatrices, fun _ => 0⟩
    fun diagonal row c => diagonal.writeView row c.getMainDiagonal

/-- `if (a.numRows() != num_dof()) a.shape(num_dof());` -/
def reshaped (a : RealSymMatrix) : RealSymMatrix :=
  if a.numRows ≠ cov.numDOF then ⟨cov.numDOF, fun _ _ => 0⟩ else a

/-- `dense_covariance`; only the blocks are zeroed. -/
def denseCovariance (covMat : RealSymMatrix) : RealSymMatrix :=
  walkBlocks CovarianceMatrix.numDOF cov.covMatrices (cov.reshaped covMat)
    fun a row c => a.writeView row c.denseCovariance

/-- `as_correlation` -/
noncomputable def asCorrelation (corrMat : RealSymMatrix) : RealSymMatrix :=
  walkBlocks CovarianceMatrix.numDOF cov.covMatrices (cov.reshaped corrMat)
    fun a row c => a.writeView row c.asCorrelation

/-- `determinant` -/
def determinant : ℝ :=
  (List.range cov.numBlocks).foldl (fun det i => det * (cov.covMatrices.getD i {}).determinant) 1

/-- `log_determinant` -/
noncomputable def logDeterminant : ℝ :=
  (List.range cov.numBlocks).foldl
    (fun logDet i => logDet + (cov.covMatrices.getD i {}).logDeterminant) 0

end ExperimentCovariance

end Dakota
