import Dakota.Calibration.Covariance

/-!
# Experiment data

The routines of `ExperimentData` (`src/src/ExperimentData.cpp`) about misfits and multipliers of the
observation error. Assertions stop the run.

* `assignLoop`: the loops that `generateMultipliers` and `resid2multMap` share; the arrays are
  filled from the front.
* `buildGradientOfSumSquareResiduals`, `buildHessianOfSumSquareResiduals`: the request vector is
  read with the index of the residual in its experiment.
-/

namespace Dakota

/-- `CALIBRATE_...` -/
inductive MultiplierMode
  | none
  | one
  | perExper
  | perResp
  | both
deriving DecidableEq, Repr

structure ExperimentResponse where
  fieldLengths : List ℕ := []
  expDataCovariance : ExperimentCovariance := {}

/-- The experiments read, and the counts of `simulationSRD`. -/
structure ExperimentData where
  numScalarPrimary : ℕ
  numScalarResponses : ℕ
  numFieldResponseGroups : ℕ
  allExperiments : List ExperimentResponse
  scalar_le : numScalarPrimary ≤ numScalarResponses
  nonempty : allExperiments ≠ []
  /-- The fields are those of the simulation; their lengths are the experiment's own. -/
  fields : ∀ r ∈ allExperiments, r.fieldLengths.length = numFieldResponseGroups

/-- What the misfit routines read of a `Response`. -/
structure ResidualResponse where
  numDerivVars : ℕ
  functionValues : RealVector
  functionGradients : RealMatrix
  functionHessians : RealSymMatrixArray

namespace ExperimentData

variable (e : ExperimentData)

/-- `numExperiments` -/
def numExperiments : ℕ := e.allExperiments.length

/-- `simulationSRD.num_response_groups()`; counts the constraints too. -/
def numResponseGroups : ℕ := e.numScalarResponses + e.numFieldResponseGroups

/-- `allExperiments[exp].field_lengths()` -/
def fieldLengths (exp : ℕ) : List ℕ := (e.allExperiments.getD exp {}).fieldLengths

/-- `allExperiments[exp].shared_data().num_primary_functions()` -/
def numPrimaryFunctions (exp : ℕ) : ℕ := e.numScalarPrimary + (e.fieldLengths exp).sum

/-- `num_total_exppoints` -/
def numTotalExppoints : ℕ :=
  (List.range e.numExperiments).foldl (fun size exp => size + e.numPrimaryFunctions exp) 0

/-- `expOffsets` -/
def expOffsets : ℕ → ℕ
  | 0 => 0
  | exp + 1 => e.numPrimaryFunctions exp + expOffsets exp

/-- `logCovarianceDeterminant` -/
noncomputable def logCovarianceDeterminant : ℝ :=
  (List.range e.numExperiments).foldl (fun logDet exp =>
    logDet + (e.allExperiments.getD exp {}).expDataCovariance.logDeterminant) 0

/-! ## Misfit -/

/-- `residuals_view` -/
def residualsView (residuals : RealVector) (exp : ℕ) : RealVector :=
  residuals.view (e.expOffsets exp) (e.numPrimaryFunctions exp)

/-- `gradients_view` -/
def gradientsView (gradients : RealMatrix) (exp : ℕ) : RealMatrix :=
  gradients.view (e.expOffsets exp) (e.numPrimaryFunctions exp)

/-- `hessians_view` -/
def hessiansView (hessians : RealSymMatrixArray) (exp : ℕ) : RealSymMatrixArray where
  size := e.numPrimaryFunctions exp
  entry i :=
    if hessians.size = 0 then {}
    else if (hessians.entry (e.expOffsets exp + i)).numRows = 0 then {}
    else hessians.entry (e.expOffsets exp + i)

/-- `build_gradient_of_sum_square_residuals_from_function_data` -/
def gradientFromFunctionData (funcGradients : RealMatrix) (residuals : RealVector)
    (asrv : ℕ → ℕ) (ssrGradient : RealVector) : RealVector :=
  (List.range residuals.length).foldl (fun ssr r =>
    if asrv r &&& 3 = 3 then
      { ssr with values := fun v =>
          if v < funcGradients.numRows then
            ssr.values v + residuals.values r * funcGradients.entry v r
          else ssr.values v }
    else ssr) ssrGradient

/-- `build_gradient_of_sum_square_residuals` -/
def buildGradientOfSumSquareResiduals (resp : ResidualResponse) (asrv : ℕ → ℕ) : RealVector :=
  (List.range e.numExperiments).foldl (fun ssr exp =>
    gradientFromFunctionData (e.gradientsView resp.functionGradients exp)
      (e.residualsView resp.functionValues exp) asrv ssr) ⟨resp.numDerivVars, fun _ => 0⟩

/-- `build_hessian_of_sum_square_residuals_from_function_data`; the entry of row `k` and column `j`
with `j ≤ k`. -/
def hessianFromFunctionData (funcHessians : RealSymMatrixArray) (funcGradients : RealMatrix)
    (residuals : RealVector) (asrv : ℕ → ℕ) (ssrHessian : RealSymMatrix) : RealSymMatrix where
  numRows := ssrHessian.numRows
  lower k j :=
    if k < ssrHessian.numRows ∧ j ≤ k then
      (List.range residuals.length).foldl (fun hess i =>
        let hess := if asrv i &&& 2 ≠ 0 then
            hess + funcGradients.entry j i * funcGradients.entry k i
          else hess
        if asrv i &&& 5 = 5 then
          hess + residuals.values i * (funcHessians.entry i).get j k
        else hess) (ssrHessian.lower k j)
    else ssrHessian.lower k j

/-- `build_hessian_of_sum_square_residuals` -/
def buildHessianOfSumSquareResiduals (resp : ResidualResponse) (asrv : ℕ → ℕ) : RealSymMatrix :=
  (List.range e.numExperiments).foldl (fun ssr exp =>
    hessianFromFunctionData (e.hessiansView resp.functionHessians exp)
      (e.gradientsView resp.functionGradients exp) (e.residualsView resp.functionValues exp) asrv
      ssr) ⟨resp.numDerivVars, fun _ _ => 0⟩

/-! ## Multipliers -/

section Assign

variable {α : Type} (value : ℕ → α)

/-- The scalars and the fields of one experiment. The state is what is filled of the array, and
`multiplier_offset`. -/
def responseLoop (fieldLens : List ℕ) (st : List α × ℕ) : List α × ℕ :=
  let st := (List.range e.numScalarPrimary).foldl (fun (st : List α × ℕ) _ =>
    (st.1 ++ [value st.2], st.2 + 1)) st
  (List.range e.numFieldResponseGroups).foldl (fun (st : List α × ℕ) f =>
    ((List.range (fieldLens.getD f 0)).foldl (fun filled _ => filled ++ [value st.2]) st.1,
      st.2 + 1)) st

/-- The loops of `generate_multipliers` and `resid2mult_map` for several multipliers. -/
def assignLoop (mode : MultiplierMode) : List α :=
  match mode with
  | .perExper =>
    (List.range e.numExperiments).foldl (fun filled exp =>
      (List.range (e.numPrimaryFunctions exp)).foldl (fun filled _ => filled ++ [value exp])
        filled) []
  | .perResp =>
    (List.range e.numExperiments).foldl (fun filled exp =>
      (e.responseLoop value (e.fieldLengths exp) (filled, 0)).1) []
  | .both =>
    ((List.range e.numExperiments).foldl (fun st exp =>
      e.responseLoop value (e.fieldLengths exp) st) ([], 0)).1
  | _ => []

end Assign

/-- `assert` -/
def assert (p : Prop) [Decidable p] : Except String Unit :=
  if p then .ok () else .error "assertion failed"

/-- `generate_multipliers` -/
def generateMultipliers (multipliers : RealVector) (mode : MultiplierMode) :
    Except String (List ℝ) :=
  match mode with
  | .none => .ok (List.replicate e.numTotalExppoints 1)
  | .one => do
    assert (multipliers.length = 1)
    return List.replicate e.numTotalExppoints (multipliers.values 0)
  | .perExper => do
    assert (multipliers.length = e.numExperiments)
    return e.assignLoop multipliers.values .perExper
  | .perResp => do
    assert (multipliers.length = e.numResponseGroups)
    return e.assignLoop multipliers.values .perResp
  | .both => do
    assert (multipliers.length = e.numExperiments * e.numResponseGroups)
    return e.assignLoop multipliers.values .both

/-- `resid2mult_map` -/
def resid2multMap (mode : MultiplierMode) : Except String (List ℕ) :=
  match mode with
  | .none => .error "Error: cannot generate map for zero multipliers."
  | .one => .ok (List.replicate e.numTotalExppoints 0)
  | mode => .ok (e.assignLoop id mode)

/-- An array of counts. -/
structure SizetArray where
  size : ℕ
  entry : ℕ → ℕ

/-- `residuals_per_multiplier` -/
def residualsPerMultiplier (mode : MultiplierMode) : SizetArray :=
  match mode with
  | .perExper => ⟨e.numExperiments, (List.range e.numExperiments).foldl
      (fun counts exp => Function.update counts exp (e.numPrimaryFunctions exp)) fun _ => 0⟩
  | .perResp =>
    let counts := (List.range e.numScalarPrimary).foldl
      (fun counts s => Function.update counts s (counts s + e.numExperiments)) fun _ => 0
    ⟨e.numScalarPrimary + e.numFieldResponseGroups, (List.range e.numExperiments).foldl
      (fun counts exp => (List.range e.numFieldResponseGroups).foldl (fun counts f =>
        Function.update counts (e.numScalarPrimary + f)
          (counts (e.numScalarPrimary + f) + (e.fieldLengths exp).getD f 0)) counts) counts⟩
  | .both =>
    ⟨e.numExperiments * e.numResponseGroups, ((List.range e.numExperiments).foldl
      (fun st exp =>
        let st := (List.range e.numScalarPrimary).foldl (fun (st : (ℕ → ℕ) × ℕ) _ =>
          (Function.update st.1 st.2 1, st.2 + 1)) st
        (List.range e.numFieldResponseGroups).foldl (fun (st : (ℕ → ℕ) × ℕ) f =>
          (Function.update st.1 st.2 ((e.fieldLengths exp).getD f 0), st.2 + 1)) st)
      (fun _ => 0, 0)).1⟩
  | _ => ⟨0, fun _ => 0⟩

/-- `hyperparam_labels` -/
def hyperparamLabels (mode : MultiplierMode) : List String :=
  let numResp := e.numScalarPrimary + e.numFieldResponseGroups
  match mode with
  | .none => []
  | .one => ["CovMult"]
  | .perExper => (List.range e.numExperiments).map fun exp =>
      "CovMult" ++ "Exp" ++ toString (exp + 1)
  | .perResp => (List.range numResp).map fun resp => "CovMult" ++ "Resp" ++ toString (resp + 1)
  | .both => (List.range e.numExperiments).flatMap fun exp => (List.range numResp).map fun resp =>
      "CovMult" ++ "Exp" ++ toString (exp + 1) ++ "Resp" ++ toString (resp + 1)

/-! ## Half the logarithm of the determinant -/

/-- `half_log_cov_determinant` -/
noncomputable def halfLogCovDeterminant (multipliers : RealVector) (mode : MultiplierMode) :
    Except String ℝ :=
  match mode with
  | .none => .ok (e.logCovarianceDeterminant / 2)
  | .one => do
    assert (multipliers.length = 1)
    return (e.logCovarianceDeterminant +
      Real.log (multipliers.values 0) * e.numTotalExppoints) / 2
  | mode => do
    let expandMults ← e.generateMultipliers multipliers mode
    return (List.range e.numTotalExppoints).foldl
      (fun logDet resid => logDet + Real.log (expandMults.getD resid 0))
      e.logCovarianceDeterminant / 2

/-- `gradient[i] += x` -/
def addAt (gradient : RealVector) (i : ℕ) (x : ℝ) : RealVector :=
  { gradient with values := Function.update gradient.values i (gradient.values i + x) }

/-- `half_log_cov_det_gradient`, an update in place. -/
noncomputable def halfLogCovDetGradient (multipliers : RealVector) (mode : MultiplierMode)
    (hyperOffset : ℕ) (gradient : RealVector) : Except String RealVector :=
  match mode with
  | .none => .ok gradient
  | .one => do
    assert (multipliers.length = 1)
    return addAt gradient hyperOffset (e.numTotalExppoints / multipliers.values 0 / 2)
  | mode => do
    let residPerMult := e.residualsPerMultiplier mode
    assert (multipliers.length = residPerMult.size)
    return (List.range multipliers.length).foldl (fun gradient i =>
      addAt gradient (hyperOffset + i) (residPerMult.entry i / multipliers.values i / 2)) gradient

/-- `hessian(i, i) += x` -/
def addDiagonal (hessian : RealSymMatrix) (i : ℕ) (x : ℝ) : RealSymMatrix where
  numRows := hessian.numRows
  lower := Function.update hessian.lower i
    (Function.update (hessian.lower i) i (hessian.lower i i + x))

/-- `half_log_cov_det_hessian`, an update in place; the position does not move with the
multiplier. -/
noncomputable def halfLogCovDetHessian (multipliers : RealVector) (mode : MultiplierMode)
    (hyperOffset : ℕ) (hessian : RealSymMatrix) : Except String RealSymMatrix :=
  match mode with
  | .none => .ok hessian
  | .one => do
    assert (multipliers.length = 1)
    return addDiagonal hessian hyperOffset
      (-(e.numTotalExppoints : ℝ) / multipliers.values 0 / multipliers.values 0 / 2)
  | mode => do
    let residPerMult := e.residualsPerMultiplier mode
    assert (multipliers.length = residPerMult.size)
    return (List.range multipliers.length).foldl (fun hessian i =>
      addDiagonal hessian hyperOffset
        (-(residPerMult.entry i : ℝ) / multipliers.values i / multipliers.values i / 2)) hessian

end ExperimentData

end Dakota
