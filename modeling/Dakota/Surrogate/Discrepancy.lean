import Dakota.Lib.Numerals
import Mathlib

/-!
# Discrepancy corrections

`DiscrepancyCorrection::compute` and `apply` (`src/src/DiscrepancyCorrection.cpp`), with local
Taylor series (`src/src/TaylorApproximation.cpp`) as the approximations of a discrepancy. The
calculator of discrepancies is outside the repository: it is a parameter.

* A loop over functions that reads and writes the entries of its function only is an operation on
  all of them. A symmetric matrix is a matrix, and a loop over its lower half is one over all of it.
* `uncorr_fns` and `uncorr_grads` are allocated without values: what they hold then is `Unset`.
-/

namespace Dakota.Surrogate

inductive CorrectionType where
  | additive
  | multiplicative
  | combined
deriving DecidableEq

structure PointVars (K D : Type) (d : ℕ) where
  continuous : Fin d → K
  discrete : D

/-- A response, with its request vector. -/
structure FnResponse (K : Type) (d : ℕ) where
  asv : ℕ → ℕ
  fns : ℕ → K
  grads : ℕ → Fin d → K
  hess : ℕ → Matrix (Fin d) (Fin d) K

/-- `Pecos::SurrogateDataResp` -/
structure DataResp (K : Type) (d : ℕ) where
  fn : K
  grad : Fin d → K
  hess : Matrix (Fin d) (Fin d) K

/-- `TaylorApproximation` with its anchor. -/
structure Taylor (K D : Type) (d : ℕ) where
  anchorVars : PointVars K D d
  anchorResp : DataResp K d

variable {K D : Type} [Field K] {d : ℕ}

namespace Taylor

variable (t : Taylor K D d) (bdo : ℕ) (vars : PointVars K D d)

def dist (i : Fin d) : K := vars.continuous i - t.anchorVars.continuous i

def value : K :=
  if bdo = 1 then t.anchorResp.fn
  else
    (if bdo &&& 1 ≠ 0 then t.anchorResp.fn else 0) +
      ∑ i, ((if bdo &&& 2 ≠ 0 then t.anchorResp.grad i * t.dist vars i else 0) +
        if bdo &&& 4 ≠ 0 then
          ∑ j, t.dist vars i * t.anchorResp.hess i j * t.dist vars j / 2
        else 0)

def gradient (i : Fin d) : K :=
  if bdo = 2 then t.anchorResp.grad i
  else
    (if bdo &&& 2 ≠ 0 then t.anchorResp.grad i else 0) +
      if bdo &&& 4 ≠ 0 then ∑ j, t.anchorResp.hess i j * t.dist vars j else 0

def hessian : Matrix (Fin d) (Fin d) K :=
  if bdo &&& 4 ≠ 0 then t.anchorResp.hess else 0

end Taylor

/-- `Pecos::DiscrepancyCalculator` and `Pecos::is_small`. -/
structure DiscrepancyCalculator (K : Type) (d : ℕ) where
  additiveFn : K → K → K
  additiveGrad : (Fin d → K) → (Fin d → K) → Fin d → K
  additiveHess : Matrix (Fin d) (Fin d) K → Matrix (Fin d) (Fin d) K → Matrix (Fin d) (Fin d) K
  multiplicativeFn : K → K → K
  multiplicativeGrad : K → (Fin d → K) → K → (Fin d → K) → Fin d → K
  multiplicativeHess : K → (Fin d → K) → Matrix (Fin d) (Fin d) K → K → (Fin d → K) →
    Matrix (Fin d) (Fin d) K → Matrix (Fin d) (Fin d) K
  checkMultiplicative : (ℕ → K) → (ℕ → K) → ℕ → Bool
  isSmall : K → Bool

/-- What an initialized correction does not change. -/
structure CorrectionSetup (K D : Type) (d : ℕ) where
  correctionType : CorrectionType
  correctionOrder : Fin 3
  surrogateFnIndices : Finset ℕ
  /-- `search_db` with `surrModel`, if it is not null. -/
  searchDb : Option (PointVars K D d → (ℕ → ℕ) → FnResponse K d)

/-- The data of `DiscrepancyCorrection` that `compute` sets. -/
structure CorrectionState (K D : Type) (d : ℕ) where
  correctionComputed : Bool
  badScalingFlag : Bool
  addCorrections : ℕ → Taylor K D d
  multCorrections : ℕ → Taylor K D d
  combineFactors : ℕ → K
  correctionPrevCenterPt : PointVars K D d
  truthFnsCenter : ℕ → K
  approxFnsCenter : ℕ → K
  approxGradsCenter : ℕ → Fin d → K
  truthFnsPrevCenter : ℕ → K
  approxFnsPrevCenter : ℕ → K

/-- What memory without values holds. -/
structure Unset (K : Type) (d : ℕ) where
  fns : ℕ → K
  grads : ℕ → Fin d → K

namespace CorrectionSetup

variable (c : CorrectionSetup K D d) (discrepCalc : DiscrepancyCalculator K d)

def computeAdditive : Bool := c.correctionType ≠ .multiplicative

def computeMultiplicative : Bool := c.correctionType ≠ .additive

def dataOrder : ℕ :=
  match c.correctionOrder with
  | 2 => 7
  | 1 => 3
  | 0 => 1

/-! ## Computing a correction -/

variable (s : CorrectionState K D d) (vars : PointVars K D d) (truth approx : FnResponse K d)

/-- The additive correction of a function. -/
def additiveData (i : ℕ) : DataResp K d where
  fn := if c.dataOrder &&& 1 ≠ 0 then discrepCalc.additiveFn (truth.fns i) (approx.fns i) else 0
  grad :=
    if c.dataOrder &&& 2 ≠ 0 then discrepCalc.additiveGrad (truth.grads i) (approx.grads i) else 0
  hess :=
    if c.dataOrder &&& 4 ≠ 0 then discrepCalc.additiveHess (truth.hess i) (approx.hess i) else 0

/-- The multiplicative correction of a function. -/
def multiplicativeData (i : ℕ) : DataResp K d where
  fn :=
    if c.dataOrder &&& 1 ≠ 0 then discrepCalc.multiplicativeFn (truth.fns i) (approx.fns i) else 0
  grad :=
    if c.dataOrder &&& 2 ≠ 0 then
      discrepCalc.multiplicativeGrad (truth.fns i) (truth.grads i) (approx.fns i) (approx.grads i)
    else 0
  hess :=
    if c.dataOrder &&& 4 ≠ 0 then
      discrepCalc.multiplicativeHess (truth.fns i) (truth.grads i) (truth.hess i) (approx.fns i)
        (approx.grads i) (approx.hess i)
    else 0

/-- The anchor variables of the first correction. -/
def anchorVars : PointVars K D d :=
  let first := (c.surrogateFnIndices.sort (· ≤ ·)).headD 0
  if c.computeAdditive || s.badScalingFlag then (s.addCorrections first).anchorVars
  else (s.multCorrections first).anchorVars

/-- The previous center data, for combined corrections. -/
def savePrevCenter : CorrectionState K D d :=
  if c.correctionType = .combined ∧ s.correctionComputed then
    { s with
      approxFnsPrevCenter := s.approxFnsCenter
      truthFnsPrevCenter := s.truthFnsCenter
      correctionPrevCenterPt := c.anchorVars s }
  else s

/-- The current center data. -/
def saveCenter : CorrectionState K D d :=
  let fallBack := c.computeMultiplicative && 1 ≤ c.correctionOrder.val && c.searchDb.isNone
  { s with
    truthFnsCenter := if c.correctionType = .combined then truth.fns else s.truthFnsCenter
    approxFnsCenter :=
      if c.correctionType = .combined ∨ fallBack then approx.fns else s.approxFnsCenter
    approxGradsCenter := if fallBack then approx.grads else s.approxGradsCenter }

/-- The corrections, after the test for functions near zero. -/
def storeCorrections : CorrectionState K D d :=
  let badScalingFlag := c.computeMultiplicative &&
    discrepCalc.checkMultiplicative truth.fns approx.fns c.correctionOrder
  { s with
    badScalingFlag := badScalingFlag
    addCorrections := fun i =>
      if (c.computeAdditive || badScalingFlag) ∧ i ∈ c.surrogateFnIndices then
        ⟨vars, c.additiveData discrepCalc truth approx i⟩
      else s.addCorrections i
    multCorrections := fun i =>
      if (c.computeMultiplicative && !badScalingFlag) ∧ i ∈ c.surrogateFnIndices then
        ⟨vars, c.multiplicativeData discrepCalc truth approx i⟩
      else s.multCorrections i }

/-- `apply_additive` to the values at the previous center. -/
def alphaCorrFn (i : ℕ) : K :=
  s.approxFnsPrevCenter i + (s.addCorrections i).value c.dataOrder s.correctionPrevCenterPt

/-- `apply_multiplicative` to the values at the previous center. -/
def betaCorrFn (i : ℕ) : K :=
  s.approxFnsPrevCenter i * (s.multCorrections i).value c.dataOrder s.correctionPrevCenterPt

/-- The combination factors, which match the truth value at the previous center. -/
def storeFactors (correctionComputed : Bool) : CorrectionState K D d :=
  { s with
    combineFactors := fun i =>
      if (c.correctionType = .combined ∧ correctionComputed ∧ s.badScalingFlag = false) ∧
          i ∈ c.surrogateFnIndices then
        let numer := s.truthFnsPrevCenter i - c.betaCorrFn s i
        let denom := c.alphaCorrFn s i - c.betaCorrFn s i
        if !discrepCalc.isSmall denom then numer / denom else 1
      else s.combineFactors i }

/-- `compute(vars, truth_response, approx_response)` -/
def compute : CorrectionState K D d :=
  let st := c.saveCenter (c.savePrevCenter s) truth approx
  let st := c.storeCorrections discrepCalc st vars truth approx
  let st := c.storeFactors discrepCalc st s.correctionComputed
  { st with correctionComputed := true }

/-! ## Applying a correction -/

variable (unset : Unset K d) (r : FnResponse K d)

/-- `apply_additive` -/
def applyAdditive : FnResponse K d :=
  let corr i := s.addCorrections i
  { r with
    fns := fun i =>
      if i ∈ c.surrogateFnIndices ∧ r.asv i &&& 1 ≠ 0 then
        r.fns i + (corr i).value c.dataOrder vars
      else r.fns i
    grads := fun i =>
      if i ∈ c.surrogateFnIndices ∧ 1 ≤ c.correctionOrder.val ∧ r.asv i &&& 2 ≠ 0 then
        r.grads i + (corr i).gradient c.dataOrder vars
      else r.grads i
    hess := fun i =>
      if i ∈ c.surrogateFnIndices ∧ c.correctionOrder = 2 ∧ r.asv i &&& 4 ≠ 0 then
        r.hess i + (corr i).hessian c.dataOrder
      else r.hess i }

/-- `fn_db_asv`: the value is needed, and not in the response. -/
def fnDbAsv (i : ℕ) : ℕ :=
  if i ∈ c.surrogateFnIndices ∧ r.asv i &&& 1 = 0 ∧
      ((r.asv i &&& 2 ≠ 0 ∧ 1 ≤ c.correctionOrder.val) ∨
        (r.asv i &&& 4 ≠ 0 ∧ c.correctionOrder = 2)) then 1
  else 0

/-- `grad_db_asv`: the gradient is needed, and not in the response. -/
def gradDbAsv (i : ℕ) : ℕ :=
  if i ∈ c.surrogateFnIndices ∧ r.asv i &&& 2 = 0 ∧ r.asv i &&& 4 ≠ 0 ∧
      1 ≤ c.correctionOrder.val then 2
  else 0

def fnDbSearch : Prop := ∃ i ∈ c.surrogateFnIndices, c.fnDbAsv r i ≠ 0

def gradDbSearch : Prop := ∃ i ∈ c.surrogateFnIndices, c.gradDbAsv r i ≠ 0

instance : Decidable (c.fnDbSearch r) := inferInstanceAs (Decidable (∃ i ∈ _, _))

instance : Decidable (c.gradDbSearch r) := inferInstanceAs (Decidable (∃ i ∈ _, _))

/-- `uncorr_fns`, after a search: other entries are not set. -/
def uncorrFns (i : ℕ) : K :=
  if c.fnDbAsv r i ≠ 0 then
    match c.searchDb with
    | none => s.approxFnsCenter i
    | some searchDb => (searchDb vars (c.fnDbAsv r)).fns i
  else unset.fns i

/-- `uncorr_grads`, after a search. -/
def uncorrGrads (i : ℕ) : Fin d → K :=
  if c.gradDbAsv r i ≠ 0 then
    match c.searchDb with
    | none => s.approxGradsCenter i
    | some searchDb => (searchDb vars (c.gradDbAsv r)).grads i
  else unset.grads i

/-- `approx_fn` in the loop of `apply_multiplicative`. -/
def approxFn (i : ℕ) : K :=
  if c.fnDbSearch r then c.uncorrFns s vars unset r i else r.fns i

/-- `approx_grad` in the correction of a Hessian. -/
def approxGrad (i : ℕ) : Fin d → K :=
  if c.gradDbSearch r then c.uncorrGrads s vars unset r i else r.grads i

/-- `apply_multiplicative`. Hessians are corrected before gradients, and these before values: all of
them use data that is not yet corrected. -/
def applyMultiplicative : FnResponse K d :=
  let fnCorr i := (s.multCorrections i).value c.dataOrder vars
  let gradCorr i := (s.multCorrections i).gradient c.dataOrder vars
  let hessCorr i := (s.multCorrections i).hessian c.dataOrder
  let approxGrad := c.approxGrad s vars unset r
  let approxFn := c.approxFn s vars unset r
  { r with
    hess := fun i =>
      if i ∈ c.surrogateFnIndices ∧ r.asv i &&& 4 ≠ 0 then
        match c.correctionOrder with
        | 2 => Matrix.of fun j k => r.hess i j k * fnCorr i + hessCorr i j k * approxFn i +
            gradCorr i j * approxGrad i k + gradCorr i k * approxGrad i j
        | 1 => Matrix.of fun j k => r.hess i j k * fnCorr i +
            gradCorr i j * approxGrad i k + gradCorr i k * approxGrad i j
        | 0 => Matrix.of fun j k => r.hess i j k * fnCorr i
      else r.hess i
    grads := fun i =>
      if i ∈ c.surrogateFnIndices ∧ r.asv i &&& 2 ≠ 0 then fun j =>
        if 1 ≤ c.correctionOrder.val then r.grads i j * fnCorr i + gradCorr i j * approxFn i
        else r.grads i j * fnCorr i
      else r.grads i
    fns := fun i =>
      if i ∈ c.surrogateFnIndices ∧ r.asv i &&& 1 ≠ 0 then r.fns i * fnCorr i else r.fns i }

/-- The combination of the two corrected responses. -/
def combine (add mult : FnResponse K d) : FnResponse K d :=
  let cf i := s.combineFactors i
  { r with
    fns := fun i =>
      if i ∈ c.surrogateFnIndices ∧ r.asv i &&& 1 ≠ 0 then
        cf i * add.fns i + (1 - cf i) * mult.fns i
      else r.fns i
    grads := fun i =>
      if i ∈ c.surrogateFnIndices ∧ r.asv i &&& 2 ≠ 0 then
        cf i • add.grads i + (1 - cf i) • mult.grads i
      else r.grads i
    hess := fun i =>
      if i ∈ c.surrogateFnIndices ∧ r.asv i &&& 4 ≠ 0 then
        cf i • add.hess i + (1 - cf i) • mult.hess i
      else r.hess i }

/-- `apply(vars, approx_response)` -/
def apply : FnResponse K d :=
  if !s.correctionComputed then r
  else if c.correctionType = .additive ∨ s.badScalingFlag then c.applyAdditive s vars r
  else if c.correctionType = .multiplicative then c.applyMultiplicative s vars unset r
  else c.combine s r (c.applyAdditive s vars r) (c.applyMultiplicative s vars unset r)

end CorrectionSetup

end Dakota.Surrogate
