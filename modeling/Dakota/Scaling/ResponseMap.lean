import Dakota.Lib.IndexLoop
import Dakota.Scaling.TransformSet
import Dakota.Scaling.Types

/-!
# Scaled responses

`response_modify_n2s` and `response_modify_s2n` of `ScalingModel` (`src/src/ScalingModel.cpp`).

* Of the variables, they read the ids and values of the continuous ones (`ContinuousVars`); the
  active and the inactive variables are ranges of all of them that do not overlap.
* A row of a derivative is looked up by its variable id, and the row of the result and the scale of
  the variable are those at the position found (`rowIndex`).
-/

namespace Dakota

/-- The continuous variables of `native_vars`. -/
structure ContinuousVars (K : Type) where
  /-- `all_continuous_variable_ids()` and `all_continuous_variables()` -/
  allIds : List Nat
  allVars : List K
  cvStart : Nat
  numCv : Nat
  icvStart : Nat
  numIcv : Nat
  allIds_nodup : allIds.Nodup
  length_allVars : allVars.length = allIds.length
  cv_le : cvStart + numCv ≤ allIds.length
  disjoint : icvStart + numIcv ≤ cvStart ∨ cvStart + numCv ≤ icvStart

namespace ContinuousVars

variable {K : Type} (vars : ContinuousVars K)

/-- `continuous_variable_ids()` -/
def cvIds : List Nat := (vars.allIds.drop vars.cvStart).take vars.numCv

/-- `continuous_variables()` -/
def cvs : List K := (vars.allVars.drop vars.cvStart).take vars.numCv

/-- `inactive_continuous_variable_ids()` -/
def icvIds : List Nat := (vars.allIds.drop vars.icvStart).take vars.numIcv

/-- `inactive_continuous_variables()` -/
def icvs : List K := (vars.allVars.drop vars.icvStart).take vars.numIcv

/-- `var_ids` and `cdv` -/
def derivVars (dvv : List Nat) : List Nat × List K :=
  if dvv = vars.cvIds then (vars.cvIds, vars.cvs)
  else if dvv = vars.icvIds then (vars.icvIds, vars.icvs)
  else (vars.allIds, vars.allVars)

end ContinuousVars

/-- How the scaling of a model ends without a result. -/
inductive ScalingError where
  /-- An entry beyond the end of an array is written. -/
  | outOfRange
  /-- `Continuous design variables cannot be logarithmically scaled when linear constraints are
  present.` -/
  | logWithLinear
  /-- `linear_inequality_scale specifications must have length 0, 1, or ..` -/
  | linearIneqScales
  /-- `linear_equality_scale specifications must have length 0, 1, or ..` -/
  | linearEqScales
  /-- A scale is computed from an infinite bound. -/
  | infiniteScale
deriving DecidableEq, Repr

/-- The scales that `initialize_scaling` sets, for the continuous variables and the responses. -/
structure ScalingModel (K : Type) [Field K] where
  base : LogBase K
  cvScales : List (Scale K)
  responseScales : List (Scale K)

namespace ScalingModel

variable {K : Type} [Field K] (m : ScalingModel K)

/-- `cvScaleTypes[i]` and so on. -/
def cvScale (i : Nat) : Scale K := m.cvScales.getD i .none

/-- `responseScaleTypes[i]` and so on. -/
def responseScale (i : Nat) : Scale K := m.responseScales.getD i .none

/-- The maps of the recast model. A mapping is nonlinear if it has a logarithm. -/
def maps : RecastMaps :=
  .oneToOne (m.cvScales.any (·.log)) (m.responseScales.map (·.log))

/-- `xj_index`. It is within the rows of the derivatives and the scales. -/
def rowIndex (dvv varIds : List Nat) (j : Nat) : Except ScalingError Nat :=
  match varIds.idxOf? (dvv.getD j 0) with
  | some x => if x < dvv.length ∧ x < m.cvScales.length then .ok x else .error .outOfRange
  | none => .error .outOfRange

/-- `xj_index` and `xk_index` -/
def rowIndices (dvv varIds : List Nat) (jk : Nat × Nat) : Except ScalingError (Nat × Nat) := do
  let xj ← m.rowIndex dvv varIds jk.1
  let xk ← m.rowIndex dvv varIds jk.2
  return (xj, xk)

/-- The pairs `k <= j < n`, in the order of the loops. -/
def lowerPairs (n : Nat) : List (Nat × Nat) :=
  (List.range n).flatMap fun j => (List.range (j + 1)).map fun k => (j, k)

/-- The entry of a symmetric matrix that stores the entries `(j, k)` and `(k, j)`. -/
def symEntry (jk : Nat × Nat) : Nat × Nat := (max jk.1 jk.2, min jk.1 jk.2)

/-- The functions that are mapped. -/
def mapped (set : ActiveSet) (startOffset numResponses bit : Nat) : List Nat :=
  (List.range' startOffset numResponses).filter fun i => set.asks i bit

/-- The loops of both maps over the requested functions: each writes a value, or starts from a
copy of the derivatives of the source response and modifies its entries. -/
def mapResponse (set : ActiveSet) (startOffset numResponses : Nat) (target : Response K)
    (value : Nat → K) (gradient : Nat → Except ScalingError (Nat → K))
    (hessian : Nat → Except ScalingError (Nat × Nat → K)) : Except ScalingError (Response K) := do
  let grads ← modifyEach (fun i _ => gradient i) (fun i j => target.functionGradients j i)
    (mapped set startOffset numResponses 2)
  let hessians ← modifyEach (fun i _ => hessian i) (fun i jk => target.functionHessians i jk.1 jk.2)
    (mapped set startOffset numResponses 4)
  return { target with
    functionValues := fun i =>
      if i ∈ mapped set startOffset numResponses 1 then value i else target.functionValues i
    functionGradients := fun j i => grads i j
    functionHessians := fun i j k => hessians i (j, k) }

section NativeToScaled

/-- `recast_val` -/
def recastVal (i : Nat) (nativeVal : K) : K :=
  let s := m.responseScale i
  if s.log then m.base.ln ((nativeVal - s.offset) / s.multiplier) / m.base.lnBase
  else if s.value then (nativeVal - s.offset) / s.multiplier
  else nativeVal

/-- The map of a value is `modify_n2s`. -/
theorem recastVal_eq {i : Nat} {v : K} :
    m.recastVal i v = (m.responseScale i).n2s m.base v := by
  unfold recastVal
  rw [Scale.n2s_eq]
  by_cases hlog : (m.responseScale i).log
  · simp only [if_pos hlog]
  · simp only [if_neg hlog]
    by_cases hv : (m.responseScale i).value
    · rw [if_pos hv]
    · have hv' : (m.responseScale i).value = false := by simpa using hv
      rw [if_neg hv, Scale.multiplier_eq _ hv', Scale.offset_eq _ hv', sub_zero, div_one]

/-- `fn_divisor` -/
def fnDivisor (i : Nat) (nativeVal : K) : K :=
  let s := m.responseScale i
  if s.log then (nativeVal - s.offset) * m.base.lnBase
  else if s.value then s.multiplier
  else 1

/-- Multiplication by `d(x)/d(x_scaled)`. -/
def timesRate (x : Nat) (cdv entry : K) : K :=
  let s := m.cvScale x
  if s.log then entry * ((cdv - s.offset) * m.base.lnBase)
  else if s.value then entry * s.multiplier
  else entry

/-- `recast_hess(xj_index,xk_index)`, from the native value and gradient of the function. -/
def recastHess (i : Nat) (nativeVal : K) (grad cdv : Nat → K) (xjk : Nat × Nat) (entry : K) : K :=
  let (xj, xk) := xjk
  let s := m.responseScale i
  let c := m.cvScale xj
  let offsetFn := if s.log then nativeVal - s.offset else 1
  let entry :=
    if s.log then (entry - grad xj * grad xk / offsetFn) / (offsetFn * m.base.lnBase)
    else if s.value then entry / s.multiplier
    else entry
  let entry := m.timesRate xj (cdv xj) entry
  let entry := m.timesRate xk (cdv xk) entry
  if xj = xk ∧ c.log then
    if s.log then entry + grad xj * (cdv xj - c.offset) * m.base.lnBase / offsetFn
    else entry + grad xj * (cdv xj - c.offset) * m.base.lnBase * m.base.lnBase / s.multiplier
  else entry

/-- `response_modify_n2s`, for a `recast_response` with the active set of the native one. -/
def responseModifyN2s (nativeVars : ContinuousVars K) (native recast : Response K)
    (startOffset numResponses : Nat) : Except ScalingError (Response K) :=
  let set := native.activeSet
  let dvv := set.derivVarsVector
  let (varIds, cdvs) := nativeVars.derivVars dvv
  let cdv := fun x => cdvs.getD x 0
  mapResponse set startOffset numResponses recast
    (fun i => m.recastVal i (native.functionValues i))
    (fun i => modifyAt (m.rowIndex dvv varIds) id
      (fun x entry => m.timesRate x (cdv x) (entry / m.fnDivisor i (native.functionValues i)))
      (fun j => native.functionGradients j i) (List.range dvv.length))
    (fun i => modifyAt (m.rowIndices dvv varIds) symEntry
      (m.recastHess i (native.functionValues i) (fun x => native.functionGradients x i) cdv)
      (fun jk => native.functionHessians i jk.1 jk.2) (lowerPairs dvv.length))

end NativeToScaled

section ScaledToNative

variable (unscaleResp : Bool)

/-- `native_val` -/
def nativeVal (i : Nat) (scaledVal : K) : K :=
  let s := m.responseScale i
  if unscaleResp && s.log then m.base.pow scaledVal * s.multiplier + s.offset
  else if unscaleResp && s.value then scaledVal * s.multiplier + s.offset
  else scaledVal

/-- `df_dfscl` -/
def dfDfscl (i : Nat) (scaledVal : K) : K :=
  let s := m.responseScale i
  if unscaleResp && s.log then m.base.pow scaledVal * m.base.lnBase * s.multiplier
  else if unscaleResp && s.value then s.multiplier
  else 1

/-- Multiplication by `d(x_scaled)/d(x)`. -/
def dividedByRate (x : Nat) (cdv entry : K) : K :=
  let s := m.cvScale x
  if s.log then entry / ((cdv - s.offset) * m.base.lnBase)
  else if s.value then entry / s.multiplier
  else entry

/-- `native_hess(xj_index,xk_index)`, from the scaled value and gradient of the function. -/
def nativeHess (i : Nat) (scaledVal : K) (grad cdv : Nat → K) (xjk : Nat × Nat) (entry : K) : K :=
  let (xj, xk) := xjk
  let s := m.responseScale i
  let c := m.cvScale xj
  let dfDfscl := m.dfDfscl unscaleResp i scaledVal
  let entry :=
    if unscaleResp && s.log then (entry + grad xj * grad xk * m.base.lnBase) * dfDfscl
    else if unscaleResp && s.value then entry * dfDfscl
    else entry
  let entry := m.dividedByRate xj (cdv xj) entry
  let entry := m.dividedByRate xk (cdv xk) entry
  if xj = xk ∧ c.log then
    -- the quotient is multiplied by what follows, as `/` and `*` associate
    entry - dfDfscl * grad xj / (cdv xj - c.offset) * (cdv xj - c.offset) * m.base.lnBase
  else entry

/-- `response_modify_s2n`, for a `native_response` with the active set of the scaled one. -/
def responseModifyS2n (nativeVars : ContinuousVars K) (scaled native : Response K)
    (startOffset numResponses : Nat) : Except ScalingError (Response K) :=
  let set := scaled.activeSet
  let dvv := set.derivVarsVector
  let (varIds, cdvs) := nativeVars.derivVars dvv
  let cdv := fun x => cdvs.getD x 0
  mapResponse set startOffset numResponses native
    (fun i => m.nativeVal unscaleResp i (scaled.functionValues i))
    (fun i => modifyAt (m.rowIndex dvv varIds) id
      (fun x entry => m.dividedByRate x (cdv x)
        (entry * m.dfDfscl unscaleResp i (scaled.functionValues i)))
      (fun j => scaled.functionGradients j i) (List.range dvv.length))
    (fun i => modifyAt (m.rowIndices dvv varIds) symEntry
      (m.nativeHess unscaleResp i (scaled.functionValues i)
        (fun x => scaled.functionGradients x i) cdv)
      (fun jk => scaled.functionHessians i jk.1 jk.2) (lowerPairs dvv.length))

end ScaledToNative

end ScalingModel

end Dakota
