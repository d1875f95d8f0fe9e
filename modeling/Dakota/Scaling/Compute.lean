import Dakota.Lib.Bound
import Dakota.Lib.Outcome
import Dakota.Scaling.ResponseMap

/-!
# Computed scales

`compute_scaling`, `compute_scale_factor` and `initialize_scaling` of `ScalingModel`
(`src/src/ScalingModel.cpp`): the scales of the variables, the responses and the linear constraints,
and the bounds, targets and coefficients of the scaled problem.

* The arithmetic is exact, with infinite bounds (`Bound`). A bound beyond `BIG_REAL_BOUND` is absent
  (`presentLower`, `presentUpper`).
* A component has two bounds, a target or neither (`Quantity`), as the `auto_type` of its call.
* User multipliers are not zero.
-/

namespace Dakota

/-- `BIG_REAL_BOUND` and `SCALING_MIN_SCALE` -/
structure ScalingLimits (K : Type) [Field K] [LinearOrder K] where
  bigRealBound : K
  minScale : K
  minScale_pos : 0 < minScale
  one_lt_bigRealBound : 1 < bigRealBound

section

variable {K : Type} [Field K] [LinearOrder K]

namespace Bound

/-- `b / m` -/
def div (b : Bound K) (m : K) : Bound K :=
  match b with
  | negInf => if m < 0 then posInf else negInf
  | fin b => fin (b / m)
  | posInf => if m < 0 then negInf else posInf

/-- `b - o` -/
def sub (b : Bound K) (o : K) : Bound K :=
  match b with
  | negInf => negInf
  | fin b => fin (b - o)
  | posInf => posInf

/-- `std::log(b) / SCALING_LN_LOGBASE`. The logarithm of negative infinity is not a number; it is
not read. -/
def log (base : LogBase K) (b : Bound K) : Bound K :=
  match b with
  | negInf => negInf
  | fin b => fin (base.ln b / base.lnBase)
  | posInf => posInf

variable (lim : ScalingLimits K)

/-- `-BIG_REAL_BOUND < b` -/
def presentLower : Bound K → Bool
  | negInf => false
  | fin b => -lim.bigRealBound < b
  | posInf => true

/-- `b < BIG_REAL_BOUND` -/
def presentUpper : Bound K → Bool
  | negInf => true
  | fin b => b < lim.bigRealBound
  | posInf => false

end Bound

/-- What is scaled: the bounds, the target, or neither. -/
inductive Quantity (K : Type) where
  | bounds (lb ub : Bound K)
  | target (t : K)
  | neither

namespace Quantity

variable (lim : ScalingLimits K)

/-- The values that the bounds or the target allow. -/
def Satisfied (q : Quantity K) (y : K) : Prop :=
  match q with
  | bounds lb ub => (lb.presentLower lim → lb.le y) ∧ (ub.presentUpper lim → ub.ge y)
  | target t => y = t
  | neither => True

/-- The bounds are changed if they are meant to be there. -/
def mapPresent (f : Bound K → Bound K) (lb ub : Bound K) : Quantity K :=
  bounds (if lb.presentLower lim then f lb else lb) (if ub.presentUpper lim then f ub else ub)

def swapBounds : Quantity K → Quantity K
  | bounds lb ub => bounds ub lb
  | q => q

/-- Scaling by a characteristic value. -/
def valueScaled (m : K) : Quantity K → Quantity K
  | bounds lb ub =>
    let q := mapPresent lim (·.div m) lb ub
    if m < 0 then q.swapBounds else q
  | target t => target (t / m)
  | neither => neither

/-- Automatic scaling. -/
def autoScaled (m o : K) : Quantity K → Quantity K
  | bounds lb ub => mapPresent lim (fun b => (b.sub o).div m) lb ub
  | target t => target (t / m)
  | neither => neither

/-- Logarithmic scaling. -/
def logScaled (base : LogBase K) : Quantity K → Quantity K
  | bounds lb ub => mapPresent lim (·.log base) lb ub
  | target t => target (base.ln t / base.lnBase)
  | neither => neither

/-- `lbs[i] -= offset`, `ubs[i] -= offset`, `targets[i] -= offset` -/
def shifted (o : K) : Quantity K → Quantity K
  | bounds lb ub => bounds (lb.sub o) (ub.sub o)
  | target t => target (t - o)
  | neither => neither

end Quantity

variable [IsStrictOrderedRing K] (lim : ScalingLimits K)

/-- A computed multiplier, reset if it is too small. -/
def resetMultiplier (mult : K) : {m : K // m ≠ 0} :=
  if h : |mult| < lim.minScale then
    if 0 ≤ mult then ⟨lim.minScale, lim.minScale_pos.ne'⟩
    else ⟨-lim.minScale, neg_ne_zero.mpr lim.minScale_pos.ne'⟩
  else ⟨mult, abs_pos.mp (lim.minScale_pos.trans_le (not_lt.mp h))⟩

/-- `compute_scale_factor` for bounds: the multiplier and the offset, or no scaling. -/
def boundsScaleFactor (lb ub : Bound K) : Except ScalingError (Option ({m : K // m ≠ 0} × K)) :=
  match lb.presentLower lim, ub.presentUpper lim with
  | true, true =>
    match lb, ub with
    | .fin l, .fin u => .ok (some (resetMultiplier lim (u - l), l))
    | _, _ => .error .infiniteScale
  | true, false =>
    match lb with
    | .fin l => .ok (some (resetMultiplier lim l, 0))
    | _ => .error .infiniteScale
  | false, true =>
    match ub with
    | .fin u => .ok (some (resetMultiplier lim u, 0))
    | _ => .error .infiniteScale
  | false, false => .ok none

/-- `compute_scale_factor` for a target. -/
def targetScaleFactor (target : K) : Option {m : K // m ≠ 0} :=
  if |target| < lim.bigRealBound then some (resetMultiplier lim target) else none

/-- The multiplier and offset of automatic scaling. A call without bounds and targets disallows
it. -/
def autoFactor : Quantity K → Except ScalingError (Option ({m : K // m ≠ 0} × K))
  | .bounds lb ub => boundsScaleFactor lim lb ub
  | .target t => .ok ((targetScaleFactor lim t).map fun m => (m, 0))
  | .neither => .ok none

/-- The scale of a characteristic value. -/
def Scale.ofValue (m : {m : K // m ≠ 0}) : Scale K where
  value := true
  log := false
  multiplier := m
  offset := 0
  multiplier_ne := m.2
  multiplier_eq h := by cases h
  offset_eq h := by cases h

/-- A scale followed by an automatic one. -/
def Scale.addAuto (s : Scale K) (m : {m : K // m ≠ 0}) (o : K) : Scale K where
  value := true
  log := s.log
  multiplier := s.multiplier * m
  offset := s.offset + o * s.multiplier
  multiplier_ne := mul_ne_zero s.multiplier_ne m.2
  multiplier_eq h := by cases h
  offset_eq h := by cases h

/-- The characteristic value, for all types of scaling. -/
def valueStage (t : ScaleType) (scale : Option {m : K // m ≠ 0}) (q : Quantity K) :
    Scale K × Quantity K :=
  match scale with
  | some m => if t = .none then (.none, q) else (.ofValue m, q.valueScaled lim m)
  | none => (.none, q)

/-- `compute_scaling` of one component. -/
def computeScaling (base : LogBase K) (t : ScaleType) (scale : Option {m : K // m ≠ 0})
    (q : Quantity K) : Except ScalingError (Scale K × Quantity K) :=
  let (s, q) := valueStage lim t scale q
  match t with
  | .auto => do
    match ← autoFactor lim q with
    | some (m, o) => return (s.addAuto m o, q.autoScaled lim m o)
    | none => return (s, q)
  | .log => .ok ({ s with log := true }, q.logScaled lim base)
  | _ => .ok (s, q)

end

/-- `spec_types` or `scales`: of length 0, 1 or the number of components. -/
def specEntry {α : Type} (l : List α) (i : Nat) : Option α :=
  match l with
  | [] => none
  | [a] => some a
  | _ => l[i]?

/-- The specification of one kind of scaling. -/
structure ScalingSpec (K : Type) [Field K] where
  types : List ScaleType
  scales : List {m : K // m ≠ 0}

/-- `scaling_options`, with what the input parser accepts for linear constraints. -/
structure ScalingOptions (K : Type) [Field K] where
  cv : ScalingSpec K
  primary : ScalingSpec K
  nlnIneq : ScalingSpec K
  nlnEq : ScalingSpec K
  linIneq : ScalingSpec K
  linEq : ScalingSpec K
  linIneq_types : ∀ t ∈ linIneq.types, t = .value ∨ t = .auto
  linEq_types : ∀ t ∈ linEq.types, t = .value ∨ t = .auto

/-- What `initialize_scaling` reads of the sub-model. The columns of the linear constraints are
those of the continuous variables and then of the discrete ones. -/
structure NativeProblem (K : Type) where
  numCv : Nat
  numDiscrete : Nat
  numPrimary : Nat
  numNlnIneq : Nat
  numNlnEq : Nat
  numLinIneq : Nat
  numLinEq : Nat
  cvLowerBounds : Nat → Bound K
  cvUpperBounds : Nat → Bound K
  nlnIneqLowerBounds : Nat → Bound K
  nlnIneqUpperBounds : Nat → Bound K
  nlnEqTargets : Nat → K
  linIneqCoeffs : Nat → Nat → K
  linIneqLowerBounds : Nat → Bound K
  linIneqUpperBounds : Nat → Bound K
  linEqCoeffs : Nat → Nat → K
  linEqTargets : Nat → K

section

variable {K : Type} [Field K]

/-- The type and the user's multiplier of one component. -/
def ScalingSpec.type (spec : ScalingSpec K) (i : Nat) : ScaleType :=
  (specEntry spec.types i).getD .none

def ScalingSpec.scale (spec : ScalingSpec K) (i : Nat) : Option {m : K // m ≠ 0} :=
  specEntry spec.scales i

/-- The scaled problem. -/
structure ScaledProblem (K : Type) [Field K] where
  scaling : ScalingModel K
  cvs : List (Quantity K)
  nlnIneqs : List (Quantity K)
  nlnEqs : List (Quantity K)
  linIneqs : List (Quantity K)
  linIneqCoeffs : Nat → Nat → K
  linEqs : List (Quantity K)
  linEqCoeffs : Nat → Nat → K

/-- `lin_coeffs_modify_n2s`: columns beyond the continuous variables are kept. -/
def linCoeffsModifyN2s (coeffs : Nat → Nat → K) (cvScales linScales : List (Scale K)) (i j : Nat) :
    K :=
  match cvScales[j]?, linScales[i]? with
  | some cv, some lin => coeffs i j * (cv.multiplier / lin.multiplier)
  | _, _ => coeffs i j

/-- `A_i * cvScaleOffset` -/
def linScaleOffset (coeffs : Nat → Nat → K) (cvScales : List (Scale K)) (i : Nat) : K :=
  ∑ j ∈ Finset.range cvScales.length, coeffs i j * (cvScales.getD j .none).offset

variable [LinearOrder K] [IsStrictOrderedRing K] (lim : ScalingLimits K)

/-- `compute_scaling` -/
def computeScalings (base : LogBase K) (spec : ScalingSpec K) (num : Nat) (q : Nat → Quantity K) :
    Except ScalingError (List (Scale K × Quantity K)) :=
  (List.range num).mapM fun i => computeScaling lim base (spec.type i) (spec.scale i) (q i)

/-- The lengths that a specification may have. -/
def ScalingSpec.validLengths (spec : ScalingSpec K) (num : Nat) : Bool :=
  (spec.types.length = 0 || spec.types.length = 1 || spec.types.length = num) &&
    (spec.scales.length = 0 || spec.scales.length = 1 || spec.scales.length = num)

/-- `abort_handler` under a condition. -/
def abortIf (cond : Bool) (e : ScalingError) : Except ScalingError Unit :=
  if cond then .error e else .ok ()

/-- `initialize_scaling` -/
def initializeScaling (base : LogBase K) (p : NativeProblem K) (opts : ScalingOptions K) :
    Except ScalingError (ScaledProblem K) := do
  abortIf (opts.cv.types.contains .log && 0 < p.numLinIneq + p.numLinEq) .logWithLinear
  let cv ← computeScalings lim base opts.cv p.numCv fun i =>
    .bounds (p.cvLowerBounds i) (p.cvUpperBounds i)
  let primary ← computeScalings lim base opts.primary p.numPrimary fun _ => .neither
  let nlnIneq ← computeScalings lim base opts.nlnIneq p.numNlnIneq fun i =>
    .bounds (p.nlnIneqLowerBounds i) (p.nlnIneqUpperBounds i)
  let nlnEq ← computeScalings lim base opts.nlnEq p.numNlnEq fun i => .target (p.nlnEqTargets i)
  let cvScales := cv.map Prod.fst
  abortIf (!opts.linIneq.validLengths p.numLinIneq) .linearIneqScales
  let linIneq ← computeScalings lim base opts.linIneq p.numLinIneq fun i =>
    (Quantity.bounds (p.linIneqLowerBounds i) (p.linIneqUpperBounds i)).shifted
      (linScaleOffset p.linIneqCoeffs cvScales i)
  abortIf (!opts.linEq.validLengths p.numLinEq) .linearEqScales
  let linEq ← computeScalings lim base opts.linEq p.numLinEq fun i =>
    (Quantity.target (p.linEqTargets i)).shifted (linScaleOffset p.linEqCoeffs cvScales i)
  return {
    scaling := {
      base := base
      cvScales := cvScales
      responseScales := (primary ++ nlnIneq ++ nlnEq).map Prod.fst }
    cvs := cv.map Prod.snd
    nlnIneqs := nlnIneq.map Prod.snd
    nlnEqs := nlnEq.map Prod.snd
    linIneqs := linIneq.map Prod.snd
    linIneqCoeffs := linCoeffsModifyN2s p.linIneqCoeffs cvScales (linIneq.map Prod.fst)
    linEqs := linEq.map Prod.snd
    linEqCoeffs := linCoeffsModifyN2s p.linEqCoeffs cvScales (linEq.map Prod.fst) }

end

end Dakota
