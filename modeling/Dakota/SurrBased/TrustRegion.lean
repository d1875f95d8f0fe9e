import Dakota.Response.Update

/-!
# The trust region

`update_trust_region_data` and `compute_trust_region_ratio` of `SurrBasedLocalMinimizer`
(`src/src/SurrBasedLocalMinimizer.cpp`) on the data of a level
(`src/src/SurrBasedLevelData.hpp`).

* `updateTrustRegionData_legal`: the bounds of the trust region, and how far they are from the
  center.
* `computeTrustRegionRatio_moves`: what a ratio test does to the center, the stored responses and
  the factor.
* `trustRegion_run`: both, along every run.
-/

namespace Dakota

/-- The active variables of a level; the minimizer changes the discrete ones only as a whole. -/
structure LevelVars (K D : Type) (n : ℕ) where
  cVars : Fin n → K
  discrete : D

/-- The bits of `trustRegionStatus` that are set and reset here. -/
structure TrustRegionStatus where
  newCandidate : Bool
  candidateAccepted : Bool
  newCenter : Bool
  centerBuilt : Bool
  newTrFactor : Bool
deriving DecidableEq

/-- `SurrBasedLevelData`. Responses that may be null are options; `initialize_data` makes those of
the center and of the candidate together. -/
structure LevelData (K D : Type) (n : ℕ) where
  varsStar : LevelVars K D n
  varsCenter : LevelVars K D n
  responseStarApproxCorrected : Response K
  responseCenterApproxCorrected : Response K
  responseStarTruthUncorrected : Option (Response K)
  responseCenterTruthUncorrected : Option (Response K)
  responseStarTruthCorrected : ℤ × Option (Response K)
  responseCenterTruthCorrected : ℤ × Option (Response K)
  trustRegionFactor : K
  trustRegionStatus : TrustRegionStatus
  softConvCount : ℕ
  trLowerBounds : Fin n → K
  trUpperBounds : Fin n → K
  uncorrected_isSome :
    responseCenterTruthUncorrected.isSome = responseStarTruthUncorrected.isSome
  corrected_isSome :
    responseCenterTruthCorrected.2.isSome = responseStarTruthCorrected.2.isSome

/-- `initialize_data`, with all other data as in the constructor. -/
def LevelData.initializeData {K D : Type} {n : ℕ} [One K] (vars : LevelVars K D n)
    (approxResp truthResp : Response K) (uncorr : Bool) (lower upper : Fin n → K) :
    LevelData K D n where
  varsStar := vars
  varsCenter := vars
  responseStarApproxCorrected := approxResp
  responseCenterApproxCorrected := approxResp
  responseStarTruthUncorrected := if uncorr then some truthResp else none
  responseCenterTruthUncorrected := if uncorr then some truthResp else none
  responseStarTruthCorrected := (0, some truthResp)
  responseCenterTruthCorrected := (0, some truthResp)
  trustRegionFactor := 1
  trustRegionStatus := ⟨false, false, true, false, true⟩
  softConvCount := 0
  trLowerBounds := lower
  trUpperBounds := upper
  uncorrected_isSome := rfl
  corrected_isSome := rfl

/-- The settings of the minimizer. -/
structure TrustRegionSettings (K : Type) [Field K] [LinearOrder K] (n : ℕ) where
  globalLowerBnds : Fin n → K
  globalUpperBnds : Fin n → K
  trRatioContractValue : K
  trRatioExpandValue : K
  gammaContract : K
  gammaExpand : K
  constraintTol : K
  convergenceTol : K
  dblMin : K
  softConvLimit : ℕ
  global_le : ∀ i, globalLowerBnds i ≤ globalUpperBnds i
  contract_le_expand : trRatioContractValue ≤ trRatioExpandValue
  gammaContract_pos : 0 < gammaContract
  gammaContract_lt_one : gammaContract < 1
  one_lt_gammaExpand : 1 < gammaExpand

/-- `acceptLogic`, with what the filter answers. -/
inductive AcceptLogic where
  | filter (accepts : Bool)
  | trRatio
deriving DecidableEq

/-- What a ratio test is given: the merit function in force, the logic, the flag of the caller, and
whether the changes of objective and variables are below the tolerances of slowed convergence. -/
structure RatioTest (K : Type) where
  merit : (ℕ → K) → K
  acceptLogic : AcceptLogic
  checkInterior : Bool
  slowed : Bool

namespace Response

variable {K : Type} [Zero K]

def setFunctionValues (r : Response K) (fnVals : ℕ → K) : Response K :=
  { r with functionValues := fnVals }

/-- `function_values` of a response that may be null. -/
def valuesOf (r : Option (Response K)) : ℕ → K := (r.map functionValues).getD 0

end Response

namespace LevelData

variable {K D : Type} {n : ℕ} [Field K] (d : LevelData K D n)

/-- The status bits after a new center. -/
def centerStatus (s : TrustRegionStatus) : TrustRegionStatus :=
  { s with newCandidate := false, candidateAccepted := false, newCenter := true,
           centerBuilt := false }

/-- `vars_center` -/
def setVarsCenter (vars : LevelVars K D n) : LevelData K D n :=
  { d with varsCenter := vars, trustRegionStatus := centerStatus d.trustRegionStatus }

/-- `scale_trust_region_factor` -/
def scaleTrustRegionFactor (val : K) : LevelData K D n :=
  { d with
    trustRegionFactor := d.trustRegionFactor * val
    trustRegionStatus := { d.trustRegionStatus with newTrFactor := true } }

/-- A stored center response is reset and takes the values of the candidate's, if that is not
null. -/
def fromStar (center star : Option (Response K)) : Option (Response K) :=
  match star with
  | none => center
  | some star => center.map fun c => c.reset.setFunctionValues star.functionValues

theorem isSome_fromStar {center star : Option (Response K)} :
    (fromStar center star).isSome = center.isSome := by
  cases star <;> simp [fromStar]

/-- The end of the branch of an accepted step: center variables, then the two responses, each if
the candidate's is there. -/
def acceptStar : LevelData K D n :=
  let d := d.setVarsCenter d.varsStar
  let d := { d with
    responseCenterTruthUncorrected :=
      fromStar d.responseCenterTruthUncorrected d.responseStarTruthUncorrected
    uncorrected_isSome := isSome_fromStar.trans d.uncorrected_isSome }
  { d with
    responseCenterTruthCorrected :=
      (if d.responseStarTruthCorrected.2.isSome then d.responseStarTruthCorrected.1
        else d.responseCenterTruthCorrected.1,
       fromStar d.responseCenterTruthCorrected.2 d.responseStarTruthCorrected.2)
    corrected_isSome := isSome_fromStar.trans d.corrected_isSome }

/-- The branch of a rejected step. -/
def rejectStar (gammaContract : K) : LevelData K D n :=
  { d with trustRegionStatus :=
      { d.trustRegionStatus with
        newCandidate := false, candidateAccepted := false, newCenter := false,
        centerBuilt := false } }.scaleTrustRegionFactor gammaContract

end LevelData

namespace TrustRegionSettings

variable {K D : Type} [Field K] [LinearOrder K] {n : ℕ} (m : TrustRegionSettings K n)

/-! ## The source -/

/-- The center variable after the two checks. -/
def clampCenter (lower upper center : K) : K :=
  let center := if center > upper then upper else center
  if center < lower then lower else center

/-- `tr_offset` -/
def trOffset (factor : K) (i : Fin n) : K :=
  factor / 2 * (m.globalUpperBnds i - m.globalLowerBnds i)

/-- `update_trust_region_data`: the passes of its loop do not depend on each other. -/
def updateTrustRegionData (parentLower parentUpper : Fin n → K) (d : LevelData K D n) :
    LevelData K D n :=
  let center i := clampCenter (parentLower i) (parentUpper i) (d.varsCenter.cVars i)
  let cvTruncation := ∃ i, d.varsCenter.cVars i > parentUpper i ∨
    (if d.varsCenter.cVars i > parentUpper i then parentUpper i else d.varsCenter.cVars i) <
      parentLower i
  let status := if cvTruncation then LevelData.centerStatus d.trustRegionStatus
    else d.trustRegionStatus
  { d with
    varsCenter := { d.varsCenter with cVars := center }
    trUpperBounds := fun i =>
      let upBound := center i + m.trOffset d.trustRegionFactor i
      if upBound ≤ parentUpper i then upBound else parentUpper i
    trLowerBounds := fun i =>
      let loBound := center i - m.trOffset d.trustRegionFactor i
      if loBound ≥ parentLower i then loBound else parentLower i
    trustRegionStatus := { status with newTrFactor := false } }

section Ratio

variable (t : RatioTest K) (d : LevelData K D n)

def meritCenterTruth : K := t.merit (Response.valuesOf d.responseCenterTruthCorrected.2)

def meritStarTruth : K := t.merit (Response.valuesOf d.responseStarTruthCorrected.2)

def numerator : K := meritCenterTruth t d - meritStarTruth t d

def denominator : K :=
  t.merit d.responseCenterApproxCorrected.functionValues -
    t.merit d.responseStarApproxCorrected.functionValues

/-- `tr_ratio` -/
def trRatio : K :=
  if |denominator t d| > m.dblMin then numerator t d / denominator t d else numerator t d

/-- `accept_step` -/
def acceptStep : Bool :=
  match t.acceptLogic with
  | .filter accepts => accepts
  | .trRatio => numerator t d > 0

/-- `boundary_pt_flag` -/
def boundaryPtFlag : Bool :=
  decide (∃ i, d.varsStar.cVars i > d.trUpperBounds i - m.constraintTol ∨
    d.varsStar.cVars i < d.trLowerBounds i + m.constraintTol)

/-- The size of the trust region after an accepted step. -/
def resize : LevelData K D n :=
  if m.trRatio t d ≤ m.trRatioContractValue then d.scaleTrustRegionFactor m.gammaContract
  else if |1 - m.trRatio t d| ≤ 1 - m.trRatioExpandValue then
    if t.checkInterior && !m.boundaryPtFlag d then d else d.scaleTrustRegionFactor m.gammaExpand
  else d

/-- `increment_soft_convergence_count` or `reset_soft_convergence_count`, from the merit values
before the step. -/
def softConvergence : ℕ :=
  let relative (x y : K) := if |y| > m.dblMin then |x / y| else |x|
  let relNumer := relative (numerator t d) (meritCenterTruth t d)
  let relDenom := relative (denominator t d)
    (t.merit d.responseCenterApproxCorrected.functionValues)
  if acceptStep t d then
    if m.softConvLimit > 1 then
      if numerator t d ≤ 0 ∨ relNumer < m.convergenceTol ∨ denominator t d ≤ 0 ∨
          relDenom < m.convergenceTol then d.softConvCount + 1
      else 0
    else if t.slowed then d.softConvCount + 1 else d.softConvCount
  else if m.softConvLimit > 1 then d.softConvCount + 1 else d.softConvCount

/-- `compute_trust_region_ratio`, without the updates of multipliers and penalties. -/
def computeTrustRegionRatio : LevelData K D n :=
  { (if acceptStep t d then (m.resize t d).acceptStar else d.rejectStar m.gammaContract) with
    softConvCount := m.softConvergence t d }

end Ratio

/-! ## Legal trust regions -/

/-- The trust region of `d'` for the center and the factor of `d`. -/
structure Legal (parentLower parentUpper : Fin n → K) (d d' : LevelData K D n) : Prop where
  center : ∀ i, d'.varsCenter.cVars i =
    max (parentLower i) (min (parentUpper i) (d.varsCenter.cVars i))
  parentLower_le : ∀ i, parentLower i ≤ d'.trLowerBounds i
  lower_le_center : ∀ i, d'.trLowerBounds i ≤ d'.varsCenter.cVars i
  center_le_upper : ∀ i, d'.varsCenter.cVars i ≤ d'.trUpperBounds i
  upper_le : ∀ i, d'.trUpperBounds i ≤ parentUpper i
  lower_side : ∀ i, d'.varsCenter.cVars i - d'.trLowerBounds i =
    min (d.trustRegionFactor / 2 * (m.globalUpperBnds i - m.globalLowerBnds i))
      (d'.varsCenter.cVars i - parentLower i)
  upper_side : ∀ i, d'.trUpperBounds i - d'.varsCenter.cVars i =
    min (d.trustRegionFactor / 2 * (m.globalUpperBnds i - m.globalLowerBnds i))
      (parentUpper i - d'.varsCenter.cVars i)

/-- What a ratio test does. -/
structure Moves (t : RatioTest K) (d d' : LevelData K D n) : Prop where
  accepted : acceptStep t d → d'.varsCenter = d.varsStar ∧
    d'.responseCenterTruthUncorrected.map (·.functionValues) =
      d.responseStarTruthUncorrected.map (·.functionValues) ∧
    d'.responseCenterTruthCorrected.2.map (·.functionValues) =
      d.responseStarTruthCorrected.2.map (·.functionValues) ∧
    (d.responseStarTruthCorrected.2.isSome →
      d'.responseCenterTruthCorrected.1 = d.responseStarTruthCorrected.1)
  rejected : ¬ acceptStep t d → d'.varsCenter = d.varsCenter ∧
    d'.responseCenterTruthUncorrected = d.responseCenterTruthUncorrected ∧
    d'.responseCenterTruthCorrected = d.responseCenterTruthCorrected
  merit_lt : t.acceptLogic = .trRatio → acceptStep t d →
    meritCenterTruth t d' < meritCenterTruth t d
  merit_le : t.acceptLogic = .trRatio → ¬ acceptStep t d →
    meritCenterTruth t d ≤ meritStarTruth t d
  contracts : ¬ acceptStep t d → d'.trustRegionFactor = d.trustRegionFactor * m.gammaContract
  resizes : acceptStep t d → d'.trustRegionFactor = d.trustRegionFactor ∨
    m.trRatio t d ≤ m.trRatioContractValue ∧
      d'.trustRegionFactor = d.trustRegionFactor * m.gammaContract ∨
    m.trRatioExpandValue ≤ m.trRatio t d ∧
      d'.trustRegionFactor = d.trustRegionFactor * m.gammaExpand
  kept : d'.trLowerBounds = d.trLowerBounds ∧ d'.trUpperBounds = d.trUpperBounds ∧
    d'.varsStar = d.varsStar ∧
    d'.responseStarTruthUncorrected = d.responseStarTruthUncorrected ∧
    d'.responseStarTruthCorrected = d.responseStarTruthCorrected

/-- The evaluations between two steps: they change the candidate, the responses and the status. -/
structure Evaluated (d d' : LevelData K D n) : Prop where
  varsCenter : d'.varsCenter = d.varsCenter
  trustRegionFactor : d'.trustRegionFactor = d.trustRegionFactor
  softConvCount : d'.softConvCount = d.softConvCount
  trLowerBounds : d'.trLowerBounds = d.trLowerBounds
  trUpperBounds : d'.trUpperBounds = d.trUpperBounds

/-- Runs of updates and ratio tests, with evaluations between them. -/
inductive Run (start : LevelData K D n) : LevelData K D n → Prop
  | start : Run start start
  | update {d : LevelData K D n} (parentLower parentUpper : Fin n → K)
      (hparent : ∀ i, parentLower i ≤ parentUpper i) (h : Run start d) :
      Run start (m.updateTrustRegionData parentLower parentUpper d)
  | evaluate {d d' : LevelData K D n} (h : Run start d) (hd' : Evaluated d d') : Run start d'
  | ratio {d : LevelData K D n} (t : RatioTest K) (h : Run start d) :
      Run start (m.computeTrustRegionRatio t d)

variable [IsStrictOrderedRing K] {m}

omit [Field K] [IsStrictOrderedRing K] in
theorem clampCenter_eq {lower upper : K} (h : lower ≤ upper) (center : K) :
    clampCenter lower upper center = max lower (min upper center) := by
  unfold clampCenter
  rcases lt_or_ge upper center with hu | hu
  · simp only [gt_iff_lt, if_pos hu, min_eq_left hu.le, max_eq_right h, if_neg h.not_gt]
  · simp only [gt_iff_lt, if_neg hu.not_gt, min_eq_right hu]
    split
    · rename_i hl
      rw [max_eq_left hl.le]
    · rename_i hl
      rw [max_eq_right (not_lt.mp hl)]

theorem trOffset_nonneg {factor : K} (h : 0 ≤ factor) (i : Fin n) : 0 ≤ m.trOffset factor i :=
  mul_nonneg (div_nonneg h zero_le_two) (sub_nonneg.mpr (m.global_le i))

/-- A truncated upper side. -/
theorem upper_side_eq (center bound offset : K) :
    (if center + offset ≤ bound then center + offset else bound) - center =
      min offset (bound - center) := by
  split
  · rename_i h
    rw [add_sub_cancel_left, min_eq_left (le_sub_iff_add_le'.mpr h)]
  · rename_i h
    rw [min_eq_right (sub_le_iff_le_add'.mpr (not_le.mp h).le)]

/-- A truncated lower side. -/
theorem lower_side_eq (center bound offset : K) :
    center - (if center - offset ≥ bound then center - offset else bound) =
      min offset (center - bound) := by
  split
  · rename_i h
    rw [sub_sub_cancel, min_eq_left (le_sub_comm.mp h)]
  · rename_i h
    rw [min_eq_right (sub_le_comm.mp (not_le.mp h).le)]

theorem updateTrustRegionData_legal {parentLower parentUpper : Fin n → K}
    (hparent : ∀ i, parentLower i ≤ parentUpper i) {d : LevelData K D n}
    (hfactor : 0 ≤ d.trustRegionFactor) :
    m.Legal parentLower parentUpper d (m.updateTrustRegionData parentLower parentUpper d) := by
  have hcenter (i : Fin n) :
      (m.updateTrustRegionData parentLower parentUpper d).varsCenter.cVars i =
        max (parentLower i) (min (parentUpper i) (d.varsCenter.cVars i)) :=
    clampCenter_eq (hparent i) _
  have hge (i : Fin n) : parentLower i ≤
      (m.updateTrustRegionData parentLower parentUpper d).varsCenter.cVars i :=
    (le_max_left _ _).trans_eq (hcenter i).symm
  have hle (i : Fin n) : (m.updateTrustRegionData parentLower parentUpper d).varsCenter.cVars i ≤
      parentUpper i :=
    (hcenter i).trans_le (max_le (hparent i) (min_le_left _ _))
  have hoffset (i : Fin n) : 0 ≤ m.trOffset d.trustRegionFactor i := trOffset_nonneg hfactor i
  have hlower (i : Fin n) := lower_side_eq
    ((m.updateTrustRegionData parentLower parentUpper d).varsCenter.cVars i) (parentLower i)
    (m.trOffset d.trustRegionFactor i)
  have hupper (i : Fin n) := upper_side_eq
    ((m.updateTrustRegionData parentLower parentUpper d).varsCenter.cVars i) (parentUpper i)
    (m.trOffset d.trustRegionFactor i)
  exact {
    center := hcenter
    lower_side := hlower
    upper_side := hupper
    parentLower_le := fun i =>
      (sub_le_sub_iff_left _).mp ((hlower i).trans_le (min_le_right _ _))
    lower_le_center := fun i =>
      sub_nonneg.mp ((hlower i).symm ▸ le_min (hoffset i) (sub_nonneg.mpr (hge i)))
    center_le_upper := fun i =>
      sub_nonneg.mp ((hupper i).symm ▸ le_min (hoffset i) (sub_nonneg.mpr (hle i)))
    upper_le := fun i =>
      (sub_le_sub_iff_right _).mp ((hupper i).trans_le (min_le_right _ _)) }

/-! ## Accepted and rejected steps -/

section Ratio

variable {t : RatioTest K} {d : LevelData K D n}

omit [LinearOrder K] [IsStrictOrderedRing K] in
theorem fromStar_values {center star : Option (Response K)} (h : center.isSome = star.isSome) :
    (LevelData.fromStar center star).map (·.functionValues) = star.map (·.functionValues) := by
  cases star with
  | none => exact congrArg _ (Option.isSome_eq_false_iff.mp h |> Option.isNone_iff_eq_none.mp)
  | some star =>
    obtain ⟨center, rfl⟩ := Option.isSome_iff_exists.mp h
    rfl

variable (m t d) in
/-- Only the factor and the status change. -/
theorem resize_cases : ∃ factor status,
    m.resize t d = { d with trustRegionFactor := factor, trustRegionStatus := status } ∧
      (factor = d.trustRegionFactor ∨
        m.trRatio t d ≤ m.trRatioContractValue ∧ factor = d.trustRegionFactor * m.gammaContract ∨
        m.trRatioExpandValue ≤ m.trRatio t d ∧
          factor = d.trustRegionFactor * m.gammaExpand) := by
  unfold resize
  split
  · rename_i hcontract
    exact ⟨_, _, rfl, .inr (.inl ⟨hcontract, rfl⟩)⟩
  · split
    · rename_i habs
      have hexpand : m.trRatioExpandValue ≤ m.trRatio t d := by
        have := (le_abs_self _).trans habs
        linarith
      split
      · exact ⟨_, _, rfl, .inl rfl⟩
      · exact ⟨_, _, rfl, .inr (.inr ⟨hexpand, rfl⟩)⟩
    · exact ⟨_, _, rfl, .inl rfl⟩

theorem acceptStep_trRatio (h : t.acceptLogic = .trRatio) :
    acceptStep t d ↔ meritStarTruth t d < meritCenterTruth t d := by
  simp [acceptStep, h, numerator]

omit [IsStrictOrderedRing K] in
theorem computeTrustRegionRatio_rejected (h : ¬ acceptStep t d) :
    m.computeTrustRegionRatio t d =
      { d.rejectStar m.gammaContract with softConvCount := m.softConvergence t d } := by
  simp only [computeTrustRegionRatio, if_neg h]

omit [IsStrictOrderedRing K] in
theorem computeTrustRegionRatio_accepted (h : acceptStep t d) :
    m.computeTrustRegionRatio t d =
      { (m.resize t d).acceptStar with softConvCount := m.softConvergence t d } := by
  simp only [computeTrustRegionRatio, if_pos h]

variable (m t d) in
theorem computeTrustRegionRatio_moves : m.Moves t d (m.computeTrustRegionRatio t d) where
  accepted := by
    intro hacc
    obtain ⟨factor, status, hres, -⟩ := resize_cases m t d
    rw [computeTrustRegionRatio_accepted hacc, hres]
    refine ⟨rfl, fromStar_values d.uncorrected_isSome, fromStar_values d.corrected_isSome, ?_⟩
    exact fun hsome => if_pos hsome
  rejected := by
    intro hrej
    rw [computeTrustRegionRatio_rejected hrej]
    exact ⟨rfl, rfl, rfl⟩
  merit_lt := by
    intro hlogic hacc
    obtain ⟨factor, status, hres, -⟩ := resize_cases m t d
    have hvalues := fromStar_values d.corrected_isSome
    refine lt_of_eq_of_lt ?_ ((acceptStep_trRatio hlogic).mp hacc)
    rw [computeTrustRegionRatio_accepted hacc, hres]
    exact congrArg (fun v : Option (ℕ → K) => t.merit (v.getD 0)) hvalues
  merit_le := fun hlogic hrej => not_lt.mp (mt (acceptStep_trRatio hlogic).mpr hrej)
  contracts := by
    intro hrej
    rw [computeTrustRegionRatio_rejected hrej]
    rfl
  resizes := by
    intro hacc
    obtain ⟨factor, status, hres, hfactor⟩ := resize_cases m t d
    rw [computeTrustRegionRatio_accepted hacc, hres]
    exact hfactor
  kept := by
    by_cases hacc : acceptStep t d
    · obtain ⟨factor, status, hres, -⟩ := resize_cases m t d
      rw [computeTrustRegionRatio_accepted hacc, hres]
      exact ⟨rfl, rfl, rfl, rfl, rfl⟩
    · rw [computeTrustRegionRatio_rejected hacc]
      exact ⟨rfl, rfl, rfl, rfl, rfl⟩

end Ratio

/-! ## Runs -/

theorem Run.factor_nonneg {start d : LevelData K D n} (hstart : 0 ≤ start.trustRegionFactor)
    (h : m.Run start d) : 0 ≤ d.trustRegionFactor := by
  induction h with
  | start => exact hstart
  | update parentLower parentUpper hparent h ih => exact ih
  | evaluate h hd' ih => exact hd'.trustRegionFactor ▸ ih
  | @ratio d t h ih =>
    have hmoves := computeTrustRegionRatio_moves m t d
    have hexpand : 0 ≤ m.gammaExpand := zero_le_one.trans m.one_lt_gammaExpand.le
    by_cases hacc : acceptStep t d
    · rcases hmoves.resizes hacc with heq | ⟨-, heq⟩ | ⟨-, heq⟩ <;> rw [heq]
      · exact ih
      · exact mul_nonneg ih m.gammaContract_pos.le
      · exact mul_nonneg ih hexpand
    · rw [hmoves.contracts hacc]
      exact mul_nonneg ih m.gammaContract_pos.le

/-- In every run each update leaves a legal trust region, and each ratio test moves the center if
and only if it accepts the candidate. -/
theorem trustRegion_run (m : TrustRegionSettings K n) (start : LevelData K D n)
    {d : LevelData K D n} (hstart : 0 ≤ start.trustRegionFactor) (h : m.Run start d) :
    (∀ parentLower parentUpper : Fin n → K, (∀ i, parentLower i ≤ parentUpper i) →
      m.Legal parentLower parentUpper d (m.updateTrustRegionData parentLower parentUpper d)) ∧
    ∀ t : RatioTest K, m.Moves t d (m.computeTrustRegionRatio t d) :=
  ⟨fun _ _ hparent => updateTrustRegionData_legal hparent (h.factor_nonneg hstart),
    fun t => computeTrustRegionRatio_moves m t d⟩

/-- One variable between 0 and 10, with the default thresholds. -/
def tenWide : TrustRegionSettings ℚ 1 where
  globalLowerBnds _ := 0
  globalUpperBnds _ := 10
  trRatioContractValue := 1 / 4
  trRatioExpandValue := 3 / 4
  gammaContract := 1 / 4
  gammaExpand := 2
  constraintTol := 0
  convergenceTol := 1 / 10000
  dblMin := 1 / 10 ^ 300
  softConvLimit := 5
  global_le _ := by norm_num
  contract_le_expand := by norm_num
  gammaContract_pos := by norm_num
  gammaContract_lt_one := by norm_num
  one_lt_gammaExpand := by norm_num

/-- A response with the value `x`. -/
def oneValue (x : ℚ) : Response ℚ :=
  (Response.ofSet ⟨[1], []⟩).setFunctionValues fun _ => x

/-- A center above the upper bound. -/
def aboveBound : LevelData ℚ Unit 1 :=
  .initializeData ⟨fun _ => 12, ()⟩ (oneValue 5) (oneValue 5) true (fun _ => 0) fun _ => 0

/-- The level after an update and the evaluation of a candidate. -/
def withCandidate : LevelData ℚ Unit 1 :=
  { tenWide.updateTrustRegionData (fun _ => 0) (fun _ => 10) aboveBound with
    varsStar := ⟨fun _ => 6, ()⟩
    responseStarApproxCorrected := oneValue 3
    responseStarTruthUncorrected := some (oneValue 2)
    responseStarTruthCorrected := (1, some (oneValue 3))
    uncorrected_isSome := rfl
    corrected_isSome := rfl }

theorem withCandidate_run :
    (∀ parentLower parentUpper : Fin 1 → ℚ, (∀ i, parentLower i ≤ parentUpper i) →
      tenWide.Legal parentLower parentUpper withCandidate
        (tenWide.updateTrustRegionData parentLower parentUpper withCandidate)) ∧
    ∀ t : RatioTest ℚ,
      tenWide.Moves t withCandidate (tenWide.computeTrustRegionRatio t withCandidate) :=
  trustRegion_run tenWide aboveBound (by decide +kernel)
    (.evaluate (.update _ _ (fun _ => by norm_num) .start) ⟨rfl, rfl, rfl, rfl, rfl⟩)

/-- The merit falls from 5 to 3 as predicted: the center moves and the trust region grows. -/
example :
    let t : RatioTest ℚ := ⟨fun fns => fns 0, .trRatio, false, false⟩
    let d := tenWide.computeTrustRegionRatio t withCandidate
    d.varsCenter.cVars 0 = 6 ∧ d.trustRegionFactor = 2 := by
  decide +kernel

end TrustRegionSettings

end Dakota
