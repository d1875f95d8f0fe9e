import Mathlib
import Dakota.Lib.Bound

/-!
# Finite difference steps

`Model::initialize_h`, `FDstep1`, `FDstep2` and `forward_grad_step` (`src/src/DakotaModel.cpp`): the
first and the second step of a difference in one variable, which honor the bounds unless they are
ignored.

* The arithmetic is exact, over an ordered field `K`; bounds may be infinite (`Bound`).
* A step function returns the step and the value that it leaves in the member `shortStep`.
* `fdStep1_ne_zero`, `fdStep1_within`, `fdStep2_ne_zero`, `fdStep2_ne`, `fdStep2_within`: what the
  differences rely on. `fdStep2_eq_neg`: a second step is the opposite of the first one if and only
  if it is not a short one.
-/

namespace Dakota.Derivatives

variable {K : Type} [Field K] [LinearOrder K]

/-- `fdGradStepType` and `fdHessStepType` -/
inductive StepType where
  | relative
  | absolute
  | bounds
deriving DecidableEq, Repr

/-- `std::sqrt(DBL_MIN)` -/
def sqrtDblMin : K := 1 / 2 ^ 511

/-- `initialize_h`; there is no step relative to infinite bounds. -/
def initializeH (x : K) (lb ub : Bound K) (stepSize : K) (stepType : StepType) : Option K :=
  match stepType with
  | .absolute => some (max stepSize sqrtDblMin)
  | .bounds =>
    match lb, ub with
    | .fin l, .fin u => some (stepSize * max (u - l) sqrtDblMin)
    | _, _ => none
  | .relative => some (stepSize * max |x| (1 / 100))

/-- The step to the furthest boundary; only a step between two finite bounds is shortened. -/
def stepToBoundary (x : K) (lb ub : Bound K) (h : K) : K :=
  match lb, ub with
  | .fin l, .fin u => if x - l < u - x then u - x else -(x - l)
  | _, _ => h

variable (ignoreBounds : Bool)

/-- `FDstep1` -/
def fdStep1 (x : K) (lb ub : Bound K) (hMag : K) : K × Bool :=
  if x < 0 then
    if !ignoreBounds ∧ ¬ lb.le (x - hMag) then
      -- the step would exceed the lower bound: flipped or else shortened
      if ub.ge (x + hMag) then (hMag, false) else (stepToBoundary x lb ub (-hMag), true)
    else (-hMag, false)
  else
    if !ignoreBounds ∧ ¬ ub.ge (x + hMag) then
      if lb.le (x - hMag) then (-hMag, false) else (stepToBoundary x lb ub hMag, true)
    else (hMag, false)

/-- A second step on the side of the first one, contracted until it is in bounds. -/
def contracted (inBounds : K → Bool) (x h : K) : K :=
  if inBounds (x + (h + h)) then h + h
  else if inBounds (x + 3 / 2 * h) then 3 / 2 * h
  else 1 / 2 * h

/-- `FDstep2` -/
def fdStep2 (shortStep : Bool) (x : K) (lb ub : Bound K) (h : K) : K × Bool :=
  if shortStep then (1 / 2 * h, true)
  else if ignoreBounds then (-h, false)
  else if -h < 0 then
    if lb.le (x - h) then (-h, false) else (contracted (fun y => ub.ge y) x h, true)
  else
    if ub.ge (x - h) then (-h, false) else (contracted (fun y => lb.le y) x h, true)

/-- The step size of the variable at position `xjIndex`; reading beyond the step sizes is an
error. -/
def stepSizeOf (stepSizes : List K) (numDerivVars xjIndex : Nat) : Option K :=
  if stepSizes.length = numDerivVars then stepSizes[xjIndex]? else stepSizes[0]?

/-! ## Steps in bounds -/

/-- A step that is not zero and stays within the bounds. -/
structure ValidStep (x : K) (lb ub : Bound K) (h : K) : Prop where
  ne_zero : h ≠ 0
  lower : lb.le (x + h)
  upper : ub.ge (x + h)

/-- A point within bounds that differ. -/
structure Inside (x : K) (lb ub : Bound K) : Prop where
  lower : lb.le x
  upper : ub.ge x
  lt : lb.lt ub

variable [IsStrictOrderedRing K] {ignoreBounds} {x h hMag stepSize : K} {lb ub : Bound K}
  {stepType : StepType}

omit [IsStrictOrderedRing K] in
theorem sqrtDblMin_pos [IsStrictOrderedRing K] : (0 : K) < sqrtDblMin := by
  unfold sqrtDblMin
  positivity

/-- A positive step size gives a positive step. -/
theorem initializeH_pos (hs : 0 < stepSize) (h : initializeH x lb ub stepSize stepType = some hMag) :
    0 < hMag := by
  unfold initializeH at h
  split at h
  · cases h
    exact lt_max_of_lt_left hs
  · split at h
    · cases h
      exact mul_pos hs (lt_max_of_lt_right sqrtDblMin_pos)
    · cases h
  · cases h
    exact mul_pos hs (lt_max_of_lt_right (by positivity))

theorem ValidStep.of_nonneg (hin : Inside x lb ub) (hpos : 0 < h) (hu : ub.ge (x + h)) :
    ValidStep x lb ub h :=
  ⟨hpos.ne', Bound.le_trans hin.lower (le_add_of_nonneg_right hpos.le), hu⟩

theorem ValidStep.of_nonpos (hin : Inside x lb ub) (hneg : h < 0) (hl : lb.le (x + h)) :
    ValidStep x lb ub h :=
  ⟨hneg.ne, hl, Bound.ge_trans hin.upper (add_le_of_nonpos_right hneg.le)⟩

/-- Part of a valid step is valid. -/
theorem ValidStep.half (hin : Inside x lb ub) (hv : ValidStep x lb ub h) :
    ValidStep x lb ub (1 / 2 * h) := by
  rcases lt_or_gt_of_ne hv.ne_zero with hneg | hpos
  · apply ValidStep.of_nonpos hin (by linarith)
    exact Bound.le_trans hv.lower (by linarith)
  · apply ValidStep.of_nonneg hin (by linarith)
    exact Bound.ge_trans hv.upper (by linarith)

/-- The step to the furthest boundary is valid. -/
theorem stepToBoundary_valid {l u : K} (hin : Inside x (.fin l) (.fin u)) :
    ValidStep x (.fin l) (.fin u) (stepToBoundary x (.fin l) (.fin u) h) := by
  have hl : l ≤ x := hin.lower
  have hu : x ≤ u := hin.upper
  have hlt : l < u := hin.lt
  unfold stepToBoundary
  simp only
  split
  · apply ValidStep.of_nonneg hin (by linarith)
    rw [Bound.ge_fin]
    linarith
  · apply ValidStep.of_nonpos hin (by linarith)
    rw [Bound.le_fin]
    linarith

/-- The first step is valid. -/
theorem fdStep1_valid (hin : Inside x lb ub) (hpos : 0 < hMag) :
    ValidStep x lb ub (fdStep1 false x lb ub hMag).1 := by
  have down (hl : lb.le (x - hMag)) : ValidStep x lb ub (-hMag) := by
    rw [sub_eq_add_neg] at hl
    exact ValidStep.of_nonpos hin (neg_lt_zero.mpr hpos) hl
  have up (hu : ub.ge (x + hMag)) : ValidStep x lb ub hMag := ValidStep.of_nonneg hin hpos hu
  have short (hl : ¬ lb.le (x - hMag)) (hu : ¬ ub.ge (x + hMag)) (h : K) :
      ValidStep x lb ub (stepToBoundary x lb ub h) := by
    obtain ⟨l, rfl, -⟩ := Bound.exists_fin_of_not_le hl hin.lower
    obtain ⟨u, rfl, -⟩ := Bound.exists_fin_of_not_ge hu hin.upper
    exact stepToBoundary_valid hin
  unfold fdStep1
  by_cases hl : lb.le (x - hMag) <;> by_cases hu : ub.ge (x + hMag)
  · split <;> simp [hl, hu, down, up]
  · split <;> simp [hl, hu, down]
  · split <;> simp [hl, hu, up]
  · split <;> simp [hl, hu, short]

/-- The multiples of a first step that a short second step may be. -/
def IsContraction (c : K) : Prop := c = 2 ∨ c = 3 / 2 ∨ c = 1 / 2

/-- The second step, if a step in bounds on the side of the first one is valid. -/
theorem contracted_valid (inBounds : K → Bool) (hin : Inside x lb ub) (hv : ValidStep x lb ub h)
    (hvalid : ∀ c : K, 0 < c → inBounds (x + c * h) → ValidStep x lb ub (c * h)) :
    ∃ c : K, IsContraction c ∧ contracted inBounds x h = c * h ∧ ValidStep x lb ub (c * h) := by
  unfold contracted
  rw [← two_mul]
  by_cases h2 : inBounds (x + 2 * h)
  · exact ⟨2, .inl rfl, if_pos h2, hvalid 2 two_pos h2⟩
  · rw [if_neg h2]
    by_cases h32 : inBounds (x + 3 / 2 * h)
    · exact ⟨3 / 2, .inr (.inl rfl), if_pos h32, hvalid _ (by positivity) h32⟩
    · exact ⟨1 / 2, .inr (.inr rfl), if_neg h32, hv.half hin⟩

/-- A second step is the opposite of the first one, or another multiple of it that is short. -/
theorem fdStep2_cases (shortStep : Bool) (hin : Inside x lb ub) (hv : ValidStep x lb ub h) :
    (∃ c : K, IsContraction c ∧ fdStep2 false shortStep x lb ub h = (c * h, true) ∧
        ValidStep x lb ub (c * h)) ∨
      (fdStep2 false shortStep x lb ub h = (-h, false) ∧ ValidStep x lb ub (-h)) := by
  unfold fdStep2
  cases shortStep with
  | true => exact .inl ⟨1 / 2, .inr (.inr rfl), by simp, hv.half hin⟩
  | false =>
    simp only [Bool.false_eq_true, if_false]
    by_cases hneg : -h < 0
    · have hpos : 0 < h := neg_lt_zero.mp hneg
      rw [if_pos hneg]
      by_cases hl : lb.le (x - h)
      · rw [if_pos hl]
        rw [sub_eq_add_neg] at hl
        exact .inr ⟨rfl, .of_nonpos hin hneg hl⟩
      · rw [if_neg hl]
        obtain ⟨c, hc, he, hcv⟩ := contracted_valid (fun y => ub.ge y) hin hv
          fun c hc hu => .of_nonneg hin (mul_pos hc hpos) (of_decide_eq_true hu)
        exact .inl ⟨c, hc, by rw [he], hcv⟩
    · have hneg' : h < 0 := lt_of_le_of_ne (neg_nonneg.mp (not_lt.mp hneg)) hv.ne_zero
      rw [if_neg hneg]
      by_cases hu : ub.ge (x - h)
      · rw [if_pos hu]
        rw [sub_eq_add_neg] at hu
        exact .inr ⟨rfl, .of_nonneg hin (neg_pos.mpr hneg') hu⟩
      · rw [if_neg hu]
        obtain ⟨c, hc, he, hcv⟩ := contracted_valid (fun y => lb.le y) hin hv
          fun c hc hl => .of_nonpos hin (mul_neg_of_pos_of_neg hc hneg') (of_decide_eq_true hl)
        exact .inl ⟨c, hc, by rw [he], hcv⟩

/-- A contraction is not the step itself, nor its opposite. -/
theorem IsContraction.ne {c : K} (hc : IsContraction c) (hh : h ≠ 0) :
    c * h ≠ h ∧ c * h ≠ -h := by
  have hne : c ≠ 1 ∧ c ≠ -1 := by
    rcases hc with rfl | rfl | rfl <;> norm_num
  constructor
  · intro he
    exact hne.1 (mul_right_cancel₀ hh (he.trans (one_mul h).symm))
  · intro he
    exact hne.2 (mul_right_cancel₀ hh (he.trans (neg_one_mul h).symm))

/-- The second step is valid and differs from the first one. -/
theorem fdStep2_valid (shortStep : Bool) (hin : Inside x lb ub) (hv : ValidStep x lb ub h) :
    ValidStep x lb ub (fdStep2 false shortStep x lb ub h).1 ∧
      (fdStep2 false shortStep x lb ub h).1 ≠ h := by
  rcases fdStep2_cases shortStep hin hv with ⟨c, hc, he, hcv⟩ | ⟨he, hnv⟩
  · rw [he]
    exact ⟨hcv, (hc.ne hv.ne_zero).1⟩
  · rw [he]
    exact ⟨hnv, fun h0 => hv.ne_zero (neg_eq_self.mp h0)⟩

/-- The test `h + h2 == 0.` of `synchronize_derivatives` in place of the flag. -/
theorem fdStep2_eq_neg_iff (shortStep : Bool) (hin : Inside x lb ub) (hv : ValidStep x lb ub h) :
    (fdStep2 false shortStep x lb ub h).1 = -h ↔
      (fdStep2 false shortStep x lb ub h).2 = false := by
  rcases fdStep2_cases shortStep hin hv with ⟨c, hc, he, -⟩ | ⟨he, -⟩
  · rw [he]
    simp only [(hc.ne hv.ne_zero).2, Bool.true_eq_false]
  · rw [he]
    simp only

/-- The two steps of a central difference honor the bounds, and differ; the second one is the
opposite of the first one if and only if no step was short. -/
theorem steps_within_bounds (hin : Inside x lb ub) (hpos : 0 < hMag) :
    let (h, shortStep) := fdStep1 false x lb ub hMag
    let (h2, shortStep2) := fdStep2 false shortStep x lb ub h
    (h ≠ 0 ∧ lb.le (x + h) ∧ ub.ge (x + h)) ∧
      (h2 ≠ 0 ∧ h2 ≠ h ∧ lb.le (x + h2) ∧ ub.ge (x + h2)) ∧
      (h2 = -h ↔ shortStep2 = false) ∧ (h + h2 = 0 ↔ shortStep2 = false) := by
  have hv := fdStep1_valid hin hpos
  have ⟨hv2, hne⟩ := fdStep2_valid (fdStep1 false x lb ub hMag).2 hin hv
  have hiff := fdStep2_eq_neg_iff (fdStep1 false x lb ub hMag).2 hin hv
  refine ⟨⟨hv.ne_zero, hv.lower, hv.upper⟩, ⟨hv2.ne_zero, hne, hv2.lower, hv2.upper⟩, hiff, ?_⟩
  rw [add_comm, add_eq_zero_iff_eq_neg]
  exact hiff

/-- Both directions would leave the interval, and the steps are short. -/
theorem steps_within_bounds_short :
    let (h, shortStep) := fdStep1 (K := ℚ) false (1 / 4) (.fin 0) (.fin 1) 2
    let (h2, shortStep2) := fdStep2 false shortStep (1 / 4) (.fin 0) (.fin 1) h
    (h ≠ 0 ∧ (Bound.fin 0).le (1 / 4 + h) ∧ (Bound.fin 1).ge (1 / 4 + h)) ∧
      (h2 ≠ 0 ∧ h2 ≠ h ∧ (Bound.fin 0).le (1 / 4 + h2) ∧ (Bound.fin 1).ge (1 / 4 + h2)) ∧
      (h2 = -h ↔ shortStep2 = false) ∧ (h + h2 = 0 ↔ shortStep2 = false) := by
  apply steps_within_bounds
  · constructor <;> norm_num
  · norm_num

end Dakota.Derivatives
