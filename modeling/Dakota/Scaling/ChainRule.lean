import Dakota.Scaling.ResponseMap

/-!
# The chain rule for scaled responses

The derivatives of a scaled function with respect to scaled variables, from those of the native
function with respect to the native variables.

* `Scale.rate`, `Scale.curvature`: the derivatives of a native variable with respect to the scaled
  one; `Scale.slope`, `Scale.bend`: those of a scaled function with respect to the native one. Over
  the reals they are the derivatives of `s2n` and `n2s`.
* `scaledGradient`, `scaledHessian`: the chain rule, with the derivatives of the functions over the
  reals in `hasDerivAt_scaled`, `hasDerivAt_scaledGradient` and
  `hasDerivAt_scaledGradient_self`.
-/

namespace Dakota

namespace Scale

variable {K : Type} [Field K] (b : LogBase K) (s : Scale K)

/-- The derivative of the native variable, at its native value. -/
def rate (x : K) : K := if s.log then (x - s.offset) * b.lnBase else s.multiplier

/-- The second derivative of the native variable. -/
def curvature (x : K) : K := if s.log then (x - s.offset) * b.lnBase * b.lnBase else 0

/-- The derivative of the scaled function, at its native value. -/
def slope (v : K) : K := if s.log then 1 / ((v - s.offset) * b.lnBase) else 1 / s.multiplier

/-- The second derivative of the scaled function. -/
def bend (v : K) : K := if s.log then -1 / ((v - s.offset) ^ 2 * b.lnBase) else 0

variable {b s} {x v : K}

theorem rate_ne (h : s.Arg b x) : s.rate b x ≠ 0 := by
  unfold rate
  split
  · next hl => exact mul_ne_zero (h.sub_ne hl) b.lnBase_ne
  · exact s.multiplier_ne

theorem slope_ne (h : s.Arg b v) : s.slope b v ≠ 0 := by
  unfold slope
  split
  · next hl => exact one_div_ne_zero (mul_ne_zero (h.sub_ne hl) b.lnBase_ne)
  · exact one_div_ne_zero s.multiplier_ne

end Scale

/-- An entry of the gradient of a scaled function: from the value and the entry of the native
function, and the variable. -/
def scaledGradient {K : Type} [Field K] (b : LogBase K) (fn var : Scale K) (v g x : K) : K :=
  fn.slope b v * g * var.rate b x

/-- An entry of the Hessian of a scaled function, for two variables with the gradient entries `gj`
and `gk`, which may be the same variable. -/
def scaledHessian {K : Type} [Field K] (b : LogBase K) (fn varj vark : Scale K)
    (v gj gk h xj xk : K) (same : Prop) [Decidable same] : K :=
  fn.bend b v * (gj * varj.rate b xj) * (gk * vark.rate b xk) +
    fn.slope b v * (h * varj.rate b xj * vark.rate b xk +
      if same then gj * varj.curvature b xj else 0)

/-! ## Over the reals -/

/-- The logarithm to the base 10, of positive numbers. -/
noncomputable def LogBase.real : LogBase ℝ where
  ln := Real.log
  pow y := (10 : ℝ) ^ y
  lnBase := Real.log 10
  lnBase_ne := (Real.log_pos (by norm_num)).ne'
  arg y := 0 < y
  arg_ne h := h.ne'
  pow_ln {y} h := by
    have h10 : Real.log 10 ≠ 0 := (Real.log_pos (by norm_num)).ne'
    rw [Real.rpow_def_of_pos (by norm_num), mul_div_cancel₀ _ h10, Real.exp_log h]

namespace Scale

open LogBase

variable (s : Scale ℝ)

/-- `rate` is the derivative of `modify_s2n`. -/
theorem hasDerivAt_s2n (y : ℝ) : HasDerivAt (s.s2n real) (s.rate real (s.s2n real y)) y := by
  have heq : s.s2n real =
      fun y => (if s.log then (10 : ℝ) ^ y else y) * s.multiplier + s.offset := by
    funext y
    exact s2n_eq
  rw [rate, heq]
  by_cases hl : s.log
  · simp only [if_pos hl]
    have hpow : HasDerivAt (fun y : ℝ => (10 : ℝ) ^ y) ((10 : ℝ) ^ y * Real.log 10) y := by
      refine ((hasDerivAt_id y).const_rpow (a := 10) (by norm_num)).congr_deriv ?_
      simp only [id]
      ring
    refine ((hpow.mul_const s.multiplier).add_const s.offset).congr_deriv ?_
    simp only [real]
    ring
  · simp only [if_neg hl]
    simpa using ((hasDerivAt_id y).mul_const s.multiplier).add_const s.offset

/-- `curvature` is the derivative of `rate`. -/
theorem hasDerivAt_rate (y : ℝ) :
    HasDerivAt (fun y => s.rate real (s.s2n real y)) (s.curvature real (s.s2n real y)) y := by
  unfold rate curvature
  by_cases hl : s.log
  · simp only [if_pos hl]
    have h := ((s.hasDerivAt_s2n y).sub_const s.offset).mul_const real.lnBase
    rwa [rate, if_pos hl] at h
  · simp only [if_neg hl]
    exact hasDerivAt_const y s.multiplier

variable {s} {v : ℝ}

/-- `slope` is the derivative of `modify_n2s`. -/
theorem hasDerivAt_n2s (h : s.Arg real v) : HasDerivAt (s.n2s real) (s.slope real v) v := by
  have hm := s.multiplier_ne
  have heq : s.n2s real = fun x =>
      if s.log then Real.log ((x - s.offset) / s.multiplier) / Real.log 10
      else (x - s.offset) / s.multiplier := by
    funext x
    exact n2s_eq
  have hline : HasDerivAt (fun x => (x - s.offset) / s.multiplier) (1 / s.multiplier) v :=
    ((hasDerivAt_id v).sub_const s.offset).div_const s.multiplier
  rw [slope, heq]
  by_cases hl : s.log
  · simp only [if_pos hl]
    have harg : (v - s.offset) / s.multiplier ≠ 0 := (h hl).ne'
    have hv := h.sub_ne hl
    refine ((hline.log harg).div_const (Real.log 10)).congr_deriv ?_
    simp only [real]
    field_simp
  · simp only [if_neg hl]
    exact hline

/-- `bend` is the derivative of `slope`. -/
theorem hasDerivAt_slope (h : s.Arg real v) : HasDerivAt (s.slope real) (s.bend real v) v := by
  unfold slope bend
  by_cases hl : s.log
  · simp only [if_pos hl]
    have hv := h.sub_ne hl
    have h10 := real.lnBase_ne
    have hne : (v - s.offset) * real.lnBase ≠ 0 := mul_ne_zero hv h10
    have hden := ((hasDerivAt_id v).sub_const s.offset).mul_const real.lnBase
    have hinv := (hasDerivAt_const v (1 : ℝ)).div hden hne
    refine hinv.congr_deriv ?_
    simp only [id]
    field_simp
    ring
  · simp only [if_neg hl]
    exact hasDerivAt_const v _

end Scale

section Reals

open LogBase

variable {fn varj vark : Scale ℝ} {f gj : ℝ → ℝ} {h g y : ℝ}

/-- The gradient of a scaled function: `f` is the native function of one variable `vark`, with the
derivative `g`. -/
theorem hasDerivAt_scaled (hf : HasDerivAt f g (vark.s2n real y))
    (harg : fn.Arg real (f (vark.s2n real y))) :
    HasDerivAt (fun y => fn.n2s real (f (vark.s2n real y)))
      (scaledGradient real fn vark (f (vark.s2n real y)) g (vark.s2n real y)) y := by
  have hcomp := (Scale.hasDerivAt_n2s harg).comp y (hf.comp y (vark.hasDerivAt_s2n y))
  refine hcomp.congr_deriv ?_
  unfold scaledGradient
  ring

/-- The Hessian of a scaled function for two variables: `gj` is its gradient for another variable
at `xj`, as a function of `vark`, with the derivative `h`. -/
theorem hasDerivAt_scaledGradient {xj : ℝ} (hf : HasDerivAt f g (vark.s2n real y))
    (hg : HasDerivAt gj h (vark.s2n real y)) (harg : fn.Arg real (f (vark.s2n real y))) :
    HasDerivAt (fun y => scaledGradient real fn varj (f (vark.s2n real y)) (gj (vark.s2n real y)) xj)
      (scaledHessian real fn varj vark (f (vark.s2n real y)) (gj (vark.s2n real y)) g h xj
        (vark.s2n real y) False) y := by
  have hx := vark.hasDerivAt_s2n y
  have hslope := (Scale.hasDerivAt_slope harg).comp y (hf.comp y hx)
  have hall := (hslope.mul (hg.comp y hx)).mul_const (varj.rate real xj)
  refine hall.congr_deriv ?_
  simp only [scaledHessian, if_false, Function.comp]
  ring

/-- The diagonal of the Hessian of a scaled function. -/
theorem hasDerivAt_scaledGradient_self (hf : HasDerivAt f (gj (vark.s2n real y)) (vark.s2n real y))
    (hg : HasDerivAt gj h (vark.s2n real y)) (harg : fn.Arg real (f (vark.s2n real y))) :
    HasDerivAt (fun y => scaledGradient real fn vark (f (vark.s2n real y)) (gj (vark.s2n real y))
        (vark.s2n real y))
      (scaledHessian real fn vark vark (f (vark.s2n real y)) (gj (vark.s2n real y))
        (gj (vark.s2n real y)) h (vark.s2n real y) (vark.s2n real y) True) y := by
  have hx := vark.hasDerivAt_s2n y
  have hslope := (Scale.hasDerivAt_slope harg).comp y (hf.comp y hx)
  have hall := (hslope.mul (hg.comp y hx)).mul (vark.hasDerivAt_rate y)
  refine hall.congr_deriv ?_
  simp only [scaledHessian, if_true, Pi.mul_apply, Function.comp]
  ring

end Reals

end Dakota
