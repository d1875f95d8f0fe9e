import Dakota.Scaling.ChainRule
import Dakota.Scaling.Compute

/-!
# Feasible points of a scaled problem

When a native point and response are feasible if and only if the scaled ones are.

* `Quantity.satisfied_valueScaled`, `satisfied_autoScaled`, `satisfied_logScaled`: what each kind of
  scaling does to the bounds of a component, under the conditions `ValueKeeps`, `AutoKeeps` and
  `LogKeeps`; together, `satisfied_iff` for a component.
* `Keeps` collects the conditions: no absent bound is swapped by a negative multiplier and no bound
  passes `BIG_REAL_BOUND`; automatic scaling of a one-sided bound needs one that is not negative;
  automatic scaling of a linear constraint with two bounds needs a lower bound of zero, as there is
  no offset that could take it up; and coefficients of discrete variables are not scaled along.
* `feasible_iff`: the scaled problem has the feasible points of the native one.
-/

namespace Dakota

variable {K : Type} [Field K] [LinearOrder K] [IsStrictOrderedRing K] (lim : ScalingLimits K)

/-- A logarithm of the positive numbers that is strictly increasing. -/
structure IncreasingLog (K : Type) [Field K] [LinearOrder K] extends LogBase K where
  arg_iff : ∀ {y}, arg y ↔ 0 < y
  ln_lt : ∀ {x y}, 0 < x → x < y → ln x / lnBase < ln y / lnBase

namespace Bound

variable {lim} {lb ub b : Bound K} {m o y : K}

theorem le_div_of_pos (hm : 0 < m) : (b.div m).le (y / m) ↔ b.le y := by
  cases b with
  | negInf => simp [div, le, not_lt.mpr hm.le]
  | fin b => exact div_le_div_iff_of_pos_right hm
  | posInf => simp [div, le, not_lt.mpr hm.le]

theorem ge_div_of_pos (hm : 0 < m) : (b.div m).ge (y / m) ↔ b.ge y := by
  cases b with
  | negInf => simp [div, ge, not_lt.mpr hm.le]
  | fin b => exact div_le_div_iff_of_pos_right hm
  | posInf => simp [div, ge, not_lt.mpr hm.le]

theorem ge_div_of_neg (hm : m < 0) : (b.div m).ge (y / m) ↔ b.le y := by
  cases b with
  | negInf => simp [div, le, ge, hm]
  | fin b => exact div_le_div_right_of_neg hm
  | posInf => simp [div, le, ge, hm]

theorem le_div_of_neg (hm : m < 0) : (b.div m).le (y / m) ↔ b.ge y := by
  cases b with
  | negInf => simp [div, le, ge, hm]
  | fin b => exact div_le_div_right_of_neg hm
  | posInf => simp [div, le, ge, hm]

theorem le_sub : (b.sub o).le (y - o) ↔ b.le y := by
  cases b with
  | negInf => rfl
  | fin b => exact sub_le_sub_iff_right o
  | posInf => rfl

theorem ge_sub : (b.sub o).ge (y - o) ↔ b.ge y := by
  cases b with
  | negInf => rfl
  | fin b => exact sub_le_sub_iff_right o
  | posInf => rfl

end Bound

namespace IncreasingLog

variable (base : IncreasingLog K) {x y : K}

omit [IsStrictOrderedRing K] in
/-- The logarithm keeps the order of positive numbers. -/
theorem ln_le_iff (hx : 0 < x) (hy : 0 < y) :
    base.ln x / base.lnBase ≤ base.ln y / base.lnBase ↔ x ≤ y := by
  constructor
  · intro h
    by_contra hlt
    exact absurd (base.ln_lt hy (not_le.mp hlt)) (not_lt.mpr h)
  · intro h
    rcases h.lt_or_eq with hlt | rfl
    · exact (base.ln_lt hx hlt).le
    · exact le_rfl

omit [IsStrictOrderedRing K] in
theorem ln_inj (hx : 0 < x) (hy : 0 < y)
    (h : base.ln x / base.lnBase = base.ln y / base.lnBase) : x = y :=
  le_antisymm ((base.ln_le_iff hx hy).mp h.le) ((base.ln_le_iff hy hx).mp h.ge)

end IncreasingLog

namespace Quantity

/-- Scaling by a value keeps what bounds allow: a negative multiplier finds both bounds present, and
present bounds stay so. -/
def ValueKeeps (m : K) : Quantity K → Prop
  | bounds lb ub =>
    (m < 0 → lb.presentLower lim ∧ ub.presentUpper lim) ∧
      (lb.presentLower lim → if m < 0 then (lb.div m).presentUpper lim
        else (lb.div m).presentLower lim) ∧
      (ub.presentUpper lim → if m < 0 then (ub.div m).presentLower lim
        else (ub.div m).presentUpper lim)
  | _ => True

/-- Automatic scaling keeps what bounds allow: two bounds are in order, and one bound alone is not
negative. -/
def AutoKeeps : Quantity K → Prop
  | bounds lb ub =>
    (lb.presentLower lim → ub.presentUpper lim → ∃ l u, lb = .fin l ∧ ub = .fin u ∧ l ≤ u) ∧
      (lb.presentLower lim → ub.presentUpper lim = false → ∃ l, lb = .fin l ∧ 0 ≤ l) ∧
      (lb.presentLower lim = false → ub.presentUpper lim → ∃ u, ub = .fin u ∧ 0 ≤ u)
  | _ => True

/-- The logarithm keeps what bounds or a target allow: they are positive, and their logarithms are
present. -/
def LogKeeps (base : LogBase K) : Quantity K → Prop
  | bounds lb ub =>
    (lb.presentLower lim → (∃ l, lb = .fin l ∧ 0 < l) ∧ (lb.log base).presentLower lim) ∧
      (ub.presentUpper lim → (∃ u, ub = .fin u ∧ 0 < u) ∧ (ub.log base).presentUpper lim)
  | target t => 0 < t
  | neither => True

variable {lim} {q : Quantity K} {m o y : K}

theorem satisfied_valueScaled (hm : m ≠ 0) (h : q.ValueKeeps lim m) :
    (q.valueScaled lim m).Satisfied lim (y / m) ↔ q.Satisfied lim y := by
  cases q with
  | neither => rfl
  | target t =>
    simp only [valueScaled, Satisfied]
    exact div_left_inj' hm
  | bounds lb ub =>
    obtain ⟨hboth, hlb, hub⟩ := h
    rcases lt_or_gt_of_ne hm with hneg | hpos
    · obtain ⟨hl, hu⟩ := hboth hneg
      have hl' := hlb hl
      have hu' := hub hu
      rw [if_pos hneg] at hl' hu'
      simp only [valueScaled, mapPresent, if_pos hneg, swapBounds, Satisfied, hl, hu, if_true, hl',
        hu', true_imp_iff, Bound.le_div_of_neg hneg, Bound.ge_div_of_neg hneg]
      exact and_comm
    · have hnn : ¬ m < 0 := not_lt.mpr hpos.le
      rw [if_neg hnn] at hlb hub
      simp only [valueScaled, mapPresent, if_neg hnn, Satisfied]
      refine and_congr ?_ ?_
      · by_cases hl : lb.presentLower lim
        · simp only [hl, if_true, hlb hl, true_imp_iff, Bound.le_div_of_pos hpos]
        · simp only [hl, Bool.false_eq_true, if_false, false_imp_iff]
      · by_cases hu : ub.presentUpper lim
        · simp only [hu, if_true, hub hu, true_imp_iff, Bound.ge_div_of_pos hpos]
        · simp only [hu, Bool.false_eq_true, if_false, false_imp_iff]

omit [IsStrictOrderedRing K] in
theorem satisfied_logScaled {base : IncreasingLog K} (h : q.LogKeeps lim base.toLogBase)
    (hy : 0 < y) :
    (q.logScaled lim base.toLogBase).Satisfied lim (base.ln y / base.lnBase) ↔
      q.Satisfied lim y := by
  cases q with
  | neither => rfl
  | target t =>
    simp only [logScaled, Satisfied]
    constructor
    · intro heq
      exact base.ln_inj hy h heq
    · intro heq
      rw [heq]
  | bounds lb ub =>
    obtain ⟨hlb, hub⟩ := h
    simp only [logScaled, mapPresent, Satisfied]
    refine and_congr ?_ ?_
    · by_cases hl : lb.presentLower lim
      · obtain ⟨⟨l, rfl, hpos⟩, hpres⟩ := hlb hl
        simp only [hl, if_true, hpres, true_imp_iff]
        exact base.ln_le_iff hpos hy
      · simp only [hl, Bool.false_eq_true, if_false, false_imp_iff]
    · by_cases hu : ub.presentUpper lim
      · obtain ⟨⟨u, rfl, hpos⟩, hpres⟩ := hub hu
        simp only [hu, if_true, hpres, true_imp_iff]
        exact base.ln_le_iff hy hpos
      · simp only [hu, Bool.false_eq_true, if_false, false_imp_iff]

end Quantity

/-! ## Automatic scaling -/

theorem le_resetMultiplier {x : K} (h : 0 ≤ x) :
    0 < (resetMultiplier lim x).1 ∧ x ≤ (resetMultiplier lim x).1 := by
  have hmin := lim.minScale_pos
  unfold resetMultiplier
  split
  · next hlt =>
    rw [abs_of_nonneg h] at hlt
    exact ⟨hmin, hlt.le⟩
  · next hge =>
    rw [abs_of_nonneg h] at hge
    exact ⟨hmin.trans_le (not_lt.mp hge), le_rfl⟩

namespace Quantity

variable {lim} {q : Quantity K} {y o : K} {m : {m : K // m ≠ 0}}

/-- A quotient of a nonnegative number and a larger one is between the limits. -/
theorem present_div {x c : K} (hx : 0 ≤ x) (hc : 0 < c) (hxc : x ≤ c) :
    -lim.bigRealBound < x / c ∧ x / c < lim.bigRealBound := by
  have hbig := lim.one_lt_bigRealBound
  have h0 : 0 ≤ x / c := div_nonneg hx hc.le
  have h1 : x / c ≤ 1 := (div_le_one hc).mpr hxc
  constructor <;> linarith

theorem satisfied_autoScaled (hfactor : autoFactor lim q = .ok (some (m, o)))
    (h : q.AutoKeeps lim) :
    (q.autoScaled lim m o).Satisfied lim ((y - o) / m) ↔ q.Satisfied lim y := by
  cases q with
  | neither => rfl
  | target t =>
    simp only [autoFactor, Except.ok.injEq, Option.map_eq_some_iff, Prod.mk.injEq] at hfactor
    obtain ⟨m', -, rfl, rfl⟩ := hfactor
    simp only [autoScaled, Satisfied, sub_zero]
    exact div_left_inj' m'.2
  | bounds lb ub =>
    obtain ⟨hboth, hlower, hupper⟩ := h
    simp only [autoFactor, boundsScaleFactor] at hfactor
    by_cases hl : lb.presentLower lim
    · by_cases hu : ub.presentUpper lim
      · obtain ⟨l, u, rfl, rfl, hlu⟩ := hboth hl hu
        rw [hl, hu] at hfactor
        cases hfactor
        obtain ⟨hpos, hle⟩ := le_resetMultiplier lim (sub_nonneg.mpr hlu)
        have hl' : (((Bound.fin o).sub o).div (resetMultiplier lim (u - o)).1).presentLower lim := by
          simp only [Bound.sub, Bound.div, Bound.presentLower, sub_self, decide_eq_true_eq]
          exact (present_div le_rfl hpos hpos.le).1
        have hu' : (((Bound.fin u).sub o).div (resetMultiplier lim (u - o)).1).presentUpper lim := by
          simp only [Bound.sub, Bound.div, Bound.presentUpper, decide_eq_true_eq]
          exact (present_div (sub_nonneg.mpr hlu) hpos hle).2
        simp only [autoScaled, mapPresent, Satisfied, hl, hu, if_true, hl', hu', true_imp_iff,
          Bound.le_div_of_pos hpos, Bound.ge_div_of_pos hpos, Bound.le_sub, Bound.ge_sub]
      · have hu0 : ub.presentUpper lim = false := by simpa using hu
        obtain ⟨l, rfl, hl0⟩ := hlower hl hu0
        rw [hl, hu0] at hfactor
        cases hfactor
        obtain ⟨hpos, hle⟩ := le_resetMultiplier lim hl0
        have hl' : (((Bound.fin l).sub 0).div (resetMultiplier lim l).1).presentLower lim := by
          simp only [Bound.sub, Bound.div, Bound.presentLower, sub_zero, decide_eq_true_eq]
          exact (present_div hl0 hpos hle).1
        simp only [autoScaled, mapPresent, Satisfied, hl, hu0, if_true, hl', true_imp_iff,
          Bound.le_div_of_pos hpos, Bound.le_sub, Bool.false_eq_true, if_false, false_imp_iff]
    · have hl0 : lb.presentLower lim = false := by simpa using hl
      by_cases hu : ub.presentUpper lim
      · obtain ⟨u, rfl, hu0⟩ := hupper hl0 hu
        rw [hl0, hu] at hfactor
        cases hfactor
        obtain ⟨hpos, hle⟩ := le_resetMultiplier lim hu0
        have hu' : (((Bound.fin u).sub 0).div (resetMultiplier lim u).1).presentUpper lim := by
          simp only [Bound.sub, Bound.div, Bound.presentUpper, sub_zero, decide_eq_true_eq]
          exact (present_div hu0 hpos hle).2
        simp only [autoScaled, mapPresent, Satisfied, hu, hl0, if_true, hu', true_imp_iff,
          Bound.ge_div_of_pos hpos, Bound.ge_sub, Bool.false_eq_true, if_false, false_imp_iff]
      · have hu0 : ub.presentUpper lim = false := by simpa using hu
        rw [hl0, hu0] at hfactor
        cases hfactor

/-- Automatic scaling of bounds with a factor ends. -/
theorem exists_autoFactor (h : q.AutoKeeps lim) : ∃ f, autoFactor lim q = .ok f := by
  cases q with
  | neither => exact ⟨_, rfl⟩
  | target t => exact ⟨_, rfl⟩
  | bounds lb ub =>
    obtain ⟨hboth, hlower, hupper⟩ := h
    simp only [autoFactor, boundsScaleFactor]
    by_cases hl : lb.presentLower lim
    · by_cases hu : ub.presentUpper lim
      · obtain ⟨l, u, rfl, rfl, -⟩ := hboth hl hu
        rw [hl, hu]
        exact ⟨_, rfl⟩
      · have hu0 : ub.presentUpper lim = false := by simpa using hu
        obtain ⟨l, rfl, -⟩ := hlower hl hu0
        rw [hl, hu0]
        exact ⟨_, rfl⟩
    · have hl0 : lb.presentLower lim = false := by simpa using hl
      by_cases hu : ub.presentUpper lim
      · obtain ⟨u, rfl, -⟩ := hupper hl0 hu
        rw [hl0, hu]
        exact ⟨_, rfl⟩
      · have hu0 : ub.presentUpper lim = false := by simpa using hu
        rw [hl0, hu0]
        exact ⟨_, rfl⟩

end Quantity

/-! ## One component -/

/-- The conditions on a component with a type and a user's multiplier. -/
structure Quantity.Keeps (base : LogBase K) (t : ScaleType) (scale : Option {m : K // m ≠ 0})
    (q : Quantity K) : Prop where
  value : ∀ m, scale = some m → t ≠ .none → q.ValueKeeps lim m
  auto : t = .auto → (valueStage lim t scale q).2.AutoKeeps lim
  log : t = .log → (valueStage lim t scale q).2.LogKeeps lim base

section Component

variable {lim} {base : IncreasingLog K} {t : ScaleType} {scale : Option {m : K // m ≠ 0}}
  {q q' : Quantity K} {s : Scale K} {y : K}

omit [IsStrictOrderedRing K] in
theorem offset_valueStage (lim : ScalingLimits K) (t : ScaleType)
    (scale : Option {m : K // m ≠ 0}) (q : Quantity K) :
    (valueStage lim t scale q).1.offset = 0 := by
  unfold valueStage
  cases scale with
  | none => rfl
  | some m =>
    by_cases ht : t = .none
    · simp only [if_pos ht]
      rfl
    · simp only [if_neg ht]
      rfl

omit [IsStrictOrderedRing K] in
theorem log_valueStage (lim : ScalingLimits K) (t : ScaleType)
    (scale : Option {m : K // m ≠ 0}) (q : Quantity K) :
    (valueStage lim t scale q).1.log = false := by
  unfold valueStage
  cases scale with
  | none => rfl
  | some m =>
    by_cases ht : t = .none
    · simp only [if_pos ht]
      rfl
    · simp only [if_neg ht]
      rfl

/-- The characteristic value keeps what a component allows. -/
theorem satisfied_valueStage (h : q.Keeps lim base.toLogBase t scale) :
    (valueStage lim t scale q).2.Satisfied lim (y / (valueStage lim t scale q).1.multiplier) ↔
      q.Satisfied lim y := by
  unfold valueStage
  cases scale with
  | none =>
    simp only [Scale.none, div_one]
  | some m =>
    by_cases ht : t = .none
    · simp only [if_pos ht, Scale.none, div_one]
    · simp only [if_neg ht, Scale.ofValue]
      exact Quantity.satisfied_valueScaled m.2 (h.value m rfl ht)

/-- The scaling of a component that meets the conditions ends. -/
theorem exists_computeScaling (h : q.Keeps lim base.toLogBase t scale) :
    ∃ r, computeScaling lim base.toLogBase t scale q = .ok r := by
  unfold computeScaling
  cases t with
  | none => exact ⟨_, rfl⟩
  | value => exact ⟨_, rfl⟩
  | log => exact ⟨_, rfl⟩
  | auto =>
    obtain ⟨f, hf⟩ := Quantity.exists_autoFactor (h.auto rfl)
    cases f with
    | none => exact ⟨_, Outcome.bind_eq_ok.mpr ⟨_, hf, rfl⟩⟩
    | some f => exact ⟨_, Outcome.bind_eq_ok.mpr ⟨_, hf, rfl⟩⟩

/-- **One component.** The scaled value is within the scaled bounds, or at the scaled target, if
and only if the native value is within the native ones. -/
theorem satisfied_iff (hs : computeScaling lim base.toLogBase t scale q = .ok (s, q'))
    (h : q.Keeps lim base.toLogBase t scale) (harg : s.Arg base.toLogBase y) :
    q'.Satisfied lim (s.n2s base.toLogBase y) ↔ q.Satisfied lim y := by
  rw [← satisfied_valueStage h]
  unfold computeScaling at hs
  have hoff := offset_valueStage lim t scale q
  have hlog := log_valueStage lim t scale q
  have hkeep := h.auto
  have hlogKeep := h.log
  generalize valueStage lim t scale q = stage at *
  obtain ⟨s₁, q₁⟩ := stage
  dsimp only at hoff hlog hkeep hlogKeep ⊢
  rw [Scale.n2s_eq]
  have hplain : .ok (s₁, q₁) = (.ok (s, q') : Except ScalingError _) →
      (q'.Satisfied lim (if s.log then base.ln ((y - s.offset) / s.multiplier) / base.lnBase
        else (y - s.offset) / s.multiplier) ↔ q₁.Satisfied lim (y / s₁.multiplier)) := by
    intro hs
    cases hs
    rw [hoff, hlog, sub_zero]
    rfl
  cases t with
  | none => exact hplain hs
  | value => exact hplain hs
  | log =>
    cases hs
    simp only [if_true, hoff, sub_zero]
    apply Quantity.satisfied_logScaled (hlogKeep rfl)
    have := base.arg_iff.mp (harg rfl)
    simpa only [hoff, sub_zero] using this
  | auto =>
    obtain ⟨f, hf, hs⟩ := Outcome.bind_eq_ok.mp hs
    cases f with
    | none => exact hplain hs
    | some f =>
      obtain ⟨m, o⟩ := f
      cases hs
      have hm := m.2
      have hm₁ := s₁.multiplier_ne
      have hval : (y - (s₁.addAuto m o).offset) / (s₁.addAuto m o).multiplier =
          (y / s₁.multiplier - o) / m := by
        simp only [Scale.addAuto, hoff, zero_add]
        field_simp
      have hlog' : (s₁.addAuto m o).log = false := hlog
      rw [hlog', if_neg (by simp), hval]
      exact Quantity.satisfied_autoScaled hf (hkeep rfl)

end Component

/-! ## The problem -/

namespace Quantity

/-- The offset leaves present bounds present and absent bounds absent. -/
def ShiftKeeps (o : K) : Quantity K → Prop
  | bounds lb ub => (lb.sub o).presentLower lim = lb.presentLower lim ∧
      (ub.sub o).presentUpper lim = ub.presentUpper lim
  | _ => True

/-- The lower one of two bounds, by which automatic scaling shifts. -/
def lowerShift : Quantity K → K
  | bounds (.fin l) ub => if (Bound.fin l).presentLower lim && ub.presentUpper lim then l else 0
  | _ => 0

variable {lim} {q : Quantity K} {o y : K}

theorem satisfied_shifted (h : q.ShiftKeeps lim o) :
    (q.shifted o).Satisfied lim (y - o) ↔ q.Satisfied lim y := by
  cases q with
  | neither => rfl
  | target t =>
    simp only [shifted, Satisfied]
    exact sub_left_inj
  | bounds lb ub =>
    obtain ⟨hl, hu⟩ := h
    simp only [shifted, Satisfied, hl, hu, Bound.le_sub, Bound.ge_sub]

/-- The offset of automatic scaling. -/
theorem offset_autoFactor {m : {m : K // m ≠ 0}} (h : autoFactor lim q = .ok (some (m, o))) :
    o = q.lowerShift lim := by
  cases q with
  | neither => cases h
  | target t =>
    simp only [autoFactor, Except.ok.injEq, Option.map_eq_some_iff, Prod.mk.injEq] at h
    obtain ⟨-, -, -, ho⟩ := h
    exact ho.symm
  | bounds lb ub =>
    simp only [autoFactor, boundsScaleFactor] at h
    cases hl : lb.presentLower lim with
    | true =>
      cases hu : ub.presentUpper lim with
      | true =>
        rw [hl, hu] at h
        cases lb with
        | fin l =>
          cases ub with
          | fin u =>
            cases h
            simp only [lowerShift, hl, hu, Bool.and_self, if_true]
          | negInf => cases h
          | posInf => cases h
        | negInf => cases h
        | posInf => cases h
      | false =>
        rw [hl, hu] at h
        cases lb with
        | fin l =>
          cases h
          simp only [lowerShift, hl, hu, Bool.and_false, Bool.false_eq_true, if_false]
        | negInf => cases h
        | posInf => cases h
    | false =>
      have hzero : (bounds lb ub).lowerShift lim = 0 := by
        cases lb with
        | fin l => simp only [lowerShift, hl, Bool.false_and, Bool.false_eq_true, if_false]
        | negInf => rfl
        | posInf => rfl
      rw [hzero]
      cases hu : ub.presentUpper lim with
      | true =>
        rw [hl, hu] at h
        cases ub with
        | fin u =>
          cases h
          rfl
        | negInf => cases h
        | posInf => cases h
      | false =>
        rw [hl, hu] at h
        cases h

/-- Without a factor there is no shift. -/
theorem lowerShift_of_none (h : autoFactor lim q = .ok none) : q.lowerShift lim = 0 := by
  cases q with
  | neither => rfl
  | target t => rfl
  | bounds lb ub =>
    cases lb with
    | negInf => rfl
    | posInf => rfl
    | fin l =>
      simp only [lowerShift]
      split
      · next hboth =>
        rw [Bool.and_eq_true] at hboth
        simp only [autoFactor, boundsScaleFactor, hboth.1, hboth.2] at h
        cases ub with
        | fin u => cases h
        | negInf => cases h
        | posInf => cases h
      · rfl

end Quantity

/-- The offset of a scaled component: that of automatic scaling, after the characteristic value. -/
def autoOffset (t : ScaleType) (scale : Option {m : K // m ≠ 0}) (q : Quantity K) : K :=
  if t = .auto then
    (valueStage lim t scale q).2.lowerShift lim * (valueStage lim t scale q).1.multiplier
  else 0

namespace NativeProblem

variable (base : LogBase K) (p : NativeProblem K) (opts : ScalingOptions K)

/-- The bounds and targets of the components. -/
def cv (i : Nat) : Quantity K := .bounds (p.cvLowerBounds i) (p.cvUpperBounds i)

def nlnIneq (i : Nat) : Quantity K := .bounds (p.nlnIneqLowerBounds i) (p.nlnIneqUpperBounds i)

def nlnEq (i : Nat) : Quantity K := .target (p.nlnEqTargets i)

def linIneq (i : Nat) : Quantity K := .bounds (p.linIneqLowerBounds i) (p.linIneqUpperBounds i)

def linEq (i : Nat) : Quantity K := .target (p.linEqTargets i)

/-- The value of a linear constraint. -/
def linValue (coeffs : Nat → Nat → K) (x d : Nat → K) (i : Nat) : K :=
  ∑ j ∈ Finset.range p.numCv, coeffs i j * x j +
    ∑ j ∈ Finset.range p.numDiscrete, coeffs i (p.numCv + j) * d j

/-- The continuous variables `x`, the discrete variables `d` and the constraint functions `g` are
feasible. -/
structure Feasible (x d g : Nat → K) : Prop where
  cv : ∀ i < p.numCv, (p.cv i).Satisfied lim (x i)
  linIneq : ∀ i < p.numLinIneq, (p.linIneq i).Satisfied lim (p.linValue p.linIneqCoeffs x d i)
  linEq : ∀ i < p.numLinEq, (p.linEq i).Satisfied lim (p.linValue p.linEqCoeffs x d i)
  nlnIneq : ∀ i < p.numNlnIneq, (p.nlnIneq i).Satisfied lim (g i)
  nlnEq : ∀ i < p.numNlnEq, (p.nlnEq i).Satisfied lim (g (p.numNlnIneq + i))

/-- The offset of a continuous variable. -/
def cvOffset (i : Nat) : K :=
  autoOffset lim (opts.cv.type i) (opts.cv.scale i) (p.cv i)

/-- The offset of a linear constraint, from those of the variables. -/
def linOffset (coeffs : Nat → Nat → K) (i : Nat) : K :=
  ∑ j ∈ Finset.range p.numCv, coeffs i j * p.cvOffset lim opts j

/-- The conditions on a linear constraint: the offsets of the variables leave bounds on their side
of the limits, there is no other offset, and no coefficient of a discrete variable had to be
scaled. -/
structure LinKeeps (coeffs : Nat → Nat → K) (spec : ScalingSpec K) (i : Nat) (q : Quantity K) :
    Prop where
  shift : q.ShiftKeeps lim (p.linOffset lim opts coeffs i)
  keeps : (q.shifted (p.linOffset lim opts coeffs i)).Keeps lim base (spec.type i)
    (spec.scale i)
  offset : autoOffset lim (spec.type i) (spec.scale i)
    (q.shifted (p.linOffset lim opts coeffs i)) = 0
  discrete : (∀ j < p.numDiscrete, coeffs i (p.numCv + j) = 0) ∨ spec.type i = .none ∨
    spec.type i = .value ∧ spec.scale i = none

/-- The conditions on all components. -/
structure Keeps : Prop where
  cv : ∀ i < p.numCv, (p.cv i).Keeps lim base (opts.cv.type i) (opts.cv.scale i)
  nlnIneq : ∀ i < p.numNlnIneq,
    (p.nlnIneq i).Keeps lim base (opts.nlnIneq.type i) (opts.nlnIneq.scale i)
  nlnEq : ∀ i < p.numNlnEq, (p.nlnEq i).Keeps lim base (opts.nlnEq.type i) (opts.nlnEq.scale i)
  linIneq : ∀ i < p.numLinIneq, p.LinKeeps lim base opts p.linIneqCoeffs opts.linIneq i (p.linIneq i)
  linEq : ∀ i < p.numLinEq, p.LinKeeps lim base opts p.linEqCoeffs opts.linEq i (p.linEq i)

end NativeProblem

namespace ScaledProblem

variable (p : NativeProblem K) (r : ScaledProblem K)

/-- The scaled continuous variables. -/
def scaledCv (x : Nat → K) : List K :=
  modifyN2s r.scaling.base ((List.range p.numCv).map x) r.scaling.cvScales

/-- A scaled constraint function, after those of the primary functions. -/
def scaledFn (g : Nat → K) (i : Nat) : K := r.scaling.recastVal (p.numPrimary + i) (g i)

/-- The scaled variables and functions are feasible for the scaled problem. -/
structure Feasible (x d g : Nat → K) : Prop where
  cv : ∀ i (q : Quantity K), r.cvs[i]? = some q → q.Satisfied lim ((r.scaledCv p x).getD i 0)
  linIneq : ∀ i (q : Quantity K), r.linIneqs[i]? = some q →
    q.Satisfied lim (p.linValue r.linIneqCoeffs (fun j => (r.scaledCv p x).getD j 0) d i)
  linEq : ∀ i (q : Quantity K), r.linEqs[i]? = some q →
    q.Satisfied lim (p.linValue r.linEqCoeffs (fun j => (r.scaledCv p x).getD j 0) d i)
  nlnIneq : ∀ i (q : Quantity K), r.nlnIneqs[i]? = some q → q.Satisfied lim (r.scaledFn p g i)
  nlnEq : ∀ i (q : Quantity K), r.nlnEqs[i]? = some q → q.Satisfied lim (r.scaledFn p g (p.numNlnIneq + i))

/-- The arguments of the logarithms are positive. -/
structure LogArgs (x g : Nat → K) : Prop where
  cv : ∀ i < p.numCv, (r.scaling.cvScale i).Arg r.scaling.base (x i)
  fn : ∀ i < p.numNlnIneq + p.numNlnEq,
    (r.scaling.responseScale (p.numPrimary + i)).Arg r.scaling.base (g i)

end ScaledProblem

section Problem

open Outcome

variable {lim} {base : IncreasingLog K} {p : NativeProblem K} {opts : ScalingOptions K}

/-- The scalings of components that meet the conditions. -/
theorem computeScalings_spec {spec : ScalingSpec K} {num : Nat} {q : Nat → Quantity K}
    (h : ∀ i < num, (q i).Keeps lim base.toLogBase (spec.type i) (spec.scale i)) :
    ∃ l, computeScalings lim base.toLogBase spec num q = .ok l ∧ l.length = num ∧
      ∀ i b, l[i]? = some b →
        computeScaling lim base.toLogBase (spec.type i) (spec.scale i) (q i) = .ok b := by
  have hex : ∀ i, ∃ b, i < num →
      computeScaling lim base.toLogBase (spec.type i) (spec.scale i) (q i) = .ok b := by
    intro i
    by_cases hi : i < num
    · obtain ⟨b, hb⟩ := exists_computeScaling (h i hi)
      exact ⟨b, fun _ => hb⟩
    · exact ⟨(.none, .neither), fun hlt => absurd hlt hi⟩
  choose f hf using hex
  have hl : ∀ i b, ((List.range num).map f)[i]? = some b →
      computeScaling lim base.toLogBase (spec.type i) (spec.scale i) (q i) = .ok b := by
    intro i b hb
    obtain ⟨hi, rfl⟩ := List.getElem?_eq_some_iff.mp hb
    rw [List.length_map, List.length_range] at hi
    simpa using hf i hi
  have hlen : ((List.range num).map f).length = num := by simp
  exact ⟨_, mapM_range_eq_ok.mpr ⟨hlen, hl⟩, hlen, hl⟩

omit [IsStrictOrderedRing K] in
/-- Without bounds and targets there is nothing to keep. -/
theorem keeps_neither (t : ScaleType) (scale : Option {m : K // m ≠ 0}) :
    Quantity.Keeps lim base.toLogBase t scale .neither := by
  have hstage : (valueStage lim t scale .neither).2 = .neither := by
    unfold valueStage
    cases scale with
    | none => rfl
    | some m =>
      by_cases ht : t = .none
      · simp only [if_pos ht]
      · simp only [if_neg ht]
        rfl
  refine ⟨fun _ _ _ => trivial, ?_, ?_⟩
  · intro _
    rw [hstage]
    exact trivial
  · intro _
    rw [hstage]
    exact trivial

/-- A component is scaled by a logarithm only if its type says so. -/
theorem log_computeScaling {t : ScaleType} {scale : Option {m : K // m ≠ 0}} {q q' : Quantity K}
    {s : Scale K} (h : computeScaling lim base.toLogBase t scale q = .ok (s, q'))
    (ht : t ≠ .log) : s.log = false := by
  have hlog := log_valueStage lim t scale q
  unfold computeScaling at h
  cases t with
  | none =>
    cases h
    exact hlog
  | value =>
    cases h
    exact hlog
  | log => exact absurd rfl ht
  | auto =>
    obtain ⟨f, -, h⟩ := bind_eq_ok.mp h
    cases f with
    | none =>
      cases h
      exact hlog
    | some f =>
      cases h
      exact hlog

/-- The offset of a scaled component. -/
theorem offset_computeScaling {t : ScaleType} {scale : Option {m : K // m ≠ 0}}
    {q q' : Quantity K} {s : Scale K}
    (h : computeScaling lim base.toLogBase t scale q = .ok (s, q')) :
    s.offset = autoOffset lim t scale q := by
  have hoff := offset_valueStage lim t scale q
  unfold computeScaling at h
  unfold autoOffset
  generalize valueStage lim t scale q = stage at *
  cases t with
  | none =>
    cases h
    exact hoff
  | value =>
    cases h
    exact hoff
  | log =>
    cases h
    exact hoff
  | auto =>
    obtain ⟨f, hf, h⟩ := bind_eq_ok.mp h
    rw [if_pos rfl]
    cases f with
    | none =>
      cases h
      rw [Quantity.lowerShift_of_none hf, zero_mul]
      exact hoff
    | some f =>
      cases h
      have ho := Quantity.offset_autoFactor hf
      change stage.1.offset + f.2 * stage.1.multiplier = _
      rw [hoff, ho, zero_add]

/-- A component that is not scaled has the multiplier 1. -/
theorem multiplier_computeScaling {t : ScaleType} {scale : Option {m : K // m ≠ 0}}
    {q q' : Quantity K} {s : Scale K}
    (h : computeScaling lim base.toLogBase t scale q = .ok (s, q'))
    (ht : t = .none ∨ t = .value ∧ scale = none) : s.multiplier = 1 := by
  rcases ht with rfl | ⟨rfl, rfl⟩
  · cases scale with
    | none =>
      cases h
      rfl
    | some m =>
      cases h
      rfl
  · cases h
    rfl

omit [LinearOrder K] [IsStrictOrderedRing K] in
theorem type_ne_log {spec : ScalingSpec K} (h : ScaleType.log ∉ spec.types) (i : Nat) :
    spec.type i ≠ .log := by
  unfold ScalingSpec.type specEntry
  split
  · simp
  · next t ht =>
    intro heq
    rw [Option.getD_some] at heq
    rw [ht, heq] at h
    exact h (List.mem_singleton_self _)
  · cases hi : spec.types[i]? with
    | none => simp
    | some t =>
      intro heq
      rw [Option.getD_some] at heq
      rw [heq] at hi
      exact h (List.mem_of_getElem? hi)

omit [IsStrictOrderedRing K] in
/-- The value of a scaled linear constraint is the shifted native one, divided by its
multiplier. -/
theorem linValue_scaled {coeffs : Nat → Nat → K} {cvScales linScales : List (Scale K)}
    {x d : Nat → K} {s : Scale K} {i : Nat} (hlen : cvScales.length = p.numCv)
    (hs : linScales[i]? = some s) (hlog : ∀ c ∈ cvScales, c.log = false)
    (hdiscrete : (∀ j < p.numDiscrete, coeffs i (p.numCv + j) = 0) ∨ s.multiplier = 1) :
    p.linValue (linCoeffsModifyN2s coeffs cvScales linScales)
        (fun j => (modifyN2s base.toLogBase ((List.range p.numCv).map x) cvScales).getD j 0) d i =
      (p.linValue coeffs x d i - linScaleOffset coeffs cvScales i) / s.multiplier := by
  have hm := s.multiplier_ne
  unfold NativeProblem.linValue linScaleOffset
  have hcv : ∀ j ∈ Finset.range p.numCv,
      linCoeffsModifyN2s coeffs cvScales linScales i j *
        (modifyN2s base.toLogBase ((List.range p.numCv).map x) cvScales).getD j 0 =
      (coeffs i j * x j - coeffs i j * (cvScales.getD j .none).offset) / s.multiplier := by
    intro j hj
    rw [Finset.mem_range] at hj
    have hj' : j < cvScales.length := hlen ▸ hj
    have hc := hlog _ (List.getElem_mem hj')
    have hcm := (cvScales[j]).multiplier_ne
    have hval : (modifyN2s base.toLogBase ((List.range p.numCv).map x) cvScales).getD j 0 =
        (x j - (cvScales[j]).offset) / (cvScales[j]).multiplier := by
      have hn2s : (cvScales[j]).n2s base.toLogBase (x j) =
          (x j - (cvScales[j]).offset) / (cvScales[j]).multiplier := by
        rw [Scale.n2s_eq, hc]
        rfl
      rw [← hn2s]
      simp [modifyN2s, List.getD, hj, hj']
    rw [hval, List.getD_eq_getElem _ _ hj']
    simp only [linCoeffsModifyN2s, List.getElem?_eq_getElem hj', hs]
    field_simp
  have hd : ∀ j ∈ Finset.range p.numDiscrete,
      linCoeffsModifyN2s coeffs cvScales linScales i (p.numCv + j) * d j =
        coeffs i (p.numCv + j) * d j / s.multiplier := by
    intro j hj
    have hnone : cvScales[p.numCv + j]? = none := by
      rw [List.getElem?_eq_none_iff]
      omega
    simp only [linCoeffsModifyN2s, hnone]
    rcases hdiscrete with hzero | hone
    · rw [hzero j (Finset.mem_range.mp hj), zero_mul, zero_div]
    · rw [hone, div_one]
  rw [Finset.sum_congr rfl hcv, Finset.sum_congr rfl hd, ← Finset.sum_div, ← Finset.sum_div,
    Finset.sum_sub_distrib, hlen]
  field_simp
  ring

/-- One linear constraint. -/
theorem satisfied_row_iff {coeffs : Nat → Nat → K} {spec : ScalingSpec K} {q q' : Quantity K}
    {cvScales linScales : List (Scale K)} {x d : Nat → K} {s : Scale K} {i : Nat}
    (h : p.LinKeeps lim base.toLogBase opts coeffs spec i q)
    (htypes : ∀ t ∈ spec.types, t = .value ∨ t = .auto) (hlen : cvScales.length = p.numCv)
    (hlog : ∀ c ∈ cvScales, c.log = false)
    (hoffset : linScaleOffset coeffs cvScales i = p.linOffset lim opts coeffs i)
    (hs : linScales[i]? = some s)
    (hq : computeScaling lim base.toLogBase (spec.type i) (spec.scale i)
      (q.shifted (linScaleOffset coeffs cvScales i)) = .ok (s, q')) :
    q'.Satisfied lim (p.linValue (linCoeffsModifyN2s coeffs cvScales linScales)
        (fun j => (modifyN2s base.toLogBase ((List.range p.numCv).map x) cvScales).getD j 0) d i) ↔
      q.Satisfied lim (p.linValue coeffs x d i) := by
  have hnolog : ScaleType.log ∉ spec.types := by
    intro hmem
    rcases htypes _ hmem with heq | heq <;> cases heq
  rw [hoffset] at hq
  have hslog := log_computeScaling hq (type_ne_log hnolog i)
  have hsoff := (offset_computeScaling hq).trans h.offset
  have hdiscrete := h.discrete.imp_right fun ht => multiplier_computeScaling hq ht
  have hn2s : ∀ y, s.n2s base.toLogBase y = y / s.multiplier := by
    intro y
    rw [Scale.n2s_eq, hslog, hsoff, sub_zero]
    rfl
  have harg : ∀ y, s.Arg base.toLogBase y := by
    intro y hl
    rw [hslog] at hl
    cases hl
  rw [linValue_scaled hlen hs hlog hdiscrete, hoffset, ← hn2s, satisfied_iff hq h.keeps (harg _),
    Quantity.satisfied_shifted h.shift]

omit [IsStrictOrderedRing K] in
/-- The components of a list are feasible if and only if the native ones are. -/
theorem forall_satisfied_iff {l : List (Scale K × Quantity K)} {num : Nat} {q : Nat → Quantity K}
    {w v : Nat → K} (hlen : l.length = num)
    (h : ∀ i b, l[i]? = some b → (b.2.Satisfied lim (w i) ↔ (q i).Satisfied lim (v i))) :
    (∀ i (q' : Quantity K), (l.map Prod.snd)[i]? = some q' → q'.Satisfied lim (w i)) ↔
      ∀ i < num, (q i).Satisfied lim (v i) := by
  constructor
  · intro hall i hi
    have hi' : i < l.length := hlen ▸ hi
    have hb := List.getElem?_eq_getElem hi'
    apply (h i _ hb).mp
    apply hall
    rw [List.getElem?_map, hb]
    rfl
  · intro hall i q' hq
    rw [List.getElem?_map, Option.map_eq_some_iff] at hq
    obtain ⟨b, hb, rfl⟩ := hq
    have hi := (List.getElem?_eq_some_iff.mp hb).1
    exact (h i b hb).mpr (hall i (hlen ▸ hi))

/-- The explicit errors of `initialize_scaling`. -/
def IsScalingAbort (e : ScalingError) : Prop :=
  e = .logWithLinear ∨ e = .linearIneqScales ∨ e = .linearEqScales

theorem meets_abortIf {cond : Bool} {e : ScalingError} (h : IsScalingAbort e) :
    Meets IsScalingAbort (fun _ => cond = false) (abortIf cond e) := by
  unfold abortIf
  cases cond with
  | true => exact h
  | false => exact rfl

/-- The scales of all components, with what is scaled. -/
structure ComponentLists (K : Type) [Field K] where
  cv : List (Scale K × Quantity K)
  primary : List (Scale K × Quantity K)
  nlnIneq : List (Scale K × Quantity K)
  nlnEq : List (Scale K × Quantity K)
  linIneq : List (Scale K × Quantity K)
  linEq : List (Scale K × Quantity K)

namespace ComponentLists

variable (l : ComponentLists K)

abbrev cvScales : List (Scale K) := l.cv.map Prod.fst

/-- The scaled problem of the components. -/
def problem (base : LogBase K) (p : NativeProblem K) : ScaledProblem K where
  scaling := {
    base := base
    cvScales := l.cvScales
    responseScales := (l.primary ++ l.nlnIneq ++ l.nlnEq).map Prod.fst }
  cvs := l.cv.map Prod.snd
  nlnIneqs := l.nlnIneq.map Prod.snd
  nlnEqs := l.nlnEq.map Prod.snd
  linIneqs := l.linIneq.map Prod.snd
  linIneqCoeffs := linCoeffsModifyN2s p.linIneqCoeffs l.cvScales (l.linIneq.map Prod.fst)
  linEqs := l.linEq.map Prod.snd
  linEqCoeffs := linCoeffsModifyN2s p.linEqCoeffs l.cvScales (l.linEq.map Prod.fst)

variable (lim) (base) (p) (opts)

/-- A list has the scales of `num` components. -/
structure IsComputed (spec : ScalingSpec K) (num : Nat) (q : Nat → Quantity K)
    (l : List (Scale K × Quantity K)) : Prop where
  length_eq : l.length = num
  entry : ∀ i (b : Scale K × Quantity K), l[i]? = some b →
    computeScaling lim base.toLogBase (spec.type i) (spec.scale i) (q i) = .ok b

/-- The lists are those of `initialize_scaling`. -/
structure Computed : Prop where
  cv : IsComputed lim base opts.cv p.numCv p.cv l.cv
  primary : l.primary.length = p.numPrimary
  nlnIneq : IsComputed lim base opts.nlnIneq p.numNlnIneq p.nlnIneq l.nlnIneq
  nlnEq : IsComputed lim base opts.nlnEq p.numNlnEq p.nlnEq l.nlnEq
  linIneq : IsComputed lim base opts.linIneq p.numLinIneq
    (fun i => (p.linIneq i).shifted (linScaleOffset p.linIneqCoeffs l.cvScales i)) l.linIneq
  linEq : IsComputed lim base opts.linEq p.numLinEq
    (fun i => (p.linEq i).shifted (linScaleOffset p.linEqCoeffs l.cvScales i)) l.linEq
  nolog : (opts.cv.types.contains .log && 0 < p.numLinIneq + p.numLinEq) = false

variable {lim} {base} {p} {opts} {l}

theorem IsComputed.lt {spec : ScalingSpec K} {num : Nat} {q : Nat → Quantity K}
    {l : List (Scale K × Quantity K)} (h : IsComputed lim base spec num q l) {i : Nat}
    {b : Scale K × Quantity K} (hb : l[i]? = some b) : i < num :=
  h.length_eq ▸ (List.getElem?_eq_some_iff.mp hb).1

/-- The offsets of the variables are those of the conditions. -/
theorem IsComputed.linScaleOffset_eq {cv : List (Scale K × Quantity K)}
    (h : IsComputed lim base opts.cv p.numCv p.cv cv) (coeffs : Nat → Nat → K) (i : Nat) :
    linScaleOffset coeffs (cv.map Prod.fst) i = p.linOffset lim opts coeffs i := by
  unfold linScaleOffset NativeProblem.linOffset
  rw [List.length_map, h.length_eq]
  refine Finset.sum_congr rfl fun j hj => ?_
  have hj' : j < cv.length := h.length_eq ▸ Finset.mem_range.mp hj
  have hval := h.entry j _ (List.getElem?_eq_getElem hj')
  unfold NativeProblem.cvOffset
  rw [← offset_computeScaling hval]
  simp [List.getD, hj']

namespace Computed

variable (hl : l.Computed lim base p opts) {x g : Nat → K} {i : Nat} {b : Scale K × Quantity K}

include hl

theorem length_cvScales : l.cvScales.length = p.numCv := by rw [List.length_map, hl.cv.length_eq]

/-- A linear constraint excludes logarithmic variables. -/
theorem log_cvScales (hpos : 0 < p.numLinIneq + p.numLinEq) : ∀ c ∈ l.cvScales, c.log = false := by
  intro c hc
  have hnolog := hl.nolog
  rw [decide_eq_true hpos, Bool.and_true] at hnolog
  obtain ⟨b, hb, rfl⟩ := List.mem_map.mp hc
  obtain ⟨j, hj, rfl⟩ := List.mem_iff_getElem.mp hb
  refine log_computeScaling (hl.cv.entry j _ (List.getElem?_eq_getElem hj)) (type_ne_log ?_ j)
  intro hmem
  rw [List.contains_iff_mem.mpr hmem] at hnolog
  cases hnolog

/-- A continuous variable. -/
theorem satisfied_cv (hkeep : p.Keeps lim base.toLogBase opts)
    (hargs : (l.problem base.toLogBase p).LogArgs p x g) (hb : l.cv[i]? = some b) :
    b.2.Satisfied lim (((l.problem base.toLogBase p).scaledCv p x).getD i 0) ↔
      (p.cv i).Satisfied lim (x i) := by
  have hi := hl.cv.lt hb
  have harg : b.1.Arg base.toLogBase (x i) := by
    have := hargs.cv i hi
    simpa [problem, ScalingModel.cvScale, List.getD, hb] using this
  have hval : ((l.problem base.toLogBase p).scaledCv p x).getD i 0 =
      b.1.n2s base.toLogBase (x i) := by
    simp [problem, ScaledProblem.scaledCv, modifyN2s, List.getD, List.getElem?_zipWith, hb, hi]
  rw [hval]
  exact satisfied_iff (hl.cv.entry i b hb) (hkeep.cv i hi) harg

/-- The scales of the constraint functions follow those of the primary functions. -/
theorem responseScale_eq (hb : (l.nlnIneq ++ l.nlnEq)[i]? = some b) :
    (l.problem base.toLogBase p).scaling.responseScale (p.numPrimary + i) = b.1 := by
  simp only [problem, ScalingModel.responseScale]
  rw [List.append_assoc, List.getD, List.getElem?_map,
    List.getElem?_append_right (by have := hl.primary; omega), hl.primary, Nat.add_sub_cancel_left,
    hb]
  rfl

/-- A nonlinear constraint. -/
theorem satisfied_fn {q : Quantity K} {t : ScaleType} {scale : Option {m : K // m ≠ 0}}
    (hargs : (l.problem base.toLogBase p).LogArgs p x g)
    (hb : (l.nlnIneq ++ l.nlnEq)[i]? = some b)
    (hok : computeScaling lim base.toLogBase t scale q = .ok b)
    (hkeep : q.Keeps lim base.toLogBase t scale) :
    b.2.Satisfied lim ((l.problem base.toLogBase p).scaledFn p g i) ↔ q.Satisfied lim (g i) := by
  have hi := (List.getElem?_eq_some_iff.mp hb).1
  rw [List.length_append, hl.nlnIneq.length_eq, hl.nlnEq.length_eq] at hi
  have harg := hargs.fn i hi
  rw [hl.responseScale_eq hb] at harg
  rw [ScaledProblem.scaledFn, ScalingModel.recastVal_eq, hl.responseScale_eq hb]
  exact satisfied_iff hok hkeep harg

theorem satisfied_nlnIneq (hkeep : p.Keeps lim base.toLogBase opts)
    (hargs : (l.problem base.toLogBase p).LogArgs p x g) (hb : l.nlnIneq[i]? = some b) :
    b.2.Satisfied lim ((l.problem base.toLogBase p).scaledFn p g i) ↔
      (p.nlnIneq i).Satisfied lim (g i) := by
  have happ : (l.nlnIneq ++ l.nlnEq)[i]? = some b := by
    rw [List.getElem?_append_left (List.getElem?_eq_some_iff.mp hb).1, hb]
  exact hl.satisfied_fn hargs happ (hl.nlnIneq.entry i b hb) (hkeep.nlnIneq i (hl.nlnIneq.lt hb))

theorem satisfied_nlnEq (hkeep : p.Keeps lim base.toLogBase opts)
    (hargs : (l.problem base.toLogBase p).LogArgs p x g) (hb : l.nlnEq[i]? = some b) :
    b.2.Satisfied lim ((l.problem base.toLogBase p).scaledFn p g (p.numNlnIneq + i)) ↔
      (p.nlnEq i).Satisfied lim (g (p.numNlnIneq + i)) := by
  have hlen := hl.nlnIneq.length_eq
  have happ : (l.nlnIneq ++ l.nlnEq)[p.numNlnIneq + i]? = some b := by
    rw [List.getElem?_append_right (by omega), hlen, Nat.add_sub_cancel_left, hb]
  exact hl.satisfied_fn hargs happ (hl.nlnEq.entry i b hb) (hkeep.nlnEq i (hl.nlnEq.lt hb))

/-- The feasible points of the scaled problem. -/
theorem feasible_iff_feasible (hkeep : p.Keeps lim base.toLogBase opts)
    {x d g : Nat → K} (hargs : (l.problem base.toLogBase p).LogArgs p x g) :
    p.Feasible lim x d g ↔ (l.problem base.toLogBase p).Feasible lim p x d g := by
  have hcv := forall_satisfied_iff (v := x) hl.cv.length_eq fun i b hb =>
    hl.satisfied_cv hkeep hargs hb
  have hnlnIneq := forall_satisfied_iff (v := g) hl.nlnIneq.length_eq fun i b hb =>
    hl.satisfied_nlnIneq hkeep hargs hb
  have hnlnEq := forall_satisfied_iff (v := fun i => g (p.numNlnIneq + i)) hl.nlnEq.length_eq
    fun i b hb => hl.satisfied_nlnEq hkeep hargs hb
  have hlinIneq := forall_satisfied_iff (q := p.linIneq)
    (v := p.linValue p.linIneqCoeffs x d) hl.linIneq.length_eq fun i b hb => by
      have hi := hl.linIneq.lt hb
      exact satisfied_row_iff (hkeep.linIneq i hi) opts.linIneq_types hl.length_cvScales
        (hl.log_cvScales (by omega)) (hl.cv.linScaleOffset_eq _ i)
        (by rw [List.getElem?_map, hb]; rfl) (hl.linIneq.entry i b hb)
  have hlinEq := forall_satisfied_iff (q := p.linEq)
    (v := p.linValue p.linEqCoeffs x d) hl.linEq.length_eq fun i b hb => by
      have hi := hl.linEq.lt hb
      exact satisfied_row_iff (hkeep.linEq i hi) opts.linEq_types hl.length_cvScales
        (hl.log_cvScales (by omega)) (hl.cv.linScaleOffset_eq _ i)
        (by rw [List.getElem?_map, hb]; rfl) (hl.linEq.entry i b hb)
  constructor
  · intro hp
    exact ⟨hcv.mpr hp.cv, hlinIneq.mpr hp.linIneq, hlinEq.mpr hp.linEq, hnlnIneq.mpr hp.nlnIneq,
      hnlnEq.mpr hp.nlnEq⟩
  · intro hr
    exact ⟨hcv.mp hr.cv, hlinIneq.mp hr.linIneq, hlinEq.mp hr.linEq, hnlnIneq.mp hr.nlnIneq,
      hnlnEq.mp hr.nlnEq⟩

end Computed

end ComponentLists

open ComponentLists

/-- Under the conditions, `initialize_scaling` either aborts with one of its errors, or computes the
scales of all components. -/
theorem initializeScaling_spec (h : p.Keeps lim base.toLogBase opts) :
    Meets IsScalingAbort
      (fun r => ∃ l : ComponentLists K, l.Computed lim base p opts ∧
        r = l.problem base.toLogBase p)
      (initializeScaling lim base.toLogBase p opts) := by
  obtain ⟨cv, hcv, hcvs⟩ := computeScalings_spec h.cv
  obtain ⟨primary, hprimary, hprimarys⟩ :=
    computeScalings_spec fun i (_ : i < p.numPrimary) =>
      keeps_neither (opts.primary.type i) (opts.primary.scale i)
  obtain ⟨nlnIneq, hnlnIneq, hnlnIneqs⟩ := computeScalings_spec h.nlnIneq
  obtain ⟨nlnEq, hnlnEq, hnlnEqs⟩ := computeScalings_spec h.nlnEq
  have hcvComputed : IsComputed lim base opts.cv p.numCv p.cv cv := ⟨hcvs.1, hcvs.2⟩
  have hlinIneqKeeps : ∀ i < p.numLinIneq,
      ((p.linIneq i).shifted (linScaleOffset p.linIneqCoeffs (cv.map Prod.fst) i)).Keeps lim
        base.toLogBase (opts.linIneq.type i) (opts.linIneq.scale i) := by
    intro i hi
    rw [hcvComputed.linScaleOffset_eq]
    exact (h.linIneq i hi).keeps
  have hlinEqKeeps : ∀ i < p.numLinEq,
      ((p.linEq i).shifted (linScaleOffset p.linEqCoeffs (cv.map Prod.fst) i)).Keeps lim
        base.toLogBase (opts.linEq.type i) (opts.linEq.scale i) := by
    intro i hi
    rw [hcvComputed.linScaleOffset_eq]
    exact (h.linEq i hi).keeps
  obtain ⟨linIneq, hlinIneq, hlinIneqs⟩ := computeScalings_spec hlinIneqKeeps
  obtain ⟨linEq, hlinEq, hlinEqs⟩ := computeScalings_spec hlinEqKeeps
  unfold initializeScaling
  refine Meets.bind (meets_abortIf (.inl rfl)) fun _ hnolog => ?_
  refine Meets.bind (P := (cv = ·)) (meets_of_exists ⟨cv, hcv, rfl⟩) ?_
  rintro _ rfl
  refine Meets.bind (P := (primary = ·)) (meets_of_exists ⟨primary, hprimary, rfl⟩) ?_
  rintro _ rfl
  refine Meets.bind (P := (nlnIneq = ·)) (meets_of_exists ⟨nlnIneq, hnlnIneq, rfl⟩) ?_
  rintro _ rfl
  refine Meets.bind (P := (nlnEq = ·)) (meets_of_exists ⟨nlnEq, hnlnEq, rfl⟩) ?_
  rintro _ rfl
  refine Meets.bind (meets_abortIf (.inr (.inl rfl))) fun _ _ => ?_
  refine Meets.bind (P := (linIneq = ·)) (meets_of_exists ⟨linIneq, hlinIneq, rfl⟩) ?_
  rintro _ rfl
  refine Meets.bind (meets_abortIf (.inr (.inr rfl))) fun _ _ => ?_
  refine Meets.bind (P := (linEq = ·)) (meets_of_exists ⟨linEq, hlinEq, rfl⟩) ?_
  rintro _ rfl
  exact ⟨⟨cv, primary, nlnIneq, nlnEq, linIneq, linEq⟩, ⟨hcvComputed, hprimarys.1,
    ⟨hnlnIneqs.1, hnlnIneqs.2⟩, ⟨hnlnEqs.1, hnlnEqs.2⟩, ⟨hlinIneqs.1, hlinIneqs.2⟩,
    ⟨hlinEqs.1, hlinEqs.2⟩, hnolog⟩, rfl⟩

/-- **Feasible points.** Under the conditions, `initialize_scaling` either aborts with one of its
errors, or sets up a problem whose feasible points are the scaled native ones. -/
theorem feasible_iff (h : p.Keeps lim base.toLogBase opts) :
    Meets IsScalingAbort (fun r => ∀ x d g, r.LogArgs p x g →
        (p.Feasible lim x d g ↔ r.Feasible lim p x d g))
      (initializeScaling lim base.toLogBase p opts) := by
  refine (initializeScaling_spec h).imp (fun _ he => he) ?_
  rintro _ ⟨l, hl, rfl⟩ x d g hargs
  exact hl.feasible_iff_feasible h hargs

end Problem

/-! ## Over the reals -/

/-- `BIG_REAL_BOUND` and `SCALING_MIN_SCALE` -/
noncomputable def ScalingLimits.real : ScalingLimits ℝ where
  bigRealBound := 10 ^ 30
  minScale := 10 ^ 10 / 2 ^ 1022
  minScale_pos := by positivity
  one_lt_bigRealBound := by norm_num

/-- The logarithm to the base 10. -/
noncomputable def IncreasingLog.real : IncreasingLog ℝ where
  toLogBase := .real
  arg_iff := Iff.rfl
  ln_lt hx hlt := div_lt_div_of_pos_right (Real.log_lt_log hx hlt) (Real.log_pos (by norm_num))

/-- One continuous variable with two bounds, and a nonlinear inequality between -2 and 4. -/
noncomputable def boxProblem (lb ub : Bound ℝ) : NativeProblem ℝ where
  numCv := 1
  numDiscrete := 0
  numPrimary := 0
  numNlnIneq := 1
  numNlnEq := 0
  numLinIneq := 0
  numLinEq := 0
  cvLowerBounds _ := lb
  cvUpperBounds _ := ub
  nlnIneqLowerBounds _ := .fin (-2)
  nlnIneqUpperBounds _ := .fin 4
  nlnEqTargets _ := 0
  linIneqCoeffs _ _ := 0
  linIneqLowerBounds _ := .negInf
  linIneqUpperBounds _ := .posInf
  linEqCoeffs _ _ := 0
  linEqTargets _ := 0

/-- Automatic scaling of the variable, and a negative multiplier of the inequality. -/
noncomputable def boxOptions : ScalingOptions ℝ where
  cv := ⟨[.auto], []⟩
  primary := ⟨[], []⟩
  nlnIneq := ⟨[.value], [⟨-2, by norm_num⟩]⟩
  nlnEq := ⟨[], []⟩
  linIneq := ⟨[], []⟩
  linEq := ⟨[], []⟩
  linIneq_types _ h := absurd h List.not_mem_nil
  linEq_types _ h := absurd h List.not_mem_nil

theorem boxProblem_feasible_iff :
    Outcome.Meets IsScalingAbort
      (fun r => ∀ x d g, r.LogArgs (boxProblem (.fin 1) (.fin 3)) x g →
        ((boxProblem (.fin 1) (.fin 3)).Feasible .real x d g ↔
          r.Feasible .real (boxProblem (.fin 1) (.fin 3)) x d g))
      (initializeScaling .real IncreasingLog.real.toLogBase (boxProblem (.fin 1) (.fin 3)) boxOptions) := by
  apply feasible_iff
  refine ⟨?_, ?_, ?_, ?_, ?_⟩
  · intro i hi
    obtain rfl : i = 0 := Nat.lt_one_iff.mp hi
    refine ⟨fun m hm => absurd hm (by simp [boxOptions, ScalingSpec.scale, specEntry]),
      fun _ => ?_, fun ht => absurd ht (by simp [boxOptions, ScalingSpec.type, specEntry])⟩
    have hl : (Bound.fin (1 : ℝ)).presentLower .real = true := by
      norm_num [Bound.presentLower, ScalingLimits.real]
    have hu : (Bound.fin (3 : ℝ)).presentUpper .real = true := by
      norm_num [Bound.presentUpper, ScalingLimits.real]
    refine ⟨fun _ _ => ⟨1, 3, rfl, rfl, by norm_num⟩, fun _ h => ?_, fun h => ?_⟩
    · exact absurd (hu.symm.trans h) (by simp)
    · exact absurd (hl.symm.trans h) (by simp)
  · intro i hi
    obtain rfl : i = 0 := Nat.lt_one_iff.mp hi
    refine ⟨fun m hm _ => ?_, fun ht => absurd ht (by simp [boxOptions, ScalingSpec.type, specEntry]),
      fun ht => absurd ht (by simp [boxOptions, ScalingSpec.type, specEntry])⟩
    obtain rfl : (⟨-2, by norm_num⟩ : {m : ℝ // m ≠ 0}) = m := Option.some.inj hm
    norm_num [NativeProblem.nlnIneq, boxProblem, Quantity.ValueKeeps, Bound.presentLower,
      Bound.presentUpper, Bound.div, ScalingLimits.real]
  · intro i hi
    cases hi
  · intro i hi
    cases hi
  · intro i hi
    cases hi

/-- A negative lower bound alone is taken as a multiplier, without a swap of the bounds. -/
theorem boxProblem_not_feasible_iff :
    ¬ Outcome.Meets IsScalingAbort
      (fun r => ∀ x d g, r.LogArgs (boxProblem (.fin (-5)) .posInf) x g →
        ((boxProblem (.fin (-5)) .posInf).Feasible .real x d g ↔
          r.Feasible .real (boxProblem (.fin (-5)) .posInf) x d g))
      (initializeScaling .real LogBase.real (boxProblem (.fin (-5)) .posInf) boxOptions) := by
  intro h
  have hcv : computeScalings .real LogBase.real boxOptions.cv 1
      (boxProblem (.fin (-5)) .posInf).cv =
        .ok [(Scale.none.addAuto ⟨-5, by norm_num⟩ 0, .bounds (.fin 1) .posInf)] := by
    refine Outcome.mapM_range_eq_ok.mpr ⟨rfl, fun i b hb => ?_⟩
    obtain rfl : i = 0 := by simpa using (List.getElem?_eq_some_iff.mp hb).1
    obtain rfl := Option.some.inj hb
    have hl : (Bound.fin (-5 : ℝ)).presentLower .real = true := by
      norm_num [Bound.presentLower, ScalingLimits.real]
    have hreset : resetMultiplier .real (-5) = ⟨-5, by norm_num⟩ := by
      unfold resetMultiplier
      rw [dif_neg]
      rw [not_lt, abs_of_nonpos (by norm_num), neg_neg]
      have hpow : (2 : ℝ) ^ 100 ≤ 2 ^ 1022 := pow_le_pow_right₀ one_le_two (by norm_num)
      exact (div_le_div_of_nonneg_left (by norm_num) (by norm_num) hpow).trans (by norm_num)
    have hfactor : autoFactor .real (.bounds (.fin (-5 : ℝ)) .posInf) =
        .ok (some (⟨-5, by norm_num⟩, 0)) := by
      rw [← hreset]
      simp only [autoFactor, boundsScaleFactor, hl, Bound.presentUpper]
    have hscaled : Quantity.autoScaled .real (-5) 0 (.bounds (.fin (-5 : ℝ)) .posInf) =
        .bounds (.fin 1) .posInf := by
      simp only [Quantity.autoScaled, Quantity.mapPresent, hl, if_true, Bound.presentUpper,
        Bound.sub, Bound.div]
      norm_num
    rw [← hscaled]
    exact Outcome.bind_eq_ok.mpr ⟨_, hfactor, rfl⟩
  have hnlnIneq : computeScalings .real LogBase.real boxOptions.nlnIneq 1
      (boxProblem (.fin (-5)) .posInf).nlnIneq =
        .ok [(Scale.ofValue ⟨-2, by norm_num⟩, .bounds (.fin (-2)) (.fin 1))] := by
    refine Outcome.mapM_range_eq_ok.mpr ⟨rfl, fun i b hb => ?_⟩
    obtain rfl : i = 0 := by simpa using (List.getElem?_eq_some_iff.mp hb).1
    obtain rfl := Option.some.inj hb
    have hscaled : Quantity.valueScaled .real (-2) (.bounds (.fin (-2 : ℝ)) (.fin 4)) =
        .bounds (.fin (-2)) (.fin 1) := by
      norm_num [Quantity.valueScaled, Quantity.mapPresent, Quantity.swapBounds,
        Bound.presentLower, Bound.presentUpper, Bound.div, ScalingLimits.real]
    rw [← hscaled]
    rfl
  have hok : initializeScaling .real LogBase.real (boxProblem (.fin (-5)) .posInf) boxOptions =
      .ok (ComponentLists.problem ⟨[(Scale.none.addAuto ⟨-5, by norm_num⟩ 0,
        .bounds (.fin 1) .posInf)], [], [(Scale.ofValue ⟨-2, by norm_num⟩,
          .bounds (.fin (-2)) (.fin 1))], [], [], []⟩ LogBase.real
            (boxProblem (.fin (-5)) .posInf)) :=
    Outcome.bind_eq_ok.mpr ⟨(), rfl, Outcome.bind_eq_ok.mpr ⟨_, hcv, Outcome.bind_eq_ok.mpr ⟨_, rfl,
      Outcome.bind_eq_ok.mpr ⟨_, hnlnIneq, rfl⟩⟩⟩⟩
  have hiff := h.of_ok hok (fun _ => 0) (fun _ => 0) (fun _ => 0) ⟨?_, ?_⟩
  · have hnative : (boxProblem (.fin (-5)) .posInf).Feasible .real (fun _ => 0) (fun _ => 0)
        (fun _ => 0) := by
      refine ⟨fun i _ => ⟨fun _ => ?_, fun _ => trivial⟩, fun i hi => absurd hi (Nat.not_lt_zero _),
        fun i hi => absurd hi (Nat.not_lt_zero _), fun i _ => ⟨fun _ => ?_, fun _ => ?_⟩,
        fun i hi => absurd hi (Nat.not_lt_zero _)⟩
      · exact neg_nonpos.mpr (by norm_num : (0 : ℝ) ≤ 5)
      · exact neg_nonpos.mpr zero_le_two
      · exact (by norm_num : (0 : ℝ) ≤ 4)
    have hscaled := ((hiff.mp hnative).cv 0 _ rfl).1
      (by norm_num [Bound.presentLower, ScalingLimits.real])
    -- the scaled variable is 0, and its lower bound 1
    have hval : (1 : ℝ) ≤ (0 - (0 + 0 * 1)) / (1 * -5) := hscaled
    norm_num at hval
  · intro i _ hlog
    cases i with
    | zero => cases hlog
    | succ i => cases hlog
  · intro i _ hlog
    cases i with
    | zero => cases hlog
    | succ i => cases hlog

end Dakota
