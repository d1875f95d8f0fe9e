import Dakota.Calibration.LogDeterminant

/-!
# The misfit and its derivatives

* `buildGradient_values`, `buildHessian_lower`: what the routines return, summed over the residuals
  of each experiment.
* `MisfitDerivatives`: these are the derivatives of half the sum of the squared residuals.
* `misfitMatches_iff`: they are if every residual is requested like the one at its index within the
  experiment. `probe` is the problem in which one residual counts.
* `misfitAndLogDeterminant_match_iff`: the misfit with the terms of the multipliers.
-/

namespace Dakota.ExperimentData

open Differential

/-! ## Residuals of experiments -/

section Blocks

variable (e : ExperimentData)

theorem numTotalExppoints_eq_expOffsets : e.numTotalExppoints = e.expOffsets e.numExperiments := by
  rw [numTotalExppoints_eq]
  induction e.numExperiments with
  | zero => rfl
  | succ n ih => rw [Finset.sum_range_succ, ih, expOffsets, Nat.add_comm]

/-- The residuals are those of the experiments, one after the other. -/
theorem sum_experiments {A : Type} [AddCommMonoid A] (f : ℕ → A) :
    ∑ exp ∈ Finset.range e.numExperiments, ∑ r ∈ Finset.range (e.numPrimaryFunctions exp),
      f (e.expOffsets exp + r) = ∑ m ∈ Finset.range e.numTotalExppoints, f m := by
  rw [numTotalExppoints_eq_expOffsets]
  induction e.numExperiments with
  | zero => rfl
  | succ n ih => rw [Finset.sum_range_succ, ih, expOffsets, Nat.add_comm, Finset.sum_range_add]

theorem expOffsets_mono : Monotone e.expOffsets :=
  monotone_nat_of_le_succ fun _ => Nat.le_add_left _ _

variable {e} in
theorem offset_lt {exp r : ℕ} (hexp : exp < e.numExperiments) (hr : r < e.numPrimaryFunctions exp) :
    e.expOffsets exp + r < e.numTotalExppoints := by
  have hmono := e.expOffsets_mono (Nat.succ_le_of_lt hexp)
  rw [expOffsets] at hmono
  rw [numTotalExppoints_eq_expOffsets]
  omega

variable {e} in
/-- No two experiments share a residual. -/
theorem offset_inj {exp exp' r r' : ℕ} (hr : r < e.numPrimaryFunctions exp)
    (hr' : r' < e.numPrimaryFunctions exp')
    (h : e.expOffsets exp + r = e.expOffsets exp' + r') : exp = exp' ∧ r = r' := by
  rcases lt_trichotomy exp exp' with hlt | rfl | hlt
  · have hmono := e.expOffsets_mono (Nat.succ_le_of_lt hlt)
    rw [expOffsets] at hmono
    omega
  · exact ⟨rfl, by omega⟩
  · have hmono := e.expOffsets_mono (Nat.succ_le_of_lt hlt)
    rw [expOffsets] at hmono
    omega

end Blocks

/-! ## What the routines add -/

section Code

variable {e : ExperimentData} {asrv : ℕ → ℕ} {resp : ResidualResponse}

theorem gradientFromFunctionData_values (g : RealMatrix) (res : RealVector) (asrv : ℕ → ℕ)
    (ssr : RealVector) : (gradientFromFunctionData g res asrv ssr).length = ssr.length ∧
      ∀ v, (gradientFromFunctionData g res asrv ssr).values v = ssr.values v +
        ∑ r ∈ Finset.range res.length,
          if asrv r &&& 3 = 3 ∧ v < g.numRows then res.values r * g.entry v r else 0 := by
  refine foldl_range_inv _ ssr res.length (fun n (s : RealVector) => s.length = ssr.length ∧
    ∀ v, s.values v = ssr.values v + ∑ r ∈ Finset.range n,
      if asrv r &&& 3 = 3 ∧ v < g.numRows then res.values r * g.entry v r else 0)
    ⟨rfl, by simp⟩ ?_
  rintro n s - ⟨hlen, hvalues⟩
  by_cases hn : asrv n &&& 3 = 3
  · simp only [if_pos hn]
    refine ⟨hlen, fun v => ?_⟩
    rw [Finset.sum_range_succ, ← add_assoc, ← hvalues v]
    by_cases hv : v < g.numRows
    · rw [if_pos hv, if_pos ⟨hn, hv⟩]
    · rw [if_neg hv, if_neg fun h => hv h.2, add_zero]
  · simp only [if_neg hn]
    refine ⟨hlen, fun v => ?_⟩
    rw [hvalues v, Finset.sum_range_succ, if_neg fun h => hn h.1, add_zero]

theorem buildGradient_values (e : ExperimentData) (resp : ResidualResponse) (asrv : ℕ → ℕ) :
    (e.buildGradientOfSumSquareResiduals resp asrv).length = resp.numDerivVars ∧
    ∀ v, (e.buildGradientOfSumSquareResiduals resp asrv).values v =
      ∑ exp ∈ Finset.range e.numExperiments, ∑ r ∈ Finset.range (e.numPrimaryFunctions exp),
        if asrv r &&& 3 = 3 ∧ v < resp.functionGradients.numRows then
          resp.functionValues.values (e.expOffsets exp + r) *
            resp.functionGradients.entry v (e.expOffsets exp + r) else 0 := by
  refine foldl_range_inv _ _ e.numExperiments (fun n (s : RealVector) =>
    s.length = resp.numDerivVars ∧ ∀ v, s.values v =
      ∑ exp ∈ Finset.range n, ∑ r ∈ Finset.range (e.numPrimaryFunctions exp),
        if asrv r &&& 3 = 3 ∧ v < resp.functionGradients.numRows then
          resp.functionValues.values (e.expOffsets exp + r) *
            resp.functionGradients.entry v (e.expOffsets exp + r) else 0) ⟨rfl, by simp⟩ ?_
  rintro n s - ⟨hlen, hvalues⟩
  obtain ⟨hlen', hvalues'⟩ := gradientFromFunctionData_values
    (e.gradientsView resp.functionGradients n) (e.residualsView resp.functionValues n) asrv s
  refine ⟨hlen'.trans hlen, fun v => ?_⟩
  rw [hvalues' v, hvalues v, Finset.sum_range_succ]
  rfl

/-- A Hessian as the view has it. -/
def viewed (hessians : RealSymMatrixArray) (m : ℕ) : RealSymMatrix :=
  if hessians.size = 0 then {}
  else if (hessians.entry m).numRows = 0 then {}
  else hessians.entry m

/-- What a residual with the request `request` adds to an entry of the Hessian. -/
def hessianTerm (resp : ResidualResponse) (request m k j : ℕ) : ℝ :=
  (if request &&& 2 ≠ 0 then
    resp.functionGradients.entry j m * resp.functionGradients.entry k m else 0) +
  if request &&& 5 = 5 then
    resp.functionValues.values m * (viewed resp.functionHessians m).get j k else 0

theorem hessianFromFunctionData_lower (h : RealSymMatrixArray) (g : RealMatrix) (res : RealVector)
    (asrv : ℕ → ℕ) (ssr : RealSymMatrix) {k j : ℕ} (hk : k < ssr.numRows) (hj : j ≤ k) :
    (hessianFromFunctionData h g res asrv ssr).lower k j = ssr.lower k j +
      ∑ r ∈ Finset.range res.length,
        ((if asrv r &&& 2 ≠ 0 then g.entry j r * g.entry k r else 0) +
          if asrv r &&& 5 = 5 then res.values r * (h.entry r).get j k else 0) := by
  rw [← foldl_range_add, hessianFromFunctionData]
  dsimp only
  rw [if_pos ⟨hk, hj⟩]
  congr 1
  funext hess r
  split_ifs <;> ring

theorem buildHessian_lower (e : ExperimentData) (resp : ResidualResponse) (asrv : ℕ → ℕ) :
    (e.buildHessianOfSumSquareResiduals resp asrv).numRows = resp.numDerivVars ∧
    ∀ k j, k < resp.numDerivVars → j ≤ k →
      (e.buildHessianOfSumSquareResiduals resp asrv).lower k j =
        ∑ exp ∈ Finset.range e.numExperiments, ∑ r ∈ Finset.range (e.numPrimaryFunctions exp),
          hessianTerm resp (asrv r) (e.expOffsets exp + r) k j := by
  refine foldl_range_inv _ _ e.numExperiments (fun n (s : RealSymMatrix) =>
    s.numRows = resp.numDerivVars ∧ ∀ k j, k < resp.numDerivVars → j ≤ k → s.lower k j =
      ∑ exp ∈ Finset.range n, ∑ r ∈ Finset.range (e.numPrimaryFunctions exp),
        hessianTerm resp (asrv r) (e.expOffsets exp + r) k j) ⟨rfl, by simp⟩ ?_
  rintro n s - ⟨hrows, hlower⟩
  refine ⟨hrows, fun k j hk hj => ?_⟩
  rw [hessianFromFunctionData_lower _ _ _ _ _ (hrows.symm ▸ hk) hj, hlower k j hk hj,
    Finset.sum_range_succ]
  rfl

end Code

/-! ## The sum of squares -/

/-- The residuals as functions of the variables, with their derivatives at a point. -/
structure ResidualFunctions (n : ℕ) where
  f : ℕ → (Fin n → ℝ) → ℝ
  grad : ℕ → (Fin n → ℝ) → Fin n → ℝ
  hess : ℕ → Matrix (Fin n) (Fin n) ℝ
  x : Fin n → ℝ
  twice : ∀ m, HasHessAt (f m) (grad m) (hess m) x

namespace ResidualFunctions

variable {n : ℕ} (p : ResidualFunctions n) (s : Finset ℕ)

/-- Half the sum of the squares over some residuals. -/
noncomputable def halfSumSquares (y : Fin n → ℝ) : ℝ := ∑ m ∈ s, p.f m y * p.f m y / 2

theorem scalarTwice_halfSquare (t : ℝ) : ScalarTwice (fun t => t * t / 2) (fun t => t) 1 t := by
  have h := scalarTwice_quadratic (s := t) (1 / 2) 0 0
  have hslope : (fun t : ℝ => 2 * (1 / 2) * (t - 0) + 0) = fun t => t := by
    funext t
    ring
  have hθ : (fun t : ℝ => 1 / 2 * (t - 0) * (t - 0) + 0 * (t - 0)) = fun t => t * t / 2 := by
    funext t
    ring
  rw [hslope, hθ, mul_one_div_cancel two_ne_zero] at h
  exact h

theorem hasHessAt_halfSumSquares : HasHessAt (p.halfSumSquares s)
    (fun y => ∑ m ∈ s, p.f m y • p.grad m y)
    (∑ m ∈ s, (p.f m p.x • p.hess m + Matrix.vecMulVec (p.grad m p.x) (p.grad m p.x))) p.x := by
  have h := HasHessAt.sum (s := s) fun m _ => (p.twice m).comp (scalarTwice_halfSquare (p.f m p.x))
  simp only [one_smul] at h
  exact h

end ResidualFunctions

/-! ## Requests -/

/-- What is asked for in full is asked for in part. -/
theorem and_ne_zero_of_full {a full part : ℕ} (h : a &&& full = full) (hpart : full &&& part ≠ 0) :
    a &&& part ≠ 0 := by
  intro hzero
  rw [← h, Nat.and_right_comm, hzero, Nat.zero_and] at hpart
  exact hpart rfl

/-- All three of value, gradient and Hessian. -/
theorem and_seven {a : ℕ} : a &&& 7 = 7 ↔ a &&& 2 ≠ 0 ∧ a &&& 5 = 5 := by
  have key : ∀ x ≤ 7, (x = 7 ↔ x &&& 2 ≠ 0 ∧ x &&& 5 = 5) := by decide
  have h2 : a &&& 7 &&& 2 = a &&& 2 := Nat.and_assoc a 7 2
  have h5 : a &&& 7 &&& 5 = a &&& 5 := Nat.and_assoc a 7 5
  rw [key _ Nat.and_le_right, h2, h5]

/-- Two requests are read alike: `a` where the routines look, `b` of the residual itself. A Hessian
is used if the value is there too, and asked for in full if also the gradient is. -/
structure SameRequest (a b : ℕ) : Prop where
  valueAndGradient : a &&& 3 = 3 ↔ b &&& 3 = 3
  gradient : a &&& 2 ≠ 0 ↔ b &&& 2 ≠ 0
  hessian : a &&& 5 = 5 ↔ b &&& 7 = 7

/-- Every residual is asked for what the request at its index within the experiment says. -/
def Aligned (e : ExperimentData) (asrv : ℕ → ℕ) : Prop :=
  ∀ exp < e.numExperiments, ∀ r < e.numPrimaryFunctions exp,
    SameRequest (asrv r) (asrv (e.expOffsets exp + r))

/-! ## The misfit -/

section Misfit

variable (e : ExperimentData) (asrv : ℕ → ℕ) {n : ℕ}

/-- The residuals with all of these bits. -/
def carrying (bits : ℕ) : Finset ℕ :=
  (Finset.range e.numTotalExppoints).filter fun m => asrv m &&& bits = bits

/-- The residuals of which only the gradients are used. -/
def gaussNewton : Finset ℕ :=
  (Finset.range e.numTotalExppoints).filter fun m => asrv m &&& 2 ≠ 0 ∧ asrv m &&& 5 ≠ 5

/-- A response has what is asked for. -/
structure Carries (p : ResidualFunctions n) (resp : ResidualResponse) : Prop where
  numDerivVars : resp.numDerivVars = n
  values : ∀ m < e.numTotalExppoints, asrv m &&& 1 ≠ 0 → resp.functionValues.values m = p.f m p.x
  gradients : ∀ m < e.numTotalExppoints, asrv m &&& 2 ≠ 0 →
    resp.functionGradients.numRows = n ∧
    ∀ j : Fin n, resp.functionGradients.entry j m = p.grad m p.x j
  hessians : ∀ m < e.numTotalExppoints, asrv m &&& 4 ≠ 0 →
    resp.functionHessians.size ≠ 0 ∧ (resp.functionHessians.entry m).numRows = n ∧
    ∀ k j : Fin n, (resp.functionHessians.entry m).get j k = p.hess m k j

/-- The gradient is that of the residuals with values and gradients. The Hessian is that of the
residuals with all three, and the Gauss-Newton part of those where more is missing. -/
structure MisfitDerivatives (p : ResidualFunctions n) (resp : ResidualResponse) : Prop where
  length : (e.buildGradientOfSumSquareResiduals resp asrv).length = n
  gradient : HasGradAt (p.halfSumSquares (e.carrying asrv 3))
    (fun j => (e.buildGradientOfSumSquareResiduals resp asrv).values j) p.x
  numRows : (e.buildHessianOfSumSquareResiduals resp asrv).numRows = n
  hessian : ∃ grad hess, HasHessAt (p.halfSumSquares (e.carrying asrv 7)) grad hess p.x ∧
    ∀ k j : Fin n, j ≤ k → (e.buildHessianOfSumSquareResiduals resp asrv).lower k j =
      hess k j + ∑ m ∈ e.gaussNewton asrv, p.grad m p.x k * p.grad m p.x j

/-- The routines return the derivatives of the misfit. -/
def MisfitMatches : Prop :=
  ∀ (n : ℕ) (p : ResidualFunctions n) (resp : ResidualResponse),
    e.Carries asrv p resp → e.MisfitDerivatives asrv p resp

end Misfit

section Aligned

variable {e : ExperimentData} {asrv : ℕ → ℕ} {n : ℕ} {p : ResidualFunctions n}
  {resp : ResidualResponse}

theorem Carries.misfitGradient (h : e.Carries asrv p resp) (haligned : e.Aligned asrv)
    (v : Fin n) : (e.buildGradientOfSumSquareResiduals resp asrv).values v =
      ∑ m ∈ e.carrying asrv 3, p.f m p.x * p.grad m p.x v := by
  obtain ⟨-, hvalues⟩ := buildGradient_values e resp asrv
  rw [hvalues v, carrying, Finset.sum_filter, ← e.sum_experiments]
  refine Finset.sum_congr rfl fun exp hexp => Finset.sum_congr rfl fun r hr => ?_
  rw [Finset.mem_range] at hexp hr
  have hsame := (haligned exp hexp r hr).valueAndGradient
  have hlt := offset_lt hexp hr
  generalize e.expOffsets exp + r = m at hsame hlt ⊢
  by_cases hbits : asrv m &&& 3 = 3
  · obtain ⟨hrows, hentry⟩ := h.gradients m hlt (and_ne_zero_of_full hbits (by decide))
    rw [if_pos hbits, if_pos ⟨hsame.mpr hbits, hrows ▸ v.2⟩, hentry,
      h.values m hlt (and_ne_zero_of_full hbits (by decide))]
  · rw [if_neg hbits, if_neg fun h => hbits (hsame.mp h.1)]

/-- The Hessian, with its two parts by residual. -/
theorem sum_hessianParts (p : ResidualFunctions n) (k j : Fin n) :
    ∑ m ∈ e.carrying asrv 7, (p.f m p.x * p.hess m k j + p.grad m p.x k * p.grad m p.x j) +
        ∑ m ∈ e.gaussNewton asrv, p.grad m p.x k * p.grad m p.x j =
      ∑ m ∈ Finset.range e.numTotalExppoints,
        ((if asrv m &&& 2 ≠ 0 then p.grad m p.x k * p.grad m p.x j else 0) +
          if asrv m &&& 7 = 7 then p.f m p.x * p.hess m k j else 0) := by
  rw [carrying, gaussNewton, Finset.sum_filter, Finset.sum_filter, ← Finset.sum_add_distrib]
  refine Finset.sum_congr rfl fun m _ => ?_
  by_cases h2 : asrv m &&& 2 ≠ 0
  · by_cases h5 : asrv m &&& 5 = 5
    · rw [if_pos h2, if_pos (and_seven.mpr ⟨h2, h5⟩), if_pos (and_seven.mpr ⟨h2, h5⟩),
        if_neg fun h => h.2 h5]
      ring
    · rw [if_pos h2, if_neg fun h => h5 (and_seven.mp h).2, if_neg fun h => h5 (and_seven.mp h).2,
        if_pos ⟨h2, h5⟩]
      ring
  · rw [if_neg h2, if_neg fun h => h2 (and_seven.mp h).1, if_neg fun h => h2 (and_seven.mp h).1,
      if_neg fun h => h2 h.1]

theorem Carries.misfitHessian (h : e.Carries asrv p resp) (haligned : e.Aligned asrv)
    {k j : Fin n} (hj : j ≤ k) : (e.buildHessianOfSumSquareResiduals resp asrv).lower k j =
      ∑ m ∈ e.carrying asrv 7,
          (p.f m p.x * p.hess m k j + p.grad m p.x k * p.grad m p.x j) +
        ∑ m ∈ e.gaussNewton asrv, p.grad m p.x k * p.grad m p.x j := by
  obtain ⟨-, hlower⟩ := buildHessian_lower e resp asrv
  rw [hlower k j (h.numDerivVars ▸ k.2) hj, sum_hessianParts, ← e.sum_experiments]
  refine Finset.sum_congr rfl fun exp hexp => Finset.sum_congr rfl fun r hr => ?_
  rw [Finset.mem_range] at hexp hr
  have hsame := haligned exp hexp r hr
  have hlt := offset_lt hexp hr
  generalize e.expOffsets exp + r = m at hsame hlt ⊢
  rw [hessianTerm]
  congr 1
  · refine ite_congr (propext hsame.gradient) (fun hbit => ?_) fun _ => rfl
    obtain ⟨-, hentry⟩ := h.gradients m hlt hbit
    rw [hentry, hentry, mul_comm]
  · refine ite_congr (propext hsame.hessian) (fun hbits => ?_) fun _ => rfl
    obtain ⟨hsize, hrows, hentry⟩ := h.hessians m hlt (and_ne_zero_of_full hbits (by decide))
    have hn : n ≠ 0 := Nat.ne_zero_of_lt k.2
    rw [h.values m hlt (and_ne_zero_of_full hbits (by decide)), viewed, if_neg hsize,
      if_neg (hrows ▸ hn), hentry]

theorem misfitMatches_of_aligned (haligned : e.Aligned asrv) : e.MisfitMatches asrv := by
  intro n p resp h
  obtain ⟨hlen, -⟩ := buildGradient_values e resp asrv
  obtain ⟨hrows, -⟩ := buildHessian_lower e resp asrv
  refine ⟨hlen.trans h.numDerivVars, ?_, hrows.trans h.numDerivVars,
    ⟨_, _, p.hasHessAt_halfSumSquares _, fun k j hj => ?_⟩⟩
  · refine (congrArg (fun g => HasGradAt _ g p.x) ?_).mp (p.hasHessAt_halfSumSquares _).hasGradAt
    funext v
    rw [h.misfitGradient haligned v]
    simp
  · rw [h.misfitHessian haligned hj]
    simp [Matrix.sum_apply, Matrix.vecMulVec_apply]

end Aligned

/-! ## One residual at a time -/

section Probe

variable (e : ExperimentData) (asrv : ℕ → ℕ) (m₀ : ℕ) (c : ℝ)

/-- One for the residual, zero for all others. -/
def weight (m : ℕ) : ℝ := if m = m₀ then 1 else 0

/-- One variable; the residual has the value and the slope one, and the curvature `c`. -/
noncomputable def probe : ResidualFunctions 1 where
  f m y := weight m₀ m * c / 2 * (dotMap 1 y - 0) * (dotMap 1 y - 0) +
    weight m₀ m * (dotMap 1 y - 0) + weight m₀ m
  grad m y := (2 * (weight m₀ m * c / 2) * (dotMap 1 y - 0) + weight m₀ m) • 1
  hess m := (2 * (weight m₀ m * c / 2) * (dotMap 1 (0 : Fin 1 → ℝ) - 0) + weight m₀ m) • 0 +
    (2 * (weight m₀ m * c / 2)) • Matrix.vecMulVec 1 1
  x := 0
  twice m := ((hasHessAt_dot 1).comp
    (scalarTwice_quadratic (weight m₀ m * c / 2) (weight m₀ m) 0)).add_const (weight m₀ m)

theorem probe_f (m : ℕ) : (probe m₀ c).f m (probe m₀ c).x = weight m₀ m := by
  simp [probe, dotMap_apply]

theorem probe_grad (m : ℕ) (j : Fin 1) :
    (probe m₀ c).grad m (probe m₀ c).x j = weight m₀ m := by
  simp [probe, dotMap_apply]

theorem probe_hess (m : ℕ) (k j : Fin 1) : (probe m₀ c).hess m k j = weight m₀ m * c := by
  simp [probe, dotMap_apply]
  ring

/-- Everything is there. -/
noncomputable def probeResponse : ResidualResponse where
  numDerivVars := 1
  functionValues := ⟨e.numTotalExppoints, weight m₀⟩
  functionGradients := ⟨1, e.numTotalExppoints, fun _ => weight m₀⟩
  functionHessians := ⟨e.numTotalExppoints, fun m => ⟨1, fun _ _ => weight m₀ m * c⟩⟩

theorem carries_probe : e.Carries asrv (probe m₀ c) (probeResponse e m₀ c) where
  numDerivVars := rfl
  values m _ _ := (probe_f m₀ c m).symm
  gradients m _ _ := ⟨rfl, fun j => (probe_grad m₀ c m j).symm⟩
  hessians m hm _ := ⟨Nat.ne_zero_of_lt hm, rfl, fun k j => (probe_hess m₀ c m k j).symm⟩

variable {e asrv m₀ c}

/-- Of a sum over the experiments one residual is left. -/
theorem sum_single {exp r : ℕ} (hexp : exp < e.numExperiments) (hr : r < e.numPrimaryFunctions exp)
    (term : ℕ → ℕ → ℝ) (hterm : ∀ r' m, m ≠ e.expOffsets exp + r → term r' m = 0) :
    ∑ exp' ∈ Finset.range e.numExperiments, ∑ r' ∈ Finset.range (e.numPrimaryFunctions exp'),
      term r' (e.expOffsets exp' + r') = term r (e.expOffsets exp + r) := by
  rw [Finset.sum_eq_single exp, Finset.sum_eq_single r]
  · exact fun r' _ hne => hterm _ _ fun h => hne (by omega)
  · exact fun h => absurd (Finset.mem_range.mpr hr) h
  · intro exp' _ hne
    refine Finset.sum_eq_zero fun r' hr' => hterm _ _ fun h => hne ?_
    exact (offset_inj (Finset.mem_range.mp hr') hr h).1
  · exact fun h => absurd (Finset.mem_range.mpr hexp) h

theorem sum_range_single {m₀ : ℕ} (hm₀ : m₀ < e.numTotalExppoints) (term : ℕ → ℝ)
    (hterm : ∀ m, m ≠ m₀ → term m = 0) :
    ∑ m ∈ Finset.range e.numTotalExppoints, term m = term m₀ :=
  Finset.sum_eq_single m₀ (fun m _ hne => hterm m hne) fun h => absurd (Finset.mem_range.mpr hm₀) h

theorem ite_one_zero_inj {P Q : Prop} [Decidable P] [Decidable Q] :
    (if P then (1 : ℝ) else 0) = (if Q then 1 else 0) ↔ (P ↔ Q) := by
  by_cases hP : P <;> by_cases hQ : Q <;> simp [hP, hQ]

/-- The gradient of the probe, as the routine returns it and as it is. -/
theorem probe_gradient {exp r : ℕ} (hexp : exp < e.numExperiments)
    (hr : r < e.numPrimaryFunctions exp)
    (h : e.MisfitDerivatives asrv (probe (e.expOffsets exp + r) c)
      (probeResponse e (e.expOffsets exp + r) c)) :
    (if asrv r &&& 3 = 3 then (1 : ℝ) else 0) =
      if asrv (e.expOffsets exp + r) &&& 3 = 3 then 1 else 0 := by
  have hcode : (e.buildGradientOfSumSquareResiduals
      (probeResponse e (e.expOffsets exp + r) c) asrv).values 0 =
      if asrv r &&& 3 = 3 then 1 else 0 := by
    refine ((buildGradient_values e _ asrv).2 0).trans ((sum_single hexp hr (fun r' m =>
      if asrv r' &&& 3 = 3 ∧ 0 < 1 then weight (e.expOffsets exp + r) m *
        weight (e.expOffsets exp + r) m else 0) fun r' m hne => ?_).trans ?_)
    · simp [weight, hne]
    · simp [weight]
  have hspec := congrFun (h.gradient.unique
    ((probe _ c).hasHessAt_halfSumSquares (e.carrying asrv 3)).hasGradAt) 0
  rw [carrying, Finset.sum_filter, Finset.sum_apply, sum_range_single (offset_lt hexp hr)] at hspec
  · rw [← hcode]
    refine hspec.trans ?_
    rw [apply_ite (fun g : Fin 1 → ℝ => g 0), Pi.smul_apply, probe_f, probe_grad]
    simp [weight]
  · intro m hne
    rw [apply_ite (fun g : Fin 1 → ℝ => g 0), Pi.smul_apply, probe_f, probe_grad]
    simp [weight, hne]

/-- The Hessian of the probe, in the same way. -/
theorem probe_hessian {exp r : ℕ} (hexp : exp < e.numExperiments)
    (hr : r < e.numPrimaryFunctions exp)
    (h : e.MisfitDerivatives asrv (probe (e.expOffsets exp + r) c)
      (probeResponse e (e.expOffsets exp + r) c)) :
    ((if asrv r &&& 2 ≠ 0 then (1 : ℝ) else 0) + if asrv r &&& 5 = 5 then c else 0) =
      (if asrv (e.expOffsets exp + r) &&& 2 ≠ 0 then 1 else 0) +
        if asrv (e.expOffsets exp + r) &&& 7 = 7 then c else 0 := by
  obtain ⟨grad, hess, hhess, hlower⟩ := h.hessian
  have hcode : (e.buildHessianOfSumSquareResiduals
      (probeResponse e (e.expOffsets exp + r) c) asrv).lower 0 0 =
      (if asrv r &&& 2 ≠ 0 then 1 else 0) + if asrv r &&& 5 = 5 then c else 0 := by
    refine ((buildHessian_lower e _ asrv).2 0 0 one_pos le_rfl).trans ((sum_single hexp hr
      (fun r' m => hessianTerm (probeResponse e (e.expOffsets exp + r) c) (asrv r') m 0 0)
      fun r' m hne => ?_).trans ?_)
    · simp [hessianTerm, probeResponse, weight, hne]
    · have hsize := Nat.ne_zero_of_lt (offset_lt hexp hr)
      simp [hessianTerm, probeResponse, weight, viewed, hsize, RealSymMatrix.get]
  have hspec := hlower 0 0 le_rfl
  rw [hhess.unique ((probe _ c).hasHessAt_halfSumSquares (e.carrying asrv 7)),
    Matrix.sum_apply] at hspec
  simp only [Matrix.add_apply, Matrix.smul_apply, smul_eq_mul, Matrix.vecMulVec_apply] at hspec
  rw [sum_hessianParts, sum_range_single (offset_lt hexp hr)] at hspec
  · rw [← hcode]
    refine hspec.trans ?_
    rw [probe_f, probe_grad, probe_hess]
    simp [weight]
  · intro m hne
    rw [probe_f, probe_grad]
    simp [weight, hne]

theorem aligned_of_misfitMatches (h : e.MisfitMatches asrv) : e.Aligned asrv := by
  intro exp hexp r hr
  have hprobe (c : ℝ) := h 1 _ _ (carries_probe e asrv (e.expOffsets exp + r) c)
  have hhess₀ := probe_hessian hexp hr (hprobe 0)
  have hhess₁ := probe_hessian hexp hr (hprobe 1)
  rw [ite_self, ite_self, add_zero, add_zero] at hhess₀
  rw [hhess₀, add_right_inj] at hhess₁
  exact ⟨ite_one_zero_inj.mp (probe_gradient hexp hr (hprobe 0)), ite_one_zero_inj.mp hhess₀,
    ite_one_zero_inj.mp hhess₁⟩

end Probe

theorem misfitMatches_iff (e : ExperimentData) (asrv : ℕ → ℕ) :
    e.MisfitMatches asrv ↔ e.Aligned asrv :=
  ⟨aligned_of_misfitMatches, misfitMatches_of_aligned⟩

/-- The routines are about one function of parameters and multipliers just if each residual is
requested like the one its index in the experiment names, there is not one multiplier for all,
multipliers of responses do not meet constraints, and only the first multiplier has residuals. -/
theorem misfitAndLogDeterminant_match_iff (e : ExperimentData) (mode : MultiplierMode)
    (asrv : ℕ → ℕ) :
    (e.MisfitMatches asrv ∧ e.LogDetMatches mode ∧ e.AssignmentsAgree mode) ↔
      e.Aligned asrv ∧ mode ≠ .one ∧ e.NoConstraints mode ∧ ∀ a ∈ e.assignment mode, a = 0 := by
  rw [misfitMatches_iff, logDetMatches_iff, assignmentsAgree_iff]
  constructor
  · rintro ⟨haligned, ⟨hcon, hzero⟩, hone, -⟩
    exact ⟨haligned, hone, hcon, hzero⟩
  · rintro ⟨haligned, hone, hcon, hzero⟩
    exact ⟨haligned, ⟨hcon, hzero⟩, hone, hcon⟩

/-- Two experiments with one residual each. -/
def twoExperiments : ExperimentData where
  numScalarPrimary := 1
  numScalarResponses := 1
  numFieldResponseGroups := 0
  allExperiments := [{}, {}]
  scalar_le := le_rfl
  nonempty := List.cons_ne_nil _ _
  fields := by simp

/-- With a multiplier for each, the Hessian has the second one at the place of the first. -/
theorem twoExperiments_not_match : ¬ (twoExperiments.MisfitMatches (fun _ => 7) ∧
    twoExperiments.LogDetMatches .perExper ∧ twoExperiments.AssignmentsAgree .perExper) := by
  rintro ⟨-, hlogDet, -⟩
  have hmem : 1 ∈ twoExperiments.assignment .perExper := by decide
  exact one_ne_zero ((logDetMatches_iff.mp hlogDet).2 1 hmem)

end Dakota.ExperimentData
