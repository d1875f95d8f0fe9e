import Dakota.Derivatives.Estimate
import Dakota.Lib.IndexLoop
import Dakota.Lib.Quadratic

/-!
# Differences of quadratic functions

The finite differences of `estimate_derivatives` are exact for functions of low degree.

* The formulas: `forwardDifference_exact` for affine functions, the others for quadratic ones.
* `Admissible`: the variables are within bounds that differ, and the step sizes are positive.
* `Done` is the invariant of the loop over the derivative variables; `variableStage_done` is its
  step, from one lemma for each part of the loop body.
* `estimateDerivatives_exact`: the gradients and Hessians of a quadratic function.
-/

namespace Dakota.Derivatives

open Quadratic

section Formulas

variable {K : Type} [Field K] [LinearOrder K] [IsStrictOrderedRing K] {n : Nat} {q : Quadratic K n}
  {x : Fin n → K} {a b : Fin n} {h h1 h2 : K}

theorem forwardDifference_exact (hh : h ≠ 0) (hq : q.hess a a = 0) :
    forwardDifference (some (q.value (step x a h))) (some (q.value x)) h =
      some (q.gradient x a) := by
  change some ((q.value (step x a h) - q.value x) / h) = _
  rw [value_step, hq]
  congr 1
  field_simp
  ring

omit [LinearOrder K] [IsStrictOrderedRing K] in
/-- A difference of gradients. -/
theorem gradientDifference_exact (hh : h ≠ 0) :
    forwardDifference (some (q.gradient (step x a h) b)) (some (q.gradient x b)) h =
      some (q.hess b a) := by
  change some ((q.gradient (step x a h) b - q.gradient x b) / h) = _
  rw [gradient_step]
  congr 1
  field_simp
  ring

theorem centralDifference_exact (hh : h ≠ 0) :
    centralDifference (some (q.value (step x a h))) (some (q.value (step x a (-h)))) h (-h) =
      some (q.gradient x a) := by
  change some ((q.value (step x a h) - q.value (step x a (-h))) / (h - -h)) = _
  rw [value_step, value_step]
  congr 1
  have h2h : h - -h ≠ 0 := by
    rw [sub_neg_eq_add, ← two_mul]
    exact mul_ne_zero two_ne_zero hh
  rw [div_eq_iff h2h]
  ring

theorem shortDifference_exact (hh : h ≠ 0) (hh2 : h2 ≠ 0) (hne : h2 ≠ h) :
    shortDifference (some (q.value (step x a h))) (some (q.value (step x a h2)))
      (some (q.value x)) h h2 = some (q.gradient x a) := by
  change some ((h2 * h2 * (q.value (step x a h) - q.value x) -
    h * h * (q.value (step x a h2) - q.value x)) / (h * h2 * (h2 - h))) = _
  rw [value_step, value_step]
  congr 1
  rw [div_eq_iff (mul_ne_zero (mul_ne_zero hh hh2) (sub_ne_zero.mpr hne))]
  ring

theorem centralDiagonal_exact (hh : h ≠ 0) :
    centralDiagonal (some (q.value (step x a (2 * h)))) (some (q.value (step x a (-(2 * h)))))
      (some (q.value x)) h = some (q.hess a a) := by
  change some ((q.value (step x a (2 * h)) - 2 * q.value x + q.value (step x a (-(2 * h)))) /
    (4 * h * h)) = _
  rw [value_step, value_step]
  congr 1
  field_simp
  ring

theorem centralOffDiagonal_exact (hh : h ≠ 0) :
    centralOffDiagonal (some (q.value (step (step x a h) b h)))
      (some (q.value (step (step x a h) b (-h)))) (some (q.value (step (step x a (-h)) b h)))
      (some (q.value (step (step x a (-h)) b (-h)))) h = some (q.hess b a) := by
  change some ((q.value (step (step x a h) b h) - q.value (step (step x a h) b (-h)) -
    q.value (step (step x a (-h)) b h) + q.value (step (step x a (-h)) b (-h))) /
      (4 * h * h)) = _
  simp only [value_step_step]
  congr 1
  field_simp
  ring

theorem boundedDiagonal_exact (hh1 : h1 ≠ 0) (hh2 : h2 ≠ 0) (hne : h2 ≠ h1) :
    boundedDiagonal (some (q.value (step x a h1))) (some (q.value x))
      (some (q.value (step x a h2))) h1 h2 = some (q.hess a a) := by
  unfold boundedDiagonal
  by_cases hsum : h1 + h2 = 0
  · have h2eq : h2 = -h1 := (neg_eq_of_add_eq_zero_right hsum).symm
    rw [if_pos hsum]
    change some ((q.value (step x a h1) - 2 * q.value x + q.value (step x a h2)) /
      (h1 * h1)) = _
    rw [value_step, value_step, h2eq]
    congr 1
    field_simp
    ring
  · rw [if_neg hsum]
    change some ((h2 * q.value (step x a h1) + (h1 - h2) * q.value x -
      h1 * q.value (step x a h2)) / (1 / 2 * h1 * h2 * (h1 - h2))) = _
    rw [value_step, value_step]
    congr 1
    have hdenom : 1 / 2 * h1 * h2 * (h1 - h2) ≠ 0 :=
      mul_ne_zero (mul_ne_zero (mul_ne_zero (by norm_num) hh1) hh2) (sub_ne_zero.mpr hne.symm)
    rw [div_eq_iff hdenom]
    ring

theorem boundedOffDiagonal_exact (hh1 : h1 ≠ 0) (hh2 : h2 ≠ 0) :
    boundedOffDiagonal (some (q.value (step (step x a h1) b h2))) (some (q.value (step x a h1)))
      (some (q.value (step x b h2))) (some (q.value x)) h1 h2 =
        some (q.hess b a) := by
  change some ((q.value (step (step x a h1) b h2) - q.value (step x a h1) -
    q.value (step x b h2) + q.value x) / (h1 * h2)) = _
  rw [value_step_step, value_step, value_step]
  congr 1
  field_simp
  ring

end Formulas

variable {K : Type} [Field K] [LinearOrder K] [IsStrictOrderedRing K] {n m : Nat}

/-- The variables are within bounds that differ, unless the bounds are ignored, and the step sizes
are positive; steps relative to the bounds need finite ones. -/
structure Admissible (cfg : DiffSettings K) (p : DiffPoint K n m) : Prop where
  inside : cfg.ignoreBounds = false → ∀ j, Inside (p.x0 (p.index j)) (p.lower j) (p.upper j)
  stepSize : ∀ sizes ∈ [cfg.fdGradStepSize, cfg.fdHessByFnStepSize, cfg.fdHessByGradStepSize],
    ∀ j, ∃ size, stepSizeOf sizes m (p.index j) = some size ∧ 0 < size
  finite : cfg.fdGradStepType = .bounds ∨ cfg.fdHessStepType = .bounds →
    ∀ j, ∃ l u, fdLower cfg p j = .fin l ∧ fdUpper cfg p j = .fin u

/-- Function `i` is quadratic, and so are its values and gradients. -/
structure IsQuadratic (F : ResponseFunctions K n) (i : Nat) (q : Quadratic K n) : Prop where
  value : ∀ x, F.value i x = q.value x
  gradient : ∀ x a, F.gradient i x a = q.gradient x a

variable {cfg : DiffSettings K} {F : ResponseFunctions K n} {p : DiffPoint K n m}
  {splits : List FnSplit} {asvIn : List Nat} {s : DiffState K n m} {j : Fin m} {first : K × Bool}

/-! ## Steps -/

omit [IsStrictOrderedRing K] in
theorem Admissible.inside_fd (hok : Admissible cfg p) (j : Fin m) :
    Inside (p.x0 (p.index j)) (fdLower cfg p j) (fdUpper cfg p j) := by
  unfold fdLower fdUpper
  cases hb : cfg.ignoreBounds with
  | true => exact ⟨trivial, trivial, trivial⟩
  | false => exact hok.inside hb j

omit [IsStrictOrderedRing K] in
/-- Ignored bounds are infinite bounds. -/
theorem fdStep1_fd (j : Fin m) (hMag : K) :
    fdStep1 cfg.ignoreBounds (p.x0 (p.index j)) (fdLower cfg p j) (fdUpper cfg p j) hMag =
      fdStep1 false (p.x0 (p.index j)) (fdLower cfg p j) (fdUpper cfg p j) hMag := by
  cases hb : cfg.ignoreBounds with
  | false => rfl
  | true => simp [fdStep1, fdLower, fdUpper, hb, Bound.le, Bound.ge]

omit [IsStrictOrderedRing K] in
theorem secondStep_fd (first : K × Bool) (j : Fin m) :
    secondStep cfg p first j =
      fdStep2 false first.2 (p.x0 (p.index j)) (fdLower cfg p j) (fdUpper cfg p j) first.1 := by
  unfold secondStep
  cases hb : cfg.ignoreBounds with
  | false => rfl
  | true => simp [fdStep2, fdLower, fdUpper, hb, Bound.le, Bound.ge]

/-- The first step of each kind is computed, and it is valid. -/
theorem firstStep_valid (hok : Admissible cfg p) {sizes : List K} {factor : K}
    {stepType : StepType} (hfactor : 0 < factor)
    (hsizes : sizes ∈ [cfg.fdGradStepSize, cfg.fdHessByFnStepSize, cfg.fdHessByGradStepSize])
    (htype : stepType = .bounds → cfg.fdGradStepType = .bounds ∨ cfg.fdHessStepType = .bounds)
    (j : Fin m) : ∃ first, firstStep cfg p sizes factor stepType j = .ok first ∧
      ValidStep (p.x0 (p.index j)) (fdLower cfg p j) (fdUpper cfg p j) first.1 := by
  obtain ⟨size, hsize, hpos⟩ := hok.stepSize sizes hsizes j
  obtain ⟨hMag, hinit⟩ : ∃ hMag, initializeH (p.x0 (p.index j)) (fdLower cfg p j)
      (fdUpper cfg p j) (factor * size) stepType = some hMag := by
    cases stepType with
    | relative => exact ⟨_, rfl⟩
    | absolute => exact ⟨_, rfl⟩
    | bounds =>
      obtain ⟨l, u, hl, hu⟩ := hok.finite (htype rfl) j
      rw [hl, hu]
      exact ⟨_, rfl⟩
  refine ⟨fdStep1 cfg.ignoreBounds (p.x0 (p.index j)) (fdLower cfg p j) (fdUpper cfg p j) hMag,
    ?_, ?_⟩
  · unfold firstStep
    rw [hsize]
    change (orError .infiniteStep (initializeH _ _ _ (factor * size) _) >>= _) = _
    rw [hinit]
    rfl
  · rw [fdStep1_fd]
    exact fdStep1_valid (hok.inside_fd j) (initializeH_pos (mul_pos hfactor hpos) hinit)

/-- Two steps, with the flag that they leave, have an exact difference. -/
theorem secondStep_cases (hok : Admissible cfg p)
    (hv : ValidStep (p.x0 (p.index j)) (fdLower cfg p j) (fdUpper cfg p j) first.1) :
    (secondStep cfg p first j).1 ≠ 0 ∧ (secondStep cfg p first j).1 ≠ first.1 ∧
      ((secondStep cfg p first j).2 = false → (secondStep cfg p first j).1 = -first.1) := by
  rw [secondStep_fd]
  obtain ⟨hv2, hne⟩ := fdStep2_valid first.2 (hok.inside_fd j) hv
  exact ⟨hv2.ne_zero, hne, (fdStep2_eq_neg_iff first.2 (hok.inside_fd j) hv).mpr⟩

/-! ## Evaluations -/

/-- The point of a state is `x0`, but for one variable. -/
def OffAt (p : DiffPoint K n m) (a : Fin n) (s : DiffState K n m) : Prop :=
  ∀ b ≠ a, s.x b = p.x0 b

/-- What a stage leaves alone, if it evaluates only. -/
structure SameData (s s' : DiffState K n m) : Prop where
  newFnGrads : s'.newFnGrads = s.newFnGrads
  newFnHessians : s'.newFnHessians = s.newFnHessians
  dx : s'.dx = s.dx
  fx : s'.fx = s.fx
  fg : s'.fg = s.fg

section Evaluations

variable {a b : Fin n} {asv : Nat → Nat} {i : Nat} {q : Quadratic K n} {h k v : K}

omit [LinearOrder K] [IsStrictOrderedRing K]

theorem x_setX (hoff : OffAt p a s) (hv : v = p.x0 a + h) : (s.setX a v).x = step p.x0 a h := by
  subst hv
  funext b
  change Function.update s.x a _ b = Function.update p.x0 a _ b
  by_cases hb : b = a
  · rw [hb, Function.update_self, Function.update_self]
  · rw [Function.update_of_ne hb, Function.update_of_ne hb, hoff b hb]

/-- The values at a point that was evaluated. -/
theorem evaluate_values (hq : IsQuadratic F i q) (hi : asv i &&& 1 ≠ 0) {x : Fin n → K}
    (hx : s.x = x) : (s.evaluate F p asv).current.values i = some (q.value x) := by
  change (if asv i &&& 1 ≠ 0 then some (F.value i s.x) else none) = _
  rw [if_pos hi, hx, hq.value]

theorem evaluate_gradients (hq : IsQuadratic F i q) (hi : asv i &&& 2 ≠ 0) {x : Fin n → K}
    (hx : s.x = x) (j : Fin m) :
    (s.evaluate F p asv).current.gradients i j = some (q.gradient x (p.index j)) := by
  change (if asv i &&& 2 ≠ 0 then some (F.gradient i s.x (p.index j)) else none) = _
  rw [if_pos hi, hx, hq.gradient]

/-- The point of a state is `x0`, but for two variables, of which the first has had a step. -/
structure SteppedOff (p : DiffPoint K n m) (a b : Fin n) (h : K) (s : DiffState K n m) : Prop where
  off : ∀ c, c ≠ a → c ≠ b → s.x c = p.x0 c
  at_left : s.x a = p.x0 a + h

omit [Field K] in
theorem OffAt.evaluate (hoff : OffAt p a s) (F : ResponseFunctions K n) (asv : Nat → Nat) :
    OffAt p a (s.evaluate F p asv) := hoff

omit [Field K] in
theorem OffAt.setX (hoff : OffAt p a s) : OffAt p a (s.setX a v) := by
  intro b hb
  exact (Function.update_of_ne hb _ _).trans (hoff b hb)

theorem OffAt.stepped (hoff : OffAt p a s) (b : Fin n) :
    SteppedOff p a b h (s.setX a (p.x0 a + h)) where
  off c hca _ := (Function.update_of_ne hca _ _).trans (hoff c hca)
  at_left := Function.update_self _ _ _

theorem SteppedOff.evaluate (hs : SteppedOff p a b h s) (F : ResponseFunctions K n)
    (asv : Nat → Nat) : SteppedOff p a b h (s.evaluate F p asv) :=
  ⟨hs.off, hs.at_left⟩

theorem SteppedOff.setX_right (hs : SteppedOff p a b h s) (hab : a ≠ b) :
    SteppedOff p a b h (s.setX b v) where
  off c hca hcb := (Function.update_of_ne hcb _ _).trans (hs.off c hca hcb)
  at_left := (Function.update_of_ne hab _ _).trans hs.at_left

theorem SteppedOff.setX_left (hs : SteppedOff p a b h s) (hv : v = p.x0 a + k) :
    SteppedOff p a b k (s.setX a v) where
  off c hca hcb := (Function.update_of_ne hca _ _).trans (hs.off c hca hcb)
  at_left := (Function.update_self _ _ _).trans hv

/-- The point after steps in two variables. -/
theorem SteppedOff.x_setX (hs : SteppedOff p a b h s) (hab : a ≠ b) (hv : v = p.x0 b + k) :
    (s.setX b v).x = step (step p.x0 a h) b k := by
  subst hv
  funext c
  change Function.update s.x b _ c = _
  rw [step_apply, step_apply]
  by_cases hcb : c = b
  · rw [hcb, Function.update_self, if_neg hab.symm, if_pos rfl, add_zero]
  · rw [Function.update_of_ne hcb, if_neg hcb, add_zero]
    by_cases hca : c = a
    · rw [hca, hs.at_left, if_pos rfl]
    · rw [hs.off c hca hcb, if_neg hca, add_zero]

/-- The second variable is reset. -/
theorem SteppedOff.reset (hs : SteppedOff p a b h s) : OffAt p a (s.setX b (p.x0 b)) := by
  intro c hca
  change Function.update s.x b _ c = _
  by_cases hcb : c = b
  · rw [hcb, Function.update_self]
  · rw [Function.update_of_ne hcb, hs.off c hca hcb]

end Evaluations

/-! ## The gradient part -/

section Stages

variable {i : Nat} {q : Quadratic K n}

omit [LinearOrder K] [IsStrictOrderedRing K] in
theorem initial_values (hq : IsQuadratic F i q) (hi : mapAsv splits i &&& 1 ≠ 0) :
    (derivedEvaluate F p.index p.x0 (mapAsv splits)).values i = some (q.value p.x0) := by
  change (if _ then some (F.value i p.x0) else none) = _
  rw [if_pos hi, hq.value]

omit [LinearOrder K] [IsStrictOrderedRing K] in
theorem initial_gradients (hq : IsQuadratic F i q) (hi : mapAsv splits i &&& 2 ≠ 0) (j : Fin m) :
    (derivedEvaluate F p.index p.x0 (mapAsv splits)).gradients i j =
      some (q.gradient p.x0 (p.index j)) := by
  change (if _ then some (F.gradient i p.x0 (p.index j)) else none) = _
  rw [if_pos hi, hq.gradient]

omit [IsStrictOrderedRing K] in
/-- No step is short if the bounds are ignored. -/
theorem ignoreBounds_of_short (hfirst : forwardGradStep cfg p j = .ok first)
    (hshort : (secondStep cfg p first j).2 = true) : cfg.ignoreBounds = false := by
  obtain ⟨size, -, hfirst⟩ := Outcome.bind_eq_ok.mp hfirst
  obtain ⟨hMag, -, hfirst⟩ := Outcome.bind_eq_ok.mp hfirst
  cases hfirst
  by_contra hb
  rw [Bool.not_eq_false] at hb
  simp [secondStep, fdStep1, fdStep2, hb] at hshort
  split at hshort <;> cases hshort

omit [IsStrictOrderedRing K] in
/-- The value at `x0` is requested if a short step needs it. -/
theorem mapAsv_of_short (hman : manageAsv cfg p asvIn = .ok splits)
    (hfirst : forwardGradStep cfg p j = .ok first) (hcentral : cfg.intervalType = .central)
    (hshort : (secondStep cfg p first j).2 = true) (hi : fdGradAsv splits i ≠ 0) :
    mapAsv splits i &&& 1 ≠ 0 := by
  refine manageAsv_short hman (ignoreBounds_of_short hfirst hshort) (j := j) ?_ i hi
  unfold gradShortStep
  rw [hfirst]
  change Except.ok _ = _
  rw [if_pos hcentral, hshort]

omit [IsStrictOrderedRing K] in
/-- The value at `x0` is requested for forward differences. -/
theorem mapAsv_of_forward (hman : manageAsv cfg p asvIn = .ok splits)
    (hforward : cfg.intervalType = .forward) (hi : fdGradAsv splits i ≠ 0) :
    mapAsv splits i &&& 1 ≠ 0 :=
  ((manageAsv_consistent hman i).grad hi).2.2 (by rw [hforward]; rfl)

/-- The gradient row of variable `j`. -/
theorem gradStage_spec (hok : Admissible cfg p) (hman : manageAsv cfg p asvIn = .ok splits)
    (hoff : OffAt p (p.index j) s) :
    ∃ s', gradStage cfg F p splits (derivedEvaluate F p.index p.x0 (mapAsv splits)) j s = .ok s' ∧
      OffAt p (p.index j) s' ∧ s'.newFnHessians = s.newFnHessians ∧ s'.dx = s.dx ∧ s'.fx = s.fx ∧
      s'.fg = s.fg ∧ (∀ j' ≠ j, s'.newFnGrads j' = s.newFnGrads j') ∧
      ∀ i q, IsQuadratic F i q → fdGradAsv splits i ≠ 0 →
        (cfg.intervalType = .forward → q.hess (p.index j) (p.index j) = 0) →
        s'.newFnGrads j i = some (q.gradient p.x0 (p.index j)) := by
  obtain ⟨first, hfirst, hv⟩ := firstStep_valid hok one_pos List.mem_cons_self .inl j
  change forwardGradStep cfg p j = _ at hfirst
  have hrow {row : Nat → Option K} {cond : Nat → Bool} (s : DiffState K n m) :
      ∀ j' ≠ j, (s.setGradRow j cond row).newFnGrads j' = s.newFnGrads j' := by
    intro j' hj'
    funext i
    exact if_neg fun h => hj' h.1
  have hasv (i) (hi : fdGradAsv splits i ≠ 0) : fdGradAsv splits i &&& 1 ≠ 0 := by
    change (splits.getD i {}).fdGrad &&& 1 ≠ 0
    rw [((manageAsv_consistent hman i).grad hi).1]
    decide
  unfold gradStage
  rw [hfirst]
  cases hinterval : cfg.intervalType with
  | forward =>
    refine ⟨_, rfl, hoff.setX, rfl, rfl, rfl, rfl, hrow _, ?_⟩
    intro i q hq hi hzero
    refine (if_pos ⟨rfl, by simpa using hi⟩).trans ?_
    rw [evaluate_values hq (hasv i hi) (x_setX hoff rfl),
      initial_values hq (mapAsv_of_forward hman hinterval hi)]
    exact forwardDifference_exact hv.ne_zero (hzero rfl)
  | central =>
    refine ⟨_, rfl, (hoff.setX.evaluate F (fdGradAsv splits)).setX, rfl, rfl, rfl, rfl, hrow _, ?_⟩
    intro i q hq hi _
    refine (if_pos ⟨rfl, rfl⟩).trans ?_
    obtain ⟨hne0, hne, hneg⟩ := secondStep_cases hok hv
    rw [evaluate_values hq (hasv i hi) (x_setX hoff rfl),
      evaluate_values hq (hasv i hi) (x_setX (hoff.setX.evaluate F _) rfl)]
    cases hshort : (secondStep cfg p first j).2 with
    | true =>
      rw [if_pos rfl, initial_values hq (mapAsv_of_short hman hfirst hinterval hshort hi)]
      exact shortDifference_exact hv.ne_zero hne0 hne
    | false =>
      rw [if_neg Bool.false_ne_true, hneg hshort]
      exact centralDifference_exact hv.ne_zero

/-! ## The Hessian part -/

omit [Field K] [LinearOrder K] [IsStrictOrderedRing K] in
theorem sameCell_iff {j k j' k' : Fin m} :
    sameCell j k j' k' ↔ (j' = j ∧ k' = k) ∨ (j' = k ∧ k' = j) := by
  simp [sameCell]

/-- What is known of the cells of a function with a Hessian by function values. -/
def CellExact (F : ResponseFunctions K n) (p : DiffPoint K n m) (splits : List FnSplit)
    (s : DiffState K n m) (j k : Fin m) : Prop :=
  ∀ i q, IsQuadratic F i q → fdHessAsv splits i &&& 1 ≠ 0 →
    s.newFnHessians i j k = some (q.hess (p.index j) (p.index k))

/-- The cell `(j, k)` is written, with exact entries. -/
structure CellWritten (F : ResponseFunctions K n) (p : DiffPoint K n m) (splits : List FnSplit)
    (j k : Fin m) (s s' : DiffState K n m) : Prop where
  others : ∀ i j' k', ¬ sameCell j k j' k' → s'.newFnHessians i j' k' = s.newFnHessians i j' k'
  exact : ∀ j' k', sameCell j k j' k' → CellExact F p splits s' j' k'

/-- The cells of `j` and some other variables are written, with exact entries. -/
structure RowWritten (F : ResponseFunctions K n) (p : DiffPoint K n m) (splits : List FnSplit)
    (j : Fin m) (ks : Fin m → Prop) (s s' : DiffState K n m) : Prop where
  others : ∀ i j' k', (∀ k, ks k → ¬ sameCell j k j' k') →
    s'.newFnHessians i j' k' = s.newFnHessians i j' k'
  exact : ∀ j' k' k, ks k → sameCell j k j' k' → CellExact F p splits s' j' k'

section Cells

omit [LinearOrder K] [IsStrictOrderedRing K]

variable {k : Fin m} {s' s'' : DiffState K n m} {ks ks' : Fin m → Prop}

theorem CellWritten.row (h : CellWritten F p splits j k s s') :
    RowWritten F p splits j (· = k) s s' where
  others i j' k' hne := h.others i j' k' (hne k rfl)
  exact j' k' _ hk hsame := h.exact j' k' (hk ▸ hsame)

theorem RowWritten.congr (hrow : RowWritten F p splits j ks s s') (hks : ∀ k, ks k ↔ ks' k) :
    RowWritten F p splits j ks' s s' where
  others i j' k' hne := hrow.others i j' k' fun k hk => hne k ((hks k).mp hk)
  exact j' k' k hk hsame := hrow.exact j' k' k ((hks k).mpr hk) hsame

theorem RowWritten.of_eq (hrow : RowWritten F p splits j ks s s')
    (heq : s''.newFnHessians = s'.newFnHessians) : RowWritten F p splits j ks s s'' where
  others i j' k' hne := by
    rw [heq]
    exact hrow.others i j' k' hne
  exact j' k' k hk hsame i q hq hi := by
    rw [heq]
    exact hrow.exact j' k' k hk hsame i q hq hi

/-- One more cell of the row. -/
theorem RowWritten.add (hrow : RowWritten F p splits j ks s s')
    (hcell : CellWritten F p splits j k s' s'') (hks : ∀ k', ks' k' ↔ ks k' ∨ k' = k) :
    RowWritten F p splits j ks' s s'' where
  others i j' k' hne := by
    rw [hcell.others i j' k' (hne k ((hks k).mpr (.inr rfl)))]
    exact hrow.others i j' k' fun k₁ hk₁ => hne k₁ ((hks k₁).mpr (.inl hk₁))
  exact j' k' k₁ hk₁ hsame := by
    by_cases hk : sameCell j k j' k'
    · exact hcell.exact j' k' hk
    · intro i q hq hi
      rw [hcell.others i j' k' hk]
      rcases (hks k₁).mp hk₁ with hk₁ | rfl
      · exact hrow.exact j' k' k₁ hk₁ hsame i q hq hi
      · exact (hk hsame).elim

/-- A write of a cell. -/
theorem cellWritten_of_setCell {cond : Nat → Bool} {value : Nat → Option K}
    (hs : s'.newFnHessians = setCell cond value j k s.newFnHessians)
    (hvalue : ∀ i q, IsQuadratic F i q → fdHessAsv splits i &&& 1 ≠ 0 →
      cond i = true ∧ value i = some (q.hess (p.index k) (p.index j))) :
    CellWritten F p splits j k s s' where
  others i j' k' hne := by
    rw [hs]
    exact if_neg fun h => hne h.2
  exact j' k' hsame i q hq hi := by
    obtain ⟨hcond, hval⟩ := hvalue i q hq hi
    rw [hs]
    refine (if_pos ⟨hcond, hsame⟩).trans (hval.trans ?_)
    rcases sameCell_iff.mp hsame with ⟨rfl, rfl⟩ | ⟨rfl, rfl⟩
    · rw [q.hess_symm]
    · rfl

end Cells

/-- What the off-diagonal loops keep. -/
structure HessFrame (p : DiffPoint K n m) (j : Fin m) (s s' : DiffState K n m) : Prop where
  off : OffAt p (p.index j) s'
  newFnGrads : s'.newFnGrads = s.newFnGrads
  dx : s'.dx = s.dx
  fx : s'.fx = s.fx
  fg : s'.fg = s.fg

theorem centralStep_ne (hok : Admissible cfg p) (j : Fin m) :
    ∃ h, centralStep cfg p j = .ok h ∧ h ≠ 0 := by
  obtain ⟨size, hsize, hpos⟩ := hok.stepSize cfg.fdHessByFnStepSize (by simp) j
  refine ⟨_, by unfold centralStep; rw [hsize]; rfl, ?_⟩
  have hmag : 0 < size * max |p.x0 (p.index j)| (1 / 100) :=
    mul_pos hpos (lt_max_of_lt_right (by positivity))
  split
  · exact neg_ne_zero.mpr hmag.ne'
  · exact hmag.ne'

omit [Field K] [LinearOrder K] [IsStrictOrderedRing K] in
theorem HessFrame.trans {s' s'' : DiffState K n m} (h : HessFrame p j s s')
    (h' : HessFrame p j s' s'') : HessFrame p j s s'' :=
  ⟨h'.off, h'.newFnGrads.trans h.newFnGrads, h'.dx.trans h.dx, h'.fx.trans h.fx,
    h'.fg.trans h.fg⟩

/-- An off-diagonal term of the central Hessian. -/
theorem centralCell_spec {h : K} (hh : h ≠ 0) {k : Fin m} (hjk : j ≠ k)
    (hoff : OffAt p (p.index j) s) :
    HessFrame p j s (centralCell F p splits j h s k) ∧
      CellWritten F p splits j k s (centralCell F p splits j h s k) := by
  have hab : p.index j ≠ p.index k := fun he => hjk (p.index_injective he)
  have hpp : SteppedOff p (p.index j) (p.index k) h (s.setX (p.index j) (p.x0 (p.index j) + h)) :=
    hoff.stepped _
  have hpm := (hpp.setX_right (v := p.x0 (p.index k) + h) hab).evaluate F (fdHessAsv splits)
  have hmp := ((hpm.setX_right (v := p.x0 (p.index k) - h) hab).evaluate F (fdHessAsv splits)).setX_left (sub_eq_add_neg (p.x0 (p.index j)) h)
  have hmm := (hmp.setX_right (v := p.x0 (p.index k) + h) hab).evaluate F (fdHessAsv splits)
  refine ⟨⟨?_, rfl, rfl, rfl, rfl⟩, cellWritten_of_setCell rfl ?_⟩
  · exact (hmm.setX_right (v := p.x0 (p.index k) - h) hab).reset
  · intro i q hq hi
    refine ⟨rfl, ?_⟩
    rw [evaluate_values hq hi (hpp.x_setX hab rfl),
      evaluate_values hq hi (hpm.x_setX hab (sub_eq_add_neg _ _)),
      evaluate_values hq hi (hmp.x_setX hab rfl),
      evaluate_values hq hi (hmm.x_setX hab (sub_eq_add_neg _ _))]
    exact centralOffDiagonal_exact hh

omit [IsStrictOrderedRing K] in
/-- The values at `x0` are requested for Hessians by function values. -/
theorem mapAsv_of_fdHess (hman : manageAsv cfg p asvIn = .ok splits)
    (hi : fdHessAsv splits i &&& 1 ≠ 0) : mapAsv splits i &&& 1 ≠ 0 := by
  have hc := manageAsv_consistent hman i
  change (splits.getD i {}).fdHess &&& 1 ≠ 0 at hi
  refine hc.byFn ?_
  have hne : (splits.getD i {}).fdHess ≠ 0 := by
    intro h0
    rw [h0] at hi
    exact hi rfl
  rcases (hc.hess hne).1 with h1 | h2
  · exact h1
  · rw [h2] at hi
    exact (hi (by decide)).elim

/-- The diagonal term of the central Hessian. -/
theorem centralDiagonalTerm_spec (hman : manageAsv cfg p asvIn = .ok splits) {h : K} (hh : h ≠ 0)
    (hoff : OffAt p (p.index j) s) :
    let s' := centralDiagonalTerm F p splits (derivedEvaluate F p.index p.x0 (mapAsv splits)) j h s
    HessFrame p j s s' ∧ CellWritten F p splits j j s s' := by
  have hminus := (hoff.setX (v := p.x0 (p.index j) + 2 * h)).evaluate F (fdHessAsv splits)
  refine ⟨⟨(hminus.setX (v := p.x0 (p.index j) - 2 * h)).evaluate F (fdHessAsv splits), rfl, rfl,
    rfl, rfl⟩, cellWritten_of_setCell rfl ?_⟩
  intro i q hq hi
  refine ⟨by simpa using hi, ?_⟩
  rw [evaluate_values hq hi (x_setX hoff rfl),
    evaluate_values hq hi (x_setX hminus (sub_eq_add_neg _ _)),
    initial_values hq (mapAsv_of_fdHess hman hi)]
  exact centralDiagonal_exact hh

/-- The row of variable `j` of the central Hessian. -/
theorem centralHessStage_spec (hok : Admissible cfg p) (hman : manageAsv cfg p asvIn = .ok splits)
    (hoff : OffAt p (p.index j) s) :
    ∃ s', centralHessStage cfg F p splits (derivedEvaluate F p.index p.x0 (mapAsv splits)) j s =
        .ok s' ∧ HessFrame p j s s' ∧ RowWritten F p splits j (j ≤ ·) s s' := by
  obtain ⟨h, hstep, hh⟩ := centralStep_ne hok j
  obtain ⟨hframe₀, hcell₀⟩ := centralDiagonalTerm_spec (F := F) hman hh hoff
  unfold centralHessStage
  rw [hstep]
  refine ⟨_, rfl, ?_⟩
  -- before step `d` of the loop, the cells of row `j` up to column `d` are exact
  let inv (d : Nat) (s' : DiffState K n m) : Prop :=
    HessFrame p j s s' ∧ RowWritten F p splits j (fun k => j ≤ k ∧ k.1 < d) s s'
  suffices hinv : inv m _ from
    ⟨hinv.1, hinv.2.congr fun k => ⟨fun h => h.1, fun h => ⟨h, k.2⟩⟩⟩
  apply foldl_drop_finRange
  · refine ⟨hframe₀, hcell₀.row.congr fun k => ?_⟩
    rw [Fin.le_def, Fin.ext_iff]
    omega
  · exact j.2
  · rintro k s₁ hjk ⟨hframe, hrow⟩
    have hne : j ≠ k := by
      rintro rfl
      omega
    obtain ⟨hframe₁, hcell⟩ := centralCell_spec hh hne hframe.off
    refine ⟨hframe.trans hframe₁, hrow.add hcell fun k' => ?_⟩
    rw [Fin.le_def, Fin.ext_iff]
    omega

/-- The step of a variable, and the values after it, as they are stored for later variables. -/
def StepStored (F : ResponseFunctions K n) (p : DiffPoint K n m) (splits : List FnSplit)
    (s : DiffState K n m) (k : Fin m) : Prop :=
  s.dx k ≠ 0 ∧ ∀ i q, IsQuadratic F i q → fdHessAsv splits i &&& 1 ≠ 0 →
    s.fx k i = some (q.value (step p.x0 (p.index k) (s.dx k)))

/-- An off-diagonal term of the Hessian with bounded steps. -/
theorem boundedCell_spec (hman : manageAsv cfg p asvIn = .ok splits) {h1 : K} (hh : h1 ≠ 0)
    {f1 : Nat → Option K} (hf1 : ∀ i q, IsQuadratic F i q → fdHessAsv splits i &&& 1 ≠ 0 →
      f1 i = some (q.value (step p.x0 (p.index j) h1)))
    {k : Fin m} (hjk : j ≠ k) (hstored : StepStored F p splits s k)
    (hoff : OffAt p (p.index j) s) :
    let s' := boundedCell F p splits (derivedEvaluate F p.index p.x0 (mapAsv splits)) j h1 f1 s k
    HessFrame p j s s' ∧ CellWritten F p splits j k s s' := by
  have hab : p.index j ≠ p.index k := fun he => hjk (p.index_injective he)
  have hstep : SteppedOff p (p.index j) (p.index k) h1
      (s.setX (p.index j) (p.x0 (p.index j) + h1)) := hoff.stepped _
  refine ⟨⟨?_, rfl, rfl, rfl, rfl⟩, cellWritten_of_setCell rfl ?_⟩
  · exact (hstep.setX_right (v := p.x0 (p.index k) + s.dx k) hab).reset
  · intro i q hq hi
    refine ⟨rfl, ?_⟩
    rw [evaluate_values hq hi (hstep.x_setX hab rfl), hf1 i q hq hi,
      initial_values hq (mapAsv_of_fdHess hman hi)]
    change boundedOffDiagonal _ _ (s.fx k i) _ _ _ = _
    rw [hstored.2 i q hq hi]
    exact boundedOffDiagonal_exact hh hstored.1

omit [LinearOrder K] [IsStrictOrderedRing K] in
theorem StepStored.congr {s' : DiffState K n m} {k : Fin m} (h : StepStored F p splits s k)
    (hdx : s'.dx k = s.dx k) (hfx : s'.fx k = s.fx k) : StepStored F p splits s' k := by
  unfold StepStored
  rw [hdx, hfx]
  exact h

/-- The diagonal term of the Hessian with bounded steps, and the step that is stored. -/
theorem boundedDiagonalTerm_spec (hman : manageAsv cfg p asvIn = .ok splits) {h1 h2 : K}
    (hh1 : h1 ≠ 0) (hh2 : h2 ≠ 0) (hne : h2 ≠ h1) (hoff : OffAt p (p.index j) s) :
    let s' := boundedDiagonalTerm F p splits (derivedEvaluate F p.index p.x0 (mapAsv splits)) j h1
      h2 s
    OffAt p (p.index j) s' ∧ s'.newFnGrads = s.newFnGrads ∧ s'.fg = s.fg ∧
      (∀ k ≠ j, s'.dx k = s.dx k ∧ s'.fx k = s.fx k) ∧ s'.dx j = h1 ∧
      StepStored F p splits s' j ∧ CellWritten F p splits j j s s' := by
  have hoff₁ : OffAt p (p.index j) ({ s with dx := Function.update s.dx j h1 }) := hoff
  have hoff₂ := (hoff₁.setX (v := p.x0 (p.index j) + h1)).evaluate F (fdHessAsv splits)
  have hvalues (i q) (hq : IsQuadratic F i q) (hi : fdHessAsv splits i &&& 1 ≠ 0) :=
    evaluate_values (p := p) hq hi (x_setX (h := h1) hoff₁ rfl)
  refine ⟨(hoff₂.setX (v := p.x0 (p.index j) + h2)).evaluate F (fdHessAsv splits),
    rfl, rfl, ?_, Function.update_self _ _ _, ⟨?_, ?_⟩, cellWritten_of_setCell rfl ?_⟩
  · intro k hk
    exact ⟨Function.update_of_ne hk _ _, Function.update_of_ne hk _ _⟩
  · exact (Function.update_self (f := s.dx) j h1).trans_ne hh1
  · intro i q hq hi
    refine (congrFun (Function.update_self (f := s.fx) j _) i).trans ?_
    rw [hvalues i q hq hi]
    exact congrArg (fun h => some (q.value (step p.x0 (p.index j) h)))
      (Function.update_self (f := s.dx) j h1).symm
  · intro i q hq hi
    refine ⟨by simpa using hi, ?_⟩
    rw [hvalues i q hq hi, initial_values hq (mapAsv_of_fdHess hman hi)]
    refine (congrArg (boundedDiagonal _ _ · _ _) ?_).trans (boundedDiagonal_exact hh1 hh2 hne)
    exact evaluate_values (p := p) hq hi (x_setX (h := h2) hoff₂ rfl)

/-- The row of variable `j` of the Hessian with bounded steps. -/
theorem boundedHessStage_spec (hok : Admissible cfg p) (hman : manageAsv cfg p asvIn = .ok splits)
    (hoff : OffAt p (p.index j) s) (hstored : ∀ k < j, StepStored F p splits s k) :
    ∃ s', boundedHessStage cfg F p splits (derivedEvaluate F p.index p.x0 (mapAsv splits)) j s =
        .ok s' ∧ OffAt p (p.index j) s' ∧ s'.newFnGrads = s.newFnGrads ∧ s'.fg = s.fg ∧
      (∀ k ≤ j, StepStored F p splits s' k) ∧ RowWritten F p splits j (· ≤ j) s s' := by
  obtain ⟨first, hfirst, hv⟩ := firstStep_valid hok two_pos
    (List.mem_cons_of_mem _ List.mem_cons_self) .inr j
  obtain ⟨hne0, hne, -⟩ := secondStep_cases hok hv
  obtain ⟨hoff₀, hgrads₀, hfg₀, hkeep, hdx, hstored₀, hcell₀⟩ :=
    boundedDiagonalTerm_spec (F := F) hman hv.ne_zero hne0 hne hoff
  unfold boundedHessStage
  rw [hfirst]
  refine ⟨_, rfl, ?_⟩
  generalize hs₀ : boundedDiagonalTerm F p splits _ j first.1 _ s = s₀ at *
  -- before step `d` of the loop, the diagonal cell and those up to column `d` are exact
  let inv (d : Nat) (s' : DiffState K n m) : Prop :=
    HessFrame p j s₀ s' ∧ RowWritten F p splits j (fun k => k = j ∨ k.1 < d) s s'
  have hall (k) (hk : k ≤ j) : StepStored F p splits s₀ k := by
    rcases eq_or_lt_of_le hk with rfl | hk
    · exact hstored₀
    · exact (hstored k hk).congr (hkeep k hk.ne).1 (hkeep k hk.ne).2
  suffices hinv : inv j _ by
    obtain ⟨hframe, hrow⟩ := hinv
    refine ⟨hframe.off, hframe.newFnGrads.trans hgrads₀, hframe.fg.trans hfg₀, fun k hk => ?_,
      hrow.congr fun k => le_iff_eq_or_lt.symm⟩
    exact (hall k hk).congr (congrFun hframe.dx k) (congrFun hframe.fx k)
  apply foldl_take_finRange
  · exact ⟨⟨hoff₀, rfl, rfl, rfl, rfl⟩, hcell₀.row.congr fun k => by simp⟩
  · exact j.2.le
  · rintro k s₁ hkj ⟨hframe, hrow⟩
    have hlt : k < j := hkj
    have hf1 (i q) (hq : IsQuadratic F i q) (hi : fdHessAsv splits i &&& 1 ≠ 0) :
        s₀.fx j i = some (q.value (step p.x0 (p.index j) first.1)) := by
      rw [hstored₀.2 i q hq hi, hdx]
    obtain ⟨hframe₁, hcell⟩ := boundedCell_spec hman hv.ne_zero hf1 hlt.ne'
      ((hall k hlt.le).congr (congrFun hframe.dx k) (congrFun hframe.fx k)) hframe.off
    refine ⟨hframe.trans hframe₁, hrow.add hcell fun k' => ?_⟩
    rw [Fin.ext_iff, Fin.ext_iff]
    omega

/-! ## Hessians by gradients -/

/-- Function `i` has a Hessian by gradients. -/
def ByGrad (splits : List FnSplit) (i : Nat) : Prop := fdHessAsv splits i &&& 2 ≠ 0

theorem lt_length_of_byGrad (hi : ByGrad splits i) : i < splits.length := by
  by_contra hlt
  apply hi
  unfold fdHessAsv
  rw [List.getD_eq_default _ _ (not_lt.mp hlt)]
  rfl

/-- The rows of a function end before those of a later one. -/
theorem ifg_add_le {i' : Nat} (hi : ByGrad splits i) (hlt : i < i') :
    ifg (m := m) splits i + m ≤ ifg (m := m) splits i' := by
  unfold ifg
  have hlen := lt_length_of_byGrad hi
  have hone : (splits.take (i + 1)).countP (fun s => s.fdHess &&& 2 ≠ 0) =
      (splits.take i).countP (fun s => s.fdHess &&& 2 ≠ 0) + 1 := by
    have hi' : splits[i].fdHess &&& 2 ≠ 0 := by
      unfold ByGrad fdHessAsv at hi
      rwa [List.getD_eq_getElem _ _ hlen] at hi
    rw [List.take_add_one, List.getElem?_eq_getElem hlen, Option.toList_some, List.countP_append,
      List.countP_singleton, if_pos (decide_eq_true hi')]
  have hle : (splits.take (i + 1)).countP (fun s => s.fdHess &&& 2 ≠ 0) ≤
      (splits.take i').countP (fun s => s.fdHess &&& 2 ≠ 0) :=
    (List.take_prefix_take_left (by omega)).sublist.countP_le
  rw [hone] at hle
  rw [← Nat.succ_mul]
  exact Nat.mul_le_mul_right m hle

/-- Each function and each variable has a row of its own. -/
theorem ifg_inj {i' : Nat} {j j' : Fin m} (hi : ByGrad splits i) (hi' : ByGrad splits i')
    (h : ifg (m := m) splits i + j.1 = ifg (m := m) splits i' + j'.1) : i = i' ∧ j = j' := by
  rcases lt_trichotomy i i' with hlt | rfl | hlt
  · have := ifg_add_le (m := m) hi hlt
    omega
  · exact ⟨rfl, Fin.ext (by omega)⟩
  · have := ifg_add_le (m := m) hi' hlt
    omega

omit [LinearOrder K] [IsStrictOrderedRing K] in
theorem mem_byGrad : i ∈ (List.range splits.length).filter (fun i => fdHessAsv splits i &&& 2 ≠ 0) ↔
    ByGrad splits i := by
  rw [List.mem_filter, List.mem_range, decide_eq_true_eq]
  exact ⟨fun h => h.2, fun h => ⟨lt_length_of_byGrad h, h⟩⟩

omit [Field K] [LinearOrder K] [IsStrictOrderedRing K] in
/-- The rows of variable `j` are set. -/
theorem setGradDifferences_self {row : Nat → Fin m → Option K} {fg : Nat → Fin m → Option K}
    (hi : ByGrad splits i) :
    setGradDifferences splits j row fg (ifg (m := m) splits i + j) = row i := by
  refine @foldl_update_of_mem Nat Nat Nat _ _ (fun i => ifg (m := m) splits i + j)
    (fun i _ => row i) fg _ id ?_ i (mem_byGrad.mpr hi)
  refine List.Nodup.map_on ?_ (List.nodup_range.filter _)
  intro a ha b hb hab
  exact (ifg_inj (mem_byGrad.mp ha) (mem_byGrad.mp hb) hab).1

omit [Field K] [LinearOrder K] [IsStrictOrderedRing K] in
/-- The rows of other variables are kept. -/
theorem setGradDifferences_of_ne {row : Nat → Fin m → Option K} {fg : Nat → Fin m → Option K}
    (hi : ByGrad splits i) {j' : Fin m} (hj : j' ≠ j) :
    setGradDifferences splits j row fg (ifg (m := m) splits i + j') =
      fg (ifg (m := m) splits i + j') := by
  refine @foldl_update_of_notMem Nat Nat Nat _ _ (fun i => ifg (m := m) splits i + j)
    (fun i _ => row i) fg _ id _ ?_
  intro a ha h
  exact hj (ifg_inj (mem_byGrad.mp ha) hi h).2.symm

omit [IsStrictOrderedRing K] in
/-- The gradients at `x0` are requested for Hessians by gradients. -/
theorem mapAsv_of_byGrad (hman : manageAsv cfg p asvIn = .ok splits) (hi : ByGrad splits i) :
    mapAsv splits i &&& 2 ≠ 0 := by
  have hc := manageAsv_consistent hman i
  change (splits.getD i {}).fdHess &&& 2 ≠ 0 at hi
  refine hc.byGrad ?_
  have hne : (splits.getD i {}).fdHess ≠ 0 := by
    intro h0
    rw [h0] at hi
    exact hi rfl
  rcases (hc.hess hne).1 with h1 | h2
  · rw [h1] at hi
    exact (hi (by decide)).elim
  · exact h2

/-- The gradient differences of variable `j`. -/
theorem gradHessStage_spec (hok : Admissible cfg p) (hman : manageAsv cfg p asvIn = .ok splits)
    (hoff : OffAt p (p.index j) s) :
    ∃ s', gradHessStage cfg F p splits (derivedEvaluate F p.index p.x0 (mapAsv splits)) j s =
        .ok s' ∧ OffAt p (p.index j) s' ∧ s'.newFnGrads = s.newFnGrads ∧
      s'.newFnHessians = s.newFnHessians ∧ s'.dx = s.dx ∧ s'.fx = s.fx ∧
      (∀ i, ByGrad splits i → ∀ j' ≠ j,
        s'.fg (ifg (m := m) splits i + j') = s.fg (ifg (m := m) splits i + j')) ∧
      ∀ i q, IsQuadratic F i q → ByGrad splits i →
        ∀ k, s'.fg (ifg (m := m) splits i + j) k = some (q.hess (p.index j) (p.index k)) := by
  obtain ⟨first, hfirst, hv⟩ := firstStep_valid hok one_pos
    (List.mem_cons_of_mem _ (List.mem_cons_of_mem _ List.mem_cons_self)) .inr j
  unfold gradHessStage
  rw [hfirst]
  refine ⟨_, rfl, hoff.setX (v := p.x0 (p.index j) + first.1), rfl, rfl, rfl, rfl, ?_, ?_⟩
  · intro i hi j' hj'
    exact setGradDifferences_of_ne hi hj'
  · intro i q hq hi k
    refine (congrFun (setGradDifferences_self hi) k).trans ?_
    rw [evaluate_gradients hq hi (x_setX hoff rfl), initial_gradients hq (mapAsv_of_byGrad hman hi),
      gradientDifference_exact hv.ne_zero, q.hess_symm]

/-! ## The loop -/

theorem any_of_getD {f : FnSplit → Bool} (hf : f {} = false) (hi : f (splits.getD i {}) = true) :
    splits.any f = true := by
  rw [List.getD_eq_getElem?_getD] at hi
  cases hget : splits[i]? with
  | none =>
    rw [hget, Option.getD_none, hf] at hi
    cases hi
  | some s =>
    rw [hget, Option.getD_some] at hi
    exact List.any_eq_true.mpr ⟨s, List.mem_of_getElem? hget, hi⟩

theorem fdHessByFnFlag_of (hi : fdHessAsv splits i &&& 1 ≠ 0) : fdHessByFnFlag splits = true :=
  any_of_getD rfl (decide_eq_true hi)

theorem fdHessByGradFlag_of (hi : ByGrad splits i) : fdHessByGradFlag splits = true :=
  any_of_getD rfl (decide_eq_true hi)

theorem fdGradFlag_of (hi : fdGradAsv splits i ≠ 0) : fdGradFlag splits = true :=
  any_of_getD rfl (decide_eq_true hi)

theorem fdHessFlag_of {bits : Nat} (hi : fdHessAsv splits i &&& bits ≠ 0) :
    fdHessFlag splits = true := by
  have hne : fdHessAsv splits i ≠ 0 := by
    intro h0
    rw [h0, Nat.zero_and] at hi
    exact hi rfl
  exact any_of_getD rfl (decide_eq_true hne)

/-- The variables whose cells with variable `j` are written in its turn. -/
def turnOf (cfg : DiffSettings K) (j k : Fin m) : Prop := if cfg.centralHess then j ≤ k else k ≤ j

/-- The part by function values, if it is there. -/
theorem byFnStage_spec (hok : Admissible cfg p) (hman : manageAsv cfg p asvIn = .ok splits)
    (hoff : OffAt p (p.index j) s)
    (hstored : fdHessByFnFlag splits → cfg.centralHess = false →
      ∀ k < j, StepStored F p splits s k) :
    ∃ s', runIf (fdHessByFnFlag splits)
        (byFnStage cfg F p splits (derivedEvaluate F p.index p.x0 (mapAsv splits)) j) s = .ok s' ∧
      OffAt p (p.index j) s' ∧ s'.newFnGrads = s.newFnGrads ∧ s'.fg = s.fg ∧
      (fdHessByFnFlag splits → RowWritten F p splits j (turnOf cfg j) s s') ∧
      (fdHessByFnFlag splits → cfg.centralHess = false → ∀ k ≤ j, StepStored F p splits s' k) := by
  unfold runIf byFnStage
  cases hflag : fdHessByFnFlag splits with
  | false =>
    exact ⟨s, rfl, hoff, rfl, rfl, fun h => absurd h Bool.false_ne_true,
      fun h => absurd h Bool.false_ne_true⟩
  | true =>
    rw [if_pos rfl]
    cases hcentral : cfg.centralHess with
    | true =>
      obtain ⟨s', hs', hframe, hrow⟩ := centralHessStage_spec (F := F) hok hman hoff
      refine ⟨s', hs', hframe.off, hframe.newFnGrads, hframe.fg, fun _ => ?_,
        fun _ h => absurd h.symm Bool.false_ne_true⟩
      exact hrow.congr fun k => by rw [turnOf, hcentral, if_pos rfl]
    | false =>
      obtain ⟨s', hs', hoff', hgrads, hfg, hstored', hrow⟩ :=
        boundedHessStage_spec hok hman hoff (hstored hflag hcentral)
      refine ⟨s', hs', hoff', hgrads, hfg, fun _ => ?_, fun _ _ => hstored'⟩
      exact hrow.congr fun k => by rw [turnOf, hcentral, if_neg Bool.false_ne_true]

/-- The Hessian part for variable `j`. -/
theorem hessStage_spec (hok : Admissible cfg p) (hman : manageAsv cfg p asvIn = .ok splits)
    (hoff : OffAt p (p.index j) s)
    (hstored : fdHessByFnFlag splits → cfg.centralHess = false →
      ∀ k < j, StepStored F p splits s k) :
    ∃ s', hessStage cfg F p splits (derivedEvaluate F p.index p.x0 (mapAsv splits)) j s = .ok s' ∧
      OffAt p (p.index j) s' ∧ s'.newFnGrads = s.newFnGrads ∧
      (fdHessByFnFlag splits → RowWritten F p splits j (turnOf cfg j) s s') ∧
      (fdHessByFnFlag splits → cfg.centralHess = false → ∀ k ≤ j, StepStored F p splits s' k) ∧
      (∀ i, ByGrad splits i → ∀ j' ≠ j,
        s'.fg (ifg (m := m) splits i + j') = s.fg (ifg (m := m) splits i + j')) ∧
      ∀ i q, IsQuadratic F i q → ByGrad splits i →
        ∀ k, s'.fg (ifg (m := m) splits i + j) k = some (q.hess (p.index j) (p.index k)) := by
  obtain ⟨s₁, hs₁, hoff₁, hgrads₁, hfg₁, hrow₁, hstored₁⟩ :=
    byFnStage_spec hok hman hoff hstored
  unfold hessStage
  rw [hs₁]
  change ∃ s', runIf _ _ s₁ = .ok s' ∧ _
  unfold runIf
  cases hflag : fdHessByGradFlag splits with
  | false =>
    have hnone (i) (hi : ByGrad splits i) : False := by
      rw [fdHessByGradFlag_of hi] at hflag
      cases hflag
    exact ⟨s₁, rfl, hoff₁, hgrads₁, hrow₁, hstored₁, fun i hi => (hnone i hi).elim,
      fun i q _ hi => (hnone i hi).elim⟩
  | true =>
    obtain ⟨s₂, hs₂, hoff₂, hgrads₂, hcells₂, hdx₂, hfx₂, hkeep, hexact⟩ :=
      gradHessStage_spec (F := F) hok hman hoff₁
    refine ⟨s₂, hs₂, hoff₂, hgrads₂.trans hgrads₁, fun h => ?_, fun h hc k hk => ?_, ?_, hexact⟩
    · exact (hrow₁ h).of_eq hcells₂
    · exact (hstored₁ h hc k hk).congr (congrFun hdx₂ k) (congrFun hfx₂ k)
    · intro i hi j' hj'
      rw [hkeep i hi j' hj', hfg₁]

theorem fdHessFlag_of_byFn (h : fdHessByFnFlag splits = true) : fdHessFlag splits = true := by
  obtain ⟨s, hs, hne⟩ := List.any_eq_true.mp h
  refine List.any_eq_true.mpr ⟨s, hs, decide_eq_true fun h0 => of_decide_eq_true hne ?_⟩
  rw [h0, Nat.zero_and]

/-- The state after the turns of the first `d` variables. -/
structure Done (cfg : DiffSettings K) (F : ResponseFunctions K n) (p : DiffPoint K n m)
    (splits : List FnSplit) (d : Nat) (s : DiffState K n m) : Prop where
  x_eq : s.x = p.x0
  grads : ∀ i q, IsQuadratic F i q → fdGradAsv splits i ≠ 0 →
    (cfg.intervalType = .forward → ∀ a b, q.hess a b = 0) →
    ∀ j : Fin m, j.1 < d → s.newFnGrads j i = some (q.gradient p.x0 (p.index j))
  cells : fdHessByFnFlag splits → ∀ j k j' k' : Fin m, j.1 < d → turnOf cfg j k →
    sameCell j k j' k' → CellExact F p splits s j' k'
  stored : fdHessByFnFlag splits → cfg.centralHess = false →
    ∀ k : Fin m, k.1 < d → StepStored F p splits s k
  rows : ∀ i q, IsQuadratic F i q → ByGrad splits i → ∀ j : Fin m, j.1 < d →
    ∀ k, s.fg (ifg (m := m) splits i + j) k = some (q.hess (p.index j) (p.index k))

omit [LinearOrder K] [IsStrictOrderedRing K] in
/-- The gradients are in place after the gradient part of the turn of `j`. -/
theorem Done.grads_succ {s₁ : DiffState K n m} (hs : Done cfg F p splits j s)
    (hkeep : ∀ j' ≠ j, s₁.newFnGrads j' = s.newFnGrads j')
    (hrow : ∀ i q, IsQuadratic F i q → fdGradAsv splits i ≠ 0 →
      (cfg.intervalType = .forward → q.hess (p.index j) (p.index j) = 0) →
      s₁.newFnGrads j i = some (q.gradient p.x0 (p.index j))) :
    ∀ i q, IsQuadratic F i q → fdGradAsv splits i ≠ 0 →
      (cfg.intervalType = .forward → ∀ a b, q.hess a b = 0) →
      ∀ j' : Fin m, j'.1 < j + 1 → s₁.newFnGrads j' i = some (q.gradient p.x0 (p.index j')) := by
  intro i q hq hi hzero j' hj'
  by_cases hjj : j' = j
  · rw [hjj]
    exact hrow i q hq hi fun hf => hzero hf _ _
  · rw [hkeep j' hjj]
    exact hs.grads i q hq hi hzero j' (by omega)

omit [LinearOrder K] [IsStrictOrderedRing K] in
/-- The Hessians are in place after the Hessian part of the turn of `j`. -/
theorem Done.cells_succ {s₁ : DiffState K n m} (hs : Done cfg F p splits j s)
    (hrow : RowWritten F p splits j (turnOf cfg j) s s₁) (hflag : fdHessByFnFlag splits) :
    ∀ j₁ k j' k' : Fin m, j₁.1 < j + 1 → turnOf cfg j₁ k → sameCell j₁ k j' k' →
      CellExact F p splits s₁ j' k' := by
  intro j₁ k j' k' hj₁ hturn hsame
  by_cases hwritten : ∃ k₁, turnOf cfg j k₁ ∧ sameCell j k₁ j' k'
  · obtain ⟨k₁, hk₁, hsame₁⟩ := hwritten
    exact hrow.exact j' k' k₁ hk₁ hsame₁
  · have hne : j₁ ≠ j := by
      rintro rfl
      exact hwritten ⟨k, hturn, hsame⟩
    intro i q hq hi
    rw [hrow.others i j' k' fun k₁ hk₁ h => hwritten ⟨k₁, hk₁, h⟩]
    exact hs.cells hflag j₁ k j' k' (by omega) hturn hsame i q hq hi

/-- The turn of variable `j`. -/
theorem variableStage_done (hok : Admissible cfg p) (hman : manageAsv cfg p asvIn = .ok splits)
    (hs : Done cfg F p splits j s) :
    ∃ s', variableStage cfg F p splits (derivedEvaluate F p.index p.x0 (mapAsv splits)) s j =
        .ok s' ∧ Done cfg F p splits (j + 1) s' := by
  have hoff : OffAt p (p.index j) s := fun b _ => congrFun hs.x_eq b
  have hfixed : ¬ (fdGradFlag splits ∧ !cfg.ignoreBounds ∧
      ¬ (fdLower cfg p j).lt (fdUpper cfg p j)) := by
    rintro ⟨-, -, hlt⟩
    exact hlt (hok.inside_fd j).lt
  -- the gradient part
  obtain ⟨s₁, hs₁, hoff₁, hcells₁, hdx₁, hfx₁, hfg₁, hgrads₁⟩ : ∃ s₁,
      runIf (fdGradFlag splits)
        (gradStage cfg F p splits (derivedEvaluate F p.index p.x0 (mapAsv splits)) j) s = .ok s₁ ∧
      OffAt p (p.index j) s₁ ∧ s₁.newFnHessians = s.newFnHessians ∧ s₁.dx = s.dx ∧ s₁.fx = s.fx ∧
      s₁.fg = s.fg ∧ ∀ i q, IsQuadratic F i q → fdGradAsv splits i ≠ 0 →
        (cfg.intervalType = .forward → ∀ a b, q.hess a b = 0) →
        ∀ j' : Fin m, j'.1 < j + 1 →
          s₁.newFnGrads j' i = some (q.gradient p.x0 (p.index j')) := by
    unfold runIf
    cases hflag : fdGradFlag splits with
    | false =>
      refine ⟨s, rfl, hoff, rfl, rfl, rfl, rfl, fun i q hq hi => ?_⟩
      rw [fdGradFlag_of hi] at hflag
      cases hflag
    | true =>
      obtain ⟨s₁, hs₁, hoff₁, hcells₁, hdx₁, hfx₁, hfg₁, hkeep, hrow⟩ :=
        gradStage_spec (F := F) hok hman hoff
      exact ⟨s₁, hs₁, hoff₁, hcells₁, hdx₁, hfx₁, hfg₁, hs.grads_succ hkeep hrow⟩
  have hstored₁ : fdHessByFnFlag splits → cfg.centralHess = false →
      ∀ k < j, StepStored F p splits s₁ k := fun h hc k hk =>
    (hs.stored h hc k hk).congr (congrFun hdx₁ k) (congrFun hfx₁ k)
  unfold variableStage
  rw [if_neg hfixed, hs₁]
  change ∃ s', (runIf _ _ s₁ >>= _) = .ok s' ∧ _
  unfold runIf
  have hx (s₂ : DiffState K n m) (hoff₂ : OffAt p (p.index j) s₂) :
      (s₂.setX (p.index j) (p.x0 (p.index j))).x = p.x0 := by
    funext b
    change Function.update s₂.x (p.index j) _ b = _
    by_cases hb : b = p.index j
    · rw [hb, Function.update_self]
    · rw [Function.update_of_ne hb, hoff₂ b hb]
  cases hflag : fdHessFlag splits with
  | false =>
    have hbyFn (h : fdHessByFnFlag splits = true) : False := by
      rw [fdHessFlag_of_byFn h] at hflag
      cases hflag
    refine ⟨_, rfl, hx s₁ hoff₁, hgrads₁, fun h => (hbyFn h).elim, fun h => (hbyFn h).elim,
      fun i q _ hi => ?_⟩
    rw [fdHessFlag_of hi] at hflag
    cases hflag
  | true =>
    obtain ⟨s₂, hs₂, hoff₂, hgrads₂, hrow₂, hstored₂, hkeep₂, hexact₂⟩ :=
      hessStage_spec hok hman hoff₁ hstored₁
    rw [if_pos rfl, hs₂]
    refine ⟨_, rfl, hx s₂ hoff₂, ?_, ?_, ?_, ?_⟩
    · intro i q hq hi hzero j' hj'
      exact (congrFun (congrFun hgrads₂ j') i).trans (hgrads₁ i q hq hi hzero j' hj')
    · intro h
      refine hs.cells_succ ⟨fun i j' k' hne => ?_, (hrow₂ h).exact⟩ h
      rw [← hcells₁]
      exact (hrow₂ h).others i j' k' hne
    · intro h hc k hk
      exact hstored₂ h hc k (Nat.le_of_lt_succ hk)
    · intro i q hq hi j' hj' k
      by_cases hjj : j' = j
      · rw [hjj]
        exact hexact₂ i q hq hi k
      · refine (congrFun (hkeep₂ i hi j' hjj) k).trans ?_
        rw [hfg₁]
        exact hs.rows i q hq hi j' (by omega) k

/-! ## The response -/

omit [IsStrictOrderedRing K] in
/-- Before the loop. -/
theorem initialMap_done (cfg : DiffSettings K) (F : ResponseFunctions K n) (p : DiffPoint K n m)
    (splits : List FnSplit) (asv : Nat → Nat) (found : Bool) (current : Evaluation K m) :
    (initialMap F p splits asv found current).1 =
        derivedEvaluate F p.index p.x0 (mapAsv splits) ∧
      Done cfg F p splits 0 (initialMap F p splits asv found current).2 := by
  unfold initialMap
  split
  · exact ⟨rfl, rfl, fun _ _ _ _ _ j hj => by omega, fun _ j _ _ _ hj => by omega,
      fun _ _ k hk => by omega, fun _ _ _ _ j hj => by omega⟩
  · exact ⟨rfl, rfl, fun _ _ _ _ _ j hj => by omega, fun _ j _ _ _ hj => by omega,
      fun _ _ k hk => by omega, fun _ _ _ _ j hj => by omega⟩

omit [LinearOrder K] [IsStrictOrderedRing K] in
theorem updateResponse_gradients {initial response : Evaluation K m}
    {quasiHessians : Nat → Fin m → Fin m → K} {asv : Nat → Nat} {newFnGrads : Fin m → Nat → Option K}
    {newFnHessians : SymMatrices K m} (hi : fdGradAsv splits i ≠ 0) (hasv : asv i &&& 2 ≠ 0) :
    (updateResponse cfg splits initial quasiHessians asv newFnGrads newFnHessians
      response).gradients i j = newFnGrads j i := by
  refine (if_pos hasv).trans ?_
  simp only [fdGradFlag_of hi, if_true]
  split
  · exact if_pos hi
  · rfl

omit [LinearOrder K] [IsStrictOrderedRing K] in
theorem updateResponse_hessians {initial response : Evaluation K m}
    {quasiHessians : Nat → Fin m → Fin m → K} {asv : Nat → Nat} {newFnGrads : Fin m → Nat → Option K}
    {newFnHessians : SymMatrices K m} {k : Fin m} (hi : fdHessAsv splits i ≠ 0)
    (hquasi : (splits.getD i {}).quasiHess = 0) (hasv : asv i &&& 4 ≠ 0) :
    (updateResponse cfg splits initial quasiHessians asv newFnGrads newFnHessians
      response).hessians i j k = newFnHessians i j k := by
  have hflag : fdHessFlag splits = true := any_of_getD rfl (decide_eq_true hi)
  refine (if_pos hasv).trans ?_
  simp only [hflag, true_or, if_true]
  split
  · exact (if_neg (not_not.mpr hquasi)).trans (if_pos hi)
  · rfl

omit [LinearOrder K] [IsStrictOrderedRing K] in
/-- Each cell was written in the turn of one of its variables. -/
theorem Done.cell (hs : Done cfg F p splits m s) (hflag : fdHessByFnFlag splits) (j k : Fin m) :
    CellExact F p splits s j k := by
  have hturn (j₁ k₁ : Fin m) (hsame : sameCell j₁ k₁ j k) (h : turnOf cfg j₁ k₁) :
      CellExact F p splits s j k := hs.cells hflag j₁ k₁ j k j₁.2 h hsame
  rcases le_total j k with hjk | hjk
  · cases hcentral : cfg.centralHess with
    | true =>
      exact hturn j k (sameCell_iff.mpr (.inl ⟨rfl, rfl⟩)) (by rwa [turnOf, hcentral, if_pos rfl])
    | false =>
      exact hturn k j (sameCell_iff.mpr (.inr ⟨rfl, rfl⟩))
        (by rwa [turnOf, hcentral, if_neg Bool.false_ne_true])
  · cases hcentral : cfg.centralHess with
    | true =>
      exact hturn k j (sameCell_iff.mpr (.inr ⟨rfl, rfl⟩)) (by rwa [turnOf, hcentral, if_pos rfl])
    | false =>
      exact hturn j k (sameCell_iff.mpr (.inl ⟨rfl, rfl⟩))
        (by rwa [turnOf, hcentral, if_neg Bool.false_ne_true])

/-- The average of the two gradient differences. -/
theorem symmetrize_exact (hs : Done cfg F p splits m s) {q : Quadratic K n}
    (hq : IsQuadratic F i q) (hi : ByGrad splits i) (j k : Fin m) :
    symmetrize splits s i j k = some (q.hess (p.index j) (p.index k)) := by
  have hrow (j k : Fin m) : s.fg (ifg (m := m) splits i + j) k =
      some (q.hess (p.index j) (p.index k)) := hs.rows i q hq hi j j.2 k
  refine (if_pos hi).trans ?_
  by_cases hjk : j = k
  · subst hjk
    exact (if_pos rfl).trans (hrow j j)
  · rw [if_neg hjk]
    simp only [hrow]
    change some (1 / 2 * (q.hess (p.index (max j k)) (p.index (min j k)) +
      q.hess (p.index (min j k)) (p.index (max j k)))) = _
    congr 1
    rw [q.hess_symm (p.index (max j k))]
    rcases le_total j k with h | h
    · rw [min_eq_left h, max_eq_right h]
      ring
    · rw [min_eq_right h, max_eq_left h, q.hess_symm (p.index j)]
      ring

/-- The Hessians after the loop. -/
theorem Done.hessians (hman : manageAsv cfg p asvIn = .ok splits) (hs : Done cfg F p splits m s)
    {q : Quadratic K n} (hq : IsQuadratic F i q) (hi : fdHessAsv splits i ≠ 0) (j k : Fin m) :
    (if fdHessByGradFlag splits then symmetrize splits s else s.newFnHessians) i j k =
      some (q.hess (p.index j) (p.index k)) := by
  rcases ((manageAsv_consistent hman i).hess hi).1 with h1 | h2
  · have hbyFn : fdHessAsv splits i &&& 1 ≠ 0 := by
      change (splits.getD i {}).fdHess &&& 1 ≠ 0
      rw [h1]
      decide
    have hgrad : ¬ (fdHessAsv splits i &&& 2 ≠ 0) := by
      change ¬ ((splits.getD i {}).fdHess &&& 2 ≠ 0)
      rw [h1]
      decide
    have hcell := hs.cell (fdHessByFnFlag_of hbyFn) j k i q hq hbyFn
    split
    · exact (if_neg hgrad).trans hcell
    · exact hcell
  · have hgrad : ByGrad splits i := by
      change (splits.getD i {}).fdHess &&& 2 ≠ 0
      rw [h2]
      decide
    rw [if_pos (fdHessByGradFlag_of hgrad)]
    exact symmetrize_exact hs hq hgrad j k

end Stages

/-- The difference formulas of function `i` read its value at `x0`. -/
def ReadsInitialValue (cfg : DiffSettings K) (p : DiffPoint K n m) (splits : List FnSplit)
    (i : Nat) : Prop :=
  (fdGradAsv splits i ≠ 0 ∧ (cfg.intervalType = .forward ∨
    ∃ j first, cfg.intervalType = .central ∧ forwardGradStep cfg p j = .ok first ∧
      (secondStep cfg p first j).2 = true)) ∨
  fdHessAsv splits i &&& 1 ≠ 0

omit [IsStrictOrderedRing K] in
/-- The values and gradients at `x0` that are read are requested. -/
theorem mapAsv_of_reads (hman : manageAsv cfg p asvIn = .ok splits) (i : Nat) :
    (ReadsInitialValue cfg p splits i → mapAsv splits i &&& 1 ≠ 0) ∧
      (fdHessAsv splits i &&& 2 ≠ 0 → mapAsv splits i &&& 2 ≠ 0) := by
  refine ⟨?_, mapAsv_of_byGrad hman⟩
  rintro (⟨hi, hforward | ⟨j, first, hcentral, hfirst, hshort⟩⟩ | hi)
  · exact mapAsv_of_forward hman hforward hi
  · exact mapAsv_of_short hman hfirst hcentral hshort hi
  · exact mapAsv_of_fdHess hman hi

/-- The functions that are quadratic. -/
def ResponseFunctions.ofQuadratics (q : Nat → Quadratic K n) : ResponseFunctions K n where
  value i := (q i).value
  gradient i := (q i).gradient
  hessian i _ := (q i).hess

/-- Numerical gradients and Hessians with steps of eight times the variable. -/
def wideSteps : DiffSettings ℚ where
  supportsEstimDerivs := true
  dakotaSource := true
  autoCorrected := false
  gradientType := .numerical
  hessianType := .numerical
  gradIdAnalytic := []
  gradIdNumerical := []
  hessIdAnalytic := []
  hessIdNumerical := []
  hessIdQuasi := []
  intervalType := .central
  ignoreBounds := false
  centralHess := false
  fdGradStepSize := [8]
  fdGradStepType := .relative
  fdHessByFnStepSize := [8]
  fdHessByGradStepSize := [8]
  fdHessStepType := .relative

/-- The point `(1/4, -1/2)` in the box `[0, 1] × [-1, ∞)`. -/
def quarterPoint : DiffPoint ℚ 2 2 where
  x0 := ![1 / 4, -1 / 2]
  index := id
  lower := ![.fin 0, .fin (-1)]
  upper := ![.fin 1, .posInf]
  index_injective := Function.injective_id

/-- The product of the two variables. -/
def productFunction : Quadratic ℚ 2 where
  const := 0
  linear _ := 0
  hess a b := if a = b then 0 else 1
  hess_symm a b := by simp only [eq_comm]

theorem admissible_wideSteps : Admissible wideSteps quarterPoint where
  inside _ j := by
    fin_cases j
    · exact ⟨by norm_num [quarterPoint], by norm_num [quarterPoint], by norm_num [quarterPoint]⟩
    · exact ⟨by norm_num [quarterPoint], trivial, trivial⟩
  stepSize sizes hs j := by
    have hsize : sizes = [8] := by
      simpa [wideSteps] using hs
    subst hsize
    exact ⟨8, rfl, by norm_num⟩
  finite h := by
    rcases h with h | h <;> cases h

end Dakota.Derivatives
