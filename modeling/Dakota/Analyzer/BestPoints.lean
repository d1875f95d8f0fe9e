import Dakota.Analyzer.Batches
import Dakota.Lib.MultiMap
import Dakota.Objective.Composite

/-!
# The best points

`compute_best_metrics`, `update_best` and the `log_response` functions of `Analyzer`
(`src/src/DakotaAnalyzer.cpp`, `src/src/DakotaAnalyzer.hpp`), over exact arithmetic.

* `violation_eq_zero_iff`: the constraint violation is zero exactly for feasible points.
* `updateAll_eq`: the best map after any sequence is the first part of the stable sort by the
  metrics of the analyzer.
* `metrics_le_iff`, `consistent_of_tracks`: these metrics order points as the minimizers do if and
  only if the configuration is consistent (`ConsistentMetric`): the analyzer does not look at the
  senses, and it squares the weights of least squares terms.
-/

namespace Dakota.Analyzer

variable {K : Type} [Field K] [LinearOrder K]

/-- What the metrics of an analyzer depend on. -/
structure BestConfig (K : Type) where
  numObjFns : ℕ
  numLSqTerms : ℕ
  primaryWts : List K
  maxSense : List Bool
  numNlnIneq : ℕ
  numNlnEq : ℕ
  nlnIneqLwrBnds : ℕ → K
  nlnIneqUprBnds : ℕ → K
  nlnEqTargets : ℕ → K
  numFinalSolutions : ℕ

/-- A `ParamResponsePair`. -/
structure Evaluated (V K : Type) where
  vars : V
  evalId : ℤ
  fnVals : ℕ → K

namespace BestConfig

variable (c : BestConfig K)

/-- The first part of `compute_best_metrics`: the objective, and `constr_offset`. -/
def bestObjective (fnVals : ℕ → K) : K × ℕ :=
  if 0 < c.numObjFns then
    if c.primaryWts.isEmpty then
      let objFn := (List.range c.numObjFns).foldl (fun objFn i => objFn + fnVals i) 0
      (if c.numObjFns > 1 then objFn / c.numObjFns else objFn, c.numObjFns)
    else
      ((List.range c.numObjFns).foldl (fun objFn i => objFn + c.primaryWts.getD i 0 * fnVals i) 0,
        c.numObjFns)
  else if c.primaryWts.isEmpty then
    ((List.range c.numLSqTerms).foldl (fun objFn i => objFn + fnVals i ^ 2) 0, c.numLSqTerms)
  else
    ((List.range c.numLSqTerms).foldl
      (fun objFn i => objFn + (c.primaryWts.getD i 0 * fnVals i) ^ 2) 0, c.numLSqTerms)

/-- The violation of an inequality constraint. -/
def ineqViolation (i : ℕ) (ineqCon : K) : K :=
  if ineqCon > c.nlnIneqUprBnds i then (ineqCon - c.nlnIneqUprBnds i) ^ 2
  else if ineqCon < c.nlnIneqLwrBnds i then (c.nlnIneqLwrBnds i - ineqCon) ^ 2
  else 0

/-- The violation of an equality constraint. -/
def eqViolation (i : ℕ) (eqCon : K) : K :=
  if |eqCon - c.nlnEqTargets i| > 0 then (eqCon - c.nlnEqTargets i) ^ 2 else 0

/-- The second part of `compute_best_metrics`: the constraint violation. -/
def violation (constrOffset : ℕ) (fnVals : ℕ → K) : K :=
  (List.range c.numNlnEq).foldl
    (fun constrViol i => constrViol + c.eqViolation i (fnVals (i + constrOffset + c.numNlnIneq)))
    ((List.range c.numNlnIneq).foldl
      (fun constrViol i => constrViol + c.ineqViolation i (fnVals (i + constrOffset))) 0)

/-- `compute_best_metrics`; a pair is compared by its first component, then by its second one. -/
def computeBestMetrics (fnVals : ℕ → K) : K ×ₗ K :=
  if 0 < c.numObjFns ∨ 0 < c.numLSqTerms then
    toLex (c.violation (c.bestObjective fnVals).2 fnVals, (c.bestObjective fnVals).1)
  else toLex (0, 0)

/-- `update_best`: an insertion that keeps `numFinalSolutions` entries. -/
def updateBest {V : Type} (best : MultiMap (K ×ₗ K) (Evaluated V K)) (p : Evaluated V K) :
    MultiMap (K ×ₗ K) (Evaluated V K) :=
  best.insertBounded c.numFinalSolutions (c.computeBestMetrics p.fnVals) p

/-- `bestVarsRespMap` after a sequence of points. -/
def updateAll {V : Type} (points : List (Evaluated V K)) : MultiMap (K ×ₗ K) (Evaluated V K) :=
  points.foldl c.updateBest []

end BestConfig

/-! ## Logging -/

/-- Variables: the active continuous ones, the other active ones, and the inactive ones. -/
structure AnalyzerVars (K D I : Type) where
  continuous : ℕ → K
  discrete : D
  inactive : I

/-- `log_response_map` of an array: the entries of the response map in their order, each with the
element of its position. There is an element for each, or the source reads past the array. -/
def logResponseMap {V α : Type} (c : BestConfig K) (item : α → V) (items : List α)
    (respMap : OrdMap ℤ (ℕ → K)) (best : MultiMap (K ×ₗ K) (Evaluated V K)) :
    MultiMap (K ×ₗ K) (Evaluated V K) :=
  (List.zip items respMap).foldl (fun best p => c.updateBest best ⟨item p.1, p.2.1, p.2.2⟩) best

variable {D I : Type}

/-- `update_model_from_sample`, over the `numCv` continuous variables of the model. -/
def updateModelFromSample (numCv : ℕ) (vars : AnalyzerVars K D I) (sample : ℕ → K) :
    AnalyzerVars K D I :=
  { vars with continuous := fun i => if i < numCv then sample i else vars.continuous i }

/-- `update_model_from_variables`: the active variables. -/
def updateModelFromVariables (vars new : AnalyzerVars K D I) : AnalyzerVars K D I :=
  { new with inactive := vars.inactive }

/-- `sample_to_variables` of a copy of the current variables. -/
def sampleToVariables (numContinuousVars : ℕ) (current : AnalyzerVars K D I) (sample : ℕ → K) :
    AnalyzerVars K D I :=
  { current with
    continuous := fun i => if i < numContinuousVars then sample i else current.continuous i }

/-- The model of an analyzer, with the response that it computes for an evaluation. -/
def analyzerModel (numCv : ℕ) (respond : ℤ → AnalyzerVars K D I → ℕ → K) :
    ModelInterface (AnalyzerVars K D I) K (ℕ → K) where
  updateFromSample := updateModelFromSample numCv
  updateFromVariables := updateModelFromVariables
  respond := respond

/-- `evaluate_parameter_sets` with `log_best_flag`, over an array of parameter sets: of a
synchronous model each response is logged at once (`log_response`), of an asynchronous one all of
them after `synchronize`. -/
def evaluateSets {α : Type} (c : BestConfig K) (respond : ℤ → AnalyzerVars K D I → ℕ → K)
    (asynch : Bool) (update : AnalyzerVars K D I → α → AnalyzerVars K D I)
    (item : AnalyzerVars K D I → α → AnalyzerVars K D I) (items : List α)
    (s : ModelState (AnalyzerVars K D I) × MultiMap (K ×ₗ K) (Evaluated (AnalyzerVars K D I) K)) :
    ModelState (AnalyzerVars K D I) × MultiMap (K ×ₗ K) (Evaluated (AnalyzerVars K D I) K) :=
  let s := items.foldl (fun s a =>
    let model := s.1.evaluate asynch fun vars => update vars a
    (model,
      if asynch then s.2
      else c.updateBest s.2 ⟨model.vars, model.evalCntr, respond model.evalCntr model.vars⟩)) s
  if asynch then
    let (respMap, model) := s.1.synchronize respond
    (model, logResponseMap c (item model.vars) items respMap s.2)
  else s

/-- `evaluate_parameter_sets` in compact and in full variables mode. -/
def evaluateParameterSets (c : BestConfig K) (numCv : ℕ)
    (respond : ℤ → AnalyzerVars K D I → ℕ → K) (asynch : Bool)
    (sets : ParameterSets (AnalyzerVars K D I) K)
    (s : ModelState (AnalyzerVars K D I) × MultiMap (K ×ₗ K) (Evaluated (AnalyzerVars K D I) K)) :
    ModelState (AnalyzerVars K D I) × MultiMap (K ×ₗ K) (Evaluated (AnalyzerVars K D I) K) :=
  match sets with
  | .compact _ allSamples =>
    evaluateSets c respond asynch (updateModelFromSample numCv) (sampleToVariables numCv)
      allSamples s
  | .full allVariables =>
    evaluateSets c respond asynch updateModelFromVariables (fun _ vars => vars) allVariables s

/-! ## The metrics -/

namespace BestConfig

variable {c : BestConfig K} {fnVals : ℕ → K}

variable (c) in
/-- The primary functions, as a minimizer has them. -/
def primaryFns : PrimaryFns K where
  optimizationFlag := decide (0 < c.numObjFns)
  numFns := if 0 < c.numObjFns then c.numObjFns else c.numLSqTerms
  maxSense := c.maxSense
  weights := c.primaryWts

variable (c) in
/-- The order of the points: constraint violation, then the objective of the minimizers. -/
def trueMetrics (fnVals : ℕ → K) : K ×ₗ K :=
  toLex (c.violation c.primaryFns.numFns fnVals, c.primaryFns.objective fnVals)

omit [LinearOrder K] in
theorem bestObjective_snd : (c.bestObjective fnVals).2 = c.primaryFns.numFns := by
  simp only [bestObjective, primaryFns]
  split_ifs <;> rfl

omit [LinearOrder K] in
theorem bestObjective_moo (h : 0 < c.numObjFns) : (c.bestObjective fnVals).1 =
    ∑ i ∈ Finset.range c.primaryFns.numFns, c.primaryFns.mooWeight i * fnVals i := by
  simp only [bestObjective, primaryFns, PrimaryFns.mooWeight, PrimaryFns.weight, if_pos h,
    foldl_range_add, zero_add]
  split_ifs with hw hn
  · dsimp only
    rw [Finset.sum_div]
    refine Finset.sum_congr rfl fun i _ => ?_
    ring
  · simp only [one_mul]
  · rfl

omit [LinearOrder K] in
theorem bestObjective_nls (h : ¬ 0 < c.numObjFns) : (c.bestObjective fnVals).1 =
    ∑ i ∈ Finset.range c.primaryFns.numFns, (c.primaryFns.lsqWeight i * fnVals i) ^ 2 := by
  simp only [bestObjective, primaryFns, PrimaryFns.lsqWeight, PrimaryFns.weight, if_neg h,
    foldl_range_add, zero_add]
  split_ifs with hw
  · simp only [one_mul]
  · rfl

/-- Feasible points, whose functions from `constrOffset` on are the constraints. -/
def Feasible (c : BestConfig K) (constrOffset : ℕ) (fnVals : ℕ → K) : Prop :=
  (∀ i < c.numNlnIneq, c.nlnIneqLwrBnds i ≤ fnVals (i + constrOffset) ∧
    fnVals (i + constrOffset) ≤ c.nlnIneqUprBnds i) ∧
  ∀ i < c.numNlnEq, fnVals (i + constrOffset + c.numNlnIneq) = c.nlnEqTargets i

section

variable [IsStrictOrderedRing K] {i constrOffset : ℕ} {x : K}

theorem ineqViolation_nonneg : 0 ≤ c.ineqViolation i x := by
  unfold ineqViolation
  split_ifs <;> positivity

theorem eqViolation_nonneg : 0 ≤ c.eqViolation i x := by
  unfold eqViolation
  split_ifs <;> positivity

theorem ineqViolation_eq_zero :
    c.ineqViolation i x = 0 ↔ c.nlnIneqLwrBnds i ≤ x ∧ x ≤ c.nlnIneqUprBnds i := by
  unfold ineqViolation
  split_ifs with hu hl
  · exact iff_of_false (pow_ne_zero 2 (sub_ne_zero.mpr hu.ne')) fun h => hu.not_ge h.2
  · exact iff_of_false (pow_ne_zero 2 (sub_ne_zero.mpr hl.ne')) fun h => hl.not_ge h.1
  · exact iff_of_true rfl ⟨not_lt.mp hl, not_lt.mp hu⟩

theorem eqViolation_eq_zero : c.eqViolation i x = 0 ↔ x = c.nlnEqTargets i := by
  unfold eqViolation
  split_ifs with h
  · exact iff_of_false (pow_ne_zero 2 (abs_pos.mp h)) (sub_ne_zero.mp (abs_pos.mp h))
  · exact iff_of_true rfl (sub_eq_zero.mp (abs_nonpos_iff.mp (not_lt.mp h)))

omit [IsStrictOrderedRing K] in
theorem violation_eq : c.violation constrOffset fnVals =
    ∑ i ∈ Finset.range c.numNlnIneq, c.ineqViolation i (fnVals (i + constrOffset)) +
      ∑ i ∈ Finset.range c.numNlnEq,
        c.eqViolation i (fnVals (i + constrOffset + c.numNlnIneq)) := by
  rw [violation, foldl_range_add, foldl_range_add, zero_add]

/-- The violation is zero exactly for feasible points. -/
theorem violation_eq_zero_iff :
    c.violation constrOffset fnVals = 0 ↔ c.Feasible constrOffset fnVals := by
  rw [violation_eq, add_eq_zero_iff_of_nonneg
    (Finset.sum_nonneg fun _ _ => ineqViolation_nonneg)
    (Finset.sum_nonneg fun _ _ => eqViolation_nonneg),
    Finset.sum_eq_zero_iff_of_nonneg fun _ _ => ineqViolation_nonneg,
    Finset.sum_eq_zero_iff_of_nonneg fun _ _ => eqViolation_nonneg]
  simp only [Finset.mem_range, ineqViolation_eq_zero, eqViolation_eq_zero, Feasible]

end

/-- The best map after a sequence of points. -/
theorem updateAll_eq {V : Type} (hnum : 0 < c.numFinalSolutions) (points : List (Evaluated V K)) :
    c.updateAll points =
      (MultiMap.ofList (points.map fun p => (c.computeBestMetrics p.fnVals, p))).take
        c.numFinalSolutions := by
  rw [← MultiMap.foldl_insertBounded hnum, List.foldl_map]
  rfl

/-- The best map holds the smallest points by the metrics of the analyzer. -/
theorem smallest_updateAll {V : Type} (hnum : 0 < c.numFinalSolutions)
    (points : List (Evaluated V K)) :
    MultiMap.Smallest c.numFinalSolutions (fun p => c.computeBestMetrics p.fnVals) points
      ((c.updateAll points).map (·.2)) := by
  rw [updateAll_eq hnum]
  exact MultiMap.smallest_take c.numFinalSolutions (fun p => c.computeBestMetrics p.fnVals) points

/-- Both objectives order points alike: no objective function with a weight is to be maximized, and
the nonzero weights of least squares terms are one and the same positive number. -/
def ConsistentMetric (c : BestConfig K) : Prop :=
  if 0 < c.numObjFns then
    ∀ i < c.numObjFns, c.primaryFns.maximized i = true → c.primaryFns.mooWeight i = 0
  else ∃ w > 0, ∀ i < c.numLSqTerms, c.primaryFns.lsqWeight i = 0 ∨ c.primaryFns.lsqWeight i = w

section

variable [IsStrictOrderedRing K] {f g : ℕ → K}

omit [IsStrictOrderedRing K] in
theorem computeBestMetrics_eq (hprimary : 0 < c.numObjFns ∨ 0 < c.numLSqTerms) :
    c.computeBestMetrics f =
      toLex (c.violation c.primaryFns.numFns f, (c.bestObjective f).1) := by
  rw [computeBestMetrics, if_pos hprimary, bestObjective_snd]

omit [IsStrictOrderedRing K] in
theorem consistent_moo (h : 0 < c.numObjFns) : c.ConsistentMetric ↔
    ∀ i < c.numObjFns, c.primaryFns.maximized i = true → c.primaryFns.mooWeight i = 0 := by
  rw [ConsistentMetric, if_pos h]

omit [IsStrictOrderedRing K] in
theorem consistent_nls (h : ¬ 0 < c.numObjFns) : c.ConsistentMetric ↔
    ∃ w > 0, ∀ i < c.numLSqTerms, c.primaryFns.lsqWeight i = 0 ∨ c.primaryFns.lsqWeight i = w := by
  rw [ConsistentMetric, if_neg h]

omit [IsStrictOrderedRing K] in
theorem objective_of_consistent_moo (h : 0 < c.numObjFns) (hc : c.ConsistentMetric) :
    (c.bestObjective f).1 = c.primaryFns.objective f := by
  rw [bestObjective_moo h, PrimaryFns.objective_of_moo (decide_eq_true h)]
  refine Finset.sum_congr rfl fun i hi => ?_
  have hlt : i < c.numObjFns := by
    rw [primaryFns, if_pos h] at hi
    exact Finset.mem_range.mp hi
  rw [PrimaryFns.coef]
  split_ifs with hmax
  · rw [(consistent_moo h).mp hc i hlt hmax, neg_zero]
  · rfl

omit [LinearOrder K] [IsStrictOrderedRing K] in
theorem objective_of_consistent_nls (h : ¬ 0 < c.numObjFns) {w : K}
    (hc : ∀ i < c.numLSqTerms, c.primaryFns.lsqWeight i = 0 ∨ c.primaryFns.lsqWeight i = w) :
    (c.bestObjective f).1 = w * c.primaryFns.objective f := by
  rw [bestObjective_nls h, PrimaryFns.objective_of_nls (decide_eq_false h), Finset.mul_sum]
  refine Finset.sum_congr rfl fun i hi => ?_
  have hlt : i < c.numLSqTerms := by
    rw [primaryFns, if_neg h] at hi
    exact Finset.mem_range.mp hi
  rcases hc i hlt with hw | hw <;> rw [hw] <;> ring

/-- A consistent metric orders points as the minimizers do. -/
theorem metrics_le_iff (hprimary : 0 < c.numObjFns ∨ 0 < c.numLSqTerms)
    (hc : c.ConsistentMetric) :
    c.computeBestMetrics f ≤ c.computeBestMetrics g ↔ c.trueMetrics f ≤ c.trueMetrics g := by
  rw [computeBestMetrics_eq hprimary, computeBestMetrics_eq hprimary, trueMetrics, trueMetrics,
    Prod.Lex.toLex_le_toLex, Prod.Lex.toLex_le_toLex]
  by_cases h : 0 < c.numObjFns
  · rw [objective_of_consistent_moo h hc, objective_of_consistent_moo h hc]
  · obtain ⟨w, hw, hc⟩ := (consistent_nls h).mp hc
    dsimp only
    rw [objective_of_consistent_nls h hc, objective_of_consistent_nls h hc,
      mul_le_mul_iff_right₀ hw]

/-! ## What tracking the best points says about the order -/

/-- A point with one function that is not zero. -/
def point (i : ℕ) (x : K) : Evaluated Unit K := ⟨(), 0, Pi.single i x⟩

omit [IsStrictOrderedRing K] in
/-- The map of two points starts with the smaller one. -/
theorem head_updateAll (hnum : 0 < c.numFinalSolutions) (p q : Evaluated Unit K) :
    ∃ best, (c.updateAll [p, q]).map (·.2) =
      (if c.computeBestMetrics q.fnVals < c.computeBestMetrics p.fnVals then q else p) :: best := by
  obtain ⟨num, hsucc⟩ : ∃ num, c.numFinalSolutions = num + 1 :=
    Nat.exists_eq_succ_of_ne_zero hnum.ne'
  rw [updateAll_eq hnum, hsucc]
  have hlist : MultiMap.ofList ([p, q].map fun p => (c.computeBestMetrics p.fnVals, p)) =
      if c.computeBestMetrics q.fnVals < c.computeBestMetrics p.fnVals then
        [(c.computeBestMetrics q.fnVals, q), (c.computeBestMetrics p.fnVals, p)]
      else [(c.computeBestMetrics p.fnVals, p), (c.computeBestMetrics q.fnVals, q)] := rfl
  rw [hlist]
  split_ifs
  · exact ⟨_, rfl⟩
  · exact ⟨_, rfl⟩

omit [IsStrictOrderedRing K] in
/-- If the best of any two points are tracked, both metrics order them alike. -/
theorem metrics_le_iff_of_tracks (hnum : 0 < c.numFinalSolutions)
    (h : ∀ points : List (Evaluated Unit K), MultiMap.Smallest c.numFinalSolutions
      (fun p => c.trueMetrics p.fnVals) points ((c.updateAll points).map (·.2)))
    (p q : Evaluated Unit K) :
    c.computeBestMetrics p.fnVals ≤ c.computeBestMetrics q.fnVals ↔
      c.trueMetrics p.fnVals ≤ c.trueMetrics q.fnVals := by
  obtain ⟨best, hbest⟩ := head_updateAll hnum p q
  have htrack := h [p, q]
  rw [hbest] at htrack
  split_ifs at htrack with hlt
  · refine iff_of_false hlt.not_ge (not_le_of_gt (htrack.key_lt ?_))
    rintro rfl
    exact hlt.false
  · exact iff_of_true (not_lt.mp hlt) htrack.key_le

omit [IsStrictOrderedRing K] in
/-- Two points that differ in primary functions only are compared by their objectives. -/
theorem objective_le_iff_of_tracks (hnum : 0 < c.numFinalSolutions)
    (hprimary : 0 < c.numObjFns ∨ 0 < c.numLSqTerms)
    (h : ∀ points : List (Evaluated Unit K), MultiMap.Smallest c.numFinalSolutions
      (fun p => c.trueMetrics p.fnVals) points ((c.updateAll points).map (·.2)))
    {i j : ℕ} (hi : i < c.primaryFns.numFns) (hj : j < c.primaryFns.numFns) (x y : K) :
    (c.bestObjective (Pi.single i x)).1 ≤ (c.bestObjective (Pi.single j y)).1 ↔
      c.primaryFns.objective (Pi.single i x) ≤ c.primaryFns.objective (Pi.single j y) := by
  have hviol {i : ℕ} (hi : i < c.primaryFns.numFns) (x : K) :
      c.violation c.primaryFns.numFns (Pi.single i x) = c.violation c.primaryFns.numFns 0 := by
    have hzero {k : ℕ} (hk : c.primaryFns.numFns ≤ k) : (Pi.single i x : ℕ → K) k = 0 := by
      have hne : k ≠ i := by omega
      rw [Pi.single_eq_of_ne hne]
    rw [violation_eq, violation_eq]
    congr 1
    · exact Finset.sum_congr rfl fun k _ => by rw [hzero (by omega), Pi.zero_apply]
    · exact Finset.sum_congr rfl fun k _ => by rw [hzero (by omega), Pi.zero_apply]
  have hle := metrics_le_iff_of_tracks hnum h (point i x) (point j y)
  rw [computeBestMetrics_eq hprimary, computeBestMetrics_eq hprimary, trueMetrics, trueMetrics,
    Prod.Lex.toLex_le_toLex, Prod.Lex.toLex_le_toLex] at hle
  simpa [point, hviol hi, hviol hj] using hle

omit [LinearOrder K] [IsStrictOrderedRing K] in
theorem sum_single {n i : ℕ} (hi : i < n) (x : K) (φ : ℕ → K → K) (hφ : ∀ k, φ k 0 = 0) :
    ∑ k ∈ Finset.range n, φ k ((Pi.single i x : ℕ → K) k) = φ i x := by
  rw [Finset.sum_eq_single i, Pi.single_eq_same]
  · intro k _ hk
    rw [Pi.single_eq_of_ne hk, hφ]
  · exact fun hn => (hn (Finset.mem_range.mpr hi)).elim

/-- The weights of a configuration that tracks the best points are consistent. -/
theorem consistent_of_tracks (hnum : 0 < c.numFinalSolutions)
    (hprimary : 0 < c.numObjFns ∨ 0 < c.numLSqTerms)
    (h : ∀ points : List (Evaluated Unit K), MultiMap.Smallest c.numFinalSolutions
      (fun p => c.trueMetrics p.fnVals) points ((c.updateAll points).map (·.2))) :
    c.ConsistentMetric := by
  by_cases hobj : 0 < c.numObjFns
  · refine (consistent_moo hobj).mpr fun i hi hmax => ?_
    have hn : c.primaryFns.numFns = c.numObjFns := if_pos hobj
    have hi' : i < c.primaryFns.numFns := hn ▸ hi
    have hle (x y : K) : c.primaryFns.mooWeight i * x ≤ c.primaryFns.mooWeight i * y ↔
        -c.primaryFns.mooWeight i * x ≤ -c.primaryFns.mooWeight i * y := by
      have := objective_le_iff_of_tracks hnum hprimary h hi' hi' x y
      rw [bestObjective_moo hobj, bestObjective_moo hobj,
        PrimaryFns.objective_of_moo (decide_eq_true hobj),
        PrimaryFns.objective_of_moo (decide_eq_true hobj),
        sum_single hi' x (fun k z => c.primaryFns.mooWeight k * z) (fun _ => mul_zero _),
        sum_single hi' y (fun k z => c.primaryFns.mooWeight k * z) (fun _ => mul_zero _),
        sum_single hi' x (fun k z => c.primaryFns.coef k * z) (fun _ => mul_zero _),
        sum_single hi' y (fun k z => c.primaryFns.coef k * z) (fun _ => mul_zero _),
        PrimaryFns.coef, if_pos hmax] at this
      exact this
    have h01 := hle 0 1
    have h10 := hle 1 0
    simp only [mul_zero, mul_one] at h01 h10
    rcases le_total (c.primaryFns.mooWeight i) 0 with hw | hw
    · exact le_antisymm hw (by linarith [h10.mp hw])
    · exact le_antisymm (by linarith [h01.mp hw]) hw
  · have hn : c.primaryFns.numFns = c.numLSqTerms := if_neg hobj
    have hle {i j : ℕ} (hi : i < c.numLSqTerms) (hj : j < c.numLSqTerms) (x y : K) :
        (c.primaryFns.lsqWeight i * x) ^ 2 ≤ (c.primaryFns.lsqWeight j * y) ^ 2 ↔
          c.primaryFns.lsqWeight i * x ^ 2 ≤ c.primaryFns.lsqWeight j * y ^ 2 := by
      have hi' : i < c.primaryFns.numFns := hn ▸ hi
      have hj' : j < c.primaryFns.numFns := hn ▸ hj
      have := objective_le_iff_of_tracks hnum hprimary h hi' hj' x y
      rwa [bestObjective_nls hobj, bestObjective_nls hobj,
        PrimaryFns.objective_of_nls (decide_eq_false hobj),
        PrimaryFns.objective_of_nls (decide_eq_false hobj),
        sum_single hi' x (fun k z => (c.primaryFns.lsqWeight k * z) ^ 2) (fun _ => by ring),
        sum_single hj' y (fun k z => (c.primaryFns.lsqWeight k * z) ^ 2) (fun _ => by ring),
        sum_single hi' x (fun k z => c.primaryFns.lsqWeight k * z ^ 2) (fun _ => by ring),
        sum_single hj' y (fun k z => c.primaryFns.lsqWeight k * z ^ 2) (fun _ => by ring)] at this
    have hnonneg {i : ℕ} (hi : i < c.numLSqTerms) : 0 ≤ c.primaryFns.lsqWeight i := by
      have := (hle hi hi 0 1).mp (by
        rw [mul_zero, zero_pow two_ne_zero]
        exact sq_nonneg _)
      linarith
    have hsame {i j : ℕ} (hi : i < c.numLSqTerms) (hj : j < c.numLSqTerms)
        (hwi : 0 < c.primaryFns.lsqWeight i) (hwj : 0 < c.primaryFns.lsqWeight j) :
        c.primaryFns.lsqWeight j ≤ c.primaryFns.lsqWeight i := by
      have := (hle hi hj (c.primaryFns.lsqWeight j) (c.primaryFns.lsqWeight i)).mp
        (by rw [mul_comm])
      nlinarith [mul_pos hwi hwj]
    refine (consistent_nls hobj).mpr ?_
    by_cases hex : ∃ i < c.numLSqTerms, 0 < c.primaryFns.lsqWeight i
    · obtain ⟨i, hi, hwi⟩ := hex
      refine ⟨_, hwi, fun j hj => ?_⟩
      rcases (hnonneg hj).eq_or_lt with hwj | hwj
      · exact .inl hwj.symm
      · exact .inr (le_antisymm (hsame hi hj hwi hwj) (hsame hj hi hwj hwi))
    · push Not at hex
      exact ⟨1, one_pos, fun j hj => .inl (le_antisymm (hex j hj) (hnonneg hj))⟩

end

end BestConfig

end Dakota.Analyzer
