import Dakota.Analyzer.BestPoints

/-!
# Tracking the best points

What `evaluate_parameter_sets` passes to `update_best`, and what the map of the best points holds
after it.

* `logged_evaluateParameterSets`: the evaluations of the model in their order, each with its own
  variables, id and response, whether they are logged one by one or after `synchronize`.
* `tracksBest_iff`: when the map holds the best of all points, as the minimizers order them.
-/

namespace Dakota.Analyzer

variable {K D I : Type} [Field K] [LinearOrder K]

/-- The variables stored for an evaluation: in compact mode its own; in full mode the parameter set,
with the same active variables. -/
def StoredVars (sets : ParameterSets (AnalyzerVars K D I) K)
    (stored evaluated : AnalyzerVars K D I) : Prop :=
  if sets.isCompact then stored = evaluated
  else stored.continuous = evaluated.continuous ∧ stored.discrete = evaluated.discrete

/-- A point is what is known of an evaluation. -/
structure PointOf (respond : ℤ → AnalyzerVars K D I → ℕ → K)
    (stored : AnalyzerVars K D I → AnalyzerVars K D I → Prop)
    (e : ℤ × AnalyzerVars K D I) (p : Evaluated (AnalyzerVars K D I) K) : Prop where
  evalId : p.evalId = e.1
  fnVals : p.fnVals = respond e.1 e.2
  vars : stored p.vars e.2

section

variable {α : Type} {c : BestConfig K} {respond : ℤ → AnalyzerVars K D I → ℕ → K}
  {update item : AnalyzerVars K D I → α → AnalyzerVars K D I} {items : List α}
  {m : ModelState (AnalyzerVars K D I)} {numCv : ℕ}
  {best : MultiMap (K ×ₗ K) (Evaluated (AnalyzerVars K D I) K)}
  {stored : AnalyzerVars K D I → AnalyzerVars K D I → Prop}

/-- The points of evaluations that are logged one by one. -/
def pointsOf (respond : ℤ → AnalyzerVars K D I → ℕ → K) (evals : List (ℤ × AnalyzerVars K D I)) :
    List (Evaluated (AnalyzerVars K D I) K) :=
  evals.map fun e => ⟨e.2, e.1, respond e.1 e.2⟩

/-- The loop of a synchronous model logs each evaluation. -/
theorem foldl_log : items.foldl (fun s a =>
      let model := s.1.evaluate false fun vars => update vars a
      (model, c.updateBest s.2 ⟨model.vars, model.evalCntr, respond model.evalCntr model.vars⟩))
      (m, best) =
    (modelAfter false update items m,
      (pointsOf respond (evalsFrom update m.vars m.evalCntr items)).foldl c.updateBest best) := by
  induction items generalizing m best with
  | nil => rfl
  | cons a items ih => exact ih

omit [Field K] [LinearOrder K] in
/-- The loop of an asynchronous model logs nothing. -/
theorem foldl_nolog : items.foldl (fun s a => (s.1.evaluate true fun vars => update vars a, s.2))
    (m, best) = (modelAfter true update items m, best) := by
  induction items generalizing m with
  | nil => rfl
  | cons a items ih => exact ih

/-- The points that `log_response_map` makes of an array and the responses to it. -/
def zipPoints (respond : ℤ → AnalyzerVars K D I → ℕ → K) (store : α → AnalyzerVars K D I)
    (items : List α) (evals : List (ℤ × AnalyzerVars K D I)) :
    List (Evaluated (AnalyzerVars K D I) K) :=
  (List.zip items evals).map fun p => ⟨store p.1, p.2.1, respond p.2.1 p.2.2⟩

theorem logResponseMap_eq {store : α → AnalyzerVars K D I}
    {evals : List (ℤ × AnalyzerVars K D I)} :
    logResponseMap c store items (respondAll respond evals) best =
      (zipPoints respond store items evals).foldl c.updateBest best := by
  rw [logResponseMap, zipPoints, respondAll, List.zip_map_right, List.foldl_map, List.foldl_map]
  rfl

/-- Variables that differ in the continuous variables of the model at most. -/
structure SameFrame (numCv : ℕ) (v w : AnalyzerVars K D I) : Prop where
  continuous : ∀ i, numCv ≤ i → v.continuous i = w.continuous i
  discrete : v.discrete = w.discrete
  inactive : v.inactive = w.inactive

omit [Field K] [LinearOrder K] in
theorem SameFrame.updateModel {v w : AnalyzerVars K D I} (h : SameFrame numCv v w) (sample : ℕ → K) :
    SameFrame numCv (updateModelFromSample numCv v sample) w :=
  ⟨fun i hi => (if_neg (by omega)).trans (h.continuous i hi), h.discrete, h.inactive⟩

omit [Field K] [LinearOrder K] in
theorem SameFrame.sampleToVariables {v w : AnalyzerVars K D I} (h : SameFrame numCv v w)
    (sample : ℕ → K) :
    sampleToVariables numCv w sample = updateModelFromSample numCv v sample := by
  unfold Analyzer.sampleToVariables updateModelFromSample
  rw [← h.discrete, ← h.inactive]
  congr 1
  funext i
  by_cases hi : i < numCv
  · rw [if_pos hi, if_pos hi]
  · rw [if_neg hi, if_neg hi, h.continuous i (by omega)]

omit [Field K] [LinearOrder K] in
theorem sameFrame_modelAfter {samples : List (ℕ → K)} {v : AnalyzerVars K D I}
    (h : SameFrame numCv m.vars v) (asynch : Bool) :
    SameFrame numCv (modelAfter asynch (updateModelFromSample numCv) samples m).vars v := by
  induction samples generalizing m with
  | nil => exact h
  | cons sample samples ih => exact ih (h.updateModel sample)

omit [Field K] [LinearOrder K] in
theorem zipPoints_compact {samples : List (ℕ → K)} {v w : AnalyzerVars K D I} {cntr : ℤ}
    (h : SameFrame numCv v w) :
    List.Forall₂ (PointOf respond Eq)
      (evalsFrom (updateModelFromSample numCv) v cntr samples)
      (zipPoints respond (sampleToVariables numCv w) samples
        (evalsFrom (updateModelFromSample numCv) v cntr samples)) := by
  induction samples generalizing v cntr with
  | nil => exact List.Forall₂.nil
  | cons sample samples ih =>
    exact List.Forall₂.cons ⟨rfl, rfl, h.sampleToVariables sample⟩ (ih (h.updateModel sample))

omit [Field K] [LinearOrder K] in
theorem zipPoints_full {vars : List (AnalyzerVars K D I)} {v : AnalyzerVars K D I} {cntr : ℤ} :
    List.Forall₂ (PointOf respond fun stored evaluated =>
        stored.continuous = evaluated.continuous ∧ stored.discrete = evaluated.discrete)
      (evalsFrom updateModelFromVariables v cntr vars)
      (zipPoints respond id vars (evalsFrom updateModelFromVariables v cntr vars)) := by
  induction vars generalizing v cntr with
  | nil => exact List.Forall₂.nil
  | cons _ vars ih => exact List.Forall₂.cons ⟨rfl, rfl, rfl, rfl⟩ ih

omit [Field K] [LinearOrder K] in
theorem pointsOf_forall₂ {evals : List (ℤ × AnalyzerVars K D I)} (hrefl : ∀ v, stored v v) :
    List.Forall₂ (PointOf respond stored) evals (pointsOf respond evals) := by
  induction evals with
  | nil => exact List.Forall₂.nil
  | cons e evals ih => exact List.Forall₂.cons ⟨rfl, rfl, hrefl e.2⟩ ih

variable (item) in
theorem evaluateSets_synch {s : ModelState (AnalyzerVars K D I) ×
      MultiMap (K ×ₗ K) (Evaluated (AnalyzerVars K D I) K)} :
    evaluateSets c respond false update item items s = (modelAfter false update items s.1,
      (pointsOf respond (evalsFrom update s.1.vars s.1.evalCntr items)).foldl c.updateBest s.2) :=
  foldl_log

theorem evaluateSets_asynch {s : ModelState (AnalyzerVars K D I) ×
      MultiMap (K ×ₗ K) (Evaluated (AnalyzerVars K D I) K)} (hpending : s.1.pending = []) :
    evaluateSets c respond true update item items s =
      ({ modelAfter true update items s.1 with pending := [] },
        (zipPoints respond (item (modelAfter true update items s.1).vars) items
          (evalsFrom update s.1.vars s.1.evalCntr items)).foldl c.updateBest s.2) := by
  have hmodel : (modelAfter true update items s.1).pending =
      evalsFrom update s.1.vars s.1.evalCntr items := by
    rw [pending_modelAfter, if_pos rfl, hpending, List.nil_append]
  have hsynch := synchronize_eq respond (modelAfter true update items s.1)
    (by rw [hmodel]; exact pairwise_evalsFrom)
  unfold evaluateSets
  simp only [if_true]
  rw [foldl_nolog, hsynch, hmodel, logResponseMap_eq]

/-- Each evaluation is logged with its own variables, id and response. -/
theorem logged_evaluateParameterSets (c : BestConfig K) (numCv : ℕ)
    (respond : ℤ → AnalyzerVars K D I → ℕ → K) (asynch : Bool)
    (sets : ParameterSets (AnalyzerVars K D I) K)
    (s : ModelState (AnalyzerVars K D I) × MultiMap (K ×ₗ K) (Evaluated (AnalyzerVars K D I) K))
    (hpending : s.1.pending = []) :
    ∃ points, (evaluateParameterSets c numCv respond asynch sets s).2 =
        points.foldl c.updateBest s.2 ∧
      List.Forall₂ (PointOf respond (StoredVars sets))
        ((evaluateParameterSets c numCv respond asynch sets s).1.issued.drop s.1.issued.length)
        points := by
  cases sets with
  | compact numRows allSamples =>
    cases asynch with
    | false =>
      refine ⟨_, congrArg Prod.snd (evaluateSets_synch (sampleToVariables numCv)), ?_⟩
      simp only [evaluateParameterSets, evaluateSets_synch, issued_modelAfter, List.drop_left]
      exact pointsOf_forall₂ fun _ => rfl
    | true =>
      refine ⟨_, congrArg Prod.snd (evaluateSets_asynch hpending), ?_⟩
      simp only [evaluateParameterSets, evaluateSets_asynch hpending, issued_modelAfter,
        List.drop_left]
      have hframe : SameFrame numCv s.1.vars
          (modelAfter true (updateModelFromSample numCv) allSamples s.1).vars := by
        have h : SameFrame numCv
            (modelAfter true (updateModelFromSample numCv) allSamples s.1).vars s.1.vars :=
          sameFrame_modelAfter ⟨fun _ _ => rfl, rfl, rfl⟩ true
        exact ⟨fun i hi => (h.continuous i hi).symm, h.discrete.symm, h.inactive.symm⟩
      exact zipPoints_compact hframe
  | full allVariables =>
    cases asynch with
    | false =>
      refine ⟨_, congrArg Prod.snd (evaluateSets_synch fun _ vars => vars), ?_⟩
      simp only [evaluateParameterSets, evaluateSets_synch, issued_modelAfter, List.drop_left]
      exact pointsOf_forall₂ fun _ => ⟨rfl, rfl⟩
    | true =>
      refine ⟨_, congrArg Prod.snd (evaluateSets_asynch hpending), ?_⟩
      simp only [evaluateParameterSets, evaluateSets_asynch hpending, issued_modelAfter,
        List.drop_left]
      exact zipPoints_full

end

/-! ## When the best points are tracked -/

/-- The map of the best points is what it says, for each sequence of points and each run of
`evaluate_parameter_sets`. -/
structure TracksBest (c : BestConfig K) : Prop where
  best : ∀ (V : Type) (points : List (Evaluated V K)),
    MultiMap.Smallest c.numFinalSolutions (fun p => c.trueMetrics p.fnVals) points
      ((c.updateAll points).map (·.2))
  feasible : ∀ fnVals, c.violation c.primaryFns.numFns fnVals = 0 ↔
    c.Feasible c.primaryFns.numFns fnVals
  logged : ∀ (D I : Type) (numCv : ℕ) (respond : ℤ → AnalyzerVars K D I → ℕ → K) (asynch : Bool)
    (sets : ParameterSets (AnalyzerVars K D I) K)
    (s : ModelState (AnalyzerVars K D I) × MultiMap (K ×ₗ K) (Evaluated (AnalyzerVars K D I) K)),
    s.1.pending = [] →
    ∃ points, (evaluateParameterSets c numCv respond asynch sets s).2 =
        points.foldl c.updateBest s.2 ∧
      List.Forall₂ (PointOf respond (StoredVars sets))
        ((evaluateParameterSets c numCv respond asynch sets s).1.issued.drop s.1.issued.length)
        points

/-- The best points are tracked if and only if both objectives order points alike. -/
theorem tracksBest_iff [IsStrictOrderedRing K] (c : BestConfig K) (hnum : 0 < c.numFinalSolutions)
    (hprimary : 0 < c.numObjFns ∨ 0 < c.numLSqTerms) : TracksBest c ↔ c.ConsistentMetric := by
  refine ⟨fun h => BestConfig.consistent_of_tracks hnum hprimary (h.best Unit), fun h => ?_⟩
  refine ⟨fun V points => ?_, fun fnVals => BestConfig.violation_eq_zero_iff,
    fun D I => logged_evaluateParameterSets c⟩
  exact (BestConfig.smallest_updateAll hnum points).congr fun p q =>
    BestConfig.metrics_le_iff hprimary h

/-- One objective function, the best two points, and an inequality constraint. -/
def oneObjective (maxSense : List Bool) : BestConfig ℚ where
  numObjFns := 1
  numLSqTerms := 0
  primaryWts := []
  maxSense := maxSense
  numNlnIneq := 1
  numNlnEq := 0
  nlnIneqLwrBnds _ := 0
  nlnIneqUprBnds _ := 1
  nlnEqTargets _ := 0
  numFinalSolutions := 2

theorem tracksBest_minimize : TracksBest (oneObjective [false]) :=
  (tracksBest_iff (oneObjective [false]) (by decide) (by decide)).mpr
    ((BestConfig.consistent_moo (by decide)).mpr (by decide +kernel))

/-- One objective function to be maximized: of the values `0` and `1` the best is `0`. -/
theorem not_tracksBest_maximize : ¬ TracksBest (oneObjective [true]) := by
  intro h
  have hbest := h.best Unit [BestConfig.point 0 0, BestConfig.point 0 1]
  obtain ⟨best, hhead⟩ := BestConfig.head_updateAll (c := oneObjective [true]) (by decide)
    (BestConfig.point 0 0) (BestConfig.point 0 1)
  rw [hhead, if_neg (by decide +kernel)] at hbest
  exact absurd hbest.key_le (by decide +kernel)

end Dakota.Analyzer
