import Dakota.Objective.Derivatives
import Dakota.Scaling.TransformSet

/-!
# Reduction to a single objective

The recast of `Optimizer::reduce_model` (`src/src/DakotaOptimizer.cpp`): the request that
`RecastModel::transform_set` makes of the sub-model, and `transform_response` with
`objective_reduction` for the primary functions.

* `objectiveReduction`: the number of primary functions is what remains of the functions of the
  response without `numConstraints`, and linear constraints count in this number.
-/

namespace Dakota

/-! ## Partial updates -/

namespace Response

variable {K : Type} [Zero K]

/-- The copies of `update_partial`. -/
def copyPartial (target source : Response K) (startTarget numItems startSource : ℕ) : Response K :=
  let set := target.activeSet
  let inItems i := startTarget ≤ i ∧ i < startTarget + numItems
  let sourceIndex i := startSource + (i - startTarget)
  { target with
    functionValues := fun i =>
      if inItems i ∧ set.asks i 1 then source.functionValues (sourceIndex i)
      else target.functionValues i
    functionGradients := fun j i =>
      if inItems i ∧ set.asks i 2 ∧ j < set.numParams then
        source.functionGradients j (sourceIndex i)
      else target.functionGradients j i
    functionHessians := fun i j k =>
      if inItems i ∧ set.asks i 4 ∧ j < set.numParams ∧ k ≤ j then
        source.functionHessians (sourceIndex i) j k
      else target.functionHessians i j k }

/-- `update_partial` -/
def updatePartial (target source : Response K) (startTarget numItems startSource : ℕ) :
    Except ResponseError (Response K) :=
  let set := target.activeSet
  if numItems = 0 then .ok target
  else if set.numFns < startTarget + numItems ∨
      source.activeSet.numFns < startSource + numItems then .error .functions
  else if (set.flag 2 || set.flag 4) && source.activeSet.numParams < set.numParams then
    .error .derivVars
  else if set.flag 2 && source.numGradients < startSource + numItems then .error .gradients
  else if set.flag 4 && source.numHessians < startSource + numItems then .error .hessians
  else
    let copied := target.copyPartial source startTarget numItems startSource
    .ok (if set ≠ source.activeSet then copied.resetInactive else copied)

/-- The requested data of a partial update. -/
structure PartlyUpdated (target source : Response K) (startTarget numItems startSource : ℕ)
    (r : Response K) : Prop where
  value : ∀ i, target.activeSet.asks i 1 → r.functionValues i =
    if startTarget ≤ i ∧ i < startTarget + numItems then
      source.functionValues (startSource + (i - startTarget)) else target.functionValues i
  gradient : ∀ i j, target.activeSet.asks i 2 → j < target.activeSet.numParams →
    r.functionGradients j i = if startTarget ≤ i ∧ i < startTarget + numItems then
      source.functionGradients j (startSource + (i - startTarget)) else target.functionGradients j i
  hessian : ∀ i j k, target.activeSet.asks i 4 → j < target.activeSet.numParams → k ≤ j →
    r.functionHessians i j k = if startTarget ≤ i ∧ i < startTarget + numItems then
      source.functionHessians (startSource + (i - startTarget)) j k
    else target.functionHessians i j k

section

variable {target source r : Response K} {startTarget numItems startSource : ℕ}

omit [Zero K] in
theorem partlyUpdated_copyPartial : PartlyUpdated target source startTarget numItems startSource
    (target.copyPartial source startTarget numItems startSource) where
  value _ hi := by simp only [copyPartial, hi, and_true]
  gradient _ _ hi hj := by simp only [copyPartial, hi, hj, and_true]
  hessian _ _ _ hi hj hk := by simp only [copyPartial, hi, hj, hk, and_true]

/-- Requested data are not reset. -/
theorem PartlyUpdated.resetInactive (hset : r.activeSet = target.activeSet)
    (h : PartlyUpdated target source startTarget numItems startSource r) :
    PartlyUpdated target source startTarget numItems startSource r.resetInactive where
  value i hi := by
    rw [← h.value i hi]
    exact if_neg fun hinactive => by simp [hset, hi] at hinactive
  gradient i j hi hj := by
    rw [← h.gradient i j hi hj]
    exact if_neg fun hinactive => by simp [hset, hi] at hinactive
  hessian i j k hi hj hk := by
    rw [← h.hessian i j k hi hj hk]
    exact if_neg fun hinactive => by simp [hset, hi] at hinactive

theorem updatePartial_eq
    (h : numItems ≠ 0 → startTarget + numItems ≤ target.activeSet.numFns ∧
      startSource + numItems ≤ source.activeSet.numFns ∧
      target.activeSet.numParams ≤ source.activeSet.numParams ∧
      (target.activeSet.flag 2 → startSource + numItems ≤ source.numGradients) ∧
      (target.activeSet.flag 4 → startSource + numItems ≤ source.numHessians)) :
    ∃ r, target.updatePartial source startTarget numItems startSource = .ok r ∧
      PartlyUpdated target source startTarget numItems startSource r := by
  rcases Nat.eq_zero_or_pos numItems with rfl | hpos
  · refine ⟨target, rfl, ?_, ?_, ?_⟩ <;> intros <;> rw [if_neg (by omega)]
  · obtain ⟨h₁, h₂, h₃, h₄, h₅⟩ := h hpos.ne'
    rw [updatePartial, if_neg hpos.ne', if_neg (by omega), if_neg (by simp [h₃.not_gt]),
      if_neg (by simpa using h₄), if_neg (by simpa using h₅)]
    refine ⟨_, rfl, ?_⟩
    split
    · exact partlyUpdated_copyPartial.resetInactive rfl
    · exact partlyUpdated_copyPartial

end

end Response

/-! ## The recast -/

/-- An optimizer that reduces its model: the primary functions of the sub-model, the constraints,
whether the method requires Hessians, and whether the sub-model has them. -/
structure ObjectiveRecast (K : Type) where
  primary : PrimaryFns K
  numNonlinearConstraints : ℕ
  numLinearConstraints : ℕ
  requireHessians : Bool
  subModelHessians : Bool
  numContinuousVars : ℕ
  numFns_pos : 0 < primary.numFns
  /-- `gradient-based` methods need active continuous variables. -/
  numContinuousVars_pos : 0 < numContinuousVars
  weights_length : primary.weights = [] ∨ primary.weights.length = primary.numFns
  maxSense_length : primary.maxSense = [] ∨ primary.maxSense.length = primary.numFns
  /-- `full Newton optimization of least-squares problem with nonlinear constraints requires
  constraint Hessians.` -/
  constraint_hessians : primary.optimizationFlag = false → requireHessians →
    numNonlinearConstraints ≠ 0 → subModelHessians

inductive ReductionError where
  | transformSet (e : TransformSetError)
  | update (e : ResponseError)
  /-- `Hessian reduction for NLS requires a minimum of least squares gradients` -/
  | leastSquaresGradients
  /-- More constraints than functions: the number of primary functions wraps around. -/
  | numFns
deriving DecidableEq

/-- `gnewton_set_recast` on the request for one function. -/
def gnewtonRequest (asvVal : ℕ) : ℕ := if asvVal &&& 4 ≠ 0 then (asvVal ||| 2) &&& 3 else asvVal

namespace ObjectiveRecast

variable {K : Type} [Field K] (o : ObjectiveRecast K)

/-- `local_nls_recast` -/
def localNls : Bool := !o.primary.optimizationFlag

/-- `set_recast` is `gnewton_set_recast`. -/
def gaussNewton : Bool := o.localNls && o.requireHessians && !o.subModelHessians

def numConstraints : ℕ := o.numNonlinearConstraints + o.numLinearConstraints

/-- The functions of the sub-model. -/
def responseSize : ℕ := o.primary.numFns + o.numNonlinearConstraints

/-- The response maps of `reduce_model`. -/
def maps : RecastMaps where
  nonlinearVarsMapping := false
  respMapIndices := List.range o.primary.numFns ::
    (List.range o.numNonlinearConstraints).map fun i => [o.primary.numFns + i]
  nonlinearRespMapping := List.replicate o.primary.numFns o.localNls ::
    List.replicate o.numNonlinearConstraints [false]
  responseSize := o.responseSize

/-- `transform_set` with the set mapping. -/
def subModelSet (recastSet : ActiveSet) : Except ReductionError ActiveSet :=
  match o.maps.transformSet recastSet with
  | .error e => .error (.transformSet e)
  | .ok set =>
    .ok (if o.gaussNewton then
      { set with requestVector := set.requestVector.map gnewtonRequest } else set)

/-- The composite objective of the first `numFns` primary functions. -/
def reducedFns (numFns : ℕ) : PrimaryFns K := { o.primary with numFns := numFns }

/-- The data of `objective_hessian`. -/
def hessianData (full : Response K) : PrimaryFns.HessianData K where
  fnVals := full.functionValues
  fnGrads i j := full.functionGradients j i
  fnHessians := full.functionHessians
  valsEmpty := full.activeSet.numFns = 0
  gradsEmpty := full.numGradients = 0
  hessiansEmpty := full.numHessians = 0

/-- `objective_reduction` -/
def objectiveReduction (full reduced : Response K) : Except ReductionError (Response K) :=
  let set := reduced.activeSet
  if !(set.asks 0 1 || set.asks 0 2 || set.asks 0 4) then .ok reduced
  else if full.activeSet.numFns < o.numConstraints then .error .numFns
  else
    let p := o.reducedFns (full.activeSet.numFns - o.numConstraints)
    let n := o.numContinuousVars
    let gradient := p.objectiveGradient full.functionValues fun i j => full.functionGradients j i
    let hessian := p.objectiveHessian (hessianData full)
    if set.asks 0 4 && hessian.isNone then .error .leastSquaresGradients
    else .ok { reduced with
      functionValues := fun i =>
        if i = 0 ∧ set.asks 0 1 then p.objective full.functionValues else reduced.functionValues i
      functionGradients := fun j i =>
        if i = 0 ∧ set.asks 0 2 ∧ j < n then gradient j else reduced.functionGradients j i
      functionHessians := fun i j k =>
        if i = 0 ∧ set.asks 0 4 ∧ j < n ∧ k ≤ j then (hessian.getD fun _ _ => 0) j k
        else reduced.functionHessians i j k }

/-- `transform_response`, with `primary_resp_reducer` and no mapping of secondary functions. -/
def transformResponse (full recast : Response K) : Except ReductionError (Response K) :=
  match o.objectiveReduction full recast with
  | .error e => .error e
  | .ok reduced =>
    match { reduced with metaData := full.metaData }.updatePartial full 1
        o.numNonlinearConstraints (full.activeSet.numFns - o.numNonlinearConstraints) with
    | .error e => .error (.update e)
    | .ok r => .ok r

end ObjectiveRecast

end Dakota
