import Dakota.Response.Update

/-!
# The transformations of a recast model

`RecastModel::transform_variables`, `transform_set` and `transform_response`
(`src/src/RecastModel.cpp`), with `Response::update_partial` (`src/src/DakotaResponse.cpp`).

* The mappings that a model is initialized with are parameters (`RecastMappings`). Those of a
  response give what they write to a function of the recast response.
* A response (`Reply`) is the data that was requested; other entries have no value. What a response
  had before is of no importance, since each function is written.
* `testBit_projectAsv`: what the sub-model is asked for.
-/

namespace Dakota

namespace Recast

/-- The data of one function. Derivatives are by positions of the derivative variables. -/
structure FnData (K : Type) where
  value : Option K
  gradient : Nat → Option K
  hessian : Nat → Nat → Option K

structure Reply (K : Type) where
  activeSet : ActiveSet
  functions : Nat → FnData K

/-- How a recast model ends without a result. -/
inductive RecastError where
  /-- `inconsistent asv sizing in RecastModel::transform_set().` -/
  | asvSizing
  | response (e : ResponseError)
  /-- An iterator at the end of a map. -/
  | noEntry
deriving DecidableEq

section Partial

variable {K : Type}

/-- The requested data of function `i`. -/
def FnData.requested (set : ActiveSet) (i : Nat) (d : FnData K) : FnData K where
  value := if set.asks i 1 then d.value else none
  gradient j := if set.asks i 2 ∧ j < set.numParams then d.gradient j else none
  hessian j k :=
    if set.asks i 4 ∧ j < set.numParams ∧ k < set.numParams then d.hessian j k else none

/-- The checks of `update_partial` and `update`. -/
def checkPartial (set : ActiveSet) (startTarget numItems : Nat) (source : ActiveSet)
    (startSource : Nat) : Except RecastError Unit :=
  if numItems = 0 then .ok ()
  else if set.numFns < startTarget + numItems ∨ source.numFns < startSource + numItems then
    .error (.response .functions)
  else if (set.flag 2 || set.flag 4) && source.numParams < set.numParams then
    .error (.response .derivVars)
  else .ok ()

end Partial

/-- What a recast model is initialized with. The variables of a model are a type `V`. -/
structure RecastMappings (V K : Type) where
  variablesMapping : Option (V → V → V)
  /-- `sub_model_vars.map_variables_by_view(recast_vars)` -/
  mapVariablesByView : V → V → V
  nonlinearVarsMapping : Bool
  primaryRespMapIndices : List (List Nat)
  secondaryRespMapIndices : List (List Nat)
  nonlinearRespMapping : List (List Bool)
  setMapping : Option (V → ActiveSet → ActiveSet → ActiveSet)
  /-- From the variables of the sub-model and of the recast model, the response of the sub-model and
  the request: what is written to a function. -/
  primaryRespMapping : Option (V → V → Reply K → ActiveSet → Nat → FnData K)
  secondaryRespMapping : Option (V → V → Reply K → ActiveSet → Nat → FnData K)
  /-- `subModel.response_size()` -/
  subResponseSize : Nat

namespace RecastMappings

variable {V K : Type} (m : RecastMappings V K)

/-- `transform_variables`: the variables of the sub-model, which were `sub`. -/
def transformVariables (recast sub : V) : V :=
  match m.variablesMapping with
  | some mapping => mapping recast sub
  | none => m.mapVariablesByView recast sub

def respMapIndices : List (List Nat) := m.primaryRespMapIndices ++ m.secondaryRespMapIndices

/-- `asv_val`: gradients are required to transform a Hessian. -/
def recastBits (asv : Nat) : Nat :=
  if m.nonlinearVarsMapping && asv &&& 4 ≠ 0 then asv ||| 2 else asv

/-- `sub_model_asv_val`: derivatives of a nonlinear mapping require all lower order data. -/
def contributorBits (nonlinear : Bool) (asv : Nat) : Nat :=
  if nonlinear then
    if asv &&& 4 ≠ 0 then asv ||| 3 else if asv &&& 2 ≠ 0 then asv ||| 1 else asv
  else asv

/-- The requests for the contributors of recast function `i`. -/
def contributions (asv : List Nat) (i : Nat) : List (Nat × Nat) :=
  (m.respMapIndices.getD i []).zipIdx.map fun c => (c.1,
    contributorBits ((m.nonlinearRespMapping.getD i []).getD c.2 false)
      (m.recastBits (asv.getD i 0)))

/-- The loop of `transform_set` over the recast functions and their contributors. -/
def projectAsv (asv : List Nat) : List Nat :=
  ((List.range m.respMapIndices.length).flatMap (m.contributions asv)).foldl
    (fun sub c => sub.modify c.1 (· ||| c.2)) (List.replicate m.subResponseSize 0)

/-- `transform_set` -/
def transformSet (recast : V) (set : ActiveSet) : Except RecastError ActiveSet :=
  if set.numFns ≠ m.respMapIndices.length then .error .asvSizing
  else
    let sub : ActiveSet := ⟨m.projectAsv set.requestVector, set.derivVarsVector⟩
    match m.setMapping with
    | some mapping => .ok (mapping recast set sub)
    | none => .ok sub

def mapsResponse : Bool := m.primaryRespMapping.isSome || m.secondaryRespMapping.isSome

/-- The functions that a mapping writes, or else a part of the response of the sub-model. -/
def transformPart (mapping : Option (V → V → Reply K → ActiveSet → Nat → FnData K)) (sub recast : V)
    (reply : Reply K) (set : ActiveSet) (startTarget numItems startSource : Nat) :
    Except RecastError (Nat → FnData K) :=
  match mapping with
  | some mapping => .ok (mapping sub recast reply set)
  | none => do
    checkPartial set startTarget numItems reply.activeSet startSource
    return fun i => reply.functions (i - startTarget + startSource)

/-- `transform_response` to a response with the set `set`. -/
def transformResponse (sub recast : V) (reply : Reply K) (set : ActiveSet) :
    Except RecastError (Reply K) := do
  let numPrimary := m.primaryRespMapIndices.length
  let numSecondary := m.secondaryRespMapIndices.length
  let primary ← transformPart m.primaryRespMapping sub recast reply set 0 numPrimary 0
  let secondary ← transformPart m.secondaryRespMapping sub recast reply set numPrimary numSecondary
    (reply.activeSet.numFns - numSecondary)
  return {
    activeSet := set
    functions := fun i => ((if i < numPrimary then primary else secondary) i).requested set i }

/-- `update` of a response with the set `set`. -/
def update (reply : Reply K) (set : ActiveSet) : Except RecastError (Reply K) := do
  checkPartial set 0 set.numFns reply.activeSet 0
  return { activeSet := set, functions := fun i => (reply.functions i).requested set i }

/-- The recast response, from that of the sub-model. -/
def recastResponse (sub recast : V) (reply : Reply K) (set : ActiveSet) :
    Except RecastError (Reply K) :=
  if m.mapsResponse then m.transformResponse sub recast reply set else update reply set

variable {m} {asv : List Nat} {c b : Nat}

/-- Several requests are added to a request vector. -/
theorem testBit_foldl_modify {requests : List (Nat × Nat)} {sub : List Nat} :
    ((requests.foldl (fun sub r => sub.modify r.1 (· ||| r.2)) sub).getD c 0).testBit b ↔
      (sub.getD c 0).testBit b ∨ c < sub.length ∧ ∃ r ∈ requests, r.1 = c ∧ r.2.testBit b := by
  induction requests generalizing sub with
  | nil => simp
  | cons r requests ih =>
    have hmodify : ((sub.modify r.1 (· ||| r.2)).getD c 0).testBit b ↔
        (sub.getD c 0).testBit b ∨ c < sub.length ∧ r.1 = c ∧ r.2.testBit b := by
      rw [List.getD_eq_getElem?_getD, List.getElem?_modify, List.getD_eq_getElem?_getD]
      by_cases hr : r.1 = c
      · subst hr
        by_cases hc : r.1 < sub.length <;> simp [hc]
      · simp [hr]
    rw [List.foldl_cons, ih, hmodify, List.length_modify, or_assoc, List.exists_mem_cons_iff,
      and_or_left]

/-- The sub-model is asked for what a recast function needs of its contributors, and for nothing
else. -/
theorem testBit_projectAsv :
    ((m.projectAsv asv).getD c 0).testBit b ↔ c < m.subResponseSize ∧
      ∃ i < m.respMapIndices.length, ∃ r ∈ m.contributions asv i, r.1 = c ∧ r.2.testBit b := by
  have hzero : ((List.replicate m.subResponseSize 0).getD c 0).testBit b = false := by
    rw [List.getD_eq_getElem?_getD, List.getElem?_replicate]
    split <;> exact Nat.zero_testBit b
  rw [projectAsv, testBit_foldl_modify, hzero, List.length_replicate]
  simp only [Bool.false_eq_true, false_or, List.mem_flatMap, List.mem_range]
  constructor
  · rintro ⟨hc, r, ⟨i, hi, hr⟩, hbit⟩
    exact ⟨hc, i, hi, r, hr, hbit⟩
  · rintro ⟨hc, i, hi, r, hr, hbit⟩
    exact ⟨hc, r, ⟨i, hi, hr⟩, hbit⟩

end RecastMappings

end Recast

end Dakota
