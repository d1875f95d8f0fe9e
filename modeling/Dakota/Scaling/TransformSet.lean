import Dakota.Response.Update

/-!
# Requests of a recast model

`RecastModel::transform_set` (`src/src/RecastModel.cpp`): the request that a recast model makes to
its sub-model. Nonlinear mappings need lower order data for derivatives.

* `subModelRequest`: the request for one contribution.
* `asks_transformSet`: with one contributor for each function, the request of that function.
-/

namespace Dakota

/-- What `transform_set` reads of a `RecastModel`. -/
structure RecastMaps where
  nonlinearVarsMapping : Bool
  /-- `primaryRespMapIndices` followed by `secondaryRespMapIndices` -/
  respMapIndices : List (List Nat)
  nonlinearRespMapping : List (List Bool)
  /-- `subModel.response_size()` -/
  responseSize : Nat

inductive TransformSetError where
  /-- `inconsistent asv sizing in RecastModel::transform_set().` -/
  | asvSizing
deriving DecidableEq, Repr

/-- `sub_model_asv_val` -/
def subModelRequest (nonlinearVars nonlinearResp : Bool) (asvVal : Nat) : Nat :=
  let asvVal := if nonlinearVars && asvVal &&& 4 ≠ 0 then asvVal ||| 2 else asvVal
  if nonlinearResp then
    if asvVal &&& 4 ≠ 0 then asvVal ||| 3
    else if asvVal &&& 2 ≠ 0 then asvVal ||| 1
    else asvVal
  else asvVal

namespace RecastMaps

variable (maps : RecastMaps)

/-- The contributions of function `i` to the request vector of the sub-model. -/
def contribute (recastAsv : List Nat) (subModelAsv : List Nat) (i : Nat) : List Nat :=
  let contributors := maps.respMapIndices.getD i []
  (List.range contributors.length).foldl (fun asv j =>
    asv.modify (contributors.getD j 0) (· ||| subModelRequest maps.nonlinearVarsMapping
      ((maps.nonlinearRespMapping.getD i []).getD j false) (recastAsv.getD i 0))) subModelAsv

/-- `transform_set`, without a `setMapping`. -/
def transformSet (recastSet : ActiveSet) : Except TransformSetError ActiveSet :=
  if recastSet.numFns ≠ maps.respMapIndices.length then .error .asvSizing
  else .ok {
    requestVector := (List.range maps.respMapIndices.length).foldl
      (maps.contribute recastSet.requestVector) (List.replicate maps.responseSize 0)
    derivVarsVector := recastSet.derivVarsVector }

end RecastMaps

/-- Maps from each function of the sub-model to the same function of the recast model. -/
def RecastMaps.oneToOne (nonlinearVars : Bool) (nonlinearResp : List Bool) : RecastMaps where
  nonlinearVarsMapping := nonlinearVars
  respMapIndices := (List.range nonlinearResp.length).map fun i => [i]
  nonlinearRespMapping := nonlinearResp.map fun nonlinear => [nonlinear]
  responseSize := nonlinearResp.length

variable {nonlinearVars : Bool} {nonlinearResp : List Bool} {recastSet set : ActiveSet} {i : Nat}

theorem RecastMaps.contribute_oneToOne {recastAsv asv : List Nat} (hi : i < nonlinearResp.length) :
    (oneToOne nonlinearVars nonlinearResp).contribute recastAsv asv i =
      asv.modify i (· ||| subModelRequest nonlinearVars (nonlinearResp.getD i false)
        (recastAsv.getD i 0)) := by
  have hindices : (oneToOne nonlinearVars nonlinearResp).respMapIndices.getD i [] = [i] := by
    simp [oneToOne, List.getD, hi]
  have hmapping : ((oneToOne nonlinearVars nonlinearResp).nonlinearRespMapping.getD i []).getD 0
      false = nonlinearResp.getD i false := by
    simp [oneToOne, List.getD, hi]
  unfold contribute
  rw [hindices]
  simp only [List.length_singleton, List.range_one, List.foldl_cons, List.foldl_nil, hmapping]
  rfl

/-- The requests after the first `n` functions. -/
theorem RecastMaps.foldl_contribute {recastAsv : List Nat} {n : Nat} (hn : n ≤ nonlinearResp.length) :
    ((List.range n).foldl ((oneToOne nonlinearVars nonlinearResp).contribute recastAsv)
        (List.replicate nonlinearResp.length 0))[i]? =
      if i < n then some (subModelRequest nonlinearVars (nonlinearResp.getD i false)
        (recastAsv.getD i 0))
      else if i < nonlinearResp.length then some 0 else none := by
  induction n with
  | zero => simp [List.getElem?_replicate]
  | succ n ih =>
    rw [List.range_succ, List.foldl_append, List.foldl_cons, List.foldl_nil,
      contribute_oneToOne hn, List.getElem?_modify, ih (Nat.le_of_succ_le hn)]
    by_cases hin : i = n
    · subst hin
      simp [Nat.lt_of_succ_le hn]
    · have hlt : (i < n + 1) = (i < n) := by
        rw [eq_iff_iff]
        omega
      have hni : n ≠ i := Ne.symm hin
      simp only [hlt, if_neg hni]
      exact id_map _

/-- The request for one function. -/
theorem RecastMaps.getD_transformSet
    (h : (oneToOne nonlinearVars nonlinearResp).transformSet recastSet = .ok set)
    (hi : i < nonlinearResp.length) :
    set.requestVector.getD i 0 = subModelRequest nonlinearVars (nonlinearResp.getD i false)
      (recastSet.requestVector.getD i 0) := by
  unfold transformSet at h
  split_ifs at h
  cases h
  have hlen : (oneToOne nonlinearVars nonlinearResp).respMapIndices.length =
      nonlinearResp.length := by simp [oneToOne]
  simp only [hlen, List.getD]
  rw [show (oneToOne nonlinearVars nonlinearResp).responseSize = nonlinearResp.length from rfl,
    foldl_contribute le_rfl, if_pos hi]
  rfl

/-! ## What is requested along -/

theorem or_and_ne_zero {a b c : Nat} : (a ||| b) &&& c ≠ 0 ↔ a &&& c ≠ 0 ∨ b &&& c ≠ 0 := by
  rw [Nat.and_or_distrib_right, ne_eq, Nat.or_eq_zero_iff]
  tauto

/-- The Hessian under a nonlinear mapping of the variables needs the gradient. -/
theorem subModelRequest_vars {nonlinear : Bool} {asvVal : Nat}
    (h : subModelRequest true nonlinear asvVal &&& 4 ≠ 0) :
    subModelRequest true nonlinear asvVal &&& 2 ≠ 0 := by
  unfold subModelRequest at h ⊢
  simp only [Bool.true_and, decide_eq_true_eq] at h ⊢
  split_ifs at h ⊢ <;> simp_all [or_and_ne_zero]

/-- Derivatives under a nonlinear mapping of the response need the lower order data. -/
theorem subModelRequest_resp {nonlinear : Bool} {asvVal : Nat} :
    (subModelRequest nonlinear true asvVal &&& 4 ≠ 0 →
        subModelRequest nonlinear true asvVal &&& 2 ≠ 0) ∧
      (subModelRequest nonlinear true asvVal &&& 2 ≠ 0 →
        subModelRequest nonlinear true asvVal &&& 1 ≠ 0) := by
  unfold subModelRequest
  simp only [if_true]
  constructor
  · intro h
    split_ifs at h ⊢ <;> simp_all [or_and_ne_zero]
  · intro h
    split_ifs at h ⊢ <;> simp_all [or_and_ne_zero]

namespace RecastMaps

variable (h : (oneToOne nonlinearVars nonlinearResp).transformSet recastSet = .ok set)
include h

theorem numFns_transformSet : set.numFns = nonlinearResp.length := by
  have hlen : (oneToOne nonlinearVars nonlinearResp).respMapIndices.length =
      nonlinearResp.length := by simp [oneToOne]
  unfold transformSet at h
  split_ifs at h
  cases h
  have hnone : ∀ i, nonlinearResp.length ≤ i →
      ((List.range nonlinearResp.length).foldl ((oneToOne nonlinearVars nonlinearResp).contribute
        recastSet.requestVector) (List.replicate nonlinearResp.length 0))[i]? = none := by
    intro i hi
    rw [foldl_contribute le_rfl, if_neg (by omega), if_neg (by omega)]
  have hsome : ∀ i < nonlinearResp.length,
      ((List.range nonlinearResp.length).foldl ((oneToOne nonlinearVars nonlinearResp).contribute
        recastSet.requestVector) (List.replicate nonlinearResp.length 0))[i]? ≠ none := by
    intro i hi
    rw [foldl_contribute le_rfl, if_pos hi]
    simp
  rw [ActiveSet.numFns, hlen]
  apply Nat.le_antisymm
  · exact List.getElem?_eq_none_iff.mp (hnone _ le_rfl)
  · by_contra hlt
    exact hsome _ (not_le.mp hlt) (List.getElem?_eq_none le_rfl)

theorem lt_of_asks_transformSet {bits : Nat} (hask : set.asks i bits) : i < nonlinearResp.length :=
  (ActiveSet.lt_of_asks hask).trans_eq (numFns_transformSet h)

theorem asks_gradient_of_vars (hvars : nonlinearVars = true) (hask : set.asks i 4) :
    set.asks i 2 := by
  have hi := lt_of_asks_transformSet h hask
  subst hvars
  simp only [ActiveSet.asks, decide_eq_true_eq, getD_transformSet h hi] at hask ⊢
  exact subModelRequest_vars hask

theorem asks_lower_of_resp (hresp : nonlinearResp.getD i false = true) :
    (set.asks i 4 → set.asks i 2) ∧ (set.asks i 2 → set.asks i 1) := by
  constructor
  · intro hask
    have hi := lt_of_asks_transformSet h hask
    simp only [ActiveSet.asks, decide_eq_true_eq, getD_transformSet h hi, hresp] at hask ⊢
    exact subModelRequest_resp.1 hask
  · intro hask
    have hi := lt_of_asks_transformSet h hask
    simp only [ActiveSet.asks, decide_eq_true_eq, getD_transformSet h hi, hresp] at hask ⊢
    exact subModelRequest_resp.2 hask

end RecastMaps

end Dakota
