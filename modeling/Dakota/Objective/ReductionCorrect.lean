import Dakota.Objective.Reduction

/-!
# Correctness of the reduction

* `Reduces`: for every request, the reduced response has the value and the derivatives of the
  composite objective, from data that was requested, and the data of the constraints.
* `reduces_iff`: so it does if and only if there are no linear constraints, or the functions that
  are lost to them have the weight zero.
-/

namespace Dakota.ObjectiveRecast

open Differential

/-! ## Requests -/

section

variable {K : Type} [Field K] {o : ObjectiveRecast K} {set : ActiveSet}

/-- The same change at the first positions. -/
theorem foldl_modify_range {α : Type} (f : α → α) (n : ℕ) (l : List α) (k : ℕ) :
    ((List.range n).foldl (fun l j => l.modify j f) l)[k]? =
      if k < n then l[k]?.map f else l[k]? := by
  induction n with
  | zero => simp
  | succ n ih =>
    rw [List.range_succ, List.foldl_append, List.foldl_cons, List.foldl_nil, List.getElem?_modify,
      ih]
    rcases lt_trichotomy k n with hk | rfl | hk
    · simp [hk, Nat.lt_succ_of_lt hk, hk.ne']
    · simp
    · simp [hk.not_gt, hk.ne, show ¬ k < n + 1 by omega]

omit [Field K] in
/-- The contributions of the objective. -/
theorem contribute_zero {recastAsv asv : List ℕ} {k : ℕ} :
    (o.maps.contribute recastAsv asv 0)[k]? =
      if k < o.primary.numFns then
        asv[k]?.map (· ||| subModelRequest false o.localNls (recastAsv.getD 0 0))
      else asv[k]? := by
  rw [← foldl_modify_range]
  refine congrArg (fun l : List ℕ => l[k]?) ?_
  unfold RecastMaps.contribute
  simp only [maps, List.getD_cons_zero, List.length_range]
  refine List.foldl_ext _ _ _ fun l j hj => ?_
  have hlt := List.mem_range.mp hj
  simp [List.getD, hlt]

omit [Field K] in
/-- The contribution of a constraint. -/
theorem contribute_succ {recastAsv asv : List ℕ} {m : ℕ} (hm : m < o.numNonlinearConstraints) :
    o.maps.contribute recastAsv asv (m + 1) =
      asv.modify (o.primary.numFns + m) (· ||| recastAsv.getD (m + 1) 0) := by
  have hindices : o.maps.respMapIndices.getD (m + 1) [] = [o.primary.numFns + m] := by
    simp [maps, List.getD, hm]
  have hmapping : (o.maps.nonlinearRespMapping.getD (m + 1) []).getD 0 false = false := by
    simp [maps, List.getD, hm]
  unfold RecastMaps.contribute
  rw [hindices]
  simp only [List.length_singleton, List.range_one, List.foldl_cons, List.foldl_nil, hmapping]
  rfl

omit [Field K] in
/-- The requests after the objective and the first `m` constraints. -/
theorem foldl_contribute {recastAsv : List ℕ} {m k : ℕ} (hm : m ≤ o.numNonlinearConstraints) :
    ((List.range (m + 1)).foldl (o.maps.contribute recastAsv)
        (List.replicate o.responseSize 0))[k]? =
      if k < o.primary.numFns then
        some (subModelRequest false o.localNls (recastAsv.getD 0 0))
      else if k < o.primary.numFns + m then
        some (recastAsv.getD (k - o.primary.numFns + 1) 0)
      else if k < o.responseSize then some 0 else none := by
  have hsize : o.responseSize = o.primary.numFns + o.numNonlinearConstraints := rfl
  induction m with
  | zero =>
    rw [Nat.zero_add, List.range_one, List.foldl_cons, List.foldl_nil, contribute_zero,
      List.getElem?_replicate]
    by_cases hk : k < o.primary.numFns
    · simp [hk, show k < o.responseSize by omega]
    · simp [hk]
  | succ m ih =>
    rw [List.range_succ, List.foldl_append, List.foldl_cons, List.foldl_nil,
      contribute_succ (Nat.lt_of_succ_le hm), List.getElem?_modify, ih (Nat.le_of_succ_le hm)]
    by_cases hk : k = o.primary.numFns + m
    · subst hk
      simp [show o.primary.numFns + m < o.responseSize by omega]
    · have hlt : (k < o.primary.numFns + (m + 1)) = (k < o.primary.numFns + m) := by
        rw [eq_iff_iff]
        omega
      simp only [hlt, if_neg (Ne.symm hk)]
      exact id_map _

/-- The request for function `k` of the sub-model. -/
def requestOf (o : ObjectiveRecast K) (recastAsv : List ℕ) (k : ℕ) : ℕ :=
  let request := if k < o.primary.numFns then
      subModelRequest false o.localNls (recastAsv.getD 0 0)
    else recastAsv.getD (k - o.primary.numFns + 1) 0
  if o.gaussNewton then gnewtonRequest request else request

/-- The set of the sub-model. -/
def smSet (o : ObjectiveRecast K) (set : ActiveSet) : ActiveSet where
  requestVector := (List.range o.responseSize).map (o.requestOf set.requestVector)
  derivVarsVector := set.derivVarsVector

omit [Field K] in
theorem subModelSet_eq (h : set.numFns = o.numNonlinearConstraints + 1) :
    o.subModelSet set = .ok (o.smSet set) := by
  have hlen : o.maps.respMapIndices.length = o.numNonlinearConstraints + 1 := by simp [maps]
  have hasv : (List.range o.maps.respMapIndices.length).foldl
      (o.maps.contribute set.requestVector) (List.replicate o.maps.responseSize 0) =
        (List.range o.responseSize).map fun k =>
          if k < o.primary.numFns then
            subModelRequest false o.localNls (set.requestVector.getD 0 0)
          else set.requestVector.getD (k - o.primary.numFns + 1) 0 := by
    refine List.ext_getElem? fun k => ?_
    rw [hlen, show o.maps.responseSize = o.responseSize from rfl, foldl_contribute le_rfl,
      List.getElem?_map]
    have hsize : o.responseSize = o.primary.numFns + o.numNonlinearConstraints := rfl
    rcases Nat.lt_or_ge k o.responseSize with hk | hk
    · rw [List.getElem?_range hk, ← hsize, Option.map_some]
      simp only [hk, if_true]
      split_ifs <;> rfl
    · rw [List.getElem?_eq_none (by simpa using hk)]
      simp [show ¬ k < o.primary.numFns by omega, ← hsize, hk.not_gt]
  have hset : o.maps.transformSet set = .ok ⟨_, set.derivVarsVector⟩ :=
    if_neg (not_not_intro (h.trans hlen.symm))
  rw [subModelSet, hset]
  simp only [hasv, smSet]
  cases hgn : o.gaussNewton with
  | true =>
    rw [if_pos rfl, List.map_map]
    congr 2
    refine List.map_congr_left fun k _ => ?_
    simp only [requestOf, hgn, if_true, Function.comp_apply]
  | false =>
    rw [if_neg Bool.false_ne_true]
    congr 2
    refine List.map_congr_left fun k _ => ?_
    simp only [requestOf, hgn, Bool.false_eq_true, if_false]

omit [Field K] in
theorem asks_smSet {k bits : ℕ} : (o.smSet set).asks k bits ↔
    k < o.responseSize ∧ o.requestOf set.requestVector k &&& bits ≠ 0 := by
  simp only [ActiveSet.asks, smSet, List.getD, List.getElem?_map, decide_eq_true_eq]
  rcases Nat.lt_or_ge k o.responseSize with hk | hk
  · simp [hk]
  · simp [hk.not_gt]

theorem gnewtonRequest_and_one {a : ℕ} : gnewtonRequest a &&& 1 = a &&& 1 := by
  unfold gnewtonRequest
  split
  · rw [Nat.and_assoc, Nat.and_or_distrib_right]
    simp
  · rfl

theorem gnewtonRequest_and_two {a : ℕ} :
    gnewtonRequest a &&& 2 ≠ 0 ↔ a &&& 2 ≠ 0 ∨ a &&& 4 ≠ 0 := by
  unfold gnewtonRequest
  split
  · rename_i h
    rw [Nat.and_assoc, show 3 &&& 2 = 2 from rfl, or_and_ne_zero]
    simp [h]
  · rename_i h
    simp [h]

/-- What `transform_set` keeps and adds for a function. -/
theorem subModelRequest_spec (nonlinear : Bool) (a : ℕ) :
    let r := subModelRequest false nonlinear a
    (a &&& 1 ≠ 0 → r &&& 1 ≠ 0) ∧ (a &&& 2 ≠ 0 → r &&& 2 ≠ 0) ∧ (a &&& 4 ≠ 0 → r &&& 4 ≠ 0) ∧
      (a &&& 4 ≠ 0 → nonlinear → r &&& 2 ≠ 0) ∧
      (a &&& 2 ≠ 0 ∨ a &&& 4 ≠ 0 → nonlinear → r &&& 1 ≠ 0) := by
  unfold subModelRequest
  cases nonlinear with
  | false => simp
  | true =>
    simp only [Bool.false_and, Bool.false_eq_true, if_false, if_true]
    split_ifs with h4 h2
    · simp only [or_and_ne_zero]
      exact ⟨.inl, .inl, .inl, fun _ _ => .inr (by decide), fun _ _ => .inr (by decide)⟩
    · simp only [or_and_ne_zero]
      exact ⟨.inl, .inl, fun h => absurd h h4, fun h => absurd h h4, fun _ _ => .inr (by decide)⟩
    · exact ⟨id, id, id, fun h => absurd h h4, fun h => (h.elim h2 h4).elim⟩

omit [Field K] in
/-- What one request for the objective asks of every primary function. -/
theorem requestOf_primary (recastAsv : List ℕ) {k : ℕ} (hk : k < o.primary.numFns) :
    let a := recastAsv.getD 0 0
    let r := o.requestOf recastAsv k
    (a &&& 1 ≠ 0 → r &&& 1 ≠ 0) ∧ (a &&& 2 ≠ 0 → r &&& 2 ≠ 0) ∧
      (a &&& 4 ≠ 0 → o.gaussNewton = false → r &&& 4 ≠ 0) ∧
      (a &&& 4 ≠ 0 → o.localNls → r &&& 2 ≠ 0) ∧
      (a &&& 2 ≠ 0 ∨ a &&& 4 ≠ 0 → o.localNls → r &&& 1 ≠ 0) := by
  obtain ⟨h1, h2, h4, h42, h1'⟩ := subModelRequest_spec o.localNls (recastAsv.getD 0 0)
  simp only [requestOf, if_pos hk]
  cases hgn : o.gaussNewton with
  | false =>
    simp only [Bool.false_eq_true, if_false]
    exact ⟨h1, h2, fun h _ => h4 h, h42, h1'⟩
  | true =>
    simp only [if_true, gnewtonRequest_and_one, gnewtonRequest_and_two]
    exact ⟨h1, fun h => .inl (h2 h), fun _ h => absurd h (by simp), fun h hn => .inl (h42 h hn),
      h1'⟩

omit [Field K] in
/-- The request for a constraint is passed on. -/
theorem requestOf_constraint {recastAsv : List ℕ} {m : ℕ} (hgn : o.gaussNewton = false) :
    o.requestOf recastAsv (o.primary.numFns + m) = recastAsv.getD (m + 1) 0 := by
  simp [requestOf, hgn]

end

/-! ## Evaluations -/

section

variable {K : Type} [Field K] {o : ObjectiveRecast K} {set : ActiveSet} {full target : Response K}

/-- What `objective_reduction` writes for the first `numFns` primary functions. -/
structure ObjectiveWritten (p : PrimaryFns K) (n : ℕ) (set : ActiveSet) (full r : Response K) :
    Prop where
  activeSet : r.activeSet = set
  value : set.asks 0 1 → r.functionValues 0 = p.objective full.functionValues
  gradient : set.asks 0 2 → ∀ j < n, r.functionGradients j 0 =
    p.objectiveGradient full.functionValues (fun i j => full.functionGradients j i) j
  hessian : set.asks 0 4 → ∃ hess, p.objectiveHessian (hessianData full) = some hess ∧
    ∀ j < n, ∀ k ≤ j, r.functionHessians 0 j k = hess j k

theorem objectiveReduction_eq (hset : target.activeSet = set)
    (hfns : o.numConstraints ≤ full.activeSet.numFns)
    (hhess : set.asks 0 4 →
      ((o.reducedFns (full.activeSet.numFns - o.numConstraints)).objectiveHessian
        (hessianData full)).isSome) :
    ∃ r, o.objectiveReduction full target = .ok r ∧
      ObjectiveWritten (o.reducedFns (full.activeSet.numFns - o.numConstraints))
        o.numContinuousVars set full r := by
  subst hset
  rw [objectiveReduction]
  split
  · rename_i hnone
    refine ⟨target, rfl, rfl, ?_, ?_, ?_⟩ <;> intro hasks <;> simp [hasks] at hnone
  · have hsome : (target.activeSet.asks 0 4 &&
        ((o.reducedFns (full.activeSet.numFns - o.numConstraints)).objectiveHessian
          (hessianData full)).isNone) = false := by
      cases h4 : target.activeSet.asks 0 4 with
      | false => rfl
      | true => simp [Option.isNone_eq_false_iff, hhess h4]
    rw [if_neg hfns.not_gt]
    simp only [hsome, Bool.false_eq_true, if_false]
    refine ⟨_, rfl, rfl, fun hasks => ?_, fun hasks j hj => ?_, fun hasks => ?_⟩
    · simp [hasks]
    · simp [hasks, hj]
    · obtain ⟨hess, heq⟩ := Option.isSome_iff_exists.mp (hhess hasks)
      refine ⟨hess, heq, fun j hj k hk => ?_⟩
      simp [hasks, hj, hk, heq]

theorem objectiveReduction_error (hvalue : target.activeSet.asks 0 1)
    (hfns : full.activeSet.numFns < o.numConstraints) :
    o.objectiveReduction full target = .error .numFns := by
  simp [objectiveReduction, hvalue, hfns]

end

/-! ## Correctness -/

section

variable {o : ObjectiveRecast ℝ}

/-- The functions of the sub-model with their derivatives. -/
structure SubModelFns (n : ℕ) where
  f : ℕ → (Fin n → ℝ) → ℝ
  grad : ℕ → (Fin n → ℝ) → Fin n → ℝ
  hess : ℕ → Matrix (Fin n) (Fin n) ℝ

/-- The sub-model's response at `x` to `set`: the requested data and nothing else is known. -/
structure Evaluated (o : ObjectiveRecast ℝ) (fns : SubModelFns o.numContinuousVars)
    (x : Fin o.numContinuousVars → ℝ) (set : ActiveSet) (full : Response ℝ) : Prop where
  activeSet : full.activeSet = set
  shaped : full.Shaped
  noHessians : o.gaussNewton → full.numHessians = 0
  value : ∀ i, set.asks i 1 → full.functionValues i = fns.f i x
  gradient : ∀ i, set.asks i 2 → HasGradAt (fns.f i) (fns.grad i x) x ∧
    ∀ j : Fin o.numContinuousVars, full.functionGradients j i = fns.grad i x j
  hessian : ∀ i, set.asks i 4 → HasHessAt (fns.f i) (fns.grad i) (fns.hess i) x ∧
    (fns.hess i).IsSymm ∧
    ∀ j k : Fin o.numContinuousVars, k ≤ j → full.functionHessians i j k = fns.hess i j k

/-- The reduced response: the value and the derivatives of the composite objective, and the data of
the constraints. -/
structure IsReduced (o : ObjectiveRecast ℝ) (fns : SubModelFns o.numContinuousVars)
    (x : Fin o.numContinuousVars → ℝ) (set : ActiveSet) (r : Response ℝ) : Prop where
  value : set.asks 0 1 → r.functionValues 0 = o.primary.composite fns.f x
  gradient : set.asks 0 2 → HasGradAt (o.primary.composite fns.f)
    (fun j => r.functionGradients j 0) x
  hessian : set.asks 0 4 → o.gaussNewton = false →
    HasHessAt (o.primary.composite fns.f) (o.primary.compositeGrad fns.f fns.grad)
      (Matrix.of fun j k => r.functionHessians 0 ↑(max j k) ↑(min j k)) x
  gaussNewton : set.asks 0 4 → o.gaussNewton → ∀ j k : Fin o.numContinuousVars, k ≤ j →
    r.functionHessians 0 j k = 2 * ∑ i ∈ Finset.range o.primary.numFns,
      o.primary.lsqWeight i * (fns.grad i x j * fns.grad i x k)
  constraint_value : ∀ m < o.numNonlinearConstraints, set.asks (m + 1) 1 →
    r.functionValues (m + 1) = fns.f (o.primary.numFns + m) x
  constraint_gradient : ∀ m < o.numNonlinearConstraints, set.asks (m + 1) 2 →
    ∀ j : Fin o.numContinuousVars,
      r.functionGradients j (m + 1) = fns.grad (o.primary.numFns + m) x j
  constraint_hessian : ∀ m < o.numNonlinearConstraints, set.asks (m + 1) 4 →
    ∀ j k : Fin o.numContinuousVars, k ≤ j →
      r.functionHessians (m + 1) j k = fns.hess (o.primary.numFns + m) j k

/-- Every request of the reduced problem, with derivatives for all continuous variables, is
answered from the data that it requests of the sub-model. -/
def Reduces (o : ObjectiveRecast ℝ) : Prop :=
  ∀ set : ActiveSet, set.numFns = o.numNonlinearConstraints + 1 →
    set.numParams = o.numContinuousVars → ∃ smSet, o.subModelSet set = .ok smSet ∧
      ∀ fns x full target, o.Evaluated fns x smSet full → target.activeSet = set →
        ∃ r, o.transformResponse full target = .ok r ∧ o.IsReduced fns x set r

/-- No primary function is lost, or only functions with the weight zero. -/
def Kept (o : ObjectiveRecast ℝ) : Prop :=
  o.numLinearConstraints = 0 ∨ o.numLinearConstraints ≤ o.primary.numFns ∧
    o.primary.weights ≠ [] ∧ ∀ i, o.primary.numFns - o.numLinearConstraints ≤ i →
      i < o.primary.numFns → o.primary.weight i = 0

theorem gaussNewton_eq_false (h : o.numNonlinearConstraints ≠ 0) : o.gaussNewton = false := by
  have hc := o.constraint_hessians
  unfold gaussNewton localNls
  cases hopt : o.primary.optimizationFlag <;> cases hreq : o.requireHessians <;> simp_all

theorem localNls_of_gaussNewton (h : o.gaussNewton) : o.localNls := by
  simp_all [gaussNewton]

variable {set : ActiveSet} {k m : ℕ}

theorem numFns_smSet : (o.smSet set).numFns = o.primary.numFns + o.numNonlinearConstraints :=
  (List.length_map _).trans List.length_range

variable (set) in
/-- What is asked of the primary functions. -/
theorem asks_primary (hk : k < o.primary.numFns) :
    (set.asks 0 1 → (o.smSet set).asks k 1) ∧ (set.asks 0 2 → (o.smSet set).asks k 2) ∧
      (set.asks 0 4 → o.gaussNewton = false → (o.smSet set).asks k 4) ∧
      (set.asks 0 4 → o.localNls → (o.smSet set).asks k 2) ∧
      (set.asks 0 2 ∨ set.asks 0 4 → o.localNls → (o.smSet set).asks k 1) := by
  have hsize : k < o.responseSize := hk.trans_le (Nat.le_add_right _ _)
  obtain ⟨h1, h2, h4, h42, h1'⟩ := requestOf_primary set.requestVector hk
  simp only [asks_smSet, hsize, true_and]
  simp only [ActiveSet.asks, decide_eq_true_eq]
  exact ⟨h1, h2, h4, h42, h1'⟩

/-- What is asked of the constraints. -/
theorem asks_constraint (hm : m < o.numNonlinearConstraints) {bits : ℕ} :
    (o.smSet set).asks (o.primary.numFns + m) bits ↔ set.asks (m + 1) bits := by
  rw [asks_smSet, requestOf_constraint (gaussNewton_eq_false (Nat.ne_zero_of_lt hm))]
  simp [ActiveSet.asks, responseSize, hm]

theorem flag_smSet (hm : o.numNonlinearConstraints ≠ 0)
    (hset : set.numFns = o.numNonlinearConstraints + 1) {bits : ℕ} (hbits : bits = 2 ∨ bits = 4)
    (h : set.flag bits) : (o.smSet set).flag bits := by
  have hgn := gaussNewton_eq_false hm
  obtain ⟨i, hi⟩ := ActiveSet.flag_iff.mp h
  rw [ActiveSet.flag_iff]
  cases i with
  | zero =>
    obtain ⟨-, h2, h4, -, -⟩ := asks_primary set o.numFns_pos
    rcases hbits with rfl | rfl
    · exact ⟨0, h2 hi⟩
    · exact ⟨0, h4 hi hgn⟩
  | succ i =>
    have hlt := ActiveSet.lt_of_asks hi
    exact ⟨_, (asks_constraint (by omega)).mpr hi⟩

/-! ## The primary functions that are left -/

/-- The primary functions that `objective_reduction` goes over. -/
def left (o : ObjectiveRecast ℝ) : PrimaryFns ℝ :=
  o.reducedFns (o.primary.numFns - o.numLinearConstraints)

theorem Kept.le (h : o.Kept) : o.numLinearConstraints ≤ o.primary.numFns := by
  rcases h with h | ⟨h, -⟩
  · omega
  · exact h

/-- Each function has the same part in the objective. -/
theorem Kept.factors (h : o.Kept) (i : ℕ) :
    o.left.coef i = o.primary.coef i ∧ o.left.lsqWeight i = o.primary.lsqWeight i := by
  rcases h with h | ⟨-, hw, -⟩
  · rw [left, h]
    exact ⟨rfl, rfl⟩
  · have hne : o.primary.weights.isEmpty = false := by simp [hw]
    refine ⟨?_, rfl⟩
    have hmoo : o.left.mooWeight i = o.primary.mooWeight i := by
      simp only [PrimaryFns.mooWeight, left, reducedFns, hne, Bool.false_eq_true, if_false]
      rfl
    simp only [PrimaryFns.coef, hmoo]
    rfl

theorem Kept.factors_eq_zero (h : o.Kept) {i : ℕ}
    (hi : o.primary.numFns - o.numLinearConstraints ≤ i) (hlt : i < o.primary.numFns) :
    o.primary.coef i = 0 ∧ o.primary.lsqWeight i = 0 := by
  rcases h with h | ⟨-, hw, hzero⟩
  · omega
  · have hne : o.primary.weights.isEmpty = false := by simp [hw]
    simp [PrimaryFns.coef, PrimaryFns.mooWeight, PrimaryFns.lsqWeight, hne, hzero i hi hlt]

/-- A sum over the functions that are left is one over all. -/
theorem Kept.sum_eq (h : o.Kept) {V : Type} [AddCommMonoid V] (F G : ℕ → V)
    (hFG : ∀ i, o.left.coef i = o.primary.coef i → o.left.lsqWeight i = o.primary.lsqWeight i →
      F i = G i)
    (hzero : ∀ i, o.primary.coef i = 0 → o.primary.lsqWeight i = 0 → G i = 0) :
    ∑ i ∈ Finset.range o.left.numFns, F i = ∑ i ∈ Finset.range o.primary.numFns, G i := by
  have hF : ∀ i ∈ Finset.range o.left.numFns, F i = G i := fun i _ =>
    hFG i (h.factors i).1 (h.factors i).2
  rw [Finset.sum_congr rfl hF]
  refine Finset.sum_subset (Finset.range_mono (Nat.sub_le _ _)) fun i hi hnot => ?_
  have hlost : o.primary.numFns - o.numLinearConstraints ≤ i :=
    not_lt.mp fun hlt => hnot (Finset.mem_range.mpr hlt)
  obtain ⟨hc, hl⟩ := h.factors_eq_zero hlost (Finset.mem_range.mp hi)
  exact hzero i hc hl

theorem Kept.objective_eq (h : o.Kept) (v : ℕ → ℝ) :
    o.left.objective v = ∑ i ∈ Finset.range o.primary.numFns, o.primary.term i (v i) := by
  rw [PrimaryFns.objective_eq]
  refine h.sum_eq _ _ (fun i hc hl => ?_) fun i hc hl => ?_
  · rw [PrimaryFns.term, PrimaryFns.term, hc, hl]
    rfl
  · rw [PrimaryFns.term, hc, hl]
    simp

theorem Kept.objectiveGradient_eq (h : o.Kept) (v : ℕ → ℝ) (g : ℕ → ℕ → ℝ) :
    o.left.objectiveGradient v g =
      ∑ i ∈ Finset.range o.primary.numFns, o.primary.slope i (v i) • g i := by
  rw [PrimaryFns.objectiveGradient_eq]
  refine h.sum_eq _ _ (fun i hc hl => ?_) fun i hc hl => ?_
  · rw [PrimaryFns.slope, PrimaryFns.slope, hc, hl]
    rfl
  · rw [PrimaryFns.slope, hc, hl]
    simp

theorem Kept.objectiveHessian_eq (h : o.Kept) {d : PrimaryFns.HessianData ℝ}
    (hvals : d.valsEmpty = false)
    (hgrads : o.primary.optimizationFlag = false → d.gradsEmpty = false)
    (hhess : d.hessiansEmpty = false) :
    o.left.objectiveHessian d = some fun j k => ∑ i ∈ Finset.range o.primary.numFns,
      (o.primary.slope i (d.fnVals i) * d.fnHessians i j k +
        o.primary.curvature i * (d.fnGrads i j * d.fnGrads i k)) := by
  rw [PrimaryFns.objectiveHessian_eq (p := o.left) hvals hgrads hhess]
  refine congrArg some (funext fun j => funext fun k => ?_)
  refine h.sum_eq _ _ (fun i hc hl => ?_) fun i hc hl => ?_
  · rw [PrimaryFns.slope, PrimaryFns.slope, PrimaryFns.curvature, PrimaryFns.curvature, hc, hl]
    rfl
  · rw [PrimaryFns.slope, PrimaryFns.curvature, hc, hl]
    simp

theorem Kept.objectiveHessian_gaussNewton (h : o.Kept) {d : PrimaryFns.HessianData ℝ}
    (hnls : o.primary.optimizationFlag = false) (hgrads : d.gradsEmpty = false)
    (hhess : d.hessiansEmpty = true) :
    o.left.objectiveHessian d = some fun j k => 2 * ∑ i ∈ Finset.range o.primary.numFns,
      o.primary.lsqWeight i * (d.fnGrads i j * d.fnGrads i k) := by
  rw [PrimaryFns.objectiveHessian_gaussNewton (p := o.left) hnls hgrads hhess]
  refine congrArg some (funext fun j => funext fun k => congrArg _ ?_)
  refine h.sum_eq _ _ (fun i _ hl => by rw [hl]) fun i _ hl => by rw [hl, zero_mul]

/-! ## The reduced response -/

section

variable {fns : SubModelFns o.numContinuousVars} {x : Fin o.numContinuousVars → ℝ}
  {full target : Response ℝ}

theorem Evaluated.numFns (h : o.Evaluated fns x (o.smSet set) full) :
    full.activeSet.numFns = o.primary.numFns + o.numNonlinearConstraints := by
  rw [h.activeSet, numFns_smSet]

theorem Evaluated.numFns_ne_zero (h : o.Evaluated fns x (o.smSet set) full) :
    full.activeSet.numFns ≠ 0 := by
  have := o.numFns_pos
  rw [h.numFns]
  omega

/-- Least squares need gradients, and they were requested. -/
theorem Evaluated.gradsEmpty (h : o.Evaluated fns x (o.smSet set) full) (h4 : set.asks 0 4)
    (hnls : o.localNls) : (hessianData full).gradsEmpty = false := by
  have hasks := (asks_primary set o.numFns_pos).2.2.2.1 h4 hnls
  have hflag : full.activeSet.flag 2 := by
    rw [h.activeSet, ActiveSet.flag_iff]
    exact ⟨0, hasks⟩
  simp [hessianData, h.shaped.gradients hflag, h.numFns_ne_zero]

theorem Evaluated.hessiansEmpty (h : o.Evaluated fns x (o.smSet set) full) (h4 : set.asks 0 4)
    (hgn : o.gaussNewton = false) : (hessianData full).hessiansEmpty = false := by
  have hasks := (asks_primary set o.numFns_pos).2.2.1 h4 hgn
  have hflag : full.activeSet.flag 4 := by
    rw [h.activeSet, ActiveSet.flag_iff]
    exact ⟨0, hasks⟩
  simp [hessianData, h.shaped.hessians hflag, h.numFns_ne_zero]

theorem Evaluated.objectiveHessian (h : o.Evaluated fns x (o.smSet set) full) (hkept : o.Kept)
    (h4 : set.asks 0 4) :
    ∃ hess, o.left.objectiveHessian (hessianData full) = some hess ∧
      (o.gaussNewton = false → ∀ j k : Fin o.numContinuousVars, k ≤ j →
        hess j k = ∑ i ∈ Finset.range o.primary.numFns,
          (o.primary.slope i (fns.f i x) * fns.hess i j k +
            o.primary.curvature i * (fns.grad i x j * fns.grad i x k))) ∧
      (o.gaussNewton → ∀ j k : Fin o.numContinuousVars,
        hess j k = 2 * ∑ i ∈ Finset.range o.primary.numFns,
          o.primary.lsqWeight i * (fns.grad i x j * fns.grad i x k)) := by
  have hgrad (hnls : o.localNls) {i : ℕ} (hi : i ∈ Finset.range o.primary.numFns)
      (j : Fin o.numContinuousVars) : full.functionGradients j i = fns.grad i x j :=
    (h.gradient i ((asks_primary set (Finset.mem_range.mp hi)).2.2.2.1 h4 hnls)).2 j
  have hvals : (hessianData full).valsEmpty = false := by simp [hessianData, h.numFns_ne_zero]
  cases hgn : o.gaussNewton with
  | false =>
    have hgrads (hopt : o.primary.optimizationFlag = false) :=
      h.gradsEmpty h4 (by simp [localNls, hopt])
    refine ⟨_, hkept.objectiveHessian_eq hvals hgrads (h.hessiansEmpty h4 hgn), ?_,
      fun h => by simp at h⟩
    intro _ j k hjk
    refine Finset.sum_congr rfl fun i hi => ?_
    have hhess := (h.hessian i ((asks_primary set (Finset.mem_range.mp hi)).2.2.1 h4 hgn)).2.2 j k hjk
    cases hopt : o.primary.optimizationFlag with
    | true =>
      simp only [PrimaryFns.slope, PrimaryFns.curvature, hopt, if_true, zero_mul, hessianData,
        hhess]
    | false =>
      have hnls : o.localNls := by simp [localNls, hopt]
      have hval := h.value i ((asks_primary set (Finset.mem_range.mp hi)).2.2.2.2 (.inr h4) hnls)
      simp only [hessianData, hval, hhess, hgrad hnls hi]
  | true =>
    have hnls := localNls_of_gaussNewton hgn
    have hopt : o.primary.optimizationFlag = false := by simpa [localNls] using hnls
    have hempty : (hessianData full).hessiansEmpty = true := by
      simp [hessianData, h.noHessians hgn]
    refine ⟨_, hkept.objectiveHessian_gaussNewton hopt (h.gradsEmpty h4 hnls) hempty,
      fun h => by simp at h, fun _ j k => ?_⟩
    refine congrArg _ (Finset.sum_congr rfl fun i hi => ?_)
    simp only [hessianData, hgrad hnls hi]

theorem Evaluated.reducedFns_eq (h : o.Evaluated fns x (o.smSet set) full) :
    o.reducedFns (full.activeSet.numFns - o.numConstraints) = o.left := by
  rw [h.numFns, numConstraints, Nat.add_comm o.primary.numFns, Nat.add_sub_add_left]
  rfl

/-- The data of the constraints go through the partial update. -/
theorem Evaluated.updatePartial (h : o.Evaluated fns x (o.smSet set) full)
    (hset : set.numFns = o.numNonlinearConstraints + 1) {reduced : Response ℝ}
    (hreduced : reduced.activeSet = set) :
    ∃ r, reduced.updatePartial full 1 o.numNonlinearConstraints
        (full.activeSet.numFns - o.numNonlinearConstraints) = .ok r ∧
      Response.PartlyUpdated reduced full 1 o.numNonlinearConstraints o.primary.numFns r := by
  have hoffset : full.activeSet.numFns - o.numNonlinearConstraints = o.primary.numFns := by
    rw [h.numFns, Nat.add_sub_cancel]
  rw [hoffset]
  refine Response.updatePartial_eq fun hne => ?_
  rw [hreduced, hset, h.numFns]
  refine ⟨(Nat.add_comm _ _).le, le_rfl, ?_, fun hflag => ?_, fun hflag => ?_⟩
  · rw [h.activeSet]
    rfl
  · have := h.shaped.gradients (h.activeSet ▸ flag_smSet hne hset (.inl rfl) hflag)
    rw [this, h.numFns]
  · have := h.shaped.hessians (h.activeSet ▸ flag_smSet hne hset (.inr rfl) hflag)
    rw [this, h.numFns]

/-- The objective of the functions that are left, and the constraints. -/
theorem Evaluated.transformResponse (h : o.Evaluated fns x (o.smSet set) full)
    (hset : set.numFns = o.numNonlinearConstraints + 1) (htarget : target.activeSet = set)
    (hle : o.numLinearConstraints ≤ o.primary.numFns)
    (hhess : set.asks 0 4 → (o.left.objectiveHessian (hessianData full)).isSome) :
    ∃ reduced r, o.transformResponse full target = .ok r ∧
      ObjectiveWritten o.left o.numContinuousVars set full reduced ∧
      Response.PartlyUpdated reduced full 1 o.numNonlinearConstraints o.primary.numFns r := by
  have hfns : o.numConstraints ≤ full.activeSet.numFns := by
    rw [h.numFns, numConstraints]
    omega
  rw [← h.reducedFns_eq] at hhess
  obtain ⟨reduced, hred, hwritten⟩ := objectiveReduction_eq htarget hfns hhess
  rw [h.reducedFns_eq] at hwritten
  obtain ⟨r, hr, hpart⟩ := h.updatePartial hset
    (show { reduced with metaData := full.metaData }.activeSet = set from hwritten.activeSet)
  refine ⟨{ reduced with metaData := full.metaData }, r, ?_, ?_, hpart⟩
  · rw [ObjectiveRecast.transformResponse, hred]
    simp only [hr]
  · exact ⟨hwritten.activeSet, hwritten.value, hwritten.gradient, hwritten.hessian⟩

end

theorem Kept.reduces (hkept : o.Kept) : o.Reduces := by
  intro set hset hparams
  refine ⟨o.smSet set, subModelSet_eq hset, fun fns x full target heval htarget => ?_⟩
  have hsome (h4 : set.asks 0 4) : (o.left.objectiveHessian (hessianData full)).isSome := by
    obtain ⟨hess, heq, -⟩ := heval.objectiveHessian hkept h4
    rw [heq]
    rfl
  obtain ⟨reduced, r, hr, hwritten, hpart⟩ :=
    heval.transformResponse hset htarget hkept.le hsome
  have hactive := hwritten.activeSet
  have hitem (m : ℕ) (hm : m < o.numNonlinearConstraints) :
      1 ≤ m + 1 ∧ m + 1 < 1 + o.numNonlinearConstraints := by omega
  have hlt (j : Fin o.numContinuousVars) : (j : ℕ) < reduced.activeSet.numParams :=
    j.isLt.trans_eq (hactive ▸ hparams).symm
  refine ⟨r, hr, ?_⟩
  constructor
  case value =>
    intro h1
    rw [hpart.value 0 (hactive ▸ h1), if_neg (by omega), hwritten.value h1, hkept.objective_eq]
    refine Finset.sum_congr rfl fun i hi => ?_
    rw [heval.value i ((asks_primary set (Finset.mem_range.mp hi)).1 h1)]
  case gradient =>
    intro h2
    have hgrad (i : ℕ) (hi : i < o.primary.numFns) :=
      heval.gradient i ((asks_primary set hi).2.1 h2)
    have harray : (fun j : Fin o.numContinuousVars => r.functionGradients j 0) =
        o.primary.compositeGrad fns.f fns.grad x := by
      funext j
      rw [hpart.gradient 0 j (hactive ▸ h2) (hlt j), if_neg (by omega),
        hwritten.gradient h2 j j.isLt, hkept.objectiveGradient_eq, PrimaryFns.compositeGrad,
        Finset.sum_apply, Finset.sum_apply]
      refine Finset.sum_congr rfl fun i hi => ?_
      rw [Pi.smul_apply, Pi.smul_apply, (hgrad i (Finset.mem_range.mp hi)).2 j]
      cases hopt : o.primary.optimizationFlag with
      | true => simp only [PrimaryFns.slope, hopt, if_true]
      | false =>
        have hnls : o.localNls := by simp [localNls, hopt]
        rw [heval.value i ((asks_primary set (Finset.mem_range.mp hi)).2.2.2.2 (.inl h2) hnls)]
    rw [harray]
    exact PrimaryFns.hasGradAt_composite fun i hi => (hgrad i hi).1
  case hessian =>
    intro h4 hgn
    obtain ⟨hess, heq, hfull, -⟩ := heval.objectiveHessian hkept h4
    obtain ⟨hess', heq', hstored⟩ := hwritten.hessian h4
    obtain rfl : hess' = hess := Option.some.inj (heq'.symm.trans heq)
    have hsub (i : ℕ) (hi : i < o.primary.numFns) :=
      heval.hessian i ((asks_primary set hi).2.2.1 h4 hgn)
    refine (congrArg (fun M => HasHessAt _ _ M x) ?_).mp
      (PrimaryFns.hasHessAt_composite (p := o.primary) fun i hi => (hsub i hi).1)
    ext j k
    have hlower : min j k ≤ max j k := min_le_max
    rw [Matrix.of_apply, hpart.hessian 0 _ _ (hactive ▸ h4) (hlt (max j k)) hlower,
      if_neg (by omega), hstored _ (max j k).isLt _ hlower, hfull hgn _ _ hlower, Matrix.sum_apply]
    refine Finset.sum_congr rfl fun i hi => ?_
    rw [Matrix.add_apply, Matrix.smul_apply, Matrix.smul_apply, Matrix.vecMulVec_apply, smul_eq_mul,
      smul_eq_mul]
    rcases le_total j k with hjk | hjk
    · rw [max_eq_right hjk, min_eq_left hjk, (hsub i (Finset.mem_range.mp hi)).2.1.apply j k,
        mul_comm (fns.grad i x k)]
    · rw [max_eq_left hjk, min_eq_right hjk]
  case gaussNewton =>
    intro h4 hgn j k hjk
    obtain ⟨hess, heq, -, hgauss⟩ := heval.objectiveHessian hkept h4
    obtain ⟨hess', heq', hstored⟩ := hwritten.hessian h4
    obtain rfl : hess' = hess := Option.some.inj (heq'.symm.trans heq)
    rw [hpart.hessian 0 j k (hactive ▸ h4) (hlt j) hjk, if_neg (by omega),
      hstored j j.isLt k hjk, hgauss hgn]
  case constraint_value =>
    intro m hm h1
    rw [hpart.value (m + 1) (hactive ▸ h1), if_pos (hitem m hm), Nat.add_sub_cancel]
    exact heval.value _ ((asks_constraint hm).mpr h1)
  case constraint_gradient =>
    intro m hm h2 j
    rw [hpart.gradient (m + 1) j (hactive ▸ h2) (hlt j), if_pos (hitem m hm),
      Nat.add_sub_cancel]
    exact (heval.gradient _ ((asks_constraint hm).mpr h2)).2 j
  case constraint_hessian =>
    intro m hm h4 j k hjk
    rw [hpart.hessian (m + 1) j k (hactive ▸ h4) (hlt j) hjk, if_pos (hitem m hm),
      Nat.add_sub_cancel]
    exact (heval.hessian _ ((asks_constraint hm).mpr h4)).2.2 j k hjk

/-! ## Functions that are lost -/

/-- A request for the value of the objective only. -/
def valueRequest (o : ObjectiveRecast ℝ) : ActiveSet where
  requestVector := 1 :: List.replicate o.numNonlinearConstraints 0
  derivVarsVector := List.replicate o.numContinuousVars 0

/-- Functions that are constant. -/
def constantFns (n : ℕ) (v : ℕ → ℝ) : SubModelFns n where
  f i _ := v i
  grad _ _ := 0
  hess _ := 0

/-- Their response. -/
def constantResponse (o : ObjectiveRecast ℝ) (v : ℕ → ℝ) : Response ℝ where
  activeSet := o.smSet o.valueRequest
  functionValues := v
  numGradients := (o.smSet o.valueRequest).numFns
  functionGradients _ _ := 0
  numHessians := if o.gaussNewton then 0 else (o.smSet o.valueRequest).numFns
  functionHessians _ _ _ := 0
  metaData := []

theorem asks_valueRequest : o.valueRequest.asks 0 1 := by simp [valueRequest, ActiveSet.asks]

theorem not_asks_hessian (hgn : o.gaussNewton) : ¬ (o.smSet set).flag 4 := by
  intro hflag
  obtain ⟨i, hi⟩ := ActiveSet.flag_iff.mp hflag
  rw [asks_smSet] at hi
  have hmask (a : ℕ) : gnewtonRequest a &&& 4 = 0 := by
    unfold gnewtonRequest
    split
    · rw [Nat.and_assoc]
      exact Nat.and_zero _
    · rename_i h
      exact not_not.mp h
  exact hi.2 (by simp only [requestOf, hgn, if_true, hmask])

theorem evaluated_constant (v : ℕ → ℝ) (x : Fin o.numContinuousVars → ℝ) :
    o.Evaluated (constantFns o.numContinuousVars v) x (o.smSet o.valueRequest)
      (o.constantResponse v) where
  activeSet := rfl
  shaped := by
    refine ⟨fun _ => rfl, fun hflag => ?_⟩
    cases hgn : o.gaussNewton with
    | true => exact absurd hflag (not_asks_hessian hgn)
    | false => simp only [constantResponse, hgn, Bool.false_eq_true, if_false]
  noHessians hgn := by simp only [constantResponse, hgn, if_true]
  value _ _ := rfl
  gradient _ _ := ⟨hasGradAt_const _, fun _ => rfl⟩
  hessian _ _ := ⟨hasHessAt_const _, rfl, fun _ _ _ => rfl⟩

/-- The value of the objective is that of the functions that are left. -/
theorem Reduces.left_objective (h : o.Reduces) :
    o.numLinearConstraints ≤ o.primary.numFns ∧
      ∀ v : ℕ → ℝ, o.left.objective v =
        ∑ i ∈ Finset.range o.primary.numFns, o.primary.term i (v i) := by
  have hfns : o.valueRequest.numFns = o.numNonlinearConstraints + 1 := by
    simp [valueRequest, ActiveSet.numFns]
  obtain ⟨smSet, hsm, hall⟩ := h o.valueRequest hfns (by simp [valueRequest, ActiveSet.numParams])
  obtain rfl : smSet = o.smSet o.valueRequest :=
    (Except.ok.inj ((subModelSet_eq hfns).symm.trans hsm)).symm
  have hrun (v : ℕ → ℝ) := hall _ 0 _ (Response.ofSet o.valueRequest) (evaluated_constant v 0) rfl
  have hle : o.numLinearConstraints ≤ o.primary.numFns := by
    by_contra hgt
    obtain ⟨r, hr, -⟩ := hrun 0
    have hwrap : (o.constantResponse 0).activeSet.numFns < o.numConstraints := by
      rw [(evaluated_constant 0 0).numFns, numConstraints]
      omega
    rw [transformResponse, objectiveReduction_error asks_valueRequest hwrap] at hr
    cases hr
  refine ⟨hle, fun v => ?_⟩
  obtain ⟨r, hr, hreduced⟩ := hrun v
  obtain ⟨reduced, r', hr', hwritten, hpart⟩ := (evaluated_constant v 0).transformResponse hfns
    (show (Response.ofSet o.valueRequest).activeSet = o.valueRequest from rfl) hle
    (fun h4 => by simp [valueRequest, ActiveSet.asks] at h4)
  obtain rfl : r' = r := Except.ok.inj (hr'.symm.trans hr)
  have hvalue := hpart.value 0 (hwritten.activeSet ▸ asks_valueRequest)
  rw [if_neg (by omega), hwritten.value asks_valueRequest,
    hreduced.value asks_valueRequest] at hvalue
  exact hvalue.symm

theorem Reduces.kept (h : o.Reduces) : o.Kept := by
  obtain ⟨hle, hobj⟩ := h.left_objective
  by_cases hlin : o.numLinearConstraints = 0
  · exact .inl hlin
  have hterm (i : ℕ) (hi : o.primary.numFns - o.numLinearConstraints ≤ i)
      (hlt : i < o.primary.numFns) : o.primary.term i 1 = 0 := by
    have hv := hobj (Pi.single i 1)
    have hzero (p : PrimaryFns ℝ) (k : ℕ) (hk : k ≠ i) :
        p.term k ((Pi.single i 1 : ℕ → ℝ) k) = 0 := by
      rw [Pi.single_eq_of_ne hk]
      simp [PrimaryFns.term]
    rw [PrimaryFns.objective_eq, Finset.sum_eq_zero, Finset.sum_eq_single_of_mem i
      (Finset.mem_range.mpr hlt) fun k _ hk => hzero _ k hk, Pi.single_eq_same] at hv
    · exact hv.symm
    · intro k hk
      have hlt' : k < o.primary.numFns - o.numLinearConstraints := Finset.mem_range.mp hk
      exact hzero _ k (by omega)
  have hfactor (i : ℕ) (hi : o.primary.numFns - o.numLinearConstraints ≤ i)
      (hlt : i < o.primary.numFns) :
      (if o.primary.optimizationFlag then o.primary.mooWeight i else o.primary.lsqWeight i) =
        0 := by
    have := hterm i hi hlt
    simp only [PrimaryFns.term, PrimaryFns.coef, mul_one, one_pow] at this
    split_ifs at this ⊢ <;> simpa using this
  have hpos := o.numFns_pos
  have hw : o.primary.weights ≠ [] := by
    intro hempty
    have := hfactor (o.primary.numFns - 1) (by omega) (by omega)
    simp only [PrimaryFns.mooWeight, PrimaryFns.lsqWeight, hempty, List.isEmpty_nil,
      if_true] at this
    split_ifs at this with hopt hone
    · exact absurd this (by simpa using hpos.ne')
    · exact one_ne_zero this
    · exact one_ne_zero this
  refine .inr ⟨hle, hw, fun i hi hlt => ?_⟩
  have hne : o.primary.weights.isEmpty = false := by simp [hw]
  have := hfactor i hi hlt
  simpa only [PrimaryFns.mooWeight, PrimaryFns.lsqWeight, hne, Bool.false_eq_true, if_false,
    ite_self] using this

/-- The reduction is right if and only if there are no linear constraints, or as many primary
functions at the end of the list have the weight zero. -/
theorem reduces_iff (o : ObjectiveRecast ℝ) : o.Reduces ↔ o.Kept := ⟨Reduces.kept, Kept.reduces⟩

end

/-- Two objective functions and a linear constraint. -/
noncomputable def oneLinear : ObjectiveRecast ℝ where
  primary := ⟨true, 2, [], []⟩
  numNonlinearConstraints := 0
  numLinearConstraints := 1
  requireHessians := false
  subModelHessians := false
  numContinuousVars := 1
  numFns_pos := Nat.two_pos
  numContinuousVars_pos := Nat.one_pos
  weights_length := .inl rfl
  maxSense_length := .inl rfl
  constraint_hessians := fun h => by simp at h

/-- The reduced objective is the first function, not the mean of the two. -/
theorem not_reduces_oneLinear : ¬ oneLinear.Reduces := by
  intro h
  rcases h.kept with hlin | ⟨-, hw, -⟩
  · exact absurd hlin one_ne_zero
  · exact hw rfl

end Dakota.ObjectiveRecast
