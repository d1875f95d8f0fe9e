import Dakota.Response.CacheHit

/-!
# Algebraic and core mappings

The algebraic part of a response (`src/src/DakotaInterface.cpp`): `asv_mapping` divides a request,
`algebraic_mappings` evaluates the algebraic functions, and `response_mapping` adds them to the
core part.

* The AMPL evaluations are parameters: `AlgebraicMappings` has their values by algebraic function
  and algebraic variable.
* Additions to an array are a list of positions with summands (`accumulate`).
* `Response.Has.responseMapping`: from the core data, the result is the core data and one algebraic
  contribution, for the functions and variable ids that the algebraic ones stand for
  (`AlgebraicMappings.data`).
-/

namespace Dakota

/-- An array after `array[position] += summand` for each entry of a list. -/
def accumulate {ι K : Type} [DecidableEq ι] [Add K] (f : ι → K) (l : List (ι × K)) : ι → K :=
  l.foldl (fun f p => Function.update f p.1 (f p.1 + p.2)) f

theorem accumulate_apply {ι K : Type} [DecidableEq ι] [AddMonoid K] (f : ι → K) (l : List (ι × K))
    (a : ι) : accumulate f l a = f a + (l.map fun p => if p.1 = a then p.2 else 0).sum := by
  induction l generalizing f with
  | nil => simp [accumulate]
  | cons p l ih =>
    rw [accumulate, List.foldl_cons, ← accumulate, ih, List.map_cons, List.sum_cons, ← add_assoc]
    congr 1
    by_cases h : p.1 = a
    · subst h
      simp
    · rw [Function.update_of_ne fun he => h he.symm, if_neg h, add_zero]

/-- The sum of a function over the indices below `n`. -/
def sumTo {K : Type} [AddMonoid K] (n : Nat) (f : Nat → K) : K := ((List.range n).map f).sum

theorem sumTo_congr {K : Type} [AddMonoid K] {n : Nat} {f g : Nat → K} (h : ∀ i < n, f i = g i) :
    sumTo n f = sumTo n g := by
  rw [sumTo, List.map_congr_left fun i hi => h i (List.mem_range.mp hi), sumTo]

namespace FunctionData

variable {K : Type} [Add K]

/-- The sum of two sets of functions. -/
instance : Add (FunctionData K) where
  add d d' :=
    { value := fun i => d.value i + d'.value i
      gradient := fun i a => d.gradient i a + d'.gradient i a
      hessian := fun i a b => d.hessian i a b + d'.hessian i a b
      hessian_symm := fun i a b => by rw [d.hessian_symm, d'.hessian_symm] }

@[simp] theorem value_add (d d' : FunctionData K) (i : Nat) :
    (d + d').value i = d.value i + d'.value i := rfl

@[simp] theorem gradient_add (d d' : FunctionData K) (i a : Nat) :
    (d + d').gradient i a = d.gradient i a + d'.gradient i a := rfl

@[simp] theorem hessian_add (d d' : FunctionData K) (i a b : Nat) :
    (d + d').hessian i a b = d.hessian i a b + d'.hessian i a b := rfl

end FunctionData

/-- The algebraic functions of the variables `X`: the index of the function each contributes to,
the id of each algebraic variable, and AMPL's evaluations. -/
structure AlgebraicMappings (X K : Type) where
  fnIndices : List Nat
  acvIds : List Nat
  value : X → Nat → K
  gradient : X → Nat → Nat → K
  /-- For `k ≤ j` only. -/
  hessian : X → Nat → Nat → Nat → K

namespace AlgebraicMappings

variable {X K : Type} (m : AlgebraicMappings X K)

abbrev numFns : Nat := m.fnIndices.length

abbrev numVars : Nat := m.acvIds.length

/-- `algebraicFnIndices[i]` -/
def fnIndex (i : Nat) : Nat := m.fnIndices.getD i 0

/-- `algebraicACVIds[j]` -/
def acvId (j : Nat) : Nat := m.acvIds.getD j 0

/-- The algebraic set of `asv_mapping`. The core set is the total set. -/
def asvMapping (total : ActiveSet) : ActiveSet where
  requestVector := m.fnIndices.map (total.requestVector.getD · 0)
  derivVarsVector := List.range' 1 m.numVars

theorem asks_asvMapping (total : ActiveSet) (i bits : Nat) :
    (m.asvMapping total).asks i bits ↔ i < m.numFns ∧ total.asks (m.fnIndex i) bits := by
  simp only [ActiveSet.asks, asvMapping, fnIndex, decide_eq_true_eq, List.getD, List.getElem?_map]
  by_cases hi : i < m.fnIndices.length
  · simp [hi]
  · simp [hi]

section Evaluate

variable [Zero K]

/-- `algebraic_mappings`, into a response with the algebraic set. A Hessian needs the array of
gradients too. -/
def algebraicMappings (x : X) (r : Response K) : Except ResponseError (Response K) :=
  let set := r.activeSet
  if ∃ i < set.numFns, set.asks i 6 ∧ r.numGradients ≤ i then .error .unallocated
  else
    let r := r.resetInactive
    .ok { r with
      functionValues := fun i => if set.asks i 1 then m.value x i else r.functionValues i
      functionGradients := fun j i =>
        if set.asks i 6 ∧ j < m.numVars then m.gradient x i j else r.functionGradients j i
      functionHessians := fun i j k =>
        if set.asks i 4 ∧ j < m.numVars ∧ k ≤ j then m.hessian x i j k
        else r.functionHessians i j k }

end Evaluate

/-- The algebraic contributions by function index and variable ids. -/
def data [AddMonoid K] (x : X) : FunctionData K where
  value fn := sumTo m.numFns fun i => if m.fnIndex i = fn then m.value x i else 0
  gradient fn a := sumTo m.numFns fun i => sumTo m.numVars fun j =>
    if m.fnIndex i = fn ∧ m.acvId j = a then m.gradient x i j else 0
  hessian fn a b := sumTo m.numFns fun i => sumTo m.numVars fun j => sumTo (j + 1) fun k =>
    if m.fnIndex i = fn ∧ (m.acvId j = a ∧ m.acvId k = b ∨ m.acvId j = b ∧ m.acvId k = a) then
      m.hessian x i j k
    else 0
  hessian_symm fn a b := by simp only [or_comm]

end AlgebraicMappings

namespace Response

variable {X K : Type}

/-- `function_value`, `function_gradient` and `function_hessian` for each request of the core set. -/
def copyCore (total core : Response K) : Response K :=
  let set := core.activeSet
  { total with
    functionValues := fun i =>
      if set.asks i 1 then core.functionValues i else total.functionValues i
    functionGradients := fun j i =>
      if set.asks i 2 then core.functionGradients j i else total.functionGradients j i
    functionHessians := fun i j k =>
      if set.asks i 4 then core.functionHessians i j k else total.functionHessians i j k }

section Contributions

variable (m : AlgebraicMappings X K) (algebraic : Response K) (dvv : List Nat)

/-- `algebraic_dvv_indices[j]` -/
def dvvIndex (j : Nat) : Option Nat := dvv.idxOf? (m.acvId j)

def valueContributions : List (Nat × K) :=
  (List.range m.numFns).flatMap fun i =>
    if algebraic.activeSet.asks i 1 then [(m.fnIndex i, algebraic.functionValues i)] else []

def gradientContributions : List ((Nat × Nat) × K) :=
  (List.range m.numFns).flatMap fun i =>
    if algebraic.activeSet.asks i 2 then
      (List.range m.numVars).flatMap fun j =>
        match dvvIndex m dvv j with
        | some p => [((p, m.fnIndex i), algebraic.functionGradients j i)]
        | none => []
    else []

/-- The symmetric matrices store an entry at its larger index first. -/
def hessianContributions : List ((Nat × Nat × Nat) × K) :=
  (List.range m.numFns).flatMap fun i =>
    if algebraic.activeSet.asks i 4 then
      (List.range m.numVars).flatMap fun j => (List.range (j + 1)).flatMap fun k =>
        match dvvIndex m dvv j, dvvIndex m dvv k with
        | some p, some q => [((m.fnIndex i, max p q, min p q), algebraic.functionHessians i j k)]
        | _, _ => []
    else []

/-- The additions at the end of `response_mapping`. -/
def addAlgebraic [Add K] (total : Response K) : Response K :=
  { total with
    functionValues := accumulate total.functionValues (valueContributions m algebraic)
    functionGradients := fun j i => accumulate (fun p => total.functionGradients p.1 p.2)
      (gradientContributions m algebraic total.activeSet.derivVarsVector) (j, i)
    functionHessians := fun i j k => accumulate (fun p => total.functionHessians p.1 p.2.1 p.2.2)
      (hessianContributions m algebraic total.activeSet.derivVarsVector) (i, j, k) }

/-- The arrays that the requests of a set, moved by `index`, are written to are allocated. -/
def writable (r : Response K) (set : ActiveSet) (index : Nat → Nat) : Bool :=
  ∀ i < set.numFns, (set.asks i 2 → index i < r.numGradients) ∧
    (set.asks i 4 → index i < r.numHessians)

/-- `response_mapping` -/
def responseMapping [Zero K] [Add K] (coreMappings : Bool) (core total : Response K) :
    Except ResponseError (Response K) :=
  let derivFlag := total.activeSet.flag 2 || total.activeSet.flag 4
  if coreMappings && !total.writable core.activeSet id then .error .unallocated
  else
    let total := if coreMappings then total.resetInactive.copyCore core else total.reset
    if total.activeSet.numFns < algebraic.activeSet.numFns then .error .responseSize
    else if derivFlag && total.activeSet.numParams < algebraic.activeSet.numParams then
      .error .derivVarsSize
    else if !total.writable algebraic.activeSet m.fnIndex then .error .unallocated
    else .ok (addAlgebraic m algebraic total)

end Contributions

/-! ## The data of a mapped response -/

/-- What `algebraic_mappings` leaves in the requested entries. -/
structure Evaluated (m : AlgebraicMappings X K) (x : X) (r : Response K) : Prop where
  value : ∀ {i : Nat}, r.activeSet.asks i 1 → r.functionValues i = m.value x i
  gradient : ∀ {i j : Nat}, r.activeSet.asks i 2 → j < m.numVars →
    r.functionGradients j i = m.gradient x i j
  hessian : ∀ {i j k : Nat}, r.activeSet.asks i 4 → j < m.numVars → k ≤ j →
    r.functionHessians i j k = m.hessian x i j k

theorem evaluated_algebraicMappings [Zero K] {m : AlgebraicMappings X K} {x : X} {r r' : Response K}
    (h : m.algebraicMappings x r = .ok r') : r'.Evaluated m x ∧ r'.activeSet = r.activeSet := by
  simp only [AlgebraicMappings.algebraicMappings] at h
  split_ifs at h
  cases h
  refine ⟨⟨fun hi => if_pos hi, fun hi hj => if_pos ⟨?_, hj⟩, fun hi hj hk => if_pos ⟨hi, hj, hk⟩⟩,
    rfl⟩
  exact ActiveSet.asks_derivs.mpr (.inl hi)

section Sums

variable {m : AlgebraicMappings X K} {algebraic : Response K} {x : X} {set : ActiveSet}
  {dvv : List Nat} {fn : Nat}

theorem dvvIndex_eq_some (hnd : dvv.Nodup) {j p a : Nat} (ha : dvv[p]? = some a) :
    dvvIndex m dvv j = some p ↔ m.acvId j = a := by
  obtain ⟨hp, rfl⟩ := List.getElem?_eq_some_iff.mp ha
  rw [dvvIndex, List.idxOf?_eq_some_iff]
  refine ⟨fun ⟨_, h, _⟩ => h.symm, fun h => ⟨hp, h.symm, fun q hq => ?_⟩⟩
  rw [h]
  exact hnd.getElem_inj_iff.not.mpr hq.ne

variable [AddMonoid K]

/-- The sum at one position, over loops that append their contributions. -/
theorem sum_flatMap_range {ι : Type} {n : Nat} {f : Nat → List (ι × K)} {g : ι × K → K} :
    (((List.range n).flatMap f).map g).sum = sumTo n fun i => ((f i).map g).sum := by
  rw [sumTo]
  induction List.range n with
  | nil => rfl
  | cons i l ih => rw [List.flatMap_cons, List.map_append, List.sum_append, ih, List.map_cons,
      List.sum_cons]

variable (halg : algebraic.Evaluated m x) (hset : algebraic.activeSet = m.asvMapping set)
include halg hset

theorem sum_valueContributions (hi : set.asks fn 1) :
    ((valueContributions m algebraic).map fun p => if p.1 = fn then p.2 else 0).sum
      = (m.data x).value fn := by
  rw [valueContributions, sum_flatMap_range]
  refine sumTo_congr fun i hlt => ?_
  by_cases h : m.fnIndex i = fn
  · have hask : algebraic.activeSet.asks i 1 :=
      hset ▸ (m.asks_asvMapping set i 1).mpr ⟨hlt, h ▸ hi⟩
    rw [if_pos hask, if_pos h]
    simp [h, halg.value hask]
  · rw [if_neg h]
    split <;> simp [h]

theorem sum_gradientContributions (hnd : dvv.Nodup) {p a : Nat} (ha : dvv[p]? = some a)
    (hi : set.asks fn 2) :
    ((gradientContributions m algebraic dvv).map fun q => if q.1 = (p, fn) then q.2 else 0).sum
      = (m.data x).gradient fn a := by
  rw [gradientContributions, sum_flatMap_range]
  refine sumTo_congr fun i hlt => ?_
  by_cases h : m.fnIndex i = fn
  · have hask : algebraic.activeSet.asks i 2 :=
      hset ▸ (m.asks_asvMapping set i 2).mpr ⟨hlt, h ▸ hi⟩
    rw [if_pos hask, sum_flatMap_range]
    refine sumTo_congr fun j hj => ?_
    have hidx := dvvIndex_eq_some (m := m) (j := j) hnd ha
    simp only [← hidx, ← halg.gradient hask hj]
    cases dvvIndex m dvv j <;> simp [h]
  · simp only [h, false_and, if_false]
    split
    · rw [sum_flatMap_range]
      refine sumTo_congr fun j _ => ?_
      split <;> simp [h]
    · simp [sumTo]

theorem sum_hessianContributions (hnd : dvv.Nodup) {p q a b : Nat} (ha : dvv[p]? = some a)
    (hb : dvv[q]? = some b) (hqp : q ≤ p) (hi : set.asks fn 4) :
    ((hessianContributions m algebraic dvv).map fun e => if e.1 = (fn, p, q) then e.2 else 0).sum
      = (m.data x).hessian fn a b := by
  rw [hessianContributions, sum_flatMap_range]
  refine sumTo_congr fun i hlt => ?_
  by_cases h : m.fnIndex i = fn
  · have hask : algebraic.activeSet.asks i 4 :=
      hset ▸ (m.asks_asvMapping set i 4).mpr ⟨hlt, h ▸ hi⟩
    rw [if_pos hask, sum_flatMap_range]
    refine sumTo_congr fun j hj => ?_
    rw [sum_flatMap_range]
    refine sumTo_congr fun k hk => ?_
    have hja := dvvIndex_eq_some (m := m) (j := j) hnd ha
    have hjb := dvvIndex_eq_some (m := m) (j := j) hnd hb
    have hka := dvvIndex_eq_some (m := m) (j := k) hnd ha
    have hkb := dvvIndex_eq_some (m := m) (j := k) hnd hb
    simp only [← hja, ← hjb, ← hka, ← hkb, ← halg.hessian hask hj (Nat.lt_succ_iff.mp hk)]
    rcases dvvIndex m dvv j with _ | p' <;> rcases dvvIndex m dvv k with _ | q' <;> simp [h]
    -- The stored position is the larger index first.
    congr 1
    rw [eq_iff_iff]
    omega
  · simp only [h, false_and, if_false]
    split
    · rw [sum_flatMap_range]
      refine sumTo_congr fun j _ => ?_
      rw [sum_flatMap_range]
      refine sumTo_congr fun k _ => ?_
      split <;> simp [h]
    · simp [sumTo]

end Sums

/-- **One algebraic contribution.** From core data for the requests of `set`, the mapped response
has the core data and the algebraic data, for the functions and variable ids these belong to. -/
theorem HasFor.responseMapping [AddMonoid K] {m : AlgebraicMappings X K} {x : X}
    {algebraic core total r : Response K} {set : ActiveSet} {d : FunctionData K}
    (hcore : core.HasFor set d)
    (h : Response.responseMapping m algebraic true core total = .ok r)
    (halg : algebraic.Evaluated m x) (hset : algebraic.activeSet = m.asvMapping set)
    (hasks : ∀ {i bits : Nat}, set.asks i bits → core.activeSet.asks i bits)
    (hdvv : total.activeSet.derivVarsVector = set.derivVarsVector)
    (hnd : set.derivVarsVector.Nodup) :
    r.HasFor set (d + m.data x) := by
  simp only [Response.responseMapping, if_true] at h
  split_ifs at h
  cases h
  refine ⟨fun {i} hi => ?_, fun {i j a} hi ha => ?_, fun {i j k a b} hi ha hb hk => ?_⟩
  · simp only [addAlgebraic, accumulate_apply]
    rw [sum_valueContributions halg hset hi, FunctionData.value_add, ← hcore.value hi]
    simp [copyCore, hasks hi]
  · simp only [addAlgebraic, accumulate_apply, copyCore, resetInactive, hdvv]
    rw [sum_gradientContributions halg hset hnd ha hi, FunctionData.gradient_add,
      ← hcore.gradient hi ha, if_pos (hasks hi)]
  · simp only [addAlgebraic, accumulate_apply, copyCore, resetInactive, hdvv]
    rw [sum_hessianContributions halg hset hnd ha hb hk hi, FunctionData.hessian_add,
      ← hcore.hessian hi ha hb hk, if_pos (hasks hi)]

/-- The mapped response has the set and the arrays of the total one. -/
theorem responseMapping_same [AddMonoid K] {m : AlgebraicMappings X K}
    {algebraic core total r : Response K}
    (h : Response.responseMapping m algebraic true core total = .ok r) :
    r.activeSet = total.activeSet ∧ r.numGradients = total.numGradients ∧
      r.numHessians = total.numHessians := by
  simp only [Response.responseMapping, if_true] at h
  split_ifs at h
  cases h
  exact ⟨rfl, rfl, rfl⟩

end Response

end Dakota
