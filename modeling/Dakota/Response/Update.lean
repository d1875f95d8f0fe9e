import Dakota.Lib.Numerals
import Mathlib

/-!
# Responses

`ActiveSet` and `Response` (`src/src/DakotaActiveSet.hpp`, `src/src/DakotaResponse.cpp`): requested
sets of data, the data, and the copy from one response to another in `Response::update`.

* A request is a bit of the request vector: 1 for the value of a function, 2 for its gradient, 4
  for its Hessian. Derivatives are with respect to the ids in the derivative variables vector.
* The rows of a gradient and of a Hessian are positions in that vector. `FunctionData` has the same
  data by variable id, and `Response.Has` is what a response has to do with it.
* The real numbers are a type `K`, of which `update` needs the zero only.
-/

namespace Dakota

structure ActiveSet where
  requestVector : List Nat
  derivVarsVector : List Nat
deriving DecidableEq

namespace ActiveSet

/-- `asv[i] & bits` -/
def asks (set : ActiveSet) (i bits : Nat) : Bool := set.requestVector.getD i 0 &&& bits ≠ 0

abbrev numFns (set : ActiveSet) : Nat := set.requestVector.length

abbrev numParams (set : ActiveSet) : Nat := set.derivVarsVector.length

/-- `grad_flag`, `hess_flag` or `deriv_flag`: whether some function is asked for one of the bits. -/
def flag (set : ActiveSet) (bits : Nat) : Bool := set.requestVector.any (· &&& bits ≠ 0)

/-- `set_compare`: the stored set answers the search set. -/
def setCompare (stored search : ActiveSet) : Bool :=
  stored.numFns = search.numFns ∧
    (∀ p ∈ stored.requestVector.zip search.requestVector, p.1 &&& p.2 = p.2) ∧
    (search.flag 6 → ∀ id ∈ search.derivVarsVector, id ∈ stored.derivVarsVector)

variable {set stored search : ActiveSet} {i bits : Nat}

theorem lt_of_asks (h : set.asks i bits) : i < set.numFns := by
  by_contra hi
  simp [asks, List.getD, List.getElem?_eq_none (not_lt.mp hi)] at h

theorem flag_iff : set.flag bits ↔ ∃ i, set.asks i bits := by
  simp only [flag, asks, List.any_eq_true, decide_eq_true_eq, List.getD]
  constructor
  · rintro ⟨b, hb, hne⟩
    obtain ⟨i, hi, rfl⟩ := List.mem_iff_getElem.mp hb
    exact ⟨i, by simpa [List.getElem?_eq_getElem hi] using hne⟩
  · rintro ⟨i, hne⟩
    cases hi : set.requestVector[i]? with
    | none => simp [hi] at hne
    | some b => exact ⟨b, List.mem_of_getElem? hi, by simpa [hi] using hne⟩

theorem asks_derivs : set.asks i 6 ↔ set.asks i 2 ∨ set.asks i 4 := by
  simp only [asks, decide_eq_true_eq, ne_eq, show (6 : Nat) = 2 ||| 4 from rfl,
    Nat.and_or_distrib_left, Nat.or_eq_zero_iff, not_and_or]

theorem flag_derivs : set.flag 6 ↔ set.flag 2 ∨ set.flag 4 := by
  simp only [flag_iff, asks_derivs, exists_or]

theorem setCompare.numFns_eq (h : setCompare stored search) : stored.numFns = search.numFns :=
  (of_decide_eq_true h).1

theorem setCompare.mem (h : setCompare stored search) (hd : search.flag 6) :
    ∀ id ∈ search.derivVarsVector, id ∈ stored.derivVarsVector :=
  (of_decide_eq_true h).2.2 hd

/-- What the search set asks for, the stored set has asked for. -/
theorem setCompare.asks (h : setCompare stored search) (hs : search.asks i bits) :
    stored.asks i bits := by
  have hi : i < search.requestVector.length := lt_of_asks hs
  have hi' : i < stored.requestVector.length := hi.trans_eq (numFns_eq h).symm
  have hsub : stored.requestVector[i] &&& search.requestVector[i] = search.requestVector[i] :=
    (of_decide_eq_true h).2.1 (stored.requestVector[i], search.requestVector[i])
      (List.mem_iff_getElem.mpr ⟨i, by simp [hi', hi], by simp⟩)
  simp only [ActiveSet.asks, List.getD, List.getElem?_eq_getElem hi, List.getElem?_eq_getElem hi',
    Option.getD_some, decide_eq_true_eq] at hs ⊢
  intro hz
  refine hs ?_
  rw [← hsub, Nat.and_right_comm, hz, Nat.zero_and]

end ActiveSet

/-- The functions at one point, and their derivatives by variable id. -/
structure FunctionData (K : Type) where
  value : Nat → K
  gradient : Nat → Nat → K
  hessian : Nat → Nat → Nat → K
  hessian_symm : ∀ i a b, hessian i a b = hessian i b a

/-- The functions whose first and second derivatives are `c` with respect to the variable `a`, and
0 otherwise. -/
def FunctionData.single {K : Type} [Zero K] (a : Nat) (c : K) : FunctionData K where
  value _ := 0
  gradient _ b := if b = a then c else 0
  hessian _ b b' := if b = a ∧ b' = a then c else 0
  hessian_symm _ _ _ := by simp only [and_comm]

/-- The arrays of derivatives are either empty or sized for all functions, with a row for each
derivative variable; of a Hessian, the entries with `k ≤ j` are stored. -/
structure Response (K : Type) where
  activeSet : ActiveSet
  functionValues : Nat → K
  numGradients : Nat
  functionGradients : Nat → Nat → K
  numHessians : Nat
  functionHessians : Nat → Nat → Nat → K
  metaData : List K

/-- `abort_handler` in the operations on responses. -/
inductive ResponseError where
  /-- `insufficient number of response functions` -/
  | functions
  /-- `insufficient number of derivative variables` -/
  | derivVars
  /-- `insufficient incoming gradient size` -/
  | gradients
  /-- `insufficient incoming Hessian size` -/
  | hessians
  /-- `total number of response functions may not be changed` -/
  | functionsChanged
  /-- `response size mismatch in Interface::response_mapping().` -/
  | responseSize
  /-- `derivative variables size mismatch in Interface::response_mapping().` -/
  | derivVarsSize
  /-- A write to an array of derivatives that is not allocated. -/
  | unallocated
deriving DecidableEq, Repr

namespace Response

variable {K : Type}

/-- The requested data of `source`, position by position, and its metadata. -/
def copyActive (target source : Response K) : Response K :=
  let set := target.activeSet
  { target with
    functionValues := fun i =>
      if set.asks i 1 then source.functionValues i else target.functionValues i
    functionGradients := fun j i =>
      if set.asks i 2 ∧ j < set.numParams then source.functionGradients j i
      else target.functionGradients j i
    functionHessians := fun i j k =>
      if set.asks i 4 ∧ j < set.numParams ∧ k ≤ j then source.functionHessians i j k
      else target.functionHessians i j k
    metaData := source.metaData }

/-- `reset_inactive` -/
def resetInactive [Zero K] (r : Response K) : Response K :=
  { r with
    functionValues := fun i =>
      if i < r.activeSet.numFns ∧ !r.activeSet.asks i 1 then 0 else r.functionValues i
    functionGradients := fun j i =>
      if i < r.numGradients ∧ !r.activeSet.asks i 2 then 0 else r.functionGradients j i
    functionHessians := fun i j k =>
      if i < r.numHessians ∧ !r.activeSet.asks i 4 then 0 else r.functionHessians i j k }

/-- `reset` -/
def reset [Zero K] (r : Response K) : Response K :=
  { r with
    functionValues := fun _ => 0
    functionGradients := fun _ _ => 0
    functionHessians := fun _ _ _ => 0
    metaData := r.metaData.map fun _ => 0 }

/-- The result of `update` on data of sufficient size. The inactive data are only reset if the
sets differ. -/
def updated [Zero K] (target source : Response K) : Response K :=
  let copied := target.copyActive source
  if target.activeSet ≠ source.activeSet then copied.resetInactive else copied

/-- `update`, with the metadata. -/
def update [Zero K] (target source : Response K) : Except ResponseError (Response K) :=
  let set := target.activeSet
  if source.activeSet.numFns < set.numFns then .error .functions
  else if (set.flag 2 || set.flag 4) && source.activeSet.numParams < set.numParams then
    .error .derivVars
  else if set.flag 2 && source.numGradients < set.numFns then .error .gradients
  else if set.flag 4 && source.numHessians < set.numFns then .error .hessians
  else .ok (target.updated source)

/-- `active_set(set)`. The rows of new derivative variables are zero. -/
def setActiveSet [Zero K] (r : Response K) (set : ActiveSet) : Except ResponseError (Response K) :=
  if r.activeSet.numFns ≠ set.numFns then .error .functionsChanged
  else
    let kept := r.activeSet.numParams
    .ok { r with
      activeSet := set
      functionGradients := fun j i => if j < kept then r.functionGradients j i else 0
      functionHessians := fun i j k => if j < kept ∧ k < kept then r.functionHessians i j k else 0 }

/-- A new response for a set: zeros, with the arrays that the set asks for (`shape_rep`). -/
def ofSet [Zero K] (set : ActiveSet) : Response K where
  activeSet := set
  functionValues _ := 0
  numGradients := if set.flag 2 then set.numFns else 0
  functionGradients _ _ := 0
  numHessians := if set.flag 4 then set.numFns else 0
  functionHessians _ _ _ := 0
  metaData := []

/-- The requested arrays are allocated. -/
structure Shaped (r : Response K) : Prop where
  gradients : r.activeSet.flag 2 → r.numGradients = r.activeSet.numFns
  hessians : r.activeSet.flag 4 → r.numHessians = r.activeSet.numFns

/-- The entries that `set` asks for are those of `d`, each for the variable ids of its position. -/
structure HasFor (r : Response K) (set : ActiveSet) (d : FunctionData K) : Prop where
  value : ∀ {i : Nat}, set.asks i 1 → r.functionValues i = d.value i
  gradient : ∀ {i j a : Nat}, set.asks i 2 → set.derivVarsVector[j]? = some a →
    r.functionGradients j i = d.gradient i a
  hessian : ∀ {i j k a b : Nat}, set.asks i 4 → set.derivVarsVector[j]? = some a →
    set.derivVarsVector[k]? = some b → k ≤ j → r.functionHessians i j k = d.hessian i a b

/-- The entries that are requested are those of `d`. -/
abbrev Has (r : Response K) (d : FunctionData K) : Prop := r.HasFor r.activeSet d

/-- The entries that are not requested are zero. -/
structure InactiveZero [Zero K] (r : Response K) : Prop where
  value : ∀ i < r.activeSet.numFns, r.activeSet.asks i 1 = false → r.functionValues i = 0
  gradient : ∀ i < r.numGradients, r.activeSet.asks i 2 = false → ∀ j, r.functionGradients j i = 0
  hessian : ∀ i < r.numHessians, r.activeSet.asks i 4 = false →
    ∀ j k, r.functionHessians i j k = 0

/-- Data in the order of a set's derivative variables. -/
def ofData (set : ActiveSet) (d : FunctionData K) : Response K where
  activeSet := set
  functionValues := d.value
  numGradients := set.numFns
  functionGradients j i := d.gradient i (set.derivVarsVector.getD j 0)
  numHessians := set.numFns
  functionHessians i j k :=
    d.hessian i (set.derivVarsVector.getD j 0) (set.derivVarsVector.getD k 0)
  metaData := []

theorem shaped_ofData (set : ActiveSet) (d : FunctionData K) : (ofData set d).Shaped := ⟨fun _ => rfl, fun _ => rfl⟩

theorem has_ofData (set : ActiveSet) (d : FunctionData K) : (ofData set d).Has d where
  value _ := rfl
  gradient _ ha := by simp only [ofData] at ha ⊢; rw [List.getD, ha, Option.getD_some]
  hessian _ ha hb _ := by
    simp only [ofData] at ha hb ⊢
    rw [List.getD, ha, List.getD, hb, Option.getD_some, Option.getD_some]

end Response

end Dakota
