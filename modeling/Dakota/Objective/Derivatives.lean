import Dakota.Lib.Differential
import Dakota.Objective.Composite

/-!
# Derivatives of the composite objective

`Minimizer::objective_gradient` and `Minimizer::objective_hessian`
(`src/src/DakotaMinimizer.cpp`).

* `term`, `slope`, `curvature`: the part of one primary function in the objective, and its
  derivatives. `objective_eq`, `objectiveGradient_eq`, `objectiveHessian_eq`: the loops in these
  terms.
* `hasGradAt_composite`, `hasHessAt_composite`: these sums are the derivatives of the objective.
-/

namespace Dakota.PrimaryFns

open Differential

section

variable {K : Type} [Field K] (p : PrimaryFns K)

/-! ## The source -/

section

variable {V : Type} [AddCommGroup V] [Module K V]

/-- The loops over gradients and Hessians of objective functions. -/
def mooSum (data : ℕ → V) : V :=
  if p.weights.isEmpty then
    let sum := (List.range p.numFns).foldl
      (fun sum i => if p.maximized i then sum - data i else sum + data i) 0
    if p.numFns > 1 then (1 / (p.numFns : K)) • sum else sum
  else
    (List.range p.numFns).foldl (fun sum i =>
      if p.maximized i then sum - p.weight i • data i else sum + p.weight i • data i) 0

/-- `objective_gradient` -/
def objectiveGradient (fnVals : ℕ → K) (fnGrads : ℕ → V) : V :=
  if p.optimizationFlag then p.mooSum fnGrads
  else
    (List.range p.numFns).foldl (fun objGrad i =>
      let wt2FnVal := 2 * fnVals i
      let wt2FnVal := if p.weights.isEmpty then wt2FnVal else wt2FnVal * p.weight i
      objGrad + wt2FnVal • fnGrads i) 0

end

/-- The primary data that `objective_hessian` is given, and which of the arrays are empty. -/
structure HessianData (K : Type) where
  fnVals : ℕ → K
  fnGrads : ℕ → ℕ → K
  fnHessians : ℕ → ℕ → ℕ → K
  valsEmpty : Bool
  gradsEmpty : Bool
  hessiansEmpty : Bool

/-- `objective_hessian`, or `none` where it aborts. -/
def objectiveHessian (d : HessianData K) : Option (ℕ → ℕ → K) :=
  if p.optimizationFlag then some fun j k => p.mooSum fun i => d.fnHessians i j k
  else if d.gradsEmpty then none
  else if d.hessiansEmpty || d.valsEmpty then
    -- Gauss-Newton
    if p.weights.isEmpty then
      some fun j k => 2 * (List.range p.numFns).foldl
        (fun sum i => sum + d.fnGrads i j * d.fnGrads i k) 0
    else
      some fun j k => 2 * (List.range p.numFns).foldl
        (fun sum i => sum + p.weight i * d.fnGrads i j * d.fnGrads i k) 0
  else if p.weights.isEmpty then
    some fun j k => 2 * (List.range p.numFns).foldl (fun sum i =>
      sum + (d.fnGrads i j * d.fnGrads i k + d.fnVals i * d.fnHessians i j k)) 0
  else
    some fun j k => 2 * (List.range p.numFns).foldl (fun sum i =>
      sum + p.weight i * (d.fnGrads i j * d.fnGrads i k + d.fnVals i * d.fnHessians i j k)) 0

/-! ## One primary function -/

/-- What primary function `i` with the value `t` adds to the objective. -/
def term (i : ℕ) (t : K) : K :=
  if p.optimizationFlag then p.coef i * t else p.lsqWeight i * t ^ 2

def slope (i : ℕ) (t : K) : K :=
  if p.optimizationFlag then p.coef i else 2 * p.lsqWeight i * t

def curvature (i : ℕ) : K := if p.optimizationFlag then 0 else 2 * p.lsqWeight i

variable {p} {fnVals : ℕ → K}

theorem objective_eq : p.objective fnVals = ∑ i ∈ Finset.range p.numFns, p.term i (fnVals i) := by
  unfold term
  cases h : p.optimizationFlag with
  | true => simp [objective_of_moo h]
  | false => simp [objective_of_nls h]

section

variable {V : Type} [AddCommGroup V] [Module K V]

theorem mooSum_eq (data : ℕ → V) :
    p.mooSum data = ∑ i ∈ Finset.range p.numFns, p.coef i • data i := by
  simp only [mooSum, foldl_sense, coef, mooWeight]
  split_ifs with hw hn
  · rw [Finset.smul_sum]
    refine Finset.sum_congr rfl fun i _ => ?_
    split_ifs <;> simp
  · refine Finset.sum_congr rfl fun i _ => ?_
    split_ifs <;> simp
  · refine Finset.sum_congr rfl fun i _ => ?_
    split_ifs <;> simp

theorem objectiveGradient_eq (fnGrads : ℕ → V) : p.objectiveGradient fnVals fnGrads =
    ∑ i ∈ Finset.range p.numFns, p.slope i (fnVals i) • fnGrads i := by
  unfold objectiveGradient slope
  cases h : p.optimizationFlag with
  | true => simp [mooSum_eq]
  | false =>
    simp only [Bool.false_eq_true, if_false, foldl_range_add, zero_add, lsqWeight]
    refine Finset.sum_congr rfl fun i _ => ?_
    congr 1
    split_ifs <;> ring

end

/-- With Hessians, or for objective functions. -/
theorem objectiveHessian_eq {d : HessianData K} (hvals : d.valsEmpty = false)
    (hgrads : p.optimizationFlag = false → d.gradsEmpty = false) (hhess : d.hessiansEmpty = false) :
    p.objectiveHessian d = some fun j k => ∑ i ∈ Finset.range p.numFns,
      (p.slope i (d.fnVals i) * d.fnHessians i j k +
        p.curvature i * (d.fnGrads i j * d.fnGrads i k)) := by
  unfold objectiveHessian slope curvature
  cases h : p.optimizationFlag with
  | true => simp [mooSum_eq]
  | false =>
    simp only [Bool.false_eq_true, if_false, hvals, hgrads h, hhess, Bool.or_false, foldl_range_add,
      zero_add, lsqWeight]
    split_ifs <;> refine congrArg some (funext fun j => funext fun k => ?_) <;>
      rw [Finset.mul_sum] <;> refine Finset.sum_congr rfl fun i _ => ?_ <;> ring

/-- Without Hessians. -/
theorem objectiveHessian_gaussNewton {d : HessianData K} (h : p.optimizationFlag = false)
    (hgrads : d.gradsEmpty = false) (hhess : d.hessiansEmpty = true) :
    p.objectiveHessian d = some fun j k => 2 * ∑ i ∈ Finset.range p.numFns,
      p.lsqWeight i * (d.fnGrads i j * d.fnGrads i k) := by
  unfold objectiveHessian
  simp only [h, Bool.false_eq_true, if_false, hgrads, hhess, Bool.true_or, if_true,
    foldl_range_add, zero_add, lsqWeight]
  split_ifs
  · simp
  · simp [mul_assoc]

end

/-! ## Calculus -/

section

variable {n : ℕ} (p : PrimaryFns ℝ) {f : ℕ → (Fin n → ℝ) → ℝ} {grad : ℕ → (Fin n → ℝ) → Fin n → ℝ}
  {hess : ℕ → Matrix (Fin n) (Fin n) ℝ} {x : Fin n → ℝ}

/-- The objective of the reduced problem. -/
noncomputable def composite (f : ℕ → (Fin n → ℝ) → ℝ) (y : Fin n → ℝ) : ℝ :=
  ∑ i ∈ Finset.range p.numFns, p.term i (f i y)

noncomputable def compositeGrad (f : ℕ → (Fin n → ℝ) → ℝ) (grad : ℕ → (Fin n → ℝ) → Fin n → ℝ)
    (y : Fin n → ℝ) : Fin n → ℝ :=
  ∑ i ∈ Finset.range p.numFns, p.slope i (f i y) • grad i y

variable {p}

theorem term_twice (i : ℕ) (t : ℝ) : ScalarTwice (p.term i) (p.slope i) (p.curvature i) t := by
  unfold term slope curvature
  cases h : p.optimizationFlag with
  | true =>
    simp only [if_true]
    exact scalarTwice_linear (p.coef i)
  | false =>
    simp only [Bool.false_eq_true, if_false]
    have hquad := scalarTwice_quadratic (s := t) (p.lsqWeight i) 0 0
    simp only [sub_zero, zero_mul, add_zero] at hquad
    convert hquad using 2
    ring

theorem hasGradAt_composite (h : ∀ i < p.numFns, HasGradAt (f i) (grad i x) x) :
    HasGradAt (p.composite f) (p.compositeGrad f grad x) x :=
  HasGradAt.sum fun i hi =>
    HasGradAt.comp (term_twice i (f i x)).first.self_of_nhds (h i (Finset.mem_range.mp hi))

theorem hasHessAt_composite (h : ∀ i < p.numFns, HasHessAt (f i) (grad i) (hess i) x) :
    HasHessAt (p.composite f) (p.compositeGrad f grad)
      (∑ i ∈ Finset.range p.numFns, (p.slope i (f i x) • hess i +
        p.curvature i • Matrix.vecMulVec (grad i x) (grad i x))) x :=
  HasHessAt.sum fun i hi => (h i (Finset.mem_range.mp hi)).comp (term_twice i (f i x))

end

end Dakota.PrimaryFns
