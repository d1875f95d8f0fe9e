import Dakota.Lib.RangeLoop

/-!
# The composite objective

`Minimizer::objective` (`src/src/DakotaMinimizer.cpp`): primary functions with their senses and
weights, as one objective. They are objective functions, of which it is a weighted sum, or terms of
least squares, of which it is a weighted sum of squares.

* `objective_of_moo`, `objective_of_nls`: the loops as sums, with `coef` and `lsqWeight` for the
  sense, the weight and the default of each function.
-/

namespace Dakota

variable {K : Type} [Field K]

/-- The primary functions: whether they are objective functions, their number, and their senses and
weights, where an empty list stands for the default. -/
structure PrimaryFns (K : Type) where
  optimizationFlag : Bool
  numFns : ℕ
  maxSense : List Bool
  weights : List K

namespace PrimaryFns

variable (p : PrimaryFns K)

/-- `use_sense && max_sense[i]` -/
def maximized (i : ℕ) : Bool := !p.maxSense.isEmpty && p.maxSense.getD i false

/-- `primary_wts[i]` -/
def weight (i : ℕ) : K := p.weights.getD i 0

/-- `objective(fn_vals, num_fns, max_sense, primary_wts)` -/
def objective (fnVals : ℕ → K) : K :=
  if p.optimizationFlag then
    if p.weights.isEmpty then
      let objFn := (List.range p.numFns).foldl
        (fun objFn i => if p.maximized i then objFn - fnVals i else objFn + fnVals i) 0
      if p.numFns > 1 then objFn / p.numFns else objFn
    else
      (List.range p.numFns).foldl (fun objFn i =>
        if p.maximized i then objFn - p.weight i * fnVals i
        else objFn + p.weight i * fnVals i) 0
  else if p.weights.isEmpty then
    (List.range p.numFns).foldl (fun objFn i => objFn + fnVals i ^ 2) 0
  else
    (List.range p.numFns).foldl (fun objFn i => objFn + p.weight i * fnVals i ^ 2) 0

/-- The weight of an objective function, or its default. -/
def mooWeight (i : ℕ) : K :=
  if p.weights.isEmpty then if p.numFns > 1 then 1 / p.numFns else 1 else p.weight i

/-- The factor of an objective function, with its sense. -/
def coef (i : ℕ) : K := if p.maximized i then -p.mooWeight i else p.mooWeight i

/-- The weight of a term of least squares, or its default. -/
def lsqWeight (i : ℕ) : K := if p.weights.isEmpty then 1 else p.weight i

variable {p} {fnVals : ℕ → K}

omit [Field K] in
/-- A loop that subtracts what is to be maximized and adds the rest. -/
theorem foldl_sense {A : Type} [AddCommGroup A] (f : ℕ → A) (n : ℕ) :
    (List.range n).foldl (fun sum i => if p.maximized i then sum - f i else sum + f i) 0 =
      ∑ i ∈ Finset.range n, if p.maximized i then -f i else f i := by
  rw [← zero_add (∑ i ∈ Finset.range n, _), ← foldl_range_add]
  congr 1
  funext sum i
  split_ifs
  · exact sub_eq_add_neg _ _
  · rfl

theorem objective_of_moo (h : p.optimizationFlag = true) :
    p.objective fnVals = ∑ i ∈ Finset.range p.numFns, p.coef i * fnVals i := by
  rw [objective, if_pos h]
  simp only [foldl_sense, coef, mooWeight]
  split_ifs with hw hn
  · rw [Finset.sum_div]
    refine Finset.sum_congr rfl fun i _ => ?_
    split_ifs <;> ring
  · refine Finset.sum_congr rfl fun i _ => ?_
    split_ifs <;> ring
  · refine Finset.sum_congr rfl fun i _ => ?_
    split_ifs <;> ring

theorem objective_of_nls (h : p.optimizationFlag = false) :
    p.objective fnVals = ∑ i ∈ Finset.range p.numFns, p.lsqWeight i * fnVals i ^ 2 := by
  rw [objective, if_neg (by simp [h])]
  simp only [foldl_range_add, zero_add, lsqWeight]
  split_ifs
  · exact Finset.sum_congr rfl fun i _ => (one_mul _).symm
  · rfl

end PrimaryFns

end Dakota
