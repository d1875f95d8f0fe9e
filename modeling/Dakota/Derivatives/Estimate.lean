import Dakota.Derivatives.ManageAsv

/-!
# Estimating derivatives

`Model::estimate_derivatives` with synchronous evaluations, and `Model::update_response`
(`src/src/DakotaModel.cpp`): finite difference gradients and Hessians.

* An entry of a response that was not requested has no value (`none`), and what is computed from it
  has none: a derivative has a value only if all of the data it is computed from was requested.
* `variableStage` is the body of the loop over the derivative variables: the gradient, the Hessian by
  function values (central, or with bounded steps) and the Hessian by gradients.
* A Hessian is a symmetric matrix: the cells `(j, k)` and `(k, j)` are one (`setCell`).
-/

namespace Dakota.Derivatives

/-- The functions of the simulation, with their derivatives, at the variables that the steps are
taken in. -/
structure ResponseFunctions (K : Type) (n : Nat) where
  value : Nat → (Fin n → K) → K
  gradient : Nat → (Fin n → K) → Fin n → K
  hessian : Nat → (Fin n → K) → Fin n → Fin n → K

/-- A response: the data that was requested. -/
structure Evaluation (K : Type) (m : Nat) where
  values : Nat → Option K
  gradients : Nat → Fin m → Option K
  hessians : Nat → Fin m → Fin m → Option K

/-- `new_fn_hessians[i](j,k)` -/
abbrev SymMatrices (K : Type) (m : Nat) := Nat → Fin m → Fin m → Option K

def sameCell {m : Nat} (j k j' k' : Fin m) : Bool := (j' = j ∧ k' = k) ∨ (j' = k ∧ k' = j)

/-- `new_fn_hessians[i](j,k) = value[i]` for the functions with a condition. -/
def setCell {K : Type} {m : Nat} (cond : Nat → Bool) (value : Nat → Option K) (j k : Fin m)
    (matrices : SymMatrices K m) : SymMatrices K m :=
  fun i j' k' => if cond i ∧ sameCell j k j' k' then value i else matrices i j' k'

/-- The local variables of `estimate_derivatives`. -/
structure DiffState (K : Type) (n m : Nat) where
  x : Fin n → K
  current : Evaluation K m
  newFnGrads : Fin m → Nat → Option K
  newFnHessians : SymMatrices K m
  dx : Fin m → K
  fx : Fin m → Nat → Option K
  fg : Nat → Fin m → Option K
  mapCounter : Nat

section Formulas

variable {K : Type} [Field K]

/-- `(fn_vals_x_plus_h[i] - fn_vals_x0[i])/h` -/
def forwardDifference (plus f0 : Option K) (h : K) : Option K := do
  return ((← plus) - (← f0)) / h

/-- `(fn_vals_x_plus_h[i] - fn_vals_x_minus_h[i]) / h1` -/
def centralDifference (plus minus : Option K) (h h2 : K) : Option K := do
  return ((← plus) - (← minus)) / (h - h2)

/-- The central difference after short steps. -/
def shortDifference (plus minus f0 : Option K) (h h2 : K) : Option K := do
  return (h2 * h2 * ((← plus) - (← f0)) - h * h * ((← minus) - (← f0))) / (h * h2 * (h2 - h))

/-- The diagonal entry from steps `2 h` and `-2 h`. -/
def centralDiagonal (plus minus f0 : Option K) (h : K) : Option K := do
  return ((← plus) - 2 * (← f0) + (← minus)) / (4 * h * h)

/-- The off-diagonal entry from steps `h` and `-h` in both variables. -/
def centralOffDiagonal (pp pm mp mm : Option K) (h : K) : Option K := do
  return ((← pp) - (← pm) - (← mp) + (← mm)) / (4 * h * h)

/-- The diagonal entry from bounded steps. -/
def boundedDiagonal [DecidableEq K] (f1 f0 f2 : Option K) (h1 h2 : K) : Option K := do
  if h1 + h2 = 0 then return ((← f1) - 2 * (← f0) + (← f2)) / (h1 * h1)
  else
    return (h2 * (← f1) + (h1 - h2) * (← f0) - h1 * (← f2)) / (1 / 2 * h1 * h2 * (h1 - h2))

/-- The off-diagonal entry from bounded steps. -/
def boundedOffDiagonal (f12 f1 f2 f0 : Option K) (h1 h2 : K) : Option K := do
  return ((← f12) - (← f1) - (← f2) + (← f0)) / (h1 * h2)

end Formulas

variable {K : Type} [Field K] [LinearOrder K] {n m : Nat}

/-- `derived_evaluate` with the variables `x` and the request vector `asv`. -/
def derivedEvaluate (F : ResponseFunctions K n) (index : Fin m → Fin n) (x : Fin n → K)
    (asv : Nat → Nat) : Evaluation K m where
  values i := if asv i &&& 1 ≠ 0 then some (F.value i x) else none
  gradients i j := if asv i &&& 2 ≠ 0 then some (F.gradient i x (index j)) else none
  hessians i j k := if asv i &&& 4 ≠ 0 then some (F.hessian i x (index j) (index k)) else none

variable (cfg : DiffSettings K) (F : ResponseFunctions K n) (p : DiffPoint K n m)
  (splits : List FnSplit) (initial : Evaluation K m)

def mapAsv (i : Nat) : Nat := (splits.getD i {}).map

def fdGradAsv (i : Nat) : Nat := (splits.getD i {}).fdGrad

def fdHessAsv (i : Nat) : Nat := (splits.getD i {}).fdHess

def fdGradFlag : Bool := splits.any fun s => s.fdGrad ≠ 0

def fdHessFlag : Bool := splits.any fun s => s.fdHess ≠ 0

def fdHessByFnFlag : Bool := splits.any fun s => s.fdHess &&& 1 ≠ 0

def fdHessByGradFlag : Bool := splits.any fun s => s.fdHess &&& 2 ≠ 0

/-- `ifg` before function `i`: the rows of `fg` that the functions before it have. -/
def ifg (i : Nat) : Nat := (splits.take i).countP (fun s => s.fdHess &&& 2 ≠ 0) * m

/-- `x[a] = v` -/
def DiffState.setX (s : DiffState K n m) (a : Fin n) (v : K) : DiffState K n m :=
  { s with x := Function.update s.x a v }

/-- `derived_evaluate` at the current `x`. -/
def DiffState.evaluate (s : DiffState K n m) (asv : Nat → Nat) : DiffState K n m :=
  { s with current := derivedEvaluate F p.index s.x asv, mapCounter := s.mapCounter + 1 }

/-- The variables `x` at which `x[a] = v`, and the function values there. -/
def DiffState.valuesAt (s : DiffState K n m) (asv : Nat → Nat) (a : Fin n) (v : K) :
    DiffState K n m × (Nat → Option K) :=
  let s := (s.setX a v).evaluate F p asv
  (s, s.current.values)

/-- The row of variable `j` of the numerical gradients. -/
def DiffState.setGradRow (s : DiffState K n m) (j : Fin m) (cond : Nat → Bool)
    (row : Nat → Option K) : DiffState K n m :=
  { s with newFnGrads := fun j' i => if j' = j ∧ cond i then row i else s.newFnGrads j' i }

/-- The gradient part for variable `j`. -/
def gradStage (j : Fin m) (s : DiffState K n m) : Except DerivError (DiffState K n m) := do
  let a := p.index j
  let first ← forwardGradStep cfg p j
  let (s, plus) := s.valuesAt F p (fdGradAsv splits) a (p.x0 a + first.1)
  match cfg.intervalType with
  | .forward =>
    return s.setGradRow j (fun i => fdGradAsv splits i ≠ 0) fun i =>
      forwardDifference (plus i) (initial.values i) first.1
  | .central =>
    let second := secondStep cfg p first j
    let (s, minus) := s.valuesAt F p (fdGradAsv splits) a (p.x0 a + second.1)
    return s.setGradRow j (fun _ => true) fun i =>
      if second.2 then shortDifference (plus i) (minus i) (initial.values i) first.1 second.1
      else centralDifference (plus i) (minus i) first.1 second.1

/-- The Hessian offset of `centralHess`, which has the sign of the variable. -/
def centralStep (j : Fin m) : Except DerivError K := do
  let x := p.x0 (p.index j)
  let stepSize ← orError .noStepSize (stepSizeOf cfg.fdHessByFnStepSize m (p.index j))
  let hMag := stepSize * max |x| (1 / 100)
  return if x < 0 then -hMag else hMag

/-- An off-diagonal term of the central Hessian. -/
def centralCell (j : Fin m) (h : K) (s : DiffState K n m) (k : Fin m) : DiffState K n m :=
  let a := p.index j
  let b := p.index k
  let asv := fdHessAsv splits
  let (s, pp) := (s.setX a (p.x0 a + h)).valuesAt F p asv b (p.x0 b + h)
  let (s, pm) := s.valuesAt F p asv b (p.x0 b - h)
  let (s, mp) := (s.setX a (p.x0 a - h)).valuesAt F p asv b (p.x0 b + h)
  let (s, mm) := s.valuesAt F p asv b (p.x0 b - h)
  let s := { s with
    newFnHessians := setCell (fun _ => true)
      (fun i => centralOffDiagonal (pp i) (pm i) (mp i) (mm i) h) j k s.newFnHessians }
  s.setX b (p.x0 b)

/-- The diagonal term of the central Hessian. -/
def centralDiagonalTerm (j : Fin m) (h : K) (s : DiffState K n m) : DiffState K n m :=
  let a := p.index j
  let asv := fdHessAsv splits
  let (s, plus) := s.valuesAt F p asv a (p.x0 a + 2 * h)
  let (s, minus) := s.valuesAt F p asv a (p.x0 a - 2 * h)
  { s with
    newFnHessians := setCell (fun i => fdHessAsv splits i &&& 1 ≠ 0)
      (fun i => centralDiagonal (plus i) (minus i) (initial.values i) h) j j s.newFnHessians }

/-- The Hessian by central differences of function values, for variable `j`. -/
def centralHessStage (j : Fin m) (s : DiffState K n m) : Except DerivError (DiffState K n m) := do
  let h ← centralStep cfg p j
  let s := centralDiagonalTerm F p splits initial j h s
  return ((List.finRange m).drop (j + 1)).foldl (centralCell F p splits j h) s

/-- An off-diagonal term of the Hessian with bounded steps. -/
def boundedCell (j : Fin m) (h1 : K) (f1 : Nat → Option K) (s : DiffState K n m) (k : Fin m) :
    DiffState K n m :=
  let a := p.index j
  let b := p.index k
  let h2 := s.dx k
  let (s, f12) := (s.setX a (p.x0 a + h1)).valuesAt F p (fdHessAsv splits) b (p.x0 b + h2)
  let s := { s with
    newFnHessians := setCell (fun _ => true)
      (fun i => boundedOffDiagonal (f12 i) (f1 i) (s.fx k i) (initial.values i) h1 h2) j k
      s.newFnHessians }
  s.setX b (p.x0 b)

/-- The diagonal term of the Hessian with bounded steps; the first step and the values after it are
stored. -/
def boundedDiagonalTerm (j : Fin m) (h1 h2 : K) (s : DiffState K n m) : DiffState K n m :=
  let a := p.index j
  let asv := fdHessAsv splits
  let s := { s with dx := Function.update s.dx j h1 }
  let (s, f1) := s.valuesAt F p asv a (p.x0 a + h1)
  let s := { s with fx := Function.update s.fx j f1 }
  let (s, f2) := s.valuesAt F p asv a (p.x0 a + h2)
  { s with
    newFnHessians := setCell (fun i => fdHessAsv splits i &&& 1 ≠ 0)
      (fun i => boundedDiagonal (f1 i) (initial.values i) (f2 i) h1 h2) j j s.newFnHessians }

/-- The Hessian by differences of function values with bounded steps, for variable `j`. -/
def boundedHessStage (j : Fin m) (s : DiffState K n m) : Except DerivError (DiffState K n m) := do
  let first ← firstStep cfg p cfg.fdHessByFnStepSize 2 cfg.fdHessStepType j
  let second := secondStep cfg p first j
  let s := boundedDiagonalTerm F p splits initial j first.1 second.1 s
  -- `fn_vals_x1` is `fx[j]`
  return ((List.finRange m).take j).foldl (boundedCell F p splits initial j first.1 (s.fx j)) s

/-- `fg[ifg]` for each function with a Hessian by gradients. -/
def setGradDifferences (j : Fin m) (row : Nat → Fin m → Option K) (fg : Nat → Fin m → Option K) :
    Nat → Fin m → Option K :=
  ((List.range splits.length).filter fun i => fdHessAsv splits i &&& 2 ≠ 0).foldl
    (fun fg i => Function.update fg (ifg (m := m) splits i + j) (row i)) fg

/-- The Hessian by differences of gradients, for variable `j`. -/
def gradHessStage (j : Fin m) (s : DiffState K n m) : Except DerivError (DiffState K n m) := do
  let a := p.index j
  let first ← firstStep cfg p cfg.fdHessByGradStepSize 1 cfg.fdHessStepType j
  let s := (s.setX a (p.x0 a + first.1)).evaluate F p (fdHessAsv splits)
  return { s with
    fg := setGradDifferences splits j (fun i k =>
      forwardDifference (s.current.gradients i k) (initial.gradients i k) first.1) s.fg }

/-- The Hessian by function values, for variable `j`. -/
def byFnStage (j : Fin m) (s : DiffState K n m) : Except DerivError (DiffState K n m) :=
  if cfg.centralHess then centralHessStage cfg F p splits initial j s
  else boundedHessStage cfg F p splits initial j s

/-- The Hessian part for variable `j`. -/
def hessStage (j : Fin m) (s : DiffState K n m) : Except DerivError (DiffState K n m) := do
  let s ← runIf (fdHessByFnFlag splits) (byFnStage cfg F p splits initial j) s
  runIf (fdHessByGradFlag splits) (gradHessStage cfg F p splits initial j) s

/-- The loop body for variable `j`. A fixed variable has a zero gradient, and the loop goes on to
the next one. -/
def variableStage (s : DiffState K n m) (j : Fin m) : Except DerivError (DiffState K n m) :=
  if fdGradFlag splits ∧ !cfg.ignoreBounds ∧ ¬ (fdLower cfg p j).lt (fdUpper cfg p j) then
    .ok (s.setGradRow j (fun i => fdGradAsv splits i ≠ 0) fun _ => some 0)
  else do
    let s ← runIf (fdGradFlag splits) (gradStage cfg F p splits initial j) s
    let s ← runIf (fdHessFlag splits) (hessStage cfg F p splits initial j) s
    return s.setX (p.index j) (p.x0 (p.index j))

/-- `H' = 1/2 (H + H^T)` for the Hessians by gradients. -/
def symmetrize (s : DiffState K n m) : SymMatrices K m := fun i j k =>
  let row (j k : Fin m) := s.fg (ifg (m := m) splits i + j) k
  if fdHessAsv splits i &&& 2 ≠ 0 then
    if j = k then row j j
    else do return 1 / 2 * ((← row (max j k) (min j k)) + (← row (min j k) (max j k)))
  else s.newFnHessians i j k

/-- `update_response` of the response `response`, for the request vector `asv`. -/
def updateResponse (quasiHessians : Nat → Fin m → Fin m → K) (asv : Nat → Nat)
    (newFnGrads : Fin m → Nat → Option K) (newFnHessians : SymMatrices K m)
    (response : Evaluation K m) : Evaluation K m :=
  let any (f : FnSplit → Nat) (bits : Nat) : Bool := splits.any fun s => f s &&& bits ≠ 0
  let initialMap := splits.any fun s => s.map ≠ 0
  let quasi (i : Nat) : Nat := (splits.getD i {}).quasiHess
  let quasiHessFlag := splits.any fun s => s.quasiHess ≠ 0
  let values := if any FnSplit.map 1 then initial.values else response.values
  let gradients :=
    if initialMap then
      if fdGradFlag splits then fun i j =>
        if fdGradAsv splits i ≠ 0 then newFnGrads j i
        else if any FnSplit.map 2 then initial.gradients i j else some 0
      else if any FnSplit.map 2 then initial.gradients else response.gradients
    else if fdGradFlag splits then fun i j => newFnGrads j i
    else response.gradients
  let hessians :=
    if initialMap ∨ cfg.hessianType = .mixed then
      if fdHessFlag splits ∨ quasiHessFlag then fun i j k =>
        if quasi i ≠ 0 then some (quasiHessians i j k)
        else if fdHessAsv splits i ≠ 0 then newFnHessians i j k
        else if any FnSplit.map 4 then initial.hessians i j k else none
      else if any FnSplit.map 4 then initial.hessians else response.hessians
    else if fdHessFlag splits then newFnHessians
    else if quasiHessFlag then fun i j k => some (quasiHessians i j k)
    else response.hessians
  -- `reset_inactive`
  { values := fun i => if asv i &&& 1 ≠ 0 then values i else some 0
    gradients := fun i j => if asv i &&& 2 ≠ 0 then gradients i j else some 0
    hessians := fun i j k => if asv i &&& 4 ≠ 0 then hessians i j k else some 0 }

/-- Whether the initial map has requests that the evaluation did not. -/
def augmentedData (asv : Nat → Nat) : Bool :=
  (List.range splits.length).any fun i =>
    (mapAsv splits i &&& 1 ≠ 0 ∧ asv i &&& 1 = 0) ∨ (mapAsv splits i &&& 2 ≠ 0 ∧ asv i &&& 2 = 0)

/-- The state before the loop: the initial map, from the data base (`found`) or from the
simulation. -/
def initialMap (asv : Nat → Nat) (found : Bool) (current : Evaluation K m) :
    Evaluation K m × DiffState K n m :=
  let mapped := derivedEvaluate F p.index p.x0 (mapAsv splits)
  let s : DiffState K n m := {
    x := p.x0
    current := current
    newFnGrads := fun _ _ => some 0
    newFnHessians := fun _ _ _ => some 0
    dx := fun _ => 0
    fx := fun _ _ => none
    fg := fun _ _ => some 0
    mapCounter := 0 }
  if !splits.any (fun s => s.map ≠ 0) ∨ (augmentedData splits asv ∧ found) then (mapped, s)
  else (mapped, { s with current := mapped, mapCounter := 1 })

/-- `estimate_derivatives` with synchronous evaluations: the response and the number of
evaluations. -/
def estimateDerivatives (quasiHessians : Nat → Fin m → Fin m → K) (asv : Nat → Nat) (found : Bool)
    (current : Evaluation K m) : Except DerivError (Evaluation K m × Nat) := do
  let (initial, s) := initialMap F p splits asv found current
  let s ← runIf (fdGradFlag splits ∨ fdHessFlag splits)
    (fun s => (List.finRange m).foldlM (variableStage cfg F p splits initial) s) s
  let hessians := if fdHessByGradFlag splits then symmetrize splits s else s.newFnHessians
  return (updateResponse cfg splits initial quasiHessians asv s.newFnGrads hessians s.current,
    s.mapCounter)

end Dakota.Derivatives
