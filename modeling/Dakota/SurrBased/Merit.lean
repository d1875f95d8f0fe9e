import Dakota.Lib.Numerals
import Mathlib

/-!
# Merit functions

The merit functions of `SurrBasedMinimizer` (`src/src/SurrBasedMinimizer.cpp`) with their gradients
and Hessians, and the update of the multipliers of the augmented Lagrangian. Arrays are functions of
an index, and a loop over the entries of an array is an operation on arrays.

* `ineqLoop`, `eqLoop`: the loops over constraints that all of them have, with the running index of
  multipliers.
* `sides`: the sides of the constraints in the order of these loops. `eqLoop_ineqLoop`: the loops go
  over the sides, and the index of a side is its multiplier slot.
-/

namespace Dakota

/-- Bounds of nonlinear inequalities and targets of nonlinear equalities. -/
structure ConstraintBounds (K : Type) where
  nlnIneqLBnds : ℕ → K
  nlnIneqUBnds : ℕ → K
  nlnEqTgts : ℕ → K

/-- The data of the minimizer, with its objective for the sense and the weights of the primary
functions. -/
structure SurrBasedMinimizer (K : Type) (n : ℕ) where
  numUserPrimaryFns : ℕ
  numNonlinearIneqConstraints : ℕ
  numNonlinearEqConstraints : ℕ
  bigRealBoundSize : K
  constraintTol : K
  penaltyParameter : K
  lagrangeMult : ℕ → K
  augLagrangeMult : ℕ → K
  orig : ConstraintBounds K
  objective : (ℕ → K) → K
  objectiveGradient : (ℕ → K) → (ℕ → Fin n → K) → Fin n → K
  objectiveHessian : (ℕ → K) → (ℕ → Fin n → K) → (ℕ → Matrix (Fin n) (Fin n) K) →
    Matrix (Fin n) (Fin n) K

namespace SurrBasedMinimizer

variable {K : Type} [Field K] [LinearOrder K] {n : ℕ} (m : SurrBasedMinimizer K n)
  (b : ConstraintBounds K)

/-- The index of an inequality among the functions. -/
def ineqFn (i : ℕ) : ℕ := m.numUserPrimaryFns + i

def eqFn (i : ℕ) : ℕ := m.numUserPrimaryFns + m.numNonlinearIneqConstraints + i

/-- `l_bnd > -bigRealBoundSize` -/
def HasLower (i : ℕ) : Prop := b.nlnIneqLBnds i > -m.bigRealBoundSize

/-- `u_bnd < bigRealBoundSize` -/
def HasUpper (i : ℕ) : Prop := b.nlnIneqUBnds i < m.bigRealBoundSize

instance (i : ℕ) : Decidable (m.HasLower b i) := inferInstanceAs (Decidable (_ > _))

instance (i : ℕ) : Decidable (m.HasUpper b i) := inferInstanceAs (Decidable (_ < _))

section

variable {A : Type}

/-- The loop over inequality constraints, with what it does for a lower and an upper bound. -/
def ineqLoop (lower upper : ℕ → ℕ → A → A) (acc : A) : A × ℕ :=
  (List.range m.numNonlinearIneqConstraints).foldl (fun st i =>
    let st := if m.HasLower b i then (lower i st.2 st.1, st.2 + 1) else st
    if m.HasUpper b i then (upper i st.2 st.1, st.2 + 1) else st) (acc, 0)

/-- The loop over equality constraints. -/
def eqLoop (equality : ℕ → ℕ → A → A) (st : A × ℕ) : A :=
  ((List.range m.numNonlinearEqConstraints).foldl
    (fun st i => (equality i st.2 st.1, st.2 + 1)) st).1

end

variable (fnVals : ℕ → K) (fnGrads : ℕ → Fin n → K) (fnHessians : ℕ → Matrix (Fin n) (Fin n) K)

/-! ## The Lagrangian -/

def lagrangianMerit : K :=
  m.eqLoop (fun i cntr lag => lag + m.lagrangeMult cntr * (fnVals (m.eqFn i) - b.nlnEqTgts i))
    (m.ineqLoop b
      (fun i cntr lag =>
        let g0 := b.nlnIneqLBnds i - fnVals (m.ineqFn i)
        if g0 + m.constraintTol > 0 then lag + m.lagrangeMult cntr * g0 else lag)
      (fun i cntr lag =>
        let g0 := fnVals (m.ineqFn i) - b.nlnIneqUBnds i
        if g0 + m.constraintTol > 0 then lag + m.lagrangeMult cntr * g0 else lag)
      (m.objective fnVals))

def lagrangianGradient : Fin n → K :=
  m.eqLoop (fun i cntr lagGrad => lagGrad + m.lagrangeMult cntr • fnGrads (m.eqFn i))
    (m.ineqLoop b
      (fun i cntr lagGrad =>
        if fnVals (m.ineqFn i) < b.nlnIneqLBnds i + m.constraintTol then
          lagGrad - m.lagrangeMult cntr • fnGrads (m.ineqFn i)
        else lagGrad)
      (fun i cntr lagGrad =>
        if fnVals (m.ineqFn i) > b.nlnIneqUBnds i - m.constraintTol then
          lagGrad + m.lagrangeMult cntr • fnGrads (m.ineqFn i)
        else lagGrad)
      (m.objectiveGradient fnVals fnGrads))

def lagrangianHessian : Matrix (Fin n) (Fin n) K :=
  m.eqLoop (fun i cntr lagHess => lagHess + m.lagrangeMult cntr • fnHessians (m.eqFn i))
    (m.ineqLoop b
      (fun i cntr lagHess =>
        if fnVals (m.ineqFn i) < b.nlnIneqLBnds i + m.constraintTol then
          lagHess - m.lagrangeMult cntr • fnHessians (m.ineqFn i)
        else lagHess)
      (fun i cntr lagHess =>
        if fnVals (m.ineqFn i) > b.nlnIneqUBnds i - m.constraintTol then
          lagHess + m.lagrangeMult cntr • fnHessians (m.ineqFn i)
        else lagHess)
      (m.objectiveHessian fnVals fnGrads fnHessians))

/-! ## The augmented Lagrangian -/

/-- `-augLagrangeMult[cntr]/2./penaltyParameter` -/
def augBound (cntr : ℕ) : K := -m.augLagrangeMult cntr / 2 / m.penaltyParameter

def augmentedLagrangianMerit : K :=
  m.eqLoop (fun i cntr augLag =>
      let h0 := fnVals (m.eqFn i) - b.nlnEqTgts i
      augLag + (m.augLagrangeMult cntr + m.penaltyParameter * h0) * h0)
    (m.ineqLoop b
      (fun i cntr augLag =>
        let g0 := b.nlnIneqLBnds i - fnVals (m.ineqFn i)
        let psi := max g0 (m.augBound cntr)
        augLag + (m.augLagrangeMult cntr + m.penaltyParameter * psi) * psi)
      (fun i cntr augLag =>
        let g0 := fnVals (m.ineqFn i) - b.nlnIneqUBnds i
        let psi := max g0 (m.augBound cntr)
        augLag + (m.augLagrangeMult cntr + m.penaltyParameter * psi) * psi)
      (m.objective fnVals))

def augmentedLagrangianGradient : Fin n → K :=
  m.eqLoop (fun i cntr alagGrad =>
      let h0 := fnVals (m.eqFn i) - b.nlnEqTgts i
      alagGrad + (m.augLagrangeMult cntr + 2 * m.penaltyParameter * h0) • fnGrads (m.eqFn i))
    (m.ineqLoop b
      (fun i cntr alagGrad =>
        let g0 := b.nlnIneqLBnds i - fnVals (m.ineqFn i)
        if g0 ≥ m.augBound cntr then
          alagGrad - (m.augLagrangeMult cntr + 2 * m.penaltyParameter * g0) • fnGrads (m.ineqFn i)
        else alagGrad)
      (fun i cntr alagGrad =>
        let g0 := fnVals (m.ineqFn i) - b.nlnIneqUBnds i
        if g0 ≥ m.augBound cntr then
          alagGrad + (m.augLagrangeMult cntr + 2 * m.penaltyParameter * g0) • fnGrads (m.ineqFn i)
        else alagGrad)
      (m.objectiveGradient fnVals fnGrads))

def augmentedLagrangianHessian : Matrix (Fin n) (Fin n) K :=
  m.eqLoop (fun i cntr alagHess =>
      let h0 := fnVals (m.eqFn i) - b.nlnEqTgts i
      alagHess + (m.augLagrangeMult cntr + 2 * m.penaltyParameter * h0) • fnHessians (m.eqFn i))
    (m.ineqLoop b
      (fun i cntr alagHess =>
        let g0 := b.nlnIneqLBnds i - fnVals (m.ineqFn i)
        if g0 ≥ m.augBound cntr then
          alagHess -
            (m.augLagrangeMult cntr + 2 * m.penaltyParameter * g0) • fnHessians (m.ineqFn i)
        else alagHess)
      (fun i cntr alagHess =>
        let g0 := fnVals (m.ineqFn i) - b.nlnIneqUBnds i
        if g0 ≥ m.augBound cntr then
          alagHess +
            (m.augLagrangeMult cntr + 2 * m.penaltyParameter * g0) • fnHessians (m.ineqFn i)
        else alagHess)
      (m.objectiveHessian fnVals fnGrads fnHessians))

/-- `update_augmented_lagrange_multipliers` -/
def updateAugmentedLagrangeMultipliers : ℕ → K :=
  let psi (g0 mult : K) : K := max g0 (-mult / 2 / m.penaltyParameter)
  m.eqLoop (fun i cntr mult =>
      let h0 := fnVals (m.eqFn i) - m.orig.nlnEqTgts i
      Function.update mult cntr (mult cntr + 2 * m.penaltyParameter * h0))
    (m.ineqLoop m.orig
      (fun i cntr mult =>
        let g0 := m.orig.nlnIneqLBnds i - fnVals (m.ineqFn i)
        Function.update mult cntr (mult cntr + 2 * m.penaltyParameter * psi g0 (mult cntr)))
      (fun i cntr mult =>
        let g0 := fnVals (m.ineqFn i) - m.orig.nlnIneqUBnds i
        Function.update mult cntr (mult cntr + 2 * m.penaltyParameter * psi g0 (mult cntr)))
      m.augLagrangeMult)

/-! ## The penalty function -/

/-- `constraint_violation(fn_vals, constraint_tol)` -/
def constraintViolation (tol : K) : K :=
  m.eqLoop (fun i _ constrViol =>
      let absH0Tol := |fnVals (m.eqFn i) - m.orig.nlnEqTgts i| - tol
      if absH0Tol > 0 then constrViol + absH0Tol * absH0Tol else constrViol)
    (m.ineqLoop m.orig
      (fun i _ constrViol =>
        let g0Tol := m.orig.nlnIneqLBnds i - fnVals (m.ineqFn i) - tol
        if g0Tol > 0 then constrViol + g0Tol * g0Tol else constrViol)
      (fun i _ constrViol =>
        let g0Tol := fnVals (m.ineqFn i) - m.orig.nlnIneqUBnds i - tol
        if g0Tol > 0 then constrViol + g0Tol * g0Tol else constrViol)
      0)

def penaltyMerit : K :=
  m.objective fnVals + m.penaltyParameter * m.constraintViolation fnVals m.constraintTol

def penaltyGradient : Fin n → K :=
  m.eqLoop (fun i _ penGrad =>
      let h0 := fnVals (m.eqFn i) - m.orig.nlnEqTgts i
      if h0 > m.constraintTol then
        penGrad + (2 * m.penaltyParameter * (h0 - m.constraintTol)) • fnGrads (m.eqFn i)
      else if h0 < -m.constraintTol then
        penGrad + (2 * m.penaltyParameter * (h0 + m.constraintTol)) • fnGrads (m.eqFn i)
      else penGrad)
    (m.ineqLoop m.orig
      (fun i _ penGrad =>
        let g0Viol := m.orig.nlnIneqLBnds i - fnVals (m.ineqFn i) - m.constraintTol
        if g0Viol > 0 then
          penGrad - (2 * m.penaltyParameter * g0Viol) • fnGrads (m.ineqFn i)
        else penGrad)
      (fun i _ penGrad =>
        let gViol := fnVals (m.ineqFn i) - m.orig.nlnIneqUBnds i - m.constraintTol
        if gViol > 0 then
          penGrad + (2 * m.penaltyParameter * gViol) • fnGrads (m.ineqFn i)
        else penGrad)
      (m.objectiveGradient fnVals fnGrads))

/-! ## Sides -/

end SurrBasedMinimizer

/-- A side of a constraint: a lower or an upper bound of an inequality, or an equality. -/
inductive ConstraintSide
  | lower (i : ℕ)
  | upper (i : ℕ)
  | equality (i : ℕ)
  deriving DecidableEq

namespace SurrBasedMinimizer

variable {K : Type} [Field K] [LinearOrder K] {n : ℕ} (m : SurrBasedMinimizer K n)
  (b : ConstraintBounds K)

/-- The sides of an inequality. -/
def ineqSides (i : ℕ) : List ConstraintSide :=
  (if m.HasLower b i then [.lower i] else []) ++ if m.HasUpper b i then [.upper i] else []

/-- All sides, in the order of the loops. -/
def sides : List ConstraintSide :=
  (List.range m.numNonlinearIneqConstraints).flatMap (m.ineqSides b) ++
    (List.range m.numNonlinearEqConstraints).map .equality

variable {m b} {A : Type} {lower upper equality : ℕ → ℕ → A → A} {acc : A}

/-- What a loop does for a side. -/
def sideStep (lower upper equality : ℕ → ℕ → A → A) (acc : A) : ConstraintSide × ℕ → A
  | (.lower i, slot) => lower i slot acc
  | (.upper i, slot) => upper i slot acc
  | (.equality i, slot) => equality i slot acc

/-- A loop over sides with a running index. -/
def sideLoop (lower upper equality : ℕ → ℕ → A → A) (l : List ConstraintSide) (st : A × ℕ) : A × ℕ :=
  l.foldl (fun st side => (sideStep lower upper equality st.1 (side, st.2), st.2 + 1)) st

theorem sideLoop_eq {l : List ConstraintSide} {st : A × ℕ} :
    sideLoop lower upper equality l st =
      ((l.zipIdx st.2).foldl (sideStep lower upper equality) st.1, st.2 + l.length) := by
  induction l generalizing st with
  | nil => rfl
  | cons side l ih =>
    show sideLoop lower upper equality l _ = _
    rw [ih, List.zipIdx_cons, List.foldl_cons, List.length_cons, Nat.add_right_comm, Nat.add_assoc]

/-- The loops over constraints go over the sides, and the running index is that of the side. -/
theorem eqLoop_ineqLoop : m.eqLoop equality (m.ineqLoop b lower upper acc) =
    (m.sides b).zipIdx.foldl (sideStep lower upper equality) acc := by
  have hineq (l : List ℕ) (st : A × ℕ) : l.foldl (fun st i =>
        let st := if m.HasLower b i then (lower i st.2 st.1, st.2 + 1) else st
        if m.HasUpper b i then (upper i st.2 st.1, st.2 + 1) else st) st =
      sideLoop lower upper equality (l.flatMap (m.ineqSides b)) st := by
    induction l generalizing st with
    | nil => rfl
    | cons i l ih =>
      rw [List.foldl_cons, ih, List.flatMap_cons, sideLoop, sideLoop, List.foldl_append]
      congr 1
      unfold ineqSides
      split_ifs <;> rfl
  have heq (l : List ℕ) (st : A × ℕ) :
      l.foldl (fun st i => (equality i st.2 st.1, st.2 + 1)) st =
        sideLoop lower upper equality (l.map .equality) st := by
    rw [sideLoop, List.foldl_map]
    rfl
  have happ : sideLoop lower upper equality (m.sides b) (acc, 0) =
      sideLoop lower upper equality ((List.range m.numNonlinearEqConstraints).map .equality)
        (m.ineqLoop b lower upper acc) := by
    rw [ineqLoop, hineq, sideLoop, sideLoop, sideLoop, sides, List.foldl_append]
  rw [eqLoop, heq, ← happ, sideLoop_eq]

end SurrBasedMinimizer

end Dakota
