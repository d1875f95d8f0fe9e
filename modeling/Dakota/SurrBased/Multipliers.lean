import Dakota.Lib.LeastSquares
import Dakota.Lib.Scatter
import Dakota.SurrBased.MeritDerivatives

/-!
# Estimates of Lagrange multipliers

`SurrBasedMinimizer::update_lagrange_multipliers` (`src/src/SurrBasedMinimizer.cpp`) as it collects
the active constraints, fills the arrays of a least-squares problem, calls a solver and stores its
answer. The solvers are outside the repository: `SolverCall.problem` is the problem that they read
from the arrays.

* `activeSides`, `freeVars`, `multiplierProblem`: the problem that the estimate is to solve.
* `activeLag_eq`, `varLoop_eq`: what the loops leave in the lists and in the arrays.
* `estimates_iff`: the arrays describe the problem only where the two storage orders and the two
  orders of variables agree, and no multiplier of an equality is stored.
-/

namespace Dakota

/-- The center of the trust region and the bounds of the model. -/
structure CenterVars (K : Type) where
  cVars : ℕ → K
  lowerBnds : ℕ → K
  upperBnds : ℕ → K

/-- A call of a solver, with the arrays that it is handed. A bound of `-DBL_MAX` or `DBL_MAX`, which
the solver ignores, is `none`. -/
inductive SolverCall (K : Type)
  | nnls (a : ℕ → K) (mda m n : ℕ) (b : ℕ → K)
  | bvls (a : ℕ → K) (m n : ℕ) (b : ℕ → K) (bnd : ℕ → Option K)

/-- What the solver reads: the entry in row `r` and column `c` is at `r + c * mda`, or `r + c * m`. -/
def SolverCall.problem {K : Type} [Zero K] : SolverCall K → LeastSquares K
  | .nnls a mda m n b => ⟨m, n, fun r c => a (r + c * mda), b, fun _ => some 0, fun _ => none⟩
  | .bvls a m n b bnd =>
    ⟨m, n, fun r c => a (r + c * m), b, fun c => bnd (c * 2), fun c => bnd (c * 2 + 1)⟩

namespace SurrBasedMinimizer

variable {K : Type} [Field K] [LinearOrder K] {n : ℕ} (m : SurrBasedMinimizer K n)
  (center : CenterVars K) (fnVals : ℕ → K) (fnGrads : ℕ → Fin n → K)

/-- The component of a gradient. -/
def component (grad : Fin n → K) (i : ℕ) : K := if h : i < n then grad ⟨i, h⟩ else 0

/-! ## The source -/

/-- `active_lag_ineq` and `lag_index` -/
def activeLag : List ℤ × List ℕ :=
  (m.ineqLoop m.orig
    (fun j cntr lag =>
      if fnVals (m.ineqFn j) < m.orig.nlnIneqLBnds j + m.constraintTol then
        (lag.1 ++ [-(j + 1 : ℤ)], lag.2 ++ [cntr])
      else lag)
    (fun j cntr lag =>
      if fnVals (m.ineqFn j) > m.orig.nlnIneqUBnds j - m.constraintTol then
        (lag.1 ++ [(j + 1 : ℤ)], lag.2 ++ [cntr])
      else lag)
    ([], [])).1

/-- The variable is at the bound, up to `1.e-10`. -/
def activeBnd (cVar bnd : K) : Prop :=
  (bnd = 0 ∧ |cVar| < 1 / 10 ^ 10) ∨ (bnd ≠ 0 ∧ |1 - cVar / bnd| < 1 / 10 ^ 10)

instance (cVar bnd : K) : Decidable (activeBnd cVar bnd) := inferInstanceAs (Decidable (_ ∨ _))

/-- The gradient component is directed into an active bound. -/
def heldVar (i : ℕ) (gradF : K) : Prop :=
  (activeBnd (center.cVars i) (center.lowerBnds i) ∧ gradF > 0) ∨
    (activeBnd (center.cVars i) (center.upperBnds i) ∧ gradF < 0)

instance (i : ℕ) (gradF : K) : Decidable (heldVar center i gradF) :=
  inferInstanceAs (Decidable (_ ∨ _))

/-- The arrays that the loop over variables fills, with the running number of free variables. -/
structure LsqArrays (K : Type) where
  a : ℕ → K
  mGradF : ℕ → K
  n : ℕ

/-- The row of a free variable. -/
def fillRow (activeLagIneq : List ℤ) (i row : ℕ) (a : ℕ → K) : ℕ → K :=
  let numActiveLagIneq := activeLagIneq.length
  let numActiveLag := numActiveLagIneq + m.numNonlinearEqConstraints
  let a := scatter a <| activeLagIneq.zipIdx.map fun p =>
    let ineqId := p.1
    let gradG := fnGrads (m.numUserPrimaryFns + ineqId.natAbs - 1)
    (p.2 + row * numActiveLag, if ineqId > 0 then component gradG i else -component gradG i)
  scatter a <| (List.range m.numNonlinearEqConstraints).map fun j =>
    (j + numActiveLagIneq + row * numActiveLag, component (fnGrads (m.eqFn j)) i)

def varStep (activeLagIneq : List ℤ) (st : LsqArrays K) (i : ℕ) : LsqArrays K :=
  if heldVar center i (st.mGradF i) then st
  else {
    a := m.fillRow fnGrads activeLagIneq i st.n st.a
    mGradF := Function.update st.mGradF st.n (-st.mGradF st.n)
    n := st.n + 1 }

/-- The loop over continuous variables, from the objective gradient and a matrix of zeros. -/
def varLoop (activeLagIneq : List ℤ) (numVars : ℕ) : LsqArrays K :=
  (List.range numVars).foldl (m.varStep center fnGrads activeLagIneq)
    ⟨fun _ => 0, component (m.objectiveGradient fnVals fnGrads), 0⟩

/-- The call of a solver. Without `DAKOTA_F90` there is none for equalities. -/
def solverCall (dakotaF90 : Bool) : Option (SolverCall K) :=
  let activeLagIneq := (m.activeLag fnVals).1
  let numActiveLagIneq := activeLagIneq.length
  let numActiveLag := numActiveLagIneq + m.numNonlinearEqConstraints
  let arrays := m.varLoop center fnVals fnGrads activeLagIneq n
  if numActiveLag = 0 then none
  else if m.numNonlinearEqConstraints ≠ 0 then
    if dakotaF90 then
      some (.bvls arrays.a arrays.n numActiveLag arrays.mGradF
        fun k => if k % 2 = 0 ∧ k / 2 < numActiveLagIneq then some 0 else none)
    else none
  else some (.nnls arrays.a n arrays.n numActiveLag arrays.mGradF)

/-- `update_lagrange_multipliers`, with the solver. A failure of the solver aborts. -/
def updateLagrangeMultipliers (dakotaF90 : Bool) (solve : SolverCall K → Option (ℕ → K)) :
    Option (ℕ → K) := do
  let lambda ← match m.solverCall center fnVals fnGrads dakotaF90 with
    | some call => solve call
    | none => some fun _ => 0
  return scatter (fun _ => 0) ((m.activeLag fnVals).2.zipIdx.map fun p => (p.1, lambda p.2))

/-! ## The problem -/

/-- The side is active: it is not satisfied by more than the tolerance, or is an equality. -/
def ActiveSide : ConstraintSide → Prop
  | .lower i => fnVals (m.ineqFn i) < m.orig.nlnIneqLBnds i + m.constraintTol
  | .upper i => fnVals (m.ineqFn i) > m.orig.nlnIneqUBnds i - m.constraintTol
  | .equality _ => True

instance (side : ConstraintSide) : Decidable (m.ActiveSide fnVals side) :=
  match side with
  | .lower _ => inferInstanceAs (Decidable (_ < _))
  | .upper _ => inferInstanceAs (Decidable (_ > _))
  | .equality _ => inferInstanceAs (Decidable True)

/-- The active sides, each with its slot. -/
def activeSides : List (ConstraintSide × ℕ) :=
  (m.sides m.orig).zipIdx.filter fun p => m.ActiveSide fnVals p.1

/-- The variables that are not held at a bound. -/
def freeVars : List ℕ :=
  (List.range n).filter fun i =>
    ¬ heldVar center i (component (m.objectiveGradient fnVals fnGrads) i)

/-- The signed gradient of the active side of a column. -/
def columnGrad (c i : ℕ) : K :=
  match (m.activeSides fnVals)[c]? with
  | some p => component (m.sideDeriv fnGrads p.1) i
  | none => 0

/-- `min |A lambda + grad f|` over free variables and active sides, with nonnegative multipliers of
inequalities. -/
def multiplierProblem : LeastSquares K where
  rows := (m.freeVars center fnVals fnGrads).length
  cols := (m.activeSides fnVals).length
  entry r c := m.columnGrad fnVals fnGrads c ((m.freeVars center fnVals fnGrads).getD r 0)
  rhs r := -component (m.objectiveGradient fnVals fnGrads)
    ((m.freeVars center fnVals fnGrads).getD r 0)
  lower c := if ∀ p ∈ (m.activeSides fnVals)[c]?, p.1.IsEquality then none else some 0
  upper _ := none

end SurrBasedMinimizer

namespace SurrBasedMinimizer

variable {K : Type} [Field K] [LinearOrder K] {n : ℕ} {m : SurrBasedMinimizer K n}
  {center : CenterVars K} {fnVals : ℕ → K} {fnGrads : ℕ → Fin n → K} {dakotaF90 : Bool}

omit [LinearOrder K] in
theorem component_neg {grad : Fin n → K} {i : ℕ} : component (-grad) i = -component grad i := by
  unfold component
  split_ifs <;> simp

/-! ## The active constraints -/

/-- The identifier of a side in `active_lag_ineq`. -/
def sideId : ConstraintSide → ℤ
  | .lower i => -(i + 1 : ℤ)
  | .upper i => i + 1
  | .equality _ => 0

/-- The active inequality sides, each with its slot. -/
def activeIneqs (m : SurrBasedMinimizer K n) (fnVals : ℕ → K) : List (ConstraintSide × ℕ) :=
  (m.sides m.orig).zipIdx.filter fun p => m.ActiveSide fnVals p.1 ∧ ¬ p.1.IsEquality

theorem mem_activeIneqs {p : ConstraintSide × ℕ} (hp : p ∈ m.activeIneqs fnVals) :
    p ∈ (m.sides m.orig).zipIdx ∧ m.ActiveSide fnVals p.1 ∧ ¬ p.1.IsEquality := by
  obtain ⟨hmem, hactive⟩ := List.mem_filter.mp hp
  exact ⟨hmem, of_decide_eq_true hactive⟩

omit [Field K] [LinearOrder K] in
theorem eqLoop_skip {A : Type} {st : A × ℕ} : m.eqLoop (fun _ _ acc => acc) st = st.1 := by
  unfold eqLoop
  generalize List.range m.numNonlinearEqConstraints = l
  induction l generalizing st with
  | nil => rfl
  | cons i l ih => exact ih

theorem activeLag_eq : m.activeLag fnVals =
    ((m.activeIneqs fnVals).map fun p => sideId p.1, (m.activeIneqs fnVals).map (·.2)) := by
  unfold activeLag activeIneqs
  rw [← eqLoop_skip (m := m), eqLoop_ineqLoop]
  suffices hloop : ∀ (l : List (ConstraintSide × ℕ)) (acc : List ℤ × List ℕ), l.foldl
      (sideStep _ _ fun _ _ acc => acc) acc =
      (acc.1 ++ (l.filter fun p => m.ActiveSide fnVals p.1 ∧ ¬ p.1.IsEquality).map
          fun p => sideId p.1,
        acc.2 ++ (l.filter fun p => m.ActiveSide fnVals p.1 ∧ ¬ p.1.IsEquality).map (·.2)) from
    hloop _ ([], [])
  intro l acc
  induction l generalizing acc with
  | nil => simp
  | cons p l ih =>
    obtain ⟨side, slot⟩ := p
    rw [List.foldl_cons, ih, List.filter_cons]
    cases side <;> simp only [sideStep, ActiveSide, ConstraintSide.IsEquality, not_false_eq_true,
      not_true_eq_false, and_true, and_false, decide_eq_true_eq, decide_false, if_false,
      Bool.false_eq_true] <;> split_ifs <;> simp [sideId]

/-- The equality constraints as sides, each with its slot. -/
def eqSides (m : SurrBasedMinimizer K n) : List (ConstraintSide × ℕ) :=
  ((List.range m.numNonlinearEqConstraints).map .equality).zipIdx
    ((List.range m.numNonlinearIneqConstraints).flatMap (m.ineqSides m.orig)).length

theorem isEquality_of_mem_eqSides {p : ConstraintSide × ℕ} (hp : p ∈ m.eqSides) :
    p.1.IsEquality := by
  obtain ⟨i, -, hside⟩ := List.mem_map.mp (List.fst_mem_of_mem_zipIdx hp)
  rw [← hside]
  exact trivial

theorem activeSide_of_isEquality {side : ConstraintSide} (h : side.IsEquality) :
    m.ActiveSide fnVals side := by
  cases side with
  | equality i => exact trivial
  | _ => exact h.elim

/-- The equality constraints are the last active sides. -/
theorem activeSides_eq : m.activeSides fnVals = m.activeIneqs fnVals ++ m.eqSides := by
  have hineq : ∀ p ∈ ((List.range m.numNonlinearIneqConstraints).flatMap
      (m.ineqSides m.orig)).zipIdx, ¬ p.1.IsEquality := by
    intro p hp
    obtain ⟨i, -, hside⟩ := List.mem_flatMap.mp (List.fst_mem_of_mem_zipIdx hp)
    unfold ineqSides at hside
    rcases List.mem_append.mp hside with hside | hside <;> split_ifs at hside <;>
      simp only [List.mem_singleton, List.not_mem_nil] at hside <;> rw [hside] <;> exact id
  have hall : m.eqSides.filter (fun p => decide (m.ActiveSide fnVals p.1)) = m.eqSides :=
    List.filter_eq_self.mpr fun p hp =>
      decide_eq_true (activeSide_of_isEquality (isEquality_of_mem_eqSides hp))
  have hnone : m.eqSides.filter
      (fun p => decide (m.ActiveSide fnVals p.1 ∧ ¬ p.1.IsEquality)) = [] :=
    List.filter_eq_nil_iff.mpr fun p hp h =>
      (of_decide_eq_true h).2 (isEquality_of_mem_eqSides hp)
  have hsides : (m.sides m.orig).zipIdx = ((List.range m.numNonlinearIneqConstraints).flatMap
      (m.ineqSides m.orig)).zipIdx ++ m.eqSides := by
    rw [sides, List.zipIdx_append, Nat.zero_add, eqSides]
  rw [activeSides, activeIneqs, hsides, List.filter_append, List.filter_append, hall, hnone,
    List.append_nil]
  congr 1
  refine List.filter_congr fun p hp => ?_
  simp [hineq p hp]

theorem length_activeLag : (m.activeLag fnVals).1.length = (m.activeIneqs fnVals).length := by
  rw [activeLag_eq, List.length_map]

variable (m fnVals) in
theorem length_activeSides : (m.activeSides fnVals).length =
    (m.activeLag fnVals).1.length + m.numNonlinearEqConstraints := by
  rw [activeSides_eq, length_activeLag, List.length_append, eqSides, List.length_zipIdx,
    List.length_map, List.length_range]

/-! ## The arrays -/

omit [LinearOrder K] in
/-- The write of a component for an active inequality. -/
theorem ineqComponent {side : ConstraintSide} {i : ℕ} (hne : ¬ side.IsEquality) :
    (if sideId side > 0 then component (fnGrads (m.numUserPrimaryFns + (sideId side).natAbs - 1)) i
      else -component (fnGrads (m.numUserPrimaryFns + (sideId side).natAbs - 1)) i) =
      component (m.sideDeriv fnGrads side) i := by
  cases side with
  | lower j =>
    show (if -(j + 1 : ℤ) > 0 then _ else -component
      (fnGrads (m.numUserPrimaryFns + (-(j + 1 : ℤ)).natAbs - 1)) i) = _
    have hindex : m.numUserPrimaryFns + (-(j + 1 : ℤ)).natAbs - 1 = m.ineqFn j := by
      unfold ineqFn
      omega
    rw [if_neg (by omega), hindex]
    exact component_neg.symm
  | upper j =>
    show (if (j + 1 : ℤ) > 0 then component
      (fnGrads (m.numUserPrimaryFns + (j + 1 : ℤ).natAbs - 1)) i else _) = _
    have hindex : m.numUserPrimaryFns + (j + 1 : ℤ).natAbs - 1 = m.ineqFn j := by
      unfold ineqFn
      omega
    rw [if_pos (by omega), hindex]
    rfl
  | equality j => exact (hne trivial).elim

/-- The row of a variable, as writes of the components of all active sides. -/
theorem fillRow_eq_scatter {i row : ℕ} {a : ℕ → K} :
    m.fillRow fnGrads (m.activeLag fnVals).1 i row a =
      scatter a ((m.activeSides fnVals).zipIdx.map fun p =>
        (p.2 + row * (m.activeSides fnVals).length, component (m.sideDeriv fnGrads p.1.1) i)) := by
  unfold fillRow
  simp only [← length_activeSides]
  rw [← scatter_append]
  generalize (m.activeSides fnVals).length = cols
  congr 1
  rw [activeSides_eq, List.zipIdx_append, List.map_append, Nat.zero_add]
  congr 1
  · rw [activeLag_eq, List.zipIdx_map, List.map_map]
    refine List.map_congr_left fun p hp => ?_
    exact congrArg _ (ineqComponent (mem_activeIneqs (List.fst_mem_of_mem_zipIdx hp)).2.2)
  · rw [length_activeLag, eqSides]
    refine List.ext_getElem (by simp) fun j hj hj' => ?_
    simp [sideDeriv, Nat.add_comm]

/-- The row of a variable, by its entries. -/
theorem fillRow_apply {i row k : ℕ} {a : ℕ → K} :
    m.fillRow fnGrads (m.activeLag fnVals).1 i row a k =
      if row * (m.activeSides fnVals).length ≤ k ∧
          k < row * (m.activeSides fnVals).length + (m.activeSides fnVals).length then
        m.columnGrad fnVals fnGrads (k - row * (m.activeSides fnVals).length) i
      else a k := by
  rw [fillRow_eq_scatter, scatter_zipIdx
    (f := fun p : ConstraintSide × ℕ => component (m.sideDeriv fnGrads p.1) i)]
  generalize row * (m.activeSides fnVals).length = base
  unfold columnGrad
  by_cases hle : base ≤ k
  · rw [if_pos hle]
    rcases Nat.lt_or_ge (k - base) (m.activeSides fnVals).length with hlt | hge
    · rw [if_pos ⟨hle, by omega⟩, List.getElem?_eq_getElem hlt]
      rfl
    · rw [if_neg (by omega), List.getElem?_eq_none hge]
      rfl
  · rw [if_neg hle, if_neg fun h => hle h.1]

/-- The free ones of the first variables. -/
def freeBelow (m : SurrBasedMinimizer K n) (center : CenterVars K) (fnVals : ℕ → K)
    (fnGrads : ℕ → Fin n → K) (numVars : ℕ) : List ℕ :=
  (List.range numVars).filter fun i =>
    ¬ heldVar center i (component (m.objectiveGradient fnVals fnGrads) i)

theorem length_freeBelow_le {numVars : ℕ} :
    (m.freeBelow center fnVals fnGrads numVars).length ≤ numVars :=
  (List.length_filter_le _ _).trans_eq List.length_range

/-- What the loop leaves after the first variables: the rows of the free ones, one after the other,
and the objective gradient with as many of its first components negated. -/
theorem varLoop_eq (hactive : m.activeSides fnVals ≠ []) {numVars : ℕ} :
    m.varLoop center fnVals fnGrads (m.activeLag fnVals).1 numVars =
      { a := rowMajor (m.freeBelow center fnVals fnGrads numVars).length
          (m.activeSides fnVals).length fun r c => m.columnGrad fnVals fnGrads c
            ((m.freeBelow center fnVals fnGrads numVars).getD r 0)
        mGradF := fun k =>
          if k < (m.freeBelow center fnVals fnGrads numVars).length then
            -component (m.objectiveGradient fnVals fnGrads) k
          else component (m.objectiveGradient fnVals fnGrads) k
        n := (m.freeBelow center fnVals fnGrads numVars).length } := by
  induction numVars with
  | zero =>
    unfold varLoop freeBelow rowMajor
    simp
  | succ i ih =>
    have hle : (m.freeBelow center fnVals fnGrads i).length ≤ i := length_freeBelow_le
    have hloop : m.varLoop center fnVals fnGrads (m.activeLag fnVals).1 (i + 1) =
        m.varStep center fnGrads (m.activeLag fnVals).1
          (m.varLoop center fnVals fnGrads (m.activeLag fnVals).1 i) i := by
      rw [varLoop, List.range_succ, List.foldl_append]
      rfl
    rw [hloop, ih]
    unfold varStep
    -- component `i` of the objective gradient is not yet negated when it is tested
    simp only [if_neg (Nat.not_lt.mpr hle)]
    by_cases hheld : heldVar center i (component (m.objectiveGradient fnVals fnGrads) i)
    · have hfree : m.freeBelow center fnVals fnGrads (i + 1) =
          m.freeBelow center fnVals fnGrads i := by
        unfold freeBelow
        rw [List.range_succ, List.filter_append, List.filter_singleton]
        simp [hheld]
      rw [if_pos hheld, hfree]
    · have hfree : m.freeBelow center fnVals fnGrads (i + 1) =
          m.freeBelow center fnVals fnGrads i ++ [i] := by
        unfold freeBelow
        rw [List.range_succ, List.filter_append, List.filter_singleton]
        simp [hheld]
      rw [if_neg hheld, hfree]
      generalize m.freeBelow center fnVals fnGrads i = free
      rw [List.length_append, List.length_singleton]
      congr 1
      · funext k
        rw [fillRow_apply, rowMajor_succ (List.length_pos_iff.mpr hactive)]
        refine if_congr Iff.rfl ?_ ?_
        · rw [List.getD_append_right _ _ _ _ le_rfl, Nat.sub_self]
          rfl
        · refine rowMajor_congr fun r hr c => ?_
          rw [List.getD_append _ _ _ _ hr]
      · funext k
        rw [Function.update_apply, if_neg (lt_irrefl _)]
        rcases lt_trichotomy k free.length with hlt | rfl | hgt
        · rw [if_neg hlt.ne, if_pos hlt, if_pos (by omega)]
        · rw [if_pos rfl, if_pos (by omega)]
        · rw [if_neg hgt.ne', if_neg (by omega), if_neg (by omega)]

/-! ## Slots -/

variable (m fnVals) in
theorem nodup_slots : ((m.activeSides fnVals).map (·.2)).Nodup := by
  have hall : ((m.sides m.orig).zipIdx.map (·.2)).Nodup := by
    rw [show (fun p : ConstraintSide × ℕ => p.2) = Prod.snd from rfl, List.zipIdx_map_snd]
    exact List.nodup_range'
  exact hall.sublist (List.filter_sublist.map _)

theorem slot_notMem {p : ConstraintSide × ℕ} (hp : p ∈ m.eqSides) :
    p.2 ∉ (m.activeIneqs fnVals).map (·.2) := by
  have hnodup := nodup_slots m fnVals
  rw [activeSides_eq, List.map_append] at hnodup
  exact fun hmem => (List.nodup_append.mp hnodup).2.2 _ hmem _ (List.mem_map_of_mem hp) rfl

/-- The columns of equalities are the last ones. -/
theorem isEquality_iff {c : ℕ} {p : ConstraintSide × ℕ} (hp : (m.activeSides fnVals)[c]? = some p) :
    p.1.IsEquality ↔ (m.activeIneqs fnVals).length ≤ c := by
  rw [activeSides_eq] at hp
  rcases Nat.lt_or_ge c (m.activeIneqs fnVals).length with hlt | hge
  · rw [List.getElem?_append_left hlt] at hp
    exact iff_of_false (mem_activeIneqs (List.mem_of_getElem? hp)).2.2 (Nat.not_le.mpr hlt)
  · rw [List.getElem?_append_right hge] at hp
    exact iff_of_true (isEquality_of_mem_eqSides (List.mem_of_getElem? hp)) hge

/-- The multipliers of active inequalities are stored, and all other slots are zero. -/
theorem storedMultipliers {lambda : ℕ → K} :
    (∀ c p, (m.activeIneqs fnVals)[c]? = some p →
      scatter (fun _ => 0) ((m.activeLag fnVals).2.zipIdx.map fun p => (p.1, lambda p.2)) p.2 =
        lambda c) ∧
    ∀ slot ∉ (m.activeIneqs fnVals).map (·.2),
      scatter (fun _ => 0) ((m.activeLag fnVals).2.zipIdx.map fun p => (p.1, lambda p.2)) slot =
        0 := by
  have hnodup : ((m.activeIneqs fnVals).map (·.2)).Nodup := by
    have hnodup := nodup_slots m fnVals
    rw [activeSides_eq, List.map_append] at hnodup
    exact (List.nodup_append.mp hnodup).1
  rw [activeLag_eq]
  generalize m.activeIneqs fnVals = ineqs at hnodup ⊢
  have hmem (slot : ℕ) (y : K) :
      (slot, y) ∈ (ineqs.map (·.2)).zipIdx.map (fun p => (p.1, lambda p.2)) ↔
        ∃ c, (ineqs.map (·.2))[c]? = some slot ∧ lambda c = y := by
    simp only [List.mem_map, Prod.mk.injEq, Prod.exists, List.mk_mem_zipIdx_iff_getElem?]
    constructor
    · rintro ⟨slot', c, hget, rfl, rfl⟩
      exact ⟨c, hget, rfl⟩
    · rintro ⟨c, hget, rfl⟩
      exact ⟨slot, c, hget, rfl, rfl⟩
  constructor
  · intro c p hp
    have hget : (ineqs.map (·.2))[c]? = some p.2 := by
      rw [List.getElem?_map, hp]
      rfl
    refine scatter_of_mem ((hmem _ _).mpr ⟨c, hget, rfl⟩) fun y hy => ?_
    obtain ⟨c', hget', rfl⟩ := (hmem _ _).mp hy
    refine congrArg lambda ?_
    exact (List.getElem?_inj (List.getElem?_eq_some_iff.mp hget').1 hnodup).mp
      (hget'.trans hget.symm)
  · intro slot hslot
    refine scatter_of_notMem fun hw => hslot ?_
    obtain ⟨⟨slot', y⟩, hy, rfl⟩ := List.mem_map.mp hw
    obtain ⟨c, hget, -⟩ := (hmem _ _).mp hy
    exact List.mem_of_getElem? hget

/-! ## What the solver reads -/

/-- The leading dimension that the solver is told. -/
def leadingDim (m : SurrBasedMinimizer K n) (center : CenterVars K) (fnVals : ℕ → K)
    (fnGrads : ℕ → Fin n → K) : ℕ :=
  if m.numNonlinearEqConstraints = 0 then n else (m.freeVars center fnVals fnGrads).length

/-- The entry that is at an offset of the array. -/
def storedEntry (m : SurrBasedMinimizer K n) (center : CenterVars K) (fnVals : ℕ → K)
    (fnGrads : ℕ → Fin n → K) : ℕ → K :=
  rowMajor (m.freeVars center fnVals fnGrads).length (m.activeSides fnVals).length fun r c =>
    m.columnGrad fnVals fnGrads c ((m.freeVars center fnVals fnGrads).getD r 0)

variable (center fnGrads) in
theorem solverCall_isSome_iff (hactive : m.activeSides fnVals ≠ []) :
    (m.solverCall center fnVals fnGrads dakotaF90).isSome ↔
      m.numNonlinearEqConstraints = 0 ∨ dakotaF90 = true := by
  have hlen := length_activeSides m fnVals
  have hpos := List.length_pos_iff.mpr hactive
  unfold solverCall
  simp only [← hlen, if_neg hpos.ne']
  split_ifs with heqs hf90 <;> simp_all

/-- The problem that the solver reads, where it is called. -/
theorem problem_of_solverCall (hactive : m.activeSides fnVals ≠ []) {call : SolverCall K}
    (h : m.solverCall center fnVals fnGrads dakotaF90 = some call) :
    call.problem.rows = (m.freeVars center fnVals fnGrads).length ∧
    call.problem.cols = (m.activeSides fnVals).length ∧
    (∀ r c, call.problem.entry r c = m.storedEntry center fnVals fnGrads
      (r + c * m.leadingDim center fnVals fnGrads)) ∧
    (∀ r < (m.freeVars center fnVals fnGrads).length,
      call.problem.rhs r = -component (m.objectiveGradient fnVals fnGrads) r) ∧
    (∀ c < (m.activeSides fnVals).length,
      call.problem.lower c = (m.multiplierProblem center fnVals fnGrads).lower c) ∧
    ∀ c, call.problem.upper c = none := by
  have hlen := length_activeSides m fnVals
  have hpos := List.length_pos_iff.mpr hactive
  have hlower (c : ℕ) (hc : c < (m.activeSides fnVals).length) :
      (m.multiplierProblem center fnVals fnGrads).lower c =
        if c < (m.activeLag fnVals).1.length then some 0 else none := by
    have hget := List.getElem?_eq_getElem hc
    show (if ∀ p ∈ (m.activeSides fnVals)[c]?, p.1.IsEquality then none else some 0) = _
    have hall : (∀ p ∈ (m.activeSides fnVals)[c]?, p.1.IsEquality) ↔
        ¬ c < (m.activeLag fnVals).1.length := by
      rw [length_activeLag, Nat.not_lt, ← isEquality_iff hget, hget]
      simp
    rw [if_congr hall rfl rfl, ite_not]
  unfold solverCall at h
  simp only [← hlen, if_neg hpos.ne', varLoop_eq hactive] at h
  split_ifs at h with heqs hf90 <;> cases h
  · refine ⟨rfl, rfl, fun r c => ?_, fun r hr => if_pos hr, fun c hc => ?_, fun c => ?_⟩
    · rw [leadingDim, if_neg heqs]
      rfl
    · rw [hlower c hc]
      show (if c * 2 % 2 = 0 ∧ c * 2 / 2 < _ then some (0 : K) else none) = _
      refine if_congr ?_ rfl rfl
      omega
    · show (if (c * 2 + 1) % 2 = 0 ∧ _ then some (0 : K) else none) = none
      exact if_neg (by omega)
  · have hzero := not_not.mp heqs
    refine ⟨rfl, rfl, fun r c => ?_, fun r hr => if_pos hr, fun c hc => ?_, fun c => rfl⟩
    · rw [leadingDim, if_pos hzero]
      rfl
    · rw [hlower c hc, if_pos (by omega)]
      rfl

/-! ## The estimate -/

/-- The solver is handed the problem, and each multiplier that it solves for goes to the slot of its
side. -/
structure Estimates (m : SurrBasedMinimizer K n) (center : CenterVars K) (fnVals : ℕ → K)
    (fnGrads : ℕ → Fin n → K) (dakotaF90 : Bool) : Prop where
  handed : m.activeSides fnVals ≠ [] → ∃ call,
    m.solverCall center fnVals fnGrads dakotaF90 = some call ∧
      call.problem.Agrees (m.multiplierProblem center fnVals fnGrads)
  inactive : ∀ solve mult,
    m.updateLagrangeMultipliers center fnVals fnGrads dakotaF90 solve = some mult →
      ∀ slot ∉ (m.activeSides fnVals).map (·.2), mult slot = 0
  stored : ∀ solve mult call lambda,
    m.updateLagrangeMultipliers center fnVals fnGrads dakotaF90 solve = some mult →
      m.solverCall center fnVals fnGrads dakotaF90 = some call → solve call = some lambda →
        call.problem.IsSolution lambda →
          ∀ c p, (m.activeSides fnVals)[c]? = some p → mult p.2 = lambda c

/-- The two storage orders and the two orders of variables agree, and no equality has a multiplier
to store. -/
structure LayoutsAgree (m : SurrBasedMinimizer K n) (center : CenterVars K) (fnVals : ℕ → K)
    (fnGrads : ℕ → Fin n → K) (dakotaF90 : Bool) : Prop where
  solver : m.numNonlinearEqConstraints = 0 ∨ dakotaF90 = true
  matrix : ∀ r < (m.freeVars center fnVals fnGrads).length, ∀ c < (m.activeSides fnVals).length,
    m.storedEntry center fnVals fnGrads (r + c * m.leadingDim center fnVals fnGrads) =
      m.columnGrad fnVals fnGrads c ((m.freeVars center fnVals fnGrads).getD r 0)
  rhs : ∀ r < (m.freeVars center fnVals fnGrads).length,
    component (m.objectiveGradient fnVals fnGrads) r =
      component (m.objectiveGradient fnVals fnGrads)
        ((m.freeVars center fnVals fnGrads).getD r 0)
  equalities : ∀ lambda, (m.multiplierProblem center fnVals fnGrads).IsSolution lambda →
    ∀ c p, (m.activeSides fnVals)[c]? = some p → p.1.IsEquality → lambda c = 0

theorem problem_agrees_iff (hactive : m.activeSides fnVals ≠ []) {call : SolverCall K}
    (h : m.solverCall center fnVals fnGrads dakotaF90 = some call) :
    call.problem.Agrees (m.multiplierProblem center fnVals fnGrads) ↔
      (∀ r < (m.freeVars center fnVals fnGrads).length, ∀ c < (m.activeSides fnVals).length,
        m.storedEntry center fnVals fnGrads (r + c * m.leadingDim center fnVals fnGrads) =
          m.columnGrad fnVals fnGrads c ((m.freeVars center fnVals fnGrads).getD r 0)) ∧
      ∀ r < (m.freeVars center fnVals fnGrads).length,
        component (m.objectiveGradient fnVals fnGrads) r =
          component (m.objectiveGradient fnVals fnGrads)
            ((m.freeVars center fnVals fnGrads).getD r 0) := by
  obtain ⟨hrows, hcols, hentry, hrhs, hlower, hupper⟩ := problem_of_solverCall hactive h
  constructor
  · intro hagrees
    refine ⟨fun r hr c hc => ?_, fun r hr => ?_⟩
    · rw [← hentry]
      exact hagrees.entry r hr c hc
    · have := hagrees.rhs r hr
      rw [hrhs r hr] at this
      exact neg_injective this
  · rintro ⟨hmatrix, hgrad⟩
    exact {
      rows := hrows
      cols := hcols
      entry := fun r hr c hc => (hentry r c).trans (hmatrix r hr c hc)
      rhs := fun r hr => (hrhs r hr).trans (congrArg _ (hgrad r hr))
      lower := hlower
      upper := fun c _ => hupper c }

/-- What is stored, with the answer of the solver. -/
theorem exists_lambda {solve : SolverCall K → Option (ℕ → K)} {mult : ℕ → K}
    (h : m.updateLagrangeMultipliers center fnVals fnGrads dakotaF90 solve = some mult) :
    ∃ lambda, (∀ call ∈ m.solverCall center fnVals fnGrads dakotaF90, solve call = some lambda) ∧
      mult = scatter (fun _ => 0)
        ((m.activeLag fnVals).2.zipIdx.map fun p => (p.1, lambda p.2)) := by
  unfold updateLagrangeMultipliers at h
  cases hcall : m.solverCall center fnVals fnGrads dakotaF90 with
  | none =>
    rw [hcall] at h
    exact ⟨fun _ => 0, fun call hmem => absurd hmem (Option.not_mem_none _), (Option.some.inj h).symm⟩
  | some call =>
    rw [hcall] at h
    obtain ⟨lambda, hsolve, hmult⟩ := Option.bind_eq_some_iff.mp h
    refine ⟨lambda, fun call' hmem => ?_, (Option.some.inj hmult).symm⟩
    rw [← Option.mem_some.mp hmem]
    exact hsolve

/-- Exact condition: the layouts agree, where any constraint is active. -/
theorem estimates_iff : Estimates m center fnVals fnGrads dakotaF90 ↔
    (m.activeSides fnVals ≠ [] → LayoutsAgree m center fnVals fnGrads dakotaF90) := by
  have hslots (slot : ℕ) (h : slot ∉ (m.activeSides fnVals).map (·.2)) :
      slot ∉ (m.activeIneqs fnVals).map (·.2) := by
    rw [activeSides_eq, List.map_append] at h
    exact fun hmem => h (List.mem_append_left _ hmem)
  constructor
  · intro h hactive
    obtain ⟨call, hcall, hagrees⟩ := h.handed hactive
    have hlayout := (problem_agrees_iff hactive hcall).mp hagrees
    refine ⟨(solverCall_isSome_iff _ _ hactive).mp (Option.isSome_of_eq_some hcall), hlayout.1,
      hlayout.2, fun lambda hsol c p hp hequality => ?_⟩
    -- a solver that gives this solution: its slot is left at zero
    have hupdate : m.updateLagrangeMultipliers center fnVals fnGrads dakotaF90
        (fun _ => some lambda) = some (scatter (fun _ => 0)
          ((m.activeLag fnVals).2.zipIdx.map fun p => (p.1, lambda p.2))) := by
      rw [updateLagrangeMultipliers, hcall]
      rfl
    have hstored := h.stored _ _ call lambda hupdate hcall rfl (hagrees.isSolution_iff.mpr hsol) c p
      hp
    have hlt := (isEquality_iff hp).mp hequality
    rw [activeSides_eq, List.getElem?_append_right hlt] at hp
    rw [← hstored]
    exact storedMultipliers.2 p.2 (slot_notMem (List.mem_of_getElem? hp))
  · intro h
    refine ⟨fun hactive => ?_, fun solve mult hupdate slot hslot => ?_,
      fun solve mult call lambda hupdate hcall hsolve hsol c p hp => ?_⟩
    · obtain ⟨call, hcall⟩ := Option.isSome_iff_exists.mp
        ((solverCall_isSome_iff center fnGrads hactive).mpr
          (h hactive).solver)
      exact ⟨call, hcall, (problem_agrees_iff hactive hcall).mpr
        ⟨(h hactive).matrix, (h hactive).rhs⟩⟩
    · obtain ⟨lambda, -, rfl⟩ := exists_lambda hupdate
      exact storedMultipliers.2 slot (hslots slot hslot)
    · have hactive : m.activeSides fnVals ≠ [] := fun hnil => by
        rw [hnil] at hp
        cases hp
      obtain ⟨lambda', hlambda, rfl⟩ := exists_lambda hupdate
      have heq : lambda' = lambda :=
        Option.some.inj ((hlambda call hcall).symm.trans hsolve)
      subst heq
      have hagrees := (problem_agrees_iff hactive hcall).mpr
        ⟨(h hactive).matrix, (h hactive).rhs⟩
      by_cases hequality : p.1.IsEquality
      · rw [(h hactive).equalities _ (hagrees.isSolution_iff.mp hsol) c p hp hequality]
        have hlt := (isEquality_iff hp).mp hequality
        rw [activeSides_eq, List.getElem?_append_right hlt] at hp
        exact storedMultipliers.2 p.2 (slot_notMem (List.mem_of_getElem? hp))
      · have hlt := Nat.not_le.mp (mt (isEquality_iff hp).mpr hequality)
        rw [activeSides_eq, List.getElem?_append_left hlt] at hp
        exact storedMultipliers.1 c p hp

/-- Two variables, the first of them held at its lower bound, and an active upper bound. -/
def heldFirst : SurrBasedMinimizer ℚ 2 where
  numUserPrimaryFns := 1
  numNonlinearIneqConstraints := 1
  numNonlinearEqConstraints := 0
  bigRealBoundSize := 10
  constraintTol := 1 / 100
  penaltyParameter := 5
  lagrangeMult _ := 0
  augLagrangeMult _ := 0
  orig := ⟨fun _ => -10, fun _ => 1, fun _ => 0⟩
  objective fnVals := fnVals 0
  objectiveGradient _ fnGrads := fnGrads 0
  objectiveHessian _ _ fnHessians := fnHessians 0

def heldFirstCenter : CenterVars ℚ := ⟨fun i => i / 2, fun _ => 0, fun _ => 1⟩

def heldFirstGrads (fn : ℕ) : Fin 2 → ℚ := if fn = 0 then ![1, -2] else ![0, 1]

/-- The right-hand side has the negated component of the variable that is held. -/
theorem heldFirst_misread :
    ¬ Estimates heldFirst heldFirstCenter (fun fn => fn) heldFirstGrads true := by
  have hactive : heldFirst.activeSides (fun fn => fn) ≠ [] := by decide +kernel
  intro h
  obtain ⟨call, hcall, hagrees⟩ := h.handed hactive
  have hrhs := ((problem_agrees_iff hactive hcall).mp hagrees).2 0 (by decide +kernel)
  exact absurd hrhs (by decide +kernel)

end SurrBasedMinimizer

end Dakota
