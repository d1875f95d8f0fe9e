import Dakota.Lib.Differential
import Dakota.SurrBased.Merit

/-!
# The derivatives of merit functions

Each merit function is its objective and a sum over the sides of the constraints (`sides`): a
function of the value of the side and of its multiplier.

* `lagTerm`, `augTerm`, `penTerm`: these functions, with their slopes. `lagrangianMerit_eq` and the
  equations after it say so for the functions of the source.
* `lagTerm_twice`, `augTerm_twice`, `penTerm_twice`: the slopes are the derivatives wherever no
  activity test holds with equality.
* `meritsConsistent_iff`: all gradients and Hessians are those of the merit functions except that of
  the augmented Lagrangian, whose Hessian has no terms of first derivatives.
-/

namespace Dakota

open Differential

namespace ConstraintSide

def IsEquality : ConstraintSide → Prop
  | .equality _ => True
  | _ => False

instance (side : ConstraintSide) : Decidable side.IsEquality := by
  cases side <;> unfold IsEquality <;> infer_instance

/-- How far a side is from holding: from both sides for an equality. -/
def magnitude : ConstraintSide → ℝ → ℝ
  | .equality _, s => |s|
  | _, s => s

end ConstraintSide

namespace SurrBasedMinimizer

/-! ## Sums over sides -/

section

variable {K : Type} [Field K] [LinearOrder K] {n : ℕ} {m : SurrBasedMinimizer K n}
  {b : ConstraintBounds K} {V : Type}

/-- The violation of a side, which is not positive where the constraint holds. -/
def sideValue (m : SurrBasedMinimizer K n) (b : ConstraintBounds K) (fnVals : ℕ → K) :
    ConstraintSide → K
  | .lower i => b.nlnIneqLBnds i - fnVals (m.ineqFn i)
  | .upper i => fnVals (m.ineqFn i) - b.nlnIneqUBnds i
  | .equality i => fnVals (m.eqFn i) - b.nlnEqTgts i

/-- The derivatives of a side, from those of all functions. -/
def sideDeriv [Neg V] (m : SurrBasedMinimizer K n) (fnDerivs : ℕ → V) : ConstraintSide → V
  | .lower i => -fnDerivs (m.ineqFn i)
  | .upper i => fnDerivs (m.ineqFn i)
  | .equality i => fnDerivs (m.eqFn i)

/-- The sum of what the sides contribute, each with its slot. -/
def sideSum [AddMonoid V] (m : SurrBasedMinimizer K n) (b : ConstraintBounds K)
    (term : ConstraintSide → ℕ → V) : V :=
  ((m.sides b).zipIdx.map fun p => term p.1 p.2).sum

theorem eqLoop_eq_sum [AddMonoid V] {lower upper equality : ℕ → ℕ → V → V} {acc : V}
    (term : ConstraintSide → ℕ → V)
    (hlower : ∀ i slot acc, lower i slot acc = acc + term (.lower i) slot)
    (hupper : ∀ i slot acc, upper i slot acc = acc + term (.upper i) slot)
    (hequality : ∀ i slot acc, equality i slot acc = acc + term (.equality i) slot) :
    m.eqLoop equality (m.ineqLoop b lower upper acc) = acc + m.sideSum b term := by
  rw [eqLoop_ineqLoop, sideSum]
  have hstep : sideStep lower upper equality = fun acc p => acc + term p.1 p.2 := by
    funext acc ⟨side, slot⟩
    cases side with
    | lower i => exact hlower i slot acc
    | upper i => exact hupper i slot acc
    | equality i => exact hequality i slot acc
  rw [hstep]
  generalize (m.sides b).zipIdx = l
  induction l generalizing acc with
  | nil => simp
  | cons p l ih => rw [List.foldl_cons, ih, List.map_cons, List.sum_cons, add_assoc]

variable (m)

/-- What a side contributes to the Lagrangian, for its violation. -/
def lagTerm (side : ConstraintSide) (slot : ℕ) (s : K) : K :=
  if side.IsEquality ∨ s + m.constraintTol > 0 then m.lagrangeMult slot * s else 0

def lagSlope (side : ConstraintSide) (slot : ℕ) (s : K) : K :=
  if side.IsEquality ∨ s + m.constraintTol > 0 then m.lagrangeMult slot else 0

def augPsi (side : ConstraintSide) (slot : ℕ) (s : K) : K :=
  if side.IsEquality then s else max s (m.augBound slot)

/-- What a side contributes to the augmented Lagrangian. -/
def augTerm (side : ConstraintSide) (slot : ℕ) (s : K) : K :=
  (m.augLagrangeMult slot + m.penaltyParameter * m.augPsi side slot s) * m.augPsi side slot s

/-- The side is active in the augmented Lagrangian. -/
def AugActive (side : ConstraintSide) (slot : ℕ) (s : K) : Prop :=
  side.IsEquality ∨ s ≥ m.augBound slot

instance (side : ConstraintSide) (slot : ℕ) (s : K) : Decidable (m.AugActive side slot s) :=
  inferInstanceAs (Decidable (_ ∨ _))

def augSlope (side : ConstraintSide) (slot : ℕ) (s : K) : K :=
  if m.AugActive side slot s then m.augLagrangeMult slot + 2 * m.penaltyParameter * s else 0

def augCurvature (side : ConstraintSide) (slot : ℕ) (s : K) : K :=
  if m.AugActive side slot s then 2 * m.penaltyParameter else 0

/-- The terms of first derivatives in the Hessian of the augmented Lagrangian. -/
def outerTerms (b : ConstraintBounds K) (fnVals : ℕ → K) (fnGrads : ℕ → Fin n → K) :
    Matrix (Fin n) (Fin n) K :=
  m.sideSum b fun side slot => m.augCurvature side slot (m.sideValue b fnVals side) •
    Matrix.vecMulVec (m.sideDeriv fnGrads side) (m.sideDeriv fnGrads side)

/-- What a side contributes to the constraint violation. -/
def violTerm (tol : K) : ConstraintSide → K → K
  | .equality _, s => if |s| - tol > 0 then (|s| - tol) * (|s| - tol) else 0
  | _, s => if s - tol > 0 then (s - tol) * (s - tol) else 0

def penSlope (side : ConstraintSide) (s : K) : K :=
  if s > m.constraintTol then 2 * m.penaltyParameter * (s - m.constraintTol)
  else if side.IsEquality ∧ s < -m.constraintTol then
    2 * m.penaltyParameter * (s + m.constraintTol)
  else 0

variable {m} {fnVals : ℕ → K} {fnGrads : ℕ → Fin n → K}
  {fnHessians : ℕ → Matrix (Fin n) (Fin n) K}

theorem lagrangianMerit_eq : m.lagrangianMerit b fnVals = m.objective fnVals +
    m.sideSum b fun side slot => m.lagTerm side slot (m.sideValue b fnVals side) := by
  refine eqLoop_eq_sum _ ?_ ?_ ?_ <;> intro i slot acc <;>
    simp only [lagTerm, sideValue, ConstraintSide.IsEquality, false_or, true_or, if_true] <;>
    split_ifs <;> simp

variable [IsStrictOrderedRing K]

/-- The activity tests of the gradient are those of the merit function. -/
theorem lagSlope_lower {i slot : ℕ} : m.lagSlope (.lower i) slot (m.sideValue b fnVals (.lower i)) =
    if fnVals (m.ineqFn i) < b.nlnIneqLBnds i + m.constraintTol then m.lagrangeMult slot else 0 := by
  refine if_congr ?_ rfl rfl
  simp only [sideValue, ConstraintSide.IsEquality, false_or]
  constructor <;> intro h <;> linarith

theorem lagSlope_upper {i slot : ℕ} : m.lagSlope (.upper i) slot (m.sideValue b fnVals (.upper i)) =
    if fnVals (m.ineqFn i) > b.nlnIneqUBnds i - m.constraintTol then m.lagrangeMult slot else 0 := by
  refine if_congr ?_ rfl rfl
  simp only [sideValue, ConstraintSide.IsEquality, false_or]
  constructor <;> intro h <;> linarith

omit [IsStrictOrderedRing K] in
theorem lagSlope_equality {i slot : ℕ} {s : K} :
    m.lagSlope (.equality i) slot s = m.lagrangeMult slot :=
  if_pos (.inl trivial)

theorem lagrangianGradient_eq : m.lagrangianGradient b fnVals fnGrads =
    m.objectiveGradient fnVals fnGrads + m.sideSum b fun side slot =>
      m.lagSlope side slot (m.sideValue b fnVals side) • m.sideDeriv fnGrads side := by
  refine eqLoop_eq_sum _ ?_ ?_ ?_ <;> intro i slot acc <;>
    simp only [lagSlope_lower, lagSlope_upper, lagSlope_equality, sideDeriv] <;>
    split_ifs <;> simp [sub_eq_add_neg]

theorem lagrangianHessian_eq : m.lagrangianHessian b fnVals fnGrads fnHessians =
    m.objectiveHessian fnVals fnGrads fnHessians + m.sideSum b fun side slot =>
      m.lagSlope side slot (m.sideValue b fnVals side) • m.sideDeriv fnHessians side := by
  refine eqLoop_eq_sum _ ?_ ?_ ?_ <;> intro i slot acc <;>
    simp only [lagSlope_lower, lagSlope_upper, lagSlope_equality, sideDeriv] <;>
    split_ifs <;> simp [sub_eq_add_neg]

omit [IsStrictOrderedRing K] in
theorem augmentedLagrangianMerit_eq : m.augmentedLagrangianMerit b fnVals = m.objective fnVals +
    m.sideSum b fun side slot => m.augTerm side slot (m.sideValue b fnVals side) := by
  refine eqLoop_eq_sum _ ?_ ?_ ?_ <;> intro i slot acc <;>
    simp [augTerm, augPsi, sideValue, ConstraintSide.IsEquality]

omit [IsStrictOrderedRing K] in
theorem augmentedLagrangianGradient_eq : m.augmentedLagrangianGradient b fnVals fnGrads =
    m.objectiveGradient fnVals fnGrads + m.sideSum b fun side slot =>
      m.augSlope side slot (m.sideValue b fnVals side) • m.sideDeriv fnGrads side := by
  refine eqLoop_eq_sum _ ?_ ?_ ?_ <;> intro i slot acc <;>
    simp only [augSlope, AugActive, sideValue, sideDeriv, ConstraintSide.IsEquality, false_or,
      true_or, if_true] <;>
    split_ifs <;> simp [sub_eq_add_neg]

omit [IsStrictOrderedRing K] in
theorem augmentedLagrangianHessian_eq :
    m.augmentedLagrangianHessian b fnVals fnGrads fnHessians =
      m.objectiveHessian fnVals fnGrads fnHessians + m.sideSum b fun side slot =>
        m.augSlope side slot (m.sideValue b fnVals side) • m.sideDeriv fnHessians side := by
  refine eqLoop_eq_sum _ ?_ ?_ ?_ <;> intro i slot acc <;>
    simp only [augSlope, AugActive, sideValue, sideDeriv, ConstraintSide.IsEquality, false_or,
      true_or, if_true] <;>
    split_ifs <;> simp [sub_eq_add_neg]

omit [IsStrictOrderedRing K] in
theorem constraintViolation_eq {tol : K} : m.constraintViolation fnVals tol =
    m.sideSum m.orig fun side _ => violTerm tol side (m.sideValue m.orig fnVals side) := by
  refine (eqLoop_eq_sum (fun side _ => violTerm tol side (m.sideValue m.orig fnVals side))
    ?_ ?_ ?_).trans (zero_add _) <;> intro i slot acc <;> simp only [violTerm, sideValue] <;>
    split_ifs with h <;> simp [h]

theorem penaltyGradient_eq : m.penaltyGradient fnVals fnGrads =
    m.objectiveGradient fnVals fnGrads + m.sideSum m.orig fun side _ =>
      m.penSlope side (m.sideValue m.orig fnVals side) • m.sideDeriv fnGrads side := by
  refine eqLoop_eq_sum (fun side _ =>
      m.penSlope side (m.sideValue m.orig fnVals side) • m.sideDeriv fnGrads side) ?_ ?_ ?_ <;>
    intro i slot acc <;>
    simp only [penSlope, sideValue, sideDeriv, ConstraintSide.IsEquality, false_and, true_and,
      if_false, sub_pos, gt_iff_lt] <;>
    split_ifs <;> simp [sub_eq_add_neg]

end

/-! ## The functions of one side -/

section

variable {n : ℕ} {m : SurrBasedMinimizer ℝ n} {side : ConstraintSide} {slot : ℕ} {s : ℝ}

theorem lagTerm_twice (htie : ¬ side.IsEquality → s + m.constraintTol ≠ 0) :
    ScalarTwice (m.lagTerm side slot) (m.lagSlope side slot) 0 s := by
  have hlinear := scalarTwice_linear (s := s) (m.lagrangeMult slot)
  by_cases heq : side.IsEquality
  · have hterm : m.lagTerm side slot = fun t => m.lagrangeMult slot * t :=
      funext fun t => if_pos (.inl heq)
    have hslope : m.lagSlope side slot = fun _ => m.lagrangeMult slot :=
      funext fun t => if_pos (.inl heq)
    rwa [hterm, hslope]
  · rcases lt_or_gt_of_ne (htie heq) with hlt | hgt
    · refine (scalarTwice_const (s := s) 0).of_lt (c := -m.constraintTol) (by linarith) ?_ ?_ <;>
        intro t ht <;> refine if_neg ?_ <;> rintro (h | h)
      · exact heq h
      · linarith
      · exact heq h
      · linarith
    · refine hlinear.of_gt (c := -m.constraintTol) (by linarith) ?_ ?_ <;>
        intro t ht <;> exact if_pos (.inr (by linarith))

variable (m slot) in
/-- Where the augmented term is active it is a quadratic function. -/
theorem augQuadratic_twice : ScalarTwice
    (fun t => (m.augLagrangeMult slot + m.penaltyParameter * t) * t)
    (fun t => m.augLagrangeMult slot + 2 * m.penaltyParameter * t) (2 * m.penaltyParameter) s := by
  have h := scalarTwice_quadratic (s := s) m.penaltyParameter (m.augLagrangeMult slot) 0
  simp only [sub_zero] at h
  convert h using 2 <;> ring

theorem augTerm_twice (htie : ¬ side.IsEquality → s ≠ m.augBound slot) :
    ScalarTwice (m.augTerm side slot) (m.augSlope side slot) (m.augCurvature side slot s) s := by
  have hquad := augQuadratic_twice m slot (s := s)
  by_cases heq : side.IsEquality
  · have hterm : m.augTerm side slot = fun t =>
        (m.augLagrangeMult slot + m.penaltyParameter * t) * t := by
      funext t
      rw [augTerm, augPsi, if_pos heq]
    have hslope : m.augSlope side slot = fun t =>
        m.augLagrangeMult slot + 2 * m.penaltyParameter * t :=
      funext fun t => if_pos (.inl heq)
    rwa [hterm, hslope, augCurvature, if_pos (.inl heq)]
  · have hactive {t : ℝ} : m.AugActive side slot t ↔ m.augBound slot ≤ t :=
      or_iff_right heq
    rcases lt_or_gt_of_ne (htie heq) with hlt | hgt
    · rw [augCurvature, if_neg (by rwa [hactive, not_le])]
      refine (scalarTwice_const (s := s) ((m.augLagrangeMult slot + m.penaltyParameter *
        m.augBound slot) * m.augBound slot)).of_lt hlt (fun t ht => ?_) fun t ht => ?_
      · rw [augTerm, augPsi, if_neg heq, max_eq_right ht.le]
      · exact if_neg (by rwa [hactive, not_le])
    · rw [augCurvature, if_pos (hactive.mpr hgt.le)]
      refine hquad.of_gt hgt (fun t ht => ?_) fun t ht => ?_
      · rw [augTerm, augPsi, if_neg heq, max_eq_left ht.le]
      · exact if_pos (hactive.mpr ht.le)

/-- Where a side is violated the penalty term is a quadratic function. -/
theorem penQuadratic_twice (k : ℝ) : ScalarTwice
    (fun t => m.penaltyParameter * ((t - k) * (t - k)))
    (fun t => 2 * m.penaltyParameter * (t - k)) (2 * m.penaltyParameter) s := by
  have h := scalarTwice_quadratic (s := s) m.penaltyParameter 0 k
  simp only [zero_mul, add_zero] at h
  convert h using 2
  ring

theorem penTerm_twice (htol : 0 ≤ m.constraintTol)
    (htie : side.magnitude s ≠ m.constraintTol) :
    ∃ curvature, ScalarTwice (fun t => m.penaltyParameter * violTerm m.constraintTol side t)
      (m.penSlope side) curvature s := by
  have habove (h : m.constraintTol < s) : ∃ curvature,
      ScalarTwice (fun t => m.penaltyParameter * violTerm m.constraintTol side t)
        (m.penSlope side) curvature s := by
    refine ⟨_, (penQuadratic_twice m.constraintTol).of_gt h (fun t ht => ?_) fun t ht => if_pos ht⟩
    have hpos : t - m.constraintTol > 0 := sub_pos.mpr ht
    cases side with
    | equality i =>
      have habs : |t| = t := abs_of_nonneg (htol.trans ht.le)
      simp only [violTerm, habs, if_pos hpos]
    | lower i => simp only [violTerm, if_pos hpos]
    | upper i => simp only [violTerm, if_pos hpos]
  have hzero := scalarTwice_const (s := s) 0
  cases side with
  | lower i =>
    rcases lt_or_gt_of_ne (show s ≠ m.constraintTol from htie) with hlt | hgt
    · refine ⟨0, hzero.of_lt hlt (fun t ht => ?_) fun t ht => ?_⟩
      · simp [violTerm, ht.le]
      · simp [penSlope, ht.le, ConstraintSide.IsEquality]
    · exact habove hgt
  | upper i =>
    rcases lt_or_gt_of_ne (show s ≠ m.constraintTol from htie) with hlt | hgt
    · refine ⟨0, hzero.of_lt hlt (fun t ht => ?_) fun t ht => ?_⟩
      · simp [violTerm, ht.le]
      · simp [penSlope, ht.le, ConstraintSide.IsEquality]
    · exact habove hgt
  | equality i =>
    rcases lt_or_gt_of_ne (show |s| ≠ m.constraintTol from htie) with hlt | hgt
    · -- within the tolerance on both sides
      have hmem : Set.Ioo (-m.constraintTol) m.constraintTol ∈ nhds s :=
        Ioo_mem_nhds (abs_lt.mp hlt).1 (abs_lt.mp hlt).2
      refine ⟨0, hzero.congr (Filter.eventually_of_mem hmem fun t ht => ?_)
        (Filter.eventually_of_mem hmem fun t ht => ?_)⟩
      · simp [violTerm, (abs_lt.mpr ht).le]
      · rw [penSlope, if_neg (not_lt.mpr ht.2.le), if_neg fun h => not_lt.mpr ht.1.le h.2]
    · rcases lt_abs.mp hgt with h | h
      · exact habove h
      · -- below the target
        refine ⟨_, (penQuadratic_twice (m := m) (-m.constraintTol)).of_lt (c := -m.constraintTol)
          (by linarith) (fun t ht => ?_) fun t ht => ?_⟩
        · have habs : |t| = -t := abs_of_neg (by linarith)
          have hpos : -t - m.constraintTol > 0 := by linarith
          simp only [violTerm, habs, if_pos hpos]
          ring
        · rw [penSlope, if_neg (by linarith), if_pos ⟨trivial, ht⟩, sub_neg_eq_add]

end

/-! ## Consistency -/

section

variable {n : ℕ} {m : SurrBasedMinimizer ℝ n} {b : ConstraintBounds ℝ}
  {fnVals : (Fin n → ℝ) → ℕ → ℝ} {fnGrads : (Fin n → ℝ) → ℕ → Fin n → ℝ}
  {fnHessians : ℕ → Matrix (Fin n) (Fin n) ℝ} {x : Fin n → ℝ}

/-- The functions of a response and the objective, near a point, with their derivatives. -/
structure LocalResponse (m : SurrBasedMinimizer ℝ n) (fnVals : (Fin n → ℝ) → ℕ → ℝ)
    (fnGrads : (Fin n → ℝ) → ℕ → Fin n → ℝ) (fnHessians : ℕ → Matrix (Fin n) (Fin n) ℝ)
    (x : Fin n → ℝ) : Prop where
  constraints : ∀ fn < m.numUserPrimaryFns + m.numNonlinearIneqConstraints +
      m.numNonlinearEqConstraints,
    HasHessAt (fun y => fnVals y fn) (fun y => fnGrads y fn) (fnHessians fn) x
  objective : HasHessAt (fun y => m.objective (fnVals y))
    (fun y => m.objectiveGradient (fnVals y) (fnGrads y))
    (m.objectiveHessian (fnVals x) (fnGrads x) fnHessians) x

/-- No activity test holds with equality. -/
structure NoTies (m : SurrBasedMinimizer ℝ n) (b : ConstraintBounds ℝ) (vals : ℕ → ℝ) : Prop where
  lag : ∀ side ∈ m.sides b, ¬ side.IsEquality → m.sideValue b vals side + m.constraintTol ≠ 0
  aug : ∀ p ∈ (m.sides b).zipIdx, ¬ p.1.IsEquality → m.sideValue b vals p.1 ≠ m.augBound p.2
  pen : ∀ side ∈ m.sides m.orig, side.magnitude (m.sideValue m.orig vals side) ≠ m.constraintTol

/-- The constraint that a side belongs to. -/
theorem lt_of_mem_sides {side : ConstraintSide} (h : side ∈ m.sides b) : match side with
    | .lower i => i < m.numNonlinearIneqConstraints
    | .upper i => i < m.numNonlinearIneqConstraints
    | .equality i => i < m.numNonlinearEqConstraints := by
  rcases List.mem_append.mp h with h | h
  · obtain ⟨i, hi, hside⟩ := List.mem_flatMap.mp h
    have hlt := List.mem_range.mp hi
    rcases List.mem_append.mp hside with hside | hside <;> split_ifs at hside <;>
      simp only [List.mem_singleton, List.not_mem_nil] at hside <;> subst hside <;> exact hlt
  · obtain ⟨i, hi, rfl⟩ := List.mem_map.mp h
    exact List.mem_range.mp hi

/-- The value of a side has the derivatives of the side. -/
theorem LocalResponse.side (h : LocalResponse m fnVals fnGrads fnHessians x)
    {side : ConstraintSide} (hside : side ∈ m.sides b) :
    HasHessAt (fun y => m.sideValue b (fnVals y) side)
      (fun y => m.sideDeriv (fnGrads y) side) (m.sideDeriv fnHessians side) x := by
  have hlt := lt_of_mem_sides hside
  cases side with
  | lower i =>
    have hfn := h.constraints (m.ineqFn i) (by unfold ineqFn; simp only at hlt; omega)
    simpa only [neg_add_eq_sub, sideValue, sideDeriv] using hfn.neg.add_const (b.nlnIneqLBnds i)
  | upper i =>
    have hfn := h.constraints (m.ineqFn i) (by unfold ineqFn; simp only at hlt; omega)
    exact hfn.add_const (-b.nlnIneqUBnds i)
  | equality i =>
    have hfn := h.constraints (m.eqFn i) (by unfold eqFn; simp only at hlt; omega)
    exact hfn.add_const (-b.nlnEqTgts i)

theorem mem_sides_of_zipIdx {p : ConstraintSide × ℕ} (hp : p ∈ (m.sides b).zipIdx) :
    p.1 ∈ m.sides b :=
  List.fst_mem_of_mem_zipIdx hp

variable (b) in
/-- A sum over sides, each with a function of its value. -/
theorem LocalResponse.sideSum (h : LocalResponse m fnVals fnGrads fnHessians x)
    (term slope : ConstraintSide → ℕ → ℝ → ℝ) (curvature : ConstraintSide → ℕ → ℝ)
    (hterm : ∀ p ∈ (m.sides b).zipIdx, ScalarTwice (term p.1 p.2) (slope p.1 p.2)
      (curvature p.1 p.2) (m.sideValue b (fnVals x) p.1)) :
    HasHessAt (fun y => m.objective (fnVals y) + m.sideSum b fun side slot =>
        term side slot (m.sideValue b (fnVals y) side))
      (fun y => m.objectiveGradient (fnVals y) (fnGrads y) + m.sideSum b fun side slot =>
        slope side slot (m.sideValue b (fnVals y) side) • m.sideDeriv (fnGrads y) side)
      (m.objectiveHessian (fnVals x) (fnGrads x) fnHessians + m.sideSum b fun side slot =>
        slope side slot (m.sideValue b (fnVals x) side) • m.sideDeriv fnHessians side +
          curvature side slot • Matrix.vecMulVec (m.sideDeriv (fnGrads x) side)
            (m.sideDeriv (fnGrads x) side)) x :=
  h.objective.add (HasHessAt.listSum fun p hp =>
    (h.side (mem_sides_of_zipIdx hp)).comp (hterm p hp))

theorem lagrangian_hasHessAt (h : LocalResponse m fnVals fnGrads fnHessians x)
    (hties : NoTies m b (fnVals x)) :
    HasHessAt (fun y => m.lagrangianMerit b (fnVals y))
      (fun y => m.lagrangianGradient b (fnVals y) (fnGrads y))
      (m.lagrangianHessian b (fnVals x) (fnGrads x) fnHessians) x := by
  have hsum := h.sideSum b m.lagTerm m.lagSlope (fun _ _ => 0)
    fun p hp => lagTerm_twice (hties.lag p.1 (mem_sides_of_zipIdx hp))
  simp only [zero_smul, add_zero] at hsum
  simpa only [lagrangianMerit_eq, lagrangianGradient_eq, lagrangianHessian_eq] using hsum

/-- The Hessian of the augmented Lagrangian is that of the code and the terms of first derivatives. -/
theorem augmentedLagrangian_hasHessAt (h : LocalResponse m fnVals fnGrads fnHessians x)
    (hties : NoTies m b (fnVals x)) :
    HasHessAt (fun y => m.augmentedLagrangianMerit b (fnVals y))
      (fun y => m.augmentedLagrangianGradient b (fnVals y) (fnGrads y))
      (m.augmentedLagrangianHessian b (fnVals x) (fnGrads x) fnHessians +
        m.outerTerms b (fnVals x) (fnGrads x)) x := by
  have hsum := h.sideSum b m.augTerm m.augSlope
    (fun side slot => m.augCurvature side slot (m.sideValue b (fnVals x) side))
    fun p hp => augTerm_twice (hties.aug p hp)
  simp only [augmentedLagrangianMerit_eq, augmentedLagrangianGradient_eq,
    augmentedLagrangianHessian_eq]
  refine (congrArg (fun hess => HasHessAt _ _ hess x) ?_).mp hsum
  rw [outerTerms, SurrBasedMinimizer.sideSum, SurrBasedMinimizer.sideSum,
    SurrBasedMinimizer.sideSum, List.sum_map_add, add_assoc]

theorem penalty_hasGradAt (h : LocalResponse m fnVals fnGrads fnHessians x)
    (htol : 0 ≤ m.constraintTol) (hties : NoTies m b (fnVals x)) :
    HasGradAt (fun y => m.penaltyMerit (fnVals y)) (m.penaltyGradient (fnVals x) (fnGrads x)) x := by
  have hpen (p : ConstraintSide × ℕ) (hp : p ∈ (m.sides m.orig).zipIdx) :=
    penTerm_twice htol (hties.pen p.1 (mem_sides_of_zipIdx hp))
  choose! curvature hcurvature using hpen
  have hsum := h.sideSum m.orig
    (fun side _ s => m.penaltyParameter * violTerm m.constraintTol side s)
    (fun side _ => m.penSlope side) (fun side slot => curvature (side, slot)) hcurvature
  have hmerit (y : Fin n → ℝ) : m.penaltyMerit (fnVals y) = m.objective (fnVals y) +
      m.sideSum m.orig fun side _ =>
        m.penaltyParameter * violTerm m.constraintTol side (m.sideValue m.orig (fnVals y) side) := by
    rw [penaltyMerit, constraintViolation_eq, SurrBasedMinimizer.sideSum,
      SurrBasedMinimizer.sideSum, List.sum_map_mul_left]
  simp only [hmerit, penaltyGradient_eq]
  exact hsum.hasGradAt

/-- The bounds are finite where the original ones are. -/
structure SamePattern (m : SurrBasedMinimizer ℝ n) (b : ConstraintBounds ℝ) : Prop where
  lower : ∀ i < m.numNonlinearIneqConstraints, m.HasLower b i ↔ m.HasLower m.orig i
  upper : ∀ i < m.numNonlinearIneqConstraints, m.HasUpper b i ↔ m.HasUpper m.orig i

theorem SamePattern.sides_eq (h : SamePattern m b) : m.sides b = m.sides m.orig := by
  refine congrArg (· ++ _) (List.flatMap_congr fun i hi => ?_)
  have hi := List.mem_range.mp hi
  simp only [ineqSides, h.lower i hi, h.upper i hi]

/-- A loop of updates, each of its own entry. -/
theorem foldl_update {α K : Type} {l : List α} {f : α → K → K} {k : ℕ} (start : ℕ) (mult : ℕ → K) :
    (l.zipIdx start).foldl (fun mult p => Function.update mult p.2 (f p.1 (mult p.2))) mult k =
      if start ≤ k then
        match l[k - start]? with
        | some a => f a (mult k)
        | none => mult k
      else mult k := by
  induction l generalizing start mult with
  | nil => simp
  | cons a l ih =>
    rw [List.zipIdx_cons, List.foldl_cons, ih]
    rcases lt_trichotomy k start with hlt | rfl | hgt
    · rw [if_neg (by omega), if_neg (by omega), Function.update_of_ne hlt.ne]
    · rw [if_neg (by omega), if_pos le_rfl, Function.update_self, Nat.sub_self]
      rfl
    · rw [if_pos (by omega), if_pos hgt.le, Function.update_of_ne hgt.ne',
        show k - start = k - (start + 1) + 1 by omega, List.getElem?_cons_succ]

/-- The update advances the slot of each side, and no other. -/
theorem updateAugmentedLagrangeMultipliers_apply {vals : ℕ → ℝ} {slot : ℕ} :
    m.updateAugmentedLagrangeMultipliers vals slot = match (m.sides m.orig)[slot]? with
      | some side => m.augLagrangeMult slot +
          2 * m.penaltyParameter * m.augPsi side slot (m.sideValue m.orig vals side)
      | none => m.augLagrangeMult slot := by
  have hstep := foldl_update (l := m.sides m.orig) 0 m.augLagrangeMult (k := slot)
    (f := fun side mult => mult + 2 * m.penaltyParameter *
      if side.IsEquality then m.sideValue m.orig vals side
      else max (m.sideValue m.orig vals side) (-mult / 2 / m.penaltyParameter))
  rw [if_pos (Nat.zero_le slot), Nat.sub_zero] at hstep
  unfold updateAugmentedLagrangeMultipliers
  rw [eqLoop_ineqLoop]
  refine Eq.trans (congrFun (congrArg (fun step => List.foldl step m.augLagrangeMult
    (m.sides m.orig).zipIdx) ?_) slot) (hstep.trans ?_)
  · funext mult ⟨side, k⟩
    cases side <;> simp [sideStep, sideValue, ConstraintSide.IsEquality]
  · cases (m.sides m.orig)[slot]? <;> rfl

/-- Every function has each side with the same slot, which is the one that the update advances. -/
structure SlotsPaired (m : SurrBasedMinimizer ℝ n) (b : ConstraintBounds ℝ) (vals : ℕ → ℝ)
    (grads : ℕ → Fin n → ℝ) (hessians : ℕ → Matrix (Fin n) (Fin n) ℝ) : Prop where
  sides_eq : m.sides b = m.sides m.orig
  lag_merit : m.lagrangianMerit b vals = m.objective vals +
    m.sideSum b fun side slot => m.lagTerm side slot (m.sideValue b vals side)
  lag_gradient : m.lagrangianGradient b vals grads = m.objectiveGradient vals grads +
    m.sideSum b fun side slot =>
      m.lagSlope side slot (m.sideValue b vals side) • m.sideDeriv grads side
  lag_hessian : m.lagrangianHessian b vals grads hessians = m.objectiveHessian vals grads hessians +
    m.sideSum b fun side slot =>
      m.lagSlope side slot (m.sideValue b vals side) • m.sideDeriv hessians side
  aug_merit : m.augmentedLagrangianMerit b vals = m.objective vals +
    m.sideSum b fun side slot => m.augTerm side slot (m.sideValue b vals side)
  aug_gradient : m.augmentedLagrangianGradient b vals grads = m.objectiveGradient vals grads +
    m.sideSum b fun side slot =>
      m.augSlope side slot (m.sideValue b vals side) • m.sideDeriv grads side
  aug_hessian : m.augmentedLagrangianHessian b vals grads hessians =
    m.objectiveHessian vals grads hessians + m.sideSum b fun side slot =>
      m.augSlope side slot (m.sideValue b vals side) • m.sideDeriv hessians side
  update : ∀ slot, m.updateAugmentedLagrangeMultipliers vals slot =
    match (m.sides m.orig)[slot]? with
      | some side => m.augLagrangeMult slot +
          2 * m.penaltyParameter * m.augPsi side slot (m.sideValue m.orig vals side)
      | none => m.augLagrangeMult slot

/-- Gradients and Hessians are the derivatives of the merit functions, with the same slots. -/
structure MeritsConsistent (m : SurrBasedMinimizer ℝ n) (b : ConstraintBounds ℝ)
    (fnVals : (Fin n → ℝ) → ℕ → ℝ) (fnGrads : (Fin n → ℝ) → ℕ → Fin n → ℝ)
    (fnHessians : ℕ → Matrix (Fin n) (Fin n) ℝ) (x : Fin n → ℝ) : Prop where
  lag_gradient : HasGradAt (fun y => m.lagrangianMerit b (fnVals y))
    (m.lagrangianGradient b (fnVals x) (fnGrads x)) x
  lag_hessian : ∃ grad, HasHessAt (fun y => m.lagrangianMerit b (fnVals y)) grad
    (m.lagrangianHessian b (fnVals x) (fnGrads x) fnHessians) x
  aug_gradient : HasGradAt (fun y => m.augmentedLagrangianMerit b (fnVals y))
    (m.augmentedLagrangianGradient b (fnVals x) (fnGrads x)) x
  aug_hessian : ∃ grad, HasHessAt (fun y => m.augmentedLagrangianMerit b (fnVals y)) grad
    (m.augmentedLagrangianHessian b (fnVals x) (fnGrads x) fnHessians) x
  pen_gradient : HasGradAt (fun y => m.penaltyMerit (fnVals y))
    (m.penaltyGradient (fnVals x) (fnGrads x)) x
  slots : SlotsPaired m b (fnVals x) (fnGrads x) fnHessians

/-- The sides that are active in the augmented Lagrangian do not change to first order. -/
def ActiveFlat (m : SurrBasedMinimizer ℝ n) (b : ConstraintBounds ℝ) (vals : ℕ → ℝ)
    (grads : ℕ → Fin n → ℝ) : Prop :=
  ∀ p ∈ (m.sides b).zipIdx, m.AugActive p.1 p.2 (m.sideValue b vals p.1) →
    m.sideDeriv grads p.1 = 0

theorem list_sum_entry {α : Type} {l : List α} {M : α → Matrix (Fin n) (Fin n) ℝ} {j k : Fin n} :
    (l.map M).sum j k = (l.map fun a => M a j k).sum := by
  induction l with
  | nil => rfl
  | cons a l ih => rw [List.map_cons, List.sum_cons, Matrix.add_apply, ih, List.map_cons, List.sum_cons]

/-- The terms of first derivatives vanish only together. -/
theorem outerTerms_eq_zero_iff (hpen : 0 < m.penaltyParameter) {vals : ℕ → ℝ}
    {grads : ℕ → Fin n → ℝ} : m.outerTerms b vals grads = 0 ↔ ActiveFlat m b vals grads := by
  constructor
  · intro h p hp hactive
    funext j
    have hentry : ((m.sides b).zipIdx.map fun p =>
        m.augCurvature p.1 p.2 (m.sideValue b vals p.1) * (m.sideDeriv grads p.1 j) ^ 2).sum = 0 := by
      have hj := congrFun (congrFun h j) j
      rw [outerTerms, SurrBasedMinimizer.sideSum, list_sum_entry] at hj
      simpa [Matrix.vecMulVec_apply, pow_two] using hj
    have hnonneg : ∀ y ∈ (m.sides b).zipIdx.map fun p =>
        m.augCurvature p.1 p.2 (m.sideValue b vals p.1) * (m.sideDeriv grads p.1 j) ^ 2, 0 ≤ y := by
      intro y hy
      obtain ⟨q, -, rfl⟩ := List.mem_map.mp hy
      refine mul_nonneg ?_ (sq_nonneg _)
      unfold augCurvature
      split_ifs <;> positivity
    have hterm := List.all_zero_of_le_zero_le_of_sum_eq_zero hnonneg hentry (List.mem_map_of_mem hp)
    rw [augCurvature, if_pos hactive] at hterm
    have hcurv : 2 * m.penaltyParameter ≠ 0 := by positivity
    exact pow_eq_zero_iff two_ne_zero |>.mp ((mul_eq_zero.mp hterm).resolve_left hcurv)
  · intro h
    refine List.sum_eq_zero fun term hterm => ?_
    obtain ⟨p, hp, rfl⟩ := List.mem_map.mp hterm
    show m.augCurvature p.1 p.2 (m.sideValue b vals p.1) • Matrix.vecMulVec (m.sideDeriv grads p.1)
      (m.sideDeriv grads p.1) = 0
    by_cases hactive : m.AugActive p.1 p.2 (m.sideValue b vals p.1)
    · rw [h p hp hactive, Matrix.vecMulVec_zero, smul_zero]
    · rw [augCurvature, if_neg hactive, zero_smul]

/-- **Merit functions**: their gradients and Hessians are their derivatives if and only if the sides
that are active in the augmented Lagrangian have zero gradients, since its Hessian has no terms of
first derivatives. -/
theorem meritsConsistent_iff (hpen : 0 < m.penaltyParameter) (htol : 0 ≤ m.constraintTol)
    (hpattern : SamePattern m b) (h : LocalResponse m fnVals fnGrads fnHessians x)
    (hties : NoTies m b (fnVals x)) :
    MeritsConsistent m b fnVals fnGrads fnHessians x ↔ ActiveFlat m b (fnVals x) (fnGrads x) := by
  have hlag := lagrangian_hasHessAt h hties
  have haug := augmentedLagrangian_hasHessAt h hties
  rw [← outerTerms_eq_zero_iff hpen]
  constructor
  · intro hcons
    obtain ⟨grad, hhess⟩ := hcons.aug_hessian
    exact left_eq_add.mp (hhess.unique haug)
  · intro hzero
    rw [hzero, add_zero] at haug
    exact {
      lag_gradient := hlag.hasGradAt
      lag_hessian := ⟨_, hlag⟩
      aug_gradient := haug.hasGradAt
      aug_hessian := ⟨_, haug⟩
      pen_gradient := penalty_hasGradAt h htol hties
      slots := {
        sides_eq := hpattern.sides_eq
        lag_merit := lagrangianMerit_eq
        lag_gradient := lagrangianGradient_eq
        lag_hessian := lagrangianHessian_eq
        aug_merit := augmentedLagrangianMerit_eq
        aug_gradient := augmentedLagrangianGradient_eq
        aug_hessian := augmentedLagrangianHessian_eq
        update := fun _ => updateAugmentedLagrangeMultipliers_apply } }

/-- One variable, no objective, and the variable as the function of the constraints. -/
noncomputable def linearConstraint (ineqs eqs : ℕ) : SurrBasedMinimizer ℝ 1 where
  numUserPrimaryFns := 1
  numNonlinearIneqConstraints := ineqs
  numNonlinearEqConstraints := eqs
  bigRealBoundSize := 2
  constraintTol := 1 / 2
  penaltyParameter := 1
  lagrangeMult _ := 0
  augLagrangeMult _ := 0
  orig := ⟨fun _ => -3, fun _ => 1, fun _ => 0⟩
  objective _ := 0
  objectiveGradient _ _ := 0
  objectiveHessian _ _ _ := 0

noncomputable def linearVals (y : Fin 1 → ℝ) (_ : ℕ) : ℝ := dotMap 1 y

noncomputable def linearGrads (_ : Fin 1 → ℝ) (_ : ℕ) : Fin 1 → ℝ := 1

noncomputable def linearHessians (_ : ℕ) : Matrix (Fin 1) (Fin 1) ℝ := 0

theorem linearConstraint_response (ineqs eqs : ℕ) (x : Fin 1 → ℝ) :
    LocalResponse (linearConstraint ineqs eqs) linearVals linearGrads linearHessians x where
  constraints _ _ := hasHessAt_dot 1
  objective := hasHessAt_const 0

theorem linearConstraint_equality : (linearConstraint 0 1).sides (linearConstraint 0 1).orig =
    [.equality 0] := rfl

theorem linearConstraint_noTies :
    NoTies (linearConstraint 0 1) (linearConstraint 0 1).orig (linearVals 0) := by
  have hside {side : ConstraintSide} (h : side ∈ (linearConstraint 0 1).sides
      (linearConstraint 0 1).orig) : side = .equality 0 := by
    rwa [linearConstraint_equality, List.mem_singleton] at h
  constructor
  · intro side hmem hne
    rw [hside hmem] at hne
    exact absurd trivial hne
  · intro p hp hne
    rw [hside (mem_sides_of_zipIdx hp)] at hne
    exact absurd trivial hne
  · intro side hmem
    rw [hside hmem]
    simp [ConstraintSide.magnitude, sideValue, linearConstraint, linearVals]

/-- A linear equality at its target: the augmented Lagrangian is the square of the variable, and its
Hessian in the code is zero. -/
theorem linearEquality_inconsistent :
    SamePattern (linearConstraint 0 1) (linearConstraint 0 1).orig ∧
    LocalResponse (linearConstraint 0 1) linearVals linearGrads linearHessians 0 ∧
    NoTies (linearConstraint 0 1) (linearConstraint 0 1).orig (linearVals 0) ∧
    ¬ MeritsConsistent (linearConstraint 0 1) (linearConstraint 0 1).orig linearVals
      linearGrads linearHessians 0 := by
  have hresponse := linearConstraint_response 0 1 0
  refine ⟨⟨fun _ _ => Iff.rfl, fun _ _ => Iff.rfl⟩, hresponse, linearConstraint_noTies, fun h => ?_⟩
  obtain ⟨grad, hhess⟩ := h.aug_hessian
  have haug := augmentedLagrangian_hasHessAt hresponse linearConstraint_noTies
  have hflat := (outerTerms_eq_zero_iff one_pos).mp (left_eq_add.mp (hhess.unique haug))
  have hzero := hflat (.equality 0, 0) (by rw [linearConstraint_equality]; simp) (Or.inl trivial)
  exact one_ne_zero (congrFun hzero 0)

/-- An inequality that is not active. -/
theorem meritsConsistent_iff_inactive :
    MeritsConsistent (linearConstraint 1 0) (linearConstraint 1 0).orig linearVals
        linearGrads linearHessians 0 ↔
      ActiveFlat (linearConstraint 1 0) (linearConstraint 1 0).orig (linearVals 0)
        (linearGrads 0) := by
  have hsides : (linearConstraint 1 0).sides (linearConstraint 1 0).orig = [.upper 0] := by
    norm_num [sides, ineqSides, HasLower, HasUpper, linearConstraint]
  refine meritsConsistent_iff (by norm_num [linearConstraint]) (by norm_num [linearConstraint])
    ⟨fun _ _ => Iff.rfl, fun _ _ => Iff.rfl⟩ (linearConstraint_response 1 0 0) ?_
  constructor
  · intro side hside _
    rw [hsides, List.mem_singleton] at hside
    subst hside
    norm_num [sideValue, linearConstraint, linearVals]
  · intro p hp _
    have hside := mem_sides_of_zipIdx hp
    rw [hsides, List.mem_singleton] at hside
    rw [hside]
    norm_num [sideValue, linearConstraint, linearVals, augBound]
  · intro side hside
    rw [hsides, List.mem_singleton] at hside
    subst hside
    norm_num [ConstraintSide.magnitude, sideValue, linearConstraint, linearVals]

end

end SurrBasedMinimizer

end Dakota
