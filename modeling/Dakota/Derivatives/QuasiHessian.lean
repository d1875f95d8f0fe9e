import Dakota.Lib.Outcome
import Dakota.Lib.Secant

/-!
# Quasi-Hessians

`Model::update_quasi_hessians` (`src/src/DakotaModel.cpp`): secant updates of the stored Hessian of
each response function, by SR1, BFGS and damped BFGS.

* The arithmetic is exact, over an ordered field. It has no square roots: a norm is compared by its
  square (`smallNorm`, `sr1Performed`).
* A division by zero is an error (`divisor`).
* `updateFunction_ok_iff`: the steps that do not divide by zero (`Safe`). SR1 never does; BFGS does
  if the matrix has no curvature along the step.
* `updateFunction_spec` has what one update does, and `run_ok_iff` what a run does.
-/

namespace Dakota.Derivatives

open Matrix

/-- `quasiHessType` -/
inductive QuasiHessType where
  | sr1
  | bfgs
  | dampedBfgs
deriving DecidableEq, Repr

inductive QuasiError where
  | divisionByZero
deriving DecidableEq, Repr

/-- The history of one response function. -/
structure FnHistory (K : Type) (n : Nat) where
  quasiHessian : Matrix (Fin n) (Fin n) K
  xPrev : Fin n → K
  fnGradsPrev : Fin n → K
  numQuasiUpdates : Nat

/-- The arguments of one call: the point, the gradients and the request vector. -/
structure QuasiCall (K : Type) (n : Nat) where
  x : Fin n → K
  fnGrads : Nat → Fin n → K
  asv : Nat → Nat

variable {K : Type} [Field K] [LinearOrder K] {n : Nat}

/-- A number that is divided by. -/
def divisor (c : K) : Except QuasiError K := if c = 0 then .error .divisionByZero else .ok c

/-- `Pecos::SMALL_NUMBER` -/
abbrev SmallNumber (K : Type) [Field K] [LinearOrder K] := {c : K // 0 < c}

variable (small : SmallNumber K)

/-- `Pecos::is_small(norm)` of the norm of a vector. -/
def smallNorm (v : Fin n → K) : Bool := v ⬝ᵥ v < small.1 ^ 2

/-- `Pecos::is_small(std::sqrt(std::fabs(c)))` -/
def smallRoot (c : K) : Bool := |c| < small.1 ^ 2

/-- The initial scaling. In the case of no yield, 0 is assigned. -/
def initialScaling (s y : Fin n → K) : Except QuasiError K :=
  let scaling1 := y ⬝ᵥ s
  if smallNorm small y then .ok 0
  else if smallRoot small scaling1 then .ok 1
  else do return (y ⬝ᵥ y) / (← divisor scaling1)

/-- The matrix with a scaling on the diagonal. -/
def setDiagonal (c : K) (B : Matrix (Fin n) (Fin n) K) : Matrix (Fin n) (Fin n) K :=
  fun j k => if j = k then c else B j k

/-- The matrix before the update: the initial scaling is applied prior to the first one. -/
def scaledHessian (h : FnHistory K n) (s y : Fin n → K) :
    Except QuasiError (Matrix (Fin n) (Fin n) K) :=
  if h.numQuasiUpdates = 1 then do return setDiagonal (← initialScaling small s y) h.quasiHessian
  else .ok h.quasiHessian

/-- `fabs(scaling) > 1.e-6*norm_s*norm_ymBs` -/
def sr1Performed (B : Matrix (Fin n) (Fin n) K) (s y : Fin n → K) : Bool :=
  let ymBs := y - B *ᵥ s
  (1 / 10 ^ 6) ^ 2 * (s ⬝ᵥ s) * (ymBs ⬝ᵥ ymBs) < (ymBs ⬝ᵥ s) ^ 2

/-- Symmetric rank 1. -/
def sr1Update (B : Matrix (Fin n) (Fin n) K) (s y : Fin n → K) :
    Except QuasiError (Matrix (Fin n) (Fin n) K) :=
  let ymBs := y - B *ᵥ s
  if sr1Performed B s y then do
    let scaling ← divisor (ymBs ⬝ᵥ s)
    return fromUpper fun j k => B j k + ymBs j * ymBs k / scaling
  else .ok B

/-- The terms of BFGS, for the upper half of the matrix. -/
def addBfgsTerms (B : Matrix (Fin n) (Fin n) K) (r Bs : Fin n → K) (scaling1 scaling2 : K) :
    Except QuasiError (Matrix (Fin n) (Fin n) K) := do
  let scaling1 ← divisor scaling1
  let scaling2 ← divisor scaling2
  return fromUpper fun j k => B j k + (r j * r k / scaling1 - Bs j * Bs k / scaling2)

/-- The test for standard BFGS: `fabs(scaling1) > 1.e-6*fabs(scaling2)`, or
`scaling1 >= 0.2*scaling2` if it is damped. -/
def bfgsPerformed (damped : Bool) (B : Matrix (Fin n) (Fin n) K) (s y : Fin n → K) : Bool :=
  if damped then 1 / 5 * (s ⬝ᵥ (B *ᵥ s)) ≤ y ⬝ᵥ s
  else 1 / 10 ^ 6 * |s ⬝ᵥ (B *ᵥ s)| < |y ⬝ᵥ s|

/-- Broyden-Fletcher-Goldfarb-Shanno. -/
def bfgsUpdate (damped : Bool) (B : Matrix (Fin n) (Fin n) K) (s y : Fin n → K) :
    Except QuasiError (Matrix (Fin n) (Fin n) K) :=
  let Bs := B *ᵥ s
  let scaling1 := y ⬝ᵥ s
  let scaling2 := s ⬝ᵥ Bs
  if bfgsPerformed damped B s y then addBfgsTerms B y Bs scaling1 scaling2
  else if damped then do
    let theta := 4 / 5 * scaling2 / (← divisor (scaling2 - scaling1))
    let r := fun j => theta * y j + (1 - theta) * Bs j
    addBfgsTerms B r Bs (r ⬝ᵥ s) scaling2
  else .ok B

/-- The update by each formula. -/
def secantUpdate (type : QuasiHessType) (B : Matrix (Fin n) (Fin n) K) (s y : Fin n → K) :
    Except QuasiError (Matrix (Fin n) (Fin n) K) :=
  match type with
  | .sr1 => sr1Update B s y
  | .bfgs => bfgsUpdate false B s y
  | .dampedBfgs => bfgsUpdate true B s y

variable (type : QuasiHessType)

/-- The step to a new point. -/
def FnHistory.step (h : FnHistory K n) (x : Fin n → K) : Fin n → K := x - h.xPrev

/-- The yield of a new gradient. -/
def FnHistory.yield (h : FnHistory K n) (g : Fin n → K) : Fin n → K := g - h.fnGradsPrev

/-- The update for one function with a new gradient. A step that is zero changes nothing; without
history there is no step. -/
def updateFunction (h : FnHistory K n) (x g : Fin n → K) : Except QuasiError (FnHistory K n) :=
  let s := h.step x
  let y := h.yield g
  if h.numQuasiUpdates = 0 then .ok { h with xPrev := x, fnGradsPrev := g, numQuasiUpdates := 1 }
  else if smallNorm small s then .ok h
  else do
    let B ← scaledHessian small h s y
    let B ← secantUpdate type B s y
    return ⟨B, x, g, h.numQuasiUpdates + 1⟩

/-- `update_quasi_hessians`; a function without a quasi-Hessian has no history. -/
def updateQuasiHessians (hists : List (Option (FnHistory K n))) (call : QuasiCall K n) :
    Except QuasiError (List (Option (FnHistory K n))) :=
  hists.zipIdx.mapM fun (h, i) =>
    match h with
    | some h =>
      if call.asv i &&& 2 ≠ 0 then some <$> updateFunction small type h call.x (call.fnGrads i)
      else .ok (some h)
    | none => .ok none

/-- The first call initializes the quasi-Hessians to zero matrices. -/
def initialHistories (quasi : List Bool) : List (Option (FnHistory K n)) :=
  quasi.map fun q => if q then some ⟨0, 0, 0, 0⟩ else none

/-- A sequence of calls. -/
def runUpdates (quasi : List Bool) (calls : List (QuasiCall K n)) :
    Except QuasiError (List (Option (FnHistory K n))) :=
  calls.foldlM (updateQuasiHessians small type) (initialHistories quasi)

/-! ## Norms

Over the real numbers, the comparisons of squares are those of the norms. -/

theorem smallNorm_iff_sqrt (small : SmallNumber ℝ) (v : Fin n → ℝ) :
    smallNorm small v ↔ |Real.sqrt (v ⬝ᵥ v)| < small := by
  rw [abs_of_nonneg (Real.sqrt_nonneg _), Real.sqrt_lt' small.2]
  exact decide_eq_true_iff

theorem smallRoot_iff_sqrt (small : SmallNumber ℝ) (c : ℝ) :
    smallRoot small c ↔ abs (Real.sqrt |c|) < small := by
  rw [abs_of_nonneg (Real.sqrt_nonneg _), Real.sqrt_lt' small.2]
  exact decide_eq_true_iff

theorem sr1Performed_iff_sqrt (B : Matrix (Fin n) (Fin n) ℝ) (s y : Fin n → ℝ) :
    sr1Performed B s y ↔ 1 / 10 ^ 6 * Real.sqrt (s ⬝ᵥ s) *
      Real.sqrt ((y - B *ᵥ s) ⬝ᵥ (y - B *ᵥ s)) < |(y - B *ᵥ s) ⬝ᵥ s| := by
  have hself (v : Fin n → ℝ) : 0 ≤ v ⬝ᵥ v := Finset.sum_nonneg fun i _ => mul_self_nonneg _
  have hnonneg : 0 ≤ 1 / 10 ^ 6 * Real.sqrt (s ⬝ᵥ s) *
      Real.sqrt ((y - B *ᵥ s) ⬝ᵥ (y - B *ᵥ s)) := by positivity
  rw [← abs_of_nonneg hnonneg, ← sq_lt_sq, mul_pow, mul_pow, Real.sq_sqrt (hself _),
    Real.sq_sqrt (hself _)]
  exact decide_eq_true_iff

/-! ## One update -/

/-- The updates that do not divide by zero. -/
def SafeUpdate (B : Matrix (Fin n) (Fin n) K) (s y : Fin n → K) : Prop :=
  match type with
  | .sr1 => True
  | .bfgs => bfgsPerformed false B s y → s ⬝ᵥ (B *ᵥ s) ≠ 0
  | .dampedBfgs => s ⬝ᵥ (B *ᵥ s) ≠ 0 ∧
      if bfgsPerformed true B s y then y ⬝ᵥ s ≠ 0 else s ⬝ᵥ (B *ᵥ s) ≠ y ⬝ᵥ s

/-- The update is performed, and not damped. -/
def undampedPerformed (B : Matrix (Fin n) (Fin n) K) (s y : Fin n → K) : Bool :=
  match type with
  | .sr1 => sr1Performed B s y
  | .bfgs => bfgsPerformed false B s y
  | .dampedBfgs => false

variable {small type} {B B' : Matrix (Fin n) (Fin n) K} {s y r Bs : Fin n → K} {c c1 c2 : K}

theorem divisor_eq_ok : divisor c = .ok c1 ↔ c ≠ 0 ∧ c1 = c := by
  unfold divisor
  by_cases h : c = 0
  · simp [h]
  · simp [h, eq_comm]

theorem addBfgsTerms_eq_ok : addBfgsTerms B r Bs c1 c2 = .ok B' ↔
    (c1 ≠ 0 ∧ c2 ≠ 0) ∧ B' = fromUpper (rankOne (rankOne B r c1) Bs (-c2)) := by
  have hterms : (fun j k => B j k + (r j * r k / c1 - Bs j * Bs k / c2)) =
      rankOne (rankOne B r c1) Bs (-c2) := by
    funext j k
    simp only [rankOne, div_neg]
    ring
  unfold addBfgsTerms
  simp only [Outcome.bind_eq_ok, divisor_eq_ok]
  constructor
  · rintro ⟨_, ⟨hc1, rfl⟩, _, ⟨hc2, rfl⟩, h⟩
    cases h
    exact ⟨⟨hc1, hc2⟩, by rw [← hterms]⟩
  · rintro ⟨⟨hc1, hc2⟩, rfl⟩
    exact ⟨c1, ⟨hc1, rfl⟩, c2, ⟨hc2, rfl⟩, by rw [← hterms]; rfl⟩

variable [IsStrictOrderedRing K]

variable (small) in
/-- The initial scaling divides by the product of step and yield only if that is not small. -/
theorem exists_initialScaling : ∃ c, initialScaling small s y = .ok c := by
  unfold initialScaling
  dsimp only
  split
  · exact ⟨0, rfl⟩
  · split
    · exact ⟨1, rfl⟩
    · rename_i hroot
      have hne : y ⬝ᵥ s ≠ 0 := by
        intro h0
        apply hroot
        unfold smallRoot
        rw [h0, abs_zero]
        exact decide_eq_true (pow_pos small.2 2)
      exact ⟨_, Outcome.bind_eq_ok.mpr ⟨_, divisor_eq_ok.mpr ⟨hne, rfl⟩, rfl⟩⟩

variable (small) in
theorem exists_scaledHessian (h : FnHistory K n) : ∃ B, scaledHessian small h s y = .ok B := by
  unfold scaledHessian
  split
  · obtain ⟨c, hc⟩ := exists_initialScaling small (s := s) (y := y)
    exact ⟨_, Outcome.bind_eq_ok.mpr ⟨c, hc, rfl⟩⟩
  · exact ⟨_, rfl⟩

omit [Field K] [LinearOrder K] [IsStrictOrderedRing K] in
theorem setDiagonal_isSymm (hB : B.IsSymm) : (setDiagonal c B).IsSymm := by
  ext j k
  unfold setDiagonal
  by_cases hjk : j = k
  · rw [if_pos hjk, hjk]
    exact if_pos rfl
  · rw [if_neg hjk]
    exact (if_neg (Ne.symm hjk)).trans (hB.apply j k)

omit [IsStrictOrderedRing K] in
theorem scaledHessian_isSymm {h : FnHistory K n} (hh : h.quasiHessian.IsSymm)
    (hB : scaledHessian small h s y = .ok B) : B.IsSymm := by
  unfold scaledHessian at hB
  split at hB
  · obtain ⟨c, -, hB⟩ := Outcome.bind_eq_ok.mp hB
    cases hB
    exact setDiagonal_isSymm hh
  · cases hB
    exact hh

/-- The denominator is not zero if the update is performed. -/
theorem sr1_ne_zero (h : sr1Performed B s y) : (y - B *ᵥ s) ⬝ᵥ s ≠ 0 := by
  intro h0
  have hlt := of_decide_eq_true h
  rw [h0] at hlt
  have hs : 0 ≤ s ⬝ᵥ s := Finset.sum_nonneg fun i _ => mul_self_nonneg _
  have hv : 0 ≤ (y - B *ᵥ s) ⬝ᵥ (y - B *ᵥ s) := Finset.sum_nonneg fun i _ => mul_self_nonneg _
  have : (0 : K) ≤ (1 / 10 ^ 6) ^ 2 * (s ⬝ᵥ s) * ((y - B *ᵥ s) ⬝ᵥ (y - B *ᵥ s)) := by positivity
  linarith

/-- The first denominator of standard BFGS. -/
theorem bfgs_ne_zero (h : bfgsPerformed false B s y) : y ⬝ᵥ s ≠ 0 := by
  intro h0
  have hlt : 1 / 10 ^ 6 * |s ⬝ᵥ (B *ᵥ s)| < |y ⬝ᵥ s| := of_decide_eq_true h
  rw [h0, abs_zero] at hlt
  have : (0 : K) ≤ 1 / 10 ^ 6 * |s ⬝ᵥ (B *ᵥ s)| := by positivity
  linarith

/-- The damped yield along the step. -/
theorem damped_dotProduct (hne : s ⬝ᵥ (B *ᵥ s) - y ⬝ᵥ s ≠ 0) :
    (fun j => 4 / 5 * (s ⬝ᵥ (B *ᵥ s)) / (s ⬝ᵥ (B *ᵥ s) - y ⬝ᵥ s) * y j +
      (1 - 4 / 5 * (s ⬝ᵥ (B *ᵥ s)) / (s ⬝ᵥ (B *ᵥ s) - y ⬝ᵥ s)) * (B *ᵥ s) j) ⬝ᵥ s =
        1 / 5 * (s ⬝ᵥ (B *ᵥ s)) := by
  have hsplit (t : K) : (fun j => t * y j + (1 - t) * (B *ᵥ s) j) ⬝ᵥ s =
      t * (y ⬝ᵥ s) + (1 - t) * (s ⬝ᵥ (B *ᵥ s)) := by
    rw [dotProduct_comm s]
    simp only [dotProduct, Finset.mul_sum, ← Finset.sum_add_distrib]
    exact Finset.sum_congr rfl fun j _ => by ring
  rw [hsplit]
  field_simp
  ring

/-- What an update returns. -/
structure UpdateSpec (type : QuasiHessType) (B : Matrix (Fin n) (Fin n) K) (s y : Fin n → K)
    (result : Except QuasiError (Matrix (Fin n) (Fin n) K)) : Prop where
  ok_iff : (∃ B', result = .ok B') ↔ SafeUpdate type B s y
  symm : ∀ B', result = .ok B' → B.IsSymm → B'.IsSymm
  secant : ∀ B', result = .ok B' → B.IsSymm → undampedPerformed type B s y → B' *ᵥ s = y

theorem sr1Update_spec : UpdateSpec .sr1 B s y (sr1Update B s y) := by
  unfold sr1Update
  by_cases hp : sr1Performed B s y
  · have heq : (do
        let scaling ← divisor ((y - B *ᵥ s) ⬝ᵥ s)
        return fromUpper fun j k => B j k + (y - B *ᵥ s) j * (y - B *ᵥ s) k / scaling) =
          Except.ok (fromUpper (rankOne B (y - B *ᵥ s) ((y - B *ᵥ s) ⬝ᵥ s))) :=
      Outcome.bind_eq_ok.mpr ⟨_, divisor_eq_ok.mpr ⟨sr1_ne_zero hp, rfl⟩, rfl⟩
    simp only [hp, if_true, heq]
    constructor
    · exact ⟨fun _ => trivial, fun _ => ⟨_, rfl⟩⟩
    · intro B' hB' _
      cases hB'
      exact fromUpper_isSymm _
    · intro B' hB' hsymm _
      cases hB'
      rw [fromUpper_of_isSymm (rankOne_isSymm hsymm)]
      exact rankOne_mulVec rfl (sr1_ne_zero hp)
  · simp only [hp]
    constructor
    · exact ⟨fun _ => trivial, fun _ => ⟨_, rfl⟩⟩
    · intro B' hB' hsymm
      cases hB'
      exact hsymm
    · intro B' _ _ h
      exact (hp h).elim

omit [LinearOrder K] [IsStrictOrderedRing K] in
theorem rankTwo_isSymm (hsymm : B.IsSymm) : (rankOne (rankOne B r c1) Bs c2).IsSymm :=
  rankOne_isSymm (rankOne_isSymm hsymm)

theorem bfgsUpdate_spec : UpdateSpec .bfgs B s y (bfgsUpdate false B s y) := by
  unfold bfgsUpdate
  by_cases hp : bfgsPerformed false B s y
  · simp only [hp, if_true]
    constructor
    · constructor
      · rintro ⟨B', hB'⟩ _
        exact (addBfgsTerms_eq_ok.mp hB').1.2
      · intro hsafe
        exact ⟨_, addBfgsTerms_eq_ok.mpr ⟨⟨bfgs_ne_zero hp, hsafe hp⟩, rfl⟩⟩
    · intro B' hB' _
      obtain ⟨-, rfl⟩ := addBfgsTerms_eq_ok.mp hB'
      exact fromUpper_isSymm _
    · intro B' hB' hsymm _
      obtain ⟨⟨hc1, hc2⟩, rfl⟩ := addBfgsTerms_eq_ok.mp hB'
      rw [fromUpper_of_isSymm (rankTwo_isSymm hsymm)]
      exact rankTwo_mulVec hc1 hc2
  · simp only [hp]
    constructor
    · exact ⟨fun _ h => (hp h).elim, fun _ => ⟨_, rfl⟩⟩
    · intro B' hB' hsymm
      cases hB'
      exact hsymm
    · intro B' _ _ h
      exact (hp h).elim

omit [IsStrictOrderedRing K] in
/-- A damped update writes the terms of BFGS, and need not meet the secant equation. -/
theorem UpdateSpec.damped {result : Except QuasiError (Matrix (Fin n) (Fin n) K)}
    (hterms : ∀ B', result = .ok B' → ∃ r c1 c2, addBfgsTerms B r (B *ᵥ s) c1 c2 = .ok B')
    (hok : (∃ B', result = .ok B') ↔ SafeUpdate .dampedBfgs B s y) :
    UpdateSpec .dampedBfgs B s y result where
  ok_iff := hok
  symm B' hB' _ := by
    obtain ⟨r, c1, c2, h⟩ := hterms B' hB'
    obtain ⟨-, rfl⟩ := addBfgsTerms_eq_ok.mp h
    exact fromUpper_isSymm _
  secant _ _ _ h := by cases h

theorem dampedUpdate_spec : UpdateSpec .dampedBfgs B s y (bfgsUpdate true B s y) := by
  unfold bfgsUpdate
  by_cases hp : bfgsPerformed true B s y
  · simp only [hp, if_true]
    refine .damped (fun B' hB' => ⟨_, _, _, hB'⟩) ?_
    simp only [addBfgsTerms_eq_ok, exists_and_left, exists_eq, and_true, SafeUpdate, hp, if_true]
    exact and_comm
  · simp only [hp, if_true]
    refine .damped ?_ ?_
    · intro B' hB'
      obtain ⟨d, -, hB'⟩ := Outcome.bind_eq_ok.mp hB'
      exact ⟨_, _, _, hB'⟩
    · unfold SafeUpdate
      simp only [hp]
      constructor
      · rintro ⟨B', hB'⟩
        obtain ⟨d, hd, hB'⟩ := Outcome.bind_eq_ok.mp hB'
        exact ⟨(addBfgsTerms_eq_ok.mp hB').1.2, sub_ne_zero.mp (divisor_eq_ok.mp hd).1⟩
      · rintro ⟨hB, hne⟩
        have hsub := sub_ne_zero.mpr hne
        refine ⟨_, Outcome.bind_eq_ok.mpr ⟨_, divisor_eq_ok.mpr ⟨hsub, rfl⟩,
          addBfgsTerms_eq_ok.mpr ⟨⟨?_, hB⟩, rfl⟩⟩⟩
        -- the damped yield along the step is a fifth of the curvature
        rw [damped_dotProduct hsub]
        exact mul_ne_zero (by norm_num) hB

variable (type) in
/-- The updates without a division by zero, and what they do. -/
theorem secantUpdate_spec : UpdateSpec type B s y (secantUpdate type B s y) := by
  cases type with
  | sr1 => exact sr1Update_spec
  | bfgs => exact bfgsUpdate_spec
  | dampedBfgs => exact dampedUpdate_spec

/-! ## Calls -/

variable {h h' : FnHistory K n} {x g : Fin n → K}

/-- There is history, and the step is not small. -/
def FnHistory.Moved (small : SmallNumber K) (h : FnHistory K n) (x : Fin n → K) : Prop :=
  h.numQuasiUpdates ≠ 0 ∧ smallNorm small (h.step x) = false

/-- The new data of a function does not lead to a division by zero: the matrix in use, which is the
stored one or the initial scaling, has curvature along the step where the update divides by it. -/
def Safe (small : SmallNumber K) (type : QuasiHessType) (h : FnHistory K n) (x g : Fin n → K) :
    Prop :=
  h.Moved small x → ∀ B, scaledHessian small h (h.step x) (h.yield g) = .ok B →
    SafeUpdate type B (h.step x) (h.yield g)

/-- The new data of a function leads to an SR1 update or an undamped BFGS update. -/
def Performed (small : SmallNumber K) (type : QuasiHessType) (h : FnHistory K n) (x g : Fin n → K) :
    Prop :=
  h.Moved small x ∧ ∃ B, scaledHessian small h (h.step x) (h.yield g) = .ok B ∧
    undampedPerformed type B (h.step x) (h.yield g)

theorem updateFunction_ok_iff :
    (∃ h', updateFunction small type h x g = .ok h') ↔ Safe small type h x g := by
  unfold updateFunction
  by_cases h0 : h.numQuasiUpdates = 0
  · simp only [h0, if_true]
    exact ⟨fun _ hm => (hm.1 h0).elim, fun _ => ⟨_, rfl⟩⟩
  · simp only [h0, if_false]
    cases hs : smallNorm small (h.step x) with
    | true =>
      exact ⟨fun _ hm => (Bool.false_ne_true (hm.2.symm.trans hs)).elim, fun _ => ⟨_, rfl⟩⟩
    | false =>
      obtain ⟨B, hB⟩ := exists_scaledHessian small (s := h.step x) (y := h.yield g) h
      simp only [Bool.false_eq_true, if_false, Outcome.bind_eq_ok, hB]
      constructor
      · rintro ⟨h', _, hB₁, B', hB', -⟩ - B₁ hB₂
        cases hB₁
        rw [hB] at hB₂
        cases hB₂
        exact (secantUpdate_spec type).ok_iff.mp ⟨B', hB'⟩
      · intro hsafe
        obtain ⟨B', hB'⟩ := (secantUpdate_spec type).ok_iff.mpr
          (hsafe ⟨h0, hs⟩ B hB)
        exact ⟨_, B, rfl, B', hB', rfl⟩

/-- What one update does: it keeps the symmetry, meets the secant equation, and changes nothing
after a step that is zero. -/
theorem updateFunction_spec (hsymm : h.quasiHessian.IsSymm)
    (heq : updateFunction small type h x g = .ok h') :
    h'.quasiHessian.IsSymm ∧
      (h.numQuasiUpdates ≠ 0 → smallNorm small (h.step x) = true → h' = h) ∧
      (Performed small type h x g → h'.quasiHessian *ᵥ h.step x = h.yield g) := by
  unfold updateFunction at heq
  by_cases h0 : h.numQuasiUpdates = 0
  · simp only [h0, if_true] at heq
    cases heq
    exact ⟨hsymm, fun hne => (hne h0).elim, fun hp => (hp.1.1 h0).elim⟩
  · simp only [h0, if_false] at heq
    cases hs : smallNorm small (h.step x) with
    | true =>
      simp only [hs, if_true] at heq
      cases heq
      exact ⟨hsymm, fun _ _ => rfl, fun hp => (Bool.false_ne_true (hp.1.2.symm.trans hs)).elim⟩
    | false =>
      simp only [hs, Bool.false_eq_true, if_false, Outcome.bind_eq_ok] at heq
      obtain ⟨B, hB, B', hB', heq⟩ := heq
      cases heq
      have hBsymm := scaledHessian_isSymm hsymm hB
      refine ⟨(secantUpdate_spec type).symm B' hB' hBsymm, fun _ h => (Bool.false_ne_true h).elim, ?_⟩
      rintro ⟨-, B₁, hB₁, hp⟩
      rw [hB] at hB₁
      cases hB₁
      exact (secantUpdate_spec type).secant B' hB' hBsymm hp

variable {hists hists' : List (Option (FnHistory K n))} {call : QuasiCall K n} {quasi : List Bool}
  {calls : List (QuasiCall K n)} {i : Nat}

/-- A call updates every function. -/
theorem updateQuasiHessians_ok_iff :
    (∃ hists', updateQuasiHessians small type hists call = .ok hists') ↔
      ∀ i h, hists[i]? = some (some h) → call.asv i &&& 2 ≠ 0 →
        Safe small type h call.x (call.fnGrads i) := by
  unfold updateQuasiHessians
  rw [Outcome.exists_mapM_eq_ok]
  constructor
  · intro hall i h hi hasv
    obtain ⟨b, hb⟩ := hall (some h, i) (List.mem_zipIdx_iff_getElem?.mpr hi)
    simp only [hasv, ne_eq, not_false_eq_true, if_true] at hb
    cases hu : updateFunction small type h call.x (call.fnGrads i) with
    | error e =>
      rw [hu] at hb
      cases hb
    | ok h' => exact updateFunction_ok_iff.mp ⟨h', hu⟩
  · rintro hsafe ⟨h, i⟩ hmem
    cases h with
    | none => exact ⟨none, rfl⟩
    | some h =>
      by_cases hasv : call.asv i &&& 2 ≠ 0
      · obtain ⟨h', hu⟩ := updateFunction_ok_iff.mpr
          (hsafe i h (List.mem_zipIdx_iff_getElem?.mp hmem) hasv)
        simp only [hasv, ne_eq, not_false_eq_true, if_true, hu]
        exact ⟨some h', rfl⟩
      · simp only [hasv, if_false]
        exact ⟨_, rfl⟩

omit [IsStrictOrderedRing K] in
/-- The history of each function after a call. -/
theorem updateQuasiHessians_getElem (heq : updateQuasiHessians small type hists call = .ok hists')
    (hi : hists[i]? = some (some h)) (hasv : call.asv i &&& 2 ≠ 0) :
    ∃ h', hists'[i]? = some (some h') ∧
      updateFunction small type h call.x (call.fnGrads i) = .ok h' := by
  unfold updateQuasiHessians at heq
  rw [Outcome.mapM_eq_ok, List.forall₂_iff_get] at heq
  obtain ⟨hlen, heq⟩ := heq
  rw [List.length_zipIdx] at hlen
  obtain ⟨hlt, hget⟩ := List.getElem?_eq_some_iff.mp hi
  have hone := heq i (by rwa [List.length_zipIdx]) (hlen ▸ hlt)
  simp only [List.get_eq_getElem, List.getElem_zipIdx, hget, Nat.zero_add, hasv, ne_eq,
    not_false_eq_true, if_true] at hone
  cases hu : updateFunction small type h call.x (call.fnGrads i) with
  | error e =>
    rw [hu] at hone
    cases hone
  | ok h' =>
    rw [hu] at hone
    refine ⟨h', ?_, rfl⟩
    change Except.ok (some h') = _ at hone
    injection hone with hone
    rw [List.getElem?_eq_getElem (hlen ▸ hlt), hone]

/-- All stored matrices are symmetric. -/
def AllSymm (hists : List (Option (FnHistory K n))) : Prop :=
  ∀ h, some h ∈ hists → h.quasiHessian.IsSymm

theorem updateQuasiHessians_allSymm (hsymm : AllSymm hists)
    (heq : updateQuasiHessians small type hists call = .ok hists') : AllSymm hists' := by
  unfold updateQuasiHessians at heq
  rw [Outcome.mapM_eq_ok] at heq
  intro h' hmem
  obtain ⟨⟨h, i⟩, ha, hone⟩ : ∃ a ∈ hists.zipIdx, (match a with
      | (h, i) => match h with
        | some h =>
          if call.asv i &&& 2 ≠ 0 then
            some <$> updateFunction small type h call.x (call.fnGrads i)
          else .ok (some h)
        | none => .ok none) = Except.ok (some h') := by
    obtain ⟨i, hi, hget⟩ := List.mem_iff_getElem.mp hmem
    obtain ⟨hlen, hall⟩ := List.forall₂_iff_get.mp heq
    exact ⟨_, List.getElem_mem (hlen ▸ hi), hget ▸ hall i (hlen ▸ hi) hi⟩
  have hin := List.mem_of_getElem? (List.mem_zipIdx_iff_getElem?.mp ha)
  cases h with
  | none => cases hone
  | some h =>
    have hh := hsymm h hin
    by_cases hasv : call.asv i &&& 2 ≠ 0
    · simp only [hasv, ne_eq, not_false_eq_true, if_true] at hone
      cases hu : updateFunction small type h call.x (call.fnGrads i) with
      | error e =>
        rw [hu] at hone
        cases hone
      | ok h₁ =>
        rw [hu] at hone
        cases hone
        exact (updateFunction_spec hh hu).1
    · simp only [hasv, if_false] at hone
      cases hone
      exact hh

/-! ## Runs -/

/-- Every call of a run, in the state that the run has reached, is safe for every function. -/
def SafeRun (small : SmallNumber K) (type : QuasiHessType) (quasi : List Bool)
    (calls : List (QuasiCall K n)) : Prop :=
  ∀ before call after, calls = before ++ call :: after →
    ∀ hists, runUpdates small type quasi before = .ok hists →
      ∀ i h, hists[i]? = some (some h) → call.asv i &&& 2 ≠ 0 →
        Safe small type h call.x (call.fnGrads i)

theorem runUpdates_allSymm (h : runUpdates small type quasi calls = .ok hists) : AllSymm hists := by
  unfold runUpdates at h
  have hinit : AllSymm (initialHistories quasi : List (Option (FnHistory K n))) := by
    intro h hmem
    obtain ⟨q, -, hq⟩ := List.mem_map.mp hmem
    split at hq
    · cases hq
      exact Matrix.transpose_zero
    · cases hq
  generalize (initialHistories quasi : List (Option (FnHistory K n))) = hists₀ at h hinit
  induction calls generalizing hists₀ with
  | nil =>
    cases h
    exact hinit
  | cons call calls ih =>
    rw [List.foldlM_cons] at h
    obtain ⟨hists₁, hs₁, h⟩ := Outcome.bind_eq_ok.mp h
    exact ih hists₁ h (updateQuasiHessians_allSymm hinit hs₁)

/-- A run divides by zero in none of its updates if and only if all of its calls are safe. In the
states that it reaches, the quasi-Hessians are symmetric, an undamped update that is performed meets
the secant equation, and a step that is zero changes nothing. -/
theorem runUpdates_ok_iff (small : SmallNumber K) (type : QuasiHessType) (quasi : List Bool)
    (calls : List (QuasiCall K n)) :
    ((∃ hists, runUpdates small type quasi calls = .ok hists) ↔
        SafeRun small type quasi calls) ∧
      ∀ hists, runUpdates small type quasi calls = .ok hists →
        (∀ h, some h ∈ hists → h.quasiHessian.IsSymm) ∧
        ∀ call hists', updateQuasiHessians small type hists call = .ok hists' →
          ∀ (i : Nat) (h : FnHistory K n), hists[i]? = some (some h) → call.asv i &&& 2 ≠ 0 →
            ∃ h', hists'[i]? = some (some h') ∧ h'.quasiHessian.IsSymm ∧
              (h.numQuasiUpdates ≠ 0 → smallNorm small (h.step call.x) = true → h' = h) ∧
              (Performed small type h call.x (call.fnGrads i) →
                h'.quasiHessian *ᵥ h.step call.x = h.yield (call.fnGrads i)) := by
  refine ⟨?_, fun hists hrun => ⟨runUpdates_allSymm hrun, ?_⟩⟩
  · unfold SafeRun
    simp only [← updateQuasiHessians_ok_iff]
    exact Outcome.exists_foldlM_eq_ok
  · intro call hists' heq i h hi hasv
    have hsymm := runUpdates_allSymm hrun h (List.mem_of_getElem? hi)
    obtain ⟨h', hi', hu⟩ := updateQuasiHessians_getElem heq hi hasv
    exact ⟨h', hi', updateFunction_spec hsymm hu⟩

/-- Three points on a line: no yield at first, and then some. -/
def flatThenSteep : List (QuasiCall ℚ 1) :=
  [⟨fun _ => 0, fun _ _ => 0, fun _ => 2⟩, ⟨fun _ => 1, fun _ _ => 0, fun _ => 2⟩,
    ⟨fun _ => 2, fun _ _ => 1, fun _ => 2⟩]

/-- `SMALL_NUMBER` -/
def smallNumber : SmallNumber ℚ := ⟨1 / 10 ^ 25, by norm_num⟩

/-- BFGS divides by the curvature of a matrix that was scaled by zero, damped BFGS at the first
update. -/
theorem flatThenSteep_divides :
    (¬ ∃ hists, runUpdates smallNumber .bfgs [true] flatThenSteep = .ok hists) ∧
      ¬ ∃ hists, runUpdates smallNumber .dampedBfgs [true] (flatThenSteep.take 2) = .ok hists := by
  have hnone : (runUpdates smallNumber .bfgs [true] flatThenSteep).toOption.isNone ∧
      (runUpdates smallNumber .dampedBfgs [true] (flatThenSteep.take 2)).toOption.isNone := by
    decide +kernel
  constructor
  · rintro ⟨hists, h⟩
    rw [h] at hnone
    cases hnone.1
  · rintro ⟨hists, h⟩
    rw [h] at hnone
    cases hnone.2

/-- SR1 does not divide by zero. -/
theorem runUpdates_ok_iff_sr1 :
    ∃ hists, runUpdates smallNumber .sr1 [true] flatThenSteep = .ok hists :=
  (runUpdates_ok_iff smallNumber .sr1 [true] flatThenSteep).1.mpr
    fun _ _ _ _ _ _ _ _ _ _ _ _ _ => trivial

end Dakota.Derivatives
