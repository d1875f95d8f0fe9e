import Dakota.Calibration.Multipliers
import Dakota.Lib.Differential
import Dakota.Lib.Outcome

/-!
# The log determinant and its derivatives

* `halfLogDet`: half the logarithm of the determinant, with the number of residuals that each
  multiplier affects. `halfLogCovDeterminant_eq`: the code computes it.
* `hasHessAt_halfLogDet`: its derivatives; the Hessian is diagonal.
* `logDetMatches_iff`: the gradient is added where it belongs, the Hessian only if no residual has
  another multiplier than the first one.
-/

namespace Dakota.ExperimentData

open Differential Outcome

variable {L : ℕ} (n : ℕ → ℕ) (c : ℝ) {y : Fin L → ℝ}

/-- The function of the multipliers; `n i` residuals have multiplier `i`. -/
noncomputable def halfLogDet (y : Fin L → ℝ) : ℝ :=
  ∑ i : Fin L, (n i : ℝ) / 2 * Real.log (y i) + c / 2

/-! ## Derivatives -/

theorem scalarTwice_log (k : ℝ) {t : ℝ} (ht : 0 < t) :
    ScalarTwice (fun t => k * Real.log t) (fun t => k / t) (-k / t / t) t where
  first := by
    filter_upwards [Ioi_mem_nhds ht] with s hs
    simpa [div_eq_mul_inv] using (Real.hasDerivAt_log (ne_of_gt hs)).const_mul k
  second := by
    have h := (hasDerivAt_inv ht.ne').const_mul k
    simp only [div_eq_mul_inv] at h ⊢
    refine h.congr_deriv ?_
    field_simp

/-- One term depends on one multiplier. -/
theorem hasHessAt_term (k : ℝ) (i : Fin L) (hy : 0 < y i) :
    HasHessAt (fun y => k * Real.log (y i)) (fun y => Pi.single i (k / y i))
      (Matrix.single i i (-k / y i / y i)) y := by
  have hdot : (fun y : Fin L → ℝ => dotMap (Pi.single i 1) y) = fun y => y i := by
    funext y
    simp [dotMap_apply, Pi.single_apply]
  have hlinear : HasHessAt (fun y : Fin L → ℝ => y i) (fun _ => Pi.single i 1) 0 y := by
    have h := hasHessAt_dot (x := y) (Pi.single i (1 : ℝ))
    rwa [hdot] at h
  have hgrad : (fun y : Fin L → ℝ => (k / y i) • (Pi.single i 1 : Fin L → ℝ)) =
      fun y => Pi.single i (k / y i) := by
    funext y
    rw [← Pi.single_smul, smul_eq_mul, mul_one]
  have hhess : (k / y i) • (0 : Matrix (Fin L) (Fin L) ℝ) +
      (-k / y i / y i) • Matrix.vecMulVec (Pi.single i 1) (Pi.single i 1) =
      Matrix.single i i (-k / y i / y i) := by
    rw [smul_zero, zero_add, ← Matrix.single_eq_single_vecMulVec_single, Matrix.smul_single,
      smul_eq_mul, mul_one]
  have h := hlinear.comp (scalarTwice_log k hy)
  rwa [hgrad, hhess] at h

theorem hasHessAt_halfLogDet (hy : ∀ i, 0 < y i) :
    HasHessAt (halfLogDet n c) (fun y i => (n i : ℝ) / 2 / y i)
      (Matrix.diagonal fun i => -((n i : ℝ) / 2) / y i / y i) y := by
  have h := (HasHessAt.sum (s := Finset.univ) fun (i : Fin L) _ =>
    hasHessAt_term ((n i : ℝ) / 2) i (hy i)).add_const (c / 2)
  have hgrad : (fun y : Fin L → ℝ => ∑ i : Fin L,
      (Pi.single i ((n i : ℝ) / 2 / y i) : Fin L → ℝ)) =
      fun y (i : Fin L) => (n i : ℝ) / 2 / y i :=
    funext fun y => Finset.univ_sum_single fun i : Fin L => (n i : ℝ) / 2 / y i
  rw [hgrad, Matrix.sum_single_eq_diagonal] at h
  exact h

/-! ## The value -/

variable {e : ExperimentData} {mode : MultiplierMode}

/-- How many residuals each multiplier of a mode affects. -/
def affected (e : ExperimentData) (mode : MultiplierMode) (i : ℕ) : ℕ :=
  (e.assignment mode).count i

/-- Summing over the residuals is summing over the multipliers with their counts. -/
theorem sum_map_assignment (f : ℕ → ℝ) (hmode : mode ≠ .none) :
    ((e.assignment mode).map f).sum =
      ∑ i : Fin (e.numMultipliers mode), (e.affected mode i : ℝ) * f i := by
  rw [Finset.sum_list_map_count, ← Finset.sum_range fun i => (e.affected mode i : ℝ) * f i]
  simp only [nsmul_eq_mul]
  refine Finset.sum_subset (fun a ha => ?_) fun a _ ha => ?_
  · exact Finset.mem_range.mpr (e.assignment_lt mode hmode a (List.mem_toFinset.mp ha))
  · rw [List.count_eq_zero_of_not_mem fun hmem => ha (List.mem_toFinset.mpr hmem), Nat.cast_zero,
      zero_mul]

/-- The vector of the values at a point. -/
def ofPoint (y : Fin L → ℝ) : RealVector := ⟨L, fun i => if h : i < L then y ⟨i, h⟩ else 0⟩

theorem ofPoint_values (y : Fin L → ℝ) (i : Fin L) : (ofPoint y).values i = y i := dif_pos i.2

theorem sum_log_expanded (l : List ℝ) :
    ∑ resid ∈ Finset.range l.length, Real.log (l.getD resid 0) = (l.map Real.log).sum := by
  rw [Finset.sum_range, ← Fin.sum_univ_fun_getElem]
  exact Finset.sum_congr rfl fun i _ => by rw [List.getD_eq_getElem _ _ i.2]

theorem halfLogDet_affected (hmode : mode ≠ .none) (y : Fin (e.numMultipliers mode) → ℝ) :
    halfLogDet (e.affected mode) c y =
      (c + ((e.assignment mode).map fun a => Real.log ((ofPoint y).values a)).sum) / 2 := by
  rw [sum_map_assignment _ hmode, halfLogDet, add_div, add_comm, Finset.sum_div]
  congr 1
  refine Finset.sum_congr rfl fun i _ => ?_
  rw [ofPoint_values]
  ring

theorem assignment_one : e.assignment .one = List.replicate e.numTotalExppoints 0 := by
  rw [List.eq_replicate_iff]
  refine ⟨e.assignment_length .one, fun a ha => ?_⟩
  have hlt : a < 1 := e.assignment_lt .one nofun a ha
  omega

theorem assignment_none (a : ℕ) (ha : a ∈ e.assignment .none) : a = 0 := by
  simp only [assignment, List.mem_flatMap, List.mem_replicate] at ha
  obtain ⟨-, -, -, -, -, rfl⟩ := ha
  rfl

/-- The branch of the modes with several multipliers. -/
theorem halfLogCovDeterminant_several (hmode : Several mode) (mults : RealVector) :
    e.halfLogCovDeterminant mults mode = do
      let expandMults ← e.generateMultipliers mults mode
      return (List.range e.numTotalExppoints).foldl
        (fun logDet resid => logDet + Real.log (expandMults.getD resid 0))
        e.logCovarianceDeterminant / 2 := by
  cases mode with
  | none => exact absurd rfl hmode.1
  | one => exact absurd rfl hmode.2
  | perExper => rfl
  | perResp => rfl
  | both => rfl

/-- The code computes the function, unless constraints are counted. -/
theorem halfLogCovDeterminant_eq (hcon : e.NoConstraints mode)
    (y : Fin (e.numMultipliers mode) → ℝ) : e.halfLogCovDeterminant (ofPoint y) mode =
      .ok (halfLogDet (e.affected mode) e.logCovarianceDeterminant y) := by
  by_cases hnone : mode = .none
  · subst hnone
    have hempty : IsEmpty (Fin (e.numMultipliers .none)) := inferInstanceAs (IsEmpty (Fin 0))
    rw [halfLogDet, Finset.univ_eq_empty, Finset.sum_empty, zero_add]
    rfl
  rw [halfLogDet_affected _ hnone]
  by_cases hone : mode = .one
  · subst hone
    have hlen : (ofPoint y).length = 1 := rfl
    rw [halfLogCovDeterminant, assert_bind hlen, assignment_one, List.map_replicate,
      List.sum_replicate, nsmul_eq_mul, mul_comm]
    rfl
  · have hmode : Several mode := ⟨hnone, hone⟩
    have hlen : (ofPoint y).length = e.numMultipliers mode := rfl
    rw [halfLogCovDeterminant_several hmode, generateMultipliers_eq hmode hcon hlen, ok_bind,
      foldl_range_add, ← e.assignment_length mode, ← List.length_map (ofPoint y).values,
      sum_log_expanded, List.map_map]
    rfl

/-! ## Positions -/

/-- `g` was added from `hyperOffset` on. -/
structure AddedVector (hyperOffset : ℕ) (g : Fin L → ℝ) (gradient result : RealVector) : Prop where
  length : result.length = gradient.length
  added : ∀ i : Fin L, result.values (hyperOffset + i) = gradient.values (hyperOffset + i) + g i
  others : ∀ k, (∀ i : Fin L, k ≠ hyperOffset + i) → result.values k = gradient.values k

/-- `h` was added to the block from `hyperOffset` on; of both the lower triangle is kept. -/
structure AddedBlock (hyperOffset : ℕ) (h : Matrix (Fin L) (Fin L) ℝ)
    (hessian result : RealSymMatrix) : Prop where
  numRows : result.numRows = hessian.numRows
  added : ∀ i j : Fin L, j ≤ i → result.lower (hyperOffset + i) (hyperOffset + j) =
    hessian.lower (hyperOffset + i) (hyperOffset + j) + h i j
  others : ∀ k l, (∀ i j : Fin L, ¬ (k = hyperOffset + i ∧ l = hyperOffset + j)) →
    result.lower k l = hessian.lower k l

/-- One sum, at the places of the vector. -/
theorem foldl_addAt (x : ℕ → ℝ) (hyperOffset count : ℕ) (gradient : RealVector) :
    (List.range count).foldl (fun gradient i => addAt gradient (hyperOffset + i) (x i)) gradient =
      { gradient with values := fun k => gradient.values k +
          if hyperOffset ≤ k ∧ k < hyperOffset + count then x (k - hyperOffset) else 0 } := by
  rw [← foldl_range_bump]
  exact @List.foldl_hom _ _ _ (fun values => RealVector.mk gradient.length values)
    (fun c i => Function.update c (hyperOffset + i) (c (hyperOffset + i) + x i)) _ _ gradient.values
    fun _ _ => rfl

theorem addedVector_foldl (x : ℕ → ℝ) (hyperOffset : ℕ) (gradient : RealVector) :
    AddedVector hyperOffset (fun i : Fin L => x i) gradient
      ((List.range L).foldl (fun gradient i => addAt gradient (hyperOffset + i) (x i))
        gradient) := by
  rw [foldl_addAt]
  refine ⟨rfl, fun i => ?_, fun k hk => ?_⟩
  · have hi := i.2
    simp [hi]
  · have hout : ¬ (hyperOffset ≤ k ∧ k < hyperOffset + L) := fun h =>
      hk ⟨k - hyperOffset, by omega⟩ (by simp; omega)
    simp [hout]

/-- The sums all go to one place. -/
theorem foldl_addDiagonal (x : ℕ → ℝ) (k count : ℕ) (hessian : RealSymMatrix) :
    (List.range count).foldl (fun hessian i => addDiagonal hessian k (x i)) hessian =
      addDiagonal hessian k (∑ i ∈ Finset.range count, x i) := by
  induction count with
  | zero => simp [addDiagonal]
  | succ count ih =>
    rw [List.range_succ, List.foldl_append, ih, List.foldl_cons, List.foldl_nil,
      Finset.sum_range_succ]
    simp [addDiagonal, add_assoc]

theorem addDiagonal_lower (hessian : RealSymMatrix) (i : ℕ) (x : ℝ) (k l : ℕ) :
    (addDiagonal hessian i x).lower k l = hessian.lower k l + if k = i ∧ l = i then x else 0 := by
  by_cases hk : k = i
  · subst hk
    by_cases hl : l = k
    · subst hl
      simp [addDiagonal]
    · simp [addDiagonal, hl]
  · simp [addDiagonal, hk]

/-! ## Agreement -/

theorem affected_one : e.affected .one 0 = e.numTotalExppoints := by
  rw [affected, assignment_one, List.count_replicate_self]

theorem halfLogCovDetGradient_several (hmode : Several mode) (mults : RealVector)
    (hyperOffset : ℕ) (gradient : RealVector) :
    e.halfLogCovDetGradient mults mode hyperOffset gradient = do
      assert (mults.length = (e.residualsPerMultiplier mode).size)
      return (List.range mults.length).foldl (fun gradient i => addAt gradient (hyperOffset + i)
        ((e.residualsPerMultiplier mode).entry i / mults.values i / 2)) gradient := by
  cases mode with
  | none => exact absurd rfl hmode.1
  | one => exact absurd rfl hmode.2
  | perExper => rfl
  | perResp => rfl
  | both => rfl

theorem halfLogCovDetHessian_several (hmode : Several mode) (mults : RealVector)
    (hyperOffset : ℕ) (hessian : RealSymMatrix) :
    e.halfLogCovDetHessian mults mode hyperOffset hessian = do
      assert (mults.length = (e.residualsPerMultiplier mode).size)
      return (List.range mults.length).foldl (fun hessian i => addDiagonal hessian hyperOffset
        (-((e.residualsPerMultiplier mode).entry i : ℝ) / mults.values i / mults.values i / 2))
        hessian := by
  cases mode with
  | none => exact absurd rfl hmode.1
  | one => exact absurd rfl hmode.2
  | perExper => rfl
  | perResp => rfl
  | both => rfl

theorem halfLogCovDetGradient_eq (hcon : e.NoConstraints mode)
    (y : Fin (e.numMultipliers mode) → ℝ) (hyperOffset : ℕ) (gradient : RealVector) :
    e.halfLogCovDetGradient (ofPoint y) mode hyperOffset gradient =
      .ok ((List.range (e.numMultipliers mode)).foldl (fun gradient i =>
        addAt gradient (hyperOffset + i)
          (e.affected mode i / (ofPoint y).values i / 2)) gradient) := by
  by_cases hnone : mode = .none
  · subst hnone
    rfl
  by_cases hone : mode = .one
  · subst hone
    have hlen : (ofPoint y).length = 1 := rfl
    rw [halfLogCovDetGradient, assert_bind hlen, ← affected_one]
    rfl
  · have hmode : Several mode := ⟨hnone, hone⟩
    have hlen : (ofPoint y).length = (e.residualsPerMultiplier mode).size :=
      (residualsPerMultiplier_size hmode hcon).symm
    rw [halfLogCovDetGradient_several hmode, assert_bind hlen]
    refine congrArg Except.ok (List.foldl_ext _ _ _ fun g i hi => ?_)
    rw [residualsPerMultiplier_entry hmode (List.mem_range.mp hi)]
    rfl

theorem halfLogCovDetHessian_eq (hcon : e.NoConstraints mode)
    (y : Fin (e.numMultipliers mode) → ℝ) (hyperOffset : ℕ) (hessian : RealSymMatrix) :
    e.halfLogCovDetHessian (ofPoint y) mode hyperOffset hessian =
      .ok (addDiagonal hessian hyperOffset (∑ i ∈ Finset.range (e.numMultipliers mode),
        -(e.affected mode i : ℝ) / (ofPoint y).values i / (ofPoint y).values i / 2)) := by
  rw [← foldl_addDiagonal]
  by_cases hnone : mode = .none
  · subst hnone
    rfl
  by_cases hone : mode = .one
  · subst hone
    have hlen : (ofPoint y).length = 1 := rfl
    rw [halfLogCovDetHessian, assert_bind hlen, ← affected_one]
    rfl
  · have hmode : Several mode := ⟨hnone, hone⟩
    have hlen : (ofPoint y).length = (e.residualsPerMultiplier mode).size :=
      (residualsPerMultiplier_size hmode hcon).symm
    rw [halfLogCovDetHessian_several hmode, assert_bind hlen]
    refine congrArg Except.ok (List.foldl_ext _ _ _ fun h i hi => ?_)
    rw [residualsPerMultiplier_entry hmode (List.mem_range.mp hi)]
    rfl

variable (e mode) in
/-- The routines add the derivatives of the value, at the places of the multipliers. -/
def LogDetMatches : Prop :=
  ∃ f : (Fin (e.numMultipliers mode) → ℝ) → ℝ,
    (∀ y, (∀ i, 0 < y i) → e.halfLogCovDeterminant (ofPoint y) mode = .ok (f y)) ∧
    ∀ y, (∀ i, 0 < y i) → ∃ grad hess, HasHessAt f grad hess y ∧ ∀ hyperOffset,
      (∀ gradient, ∃ result,
        e.halfLogCovDetGradient (ofPoint y) mode hyperOffset gradient = .ok result ∧
        AddedVector hyperOffset (grad y) gradient result) ∧
      ∀ hessian, ∃ result,
        e.halfLogCovDetHessian (ofPoint y) mode hyperOffset hessian = .ok result ∧
        AddedBlock hyperOffset hess hessian result

/-- A value is there for all positive multipliers only if no constraint is counted. -/
theorem noConstraints_of_value {y : Fin (e.numMultipliers mode) → ℝ} {v : ℝ}
    (h : e.halfLogCovDeterminant (ofPoint y) mode = .ok v) : e.NoConstraints mode := by
  by_cases hmode : Several mode
  · rw [halfLogCovDeterminant_several hmode, bind_eq_ok] at h
    obtain ⟨expandMults, hexpand, -⟩ := h
    exact generateMultipliers_eq_ok rfl hexpand
  · rintro (rfl | rfl)
    · exact absurd ⟨nofun, nofun⟩ hmode
    · exact absurd ⟨nofun, nofun⟩ hmode

theorem addedBlock_addDiagonal {count : ℕ → ℕ} (hzero : ∀ i < L, i ≠ 0 → count i = 0)
    (y : Fin L → ℝ) (hyperOffset : ℕ) (hessian : RealSymMatrix) :
    AddedBlock hyperOffset (Matrix.diagonal fun i : Fin L => -((count i : ℝ) / 2) / y i / y i)
      hessian (addDiagonal hessian hyperOffset (∑ i ∈ Finset.range L,
        -(count i : ℝ) / (ofPoint y).values i / (ofPoint y).values i / 2)) where
  numRows := rfl
  added i j _ := by
    rw [addDiagonal_lower, add_right_inj]
    by_cases hi : i.val = 0
    · by_cases hj : j.val = 0
      · obtain rfl : i = j := Fin.ext (hi.trans hj.symm)
        rw [if_pos (by omega), Matrix.diagonal_apply_eq, Finset.sum_eq_single i.val]
        · rw [ofPoint_values]
          ring
        · intro k hk hne
          rw [hzero k (Finset.mem_range.mp hk) fun h0 => hne (h0.trans hi.symm)]
          simp
        · exact fun h => absurd (Finset.mem_range.mpr i.2) h
      · rw [if_neg (by omega), Matrix.diagonal_apply_ne]
        exact fun hij => hj (hij ▸ hi)
    · rw [if_neg (by omega), Matrix.diagonal_apply]
      split
      · rw [hzero i i.2 hi]
        simp
      · rfl
  others k l hkl := by
    rw [addDiagonal_lower]
    rcases Nat.eq_zero_or_pos L with rfl | hpos
    · simp
    · rw [if_neg, add_zero]
      rintro ⟨rfl, rfl⟩
      exact hkl ⟨0, hpos⟩ ⟨0, hpos⟩ ⟨rfl, rfl⟩

/-- Below the first multiplier nothing is added. -/
theorem AddedBlock.diagonal_eq_zero {h : Matrix (Fin L) (Fin L) ℝ} {hyperOffset : ℕ} {x : ℝ}
    {hessian : RealSymMatrix}
    (hadd : AddedBlock hyperOffset h hessian (addDiagonal hessian hyperOffset x)) (i : Fin L)
    (hi : i.val ≠ 0) : h i i = 0 := by
  have hdiag := hadd.added i i (le_refl i)
  rw [addDiagonal_lower, if_neg (by omega), add_right_inj] at hdiag
  exact hdiag.symm

theorem logDetMatches_iff : e.LogDetMatches mode ↔
    e.NoConstraints mode ∧ ∀ a ∈ e.assignment mode, a = 0 := by
  constructor
  · rintro ⟨f, hvalue, hderiv⟩
    have hone : ∀ i : Fin (e.numMultipliers mode), (0 : ℝ) < 1 := fun _ => one_pos
    have hcon : e.NoConstraints mode := noConstraints_of_value (hvalue (fun _ => 1) hone)
    refine ⟨hcon, fun a ha => ?_⟩
    by_contra hne
    obtain ⟨grad, hess, hhess, hadd⟩ := hderiv (fun _ => 1) hone
    obtain ⟨-, hhessian⟩ := hadd 0
    obtain ⟨result, hresult, hblock⟩ := hhessian {}
    rw [halfLogCovDetHessian_eq hcon] at hresult
    obtain rfl := Except.ok.inj hresult
    have hnone : mode ≠ .none := by
      rintro rfl
      exact hne (assignment_none a ha)
    have hlt : a < e.numMultipliers mode := e.assignment_lt mode hnone a ha
    -- near positive multipliers the value is the function whose Hessian is diagonal
    have hnear : ∀ᶠ y : Fin (e.numMultipliers mode) → ℝ in nhds fun _ => 1, ∀ i, 0 < y i :=
      Filter.eventually_all.mpr fun i =>
        (continuous_apply i).continuousAt.eventually (lt_mem_nhds one_pos)
    have heq : halfLogDet (e.affected mode) e.logCovarianceDeterminant =ᶠ[nhds fun _ => 1] f := by
      filter_upwards [hnear] with y hy
      exact Except.ok.inj ((halfLogCovDeterminant_eq hcon y).symm.trans (hvalue y hy))
    have hdiag := (hhess.congr heq).unique (hasHessAt_halfLogDet _ _ hone)
    have hzero := hblock.diagonal_eq_zero ⟨a, hlt⟩ hne
    rw [hdiag, Matrix.diagonal_apply_eq] at hzero
    have hcount : e.affected mode a = 0 := by simpa using hzero
    exact List.count_eq_zero.mp hcount ha
  · rintro ⟨hcon, hzero⟩
    have haffected : ∀ i < e.numMultipliers mode, i ≠ 0 → e.affected mode i = 0 :=
      fun i _ hi => List.count_eq_zero_of_not_mem fun hmem => hi (hzero i hmem)
    refine ⟨_, fun y _ => halfLogCovDeterminant_eq hcon y, fun y hy =>
      ⟨_, _, hasHessAt_halfLogDet _ _ hy, fun hyperOffset => ⟨fun gradient =>
        ⟨_, halfLogCovDetGradient_eq hcon y hyperOffset gradient, ?_⟩, fun hessian =>
        ⟨_, halfLogCovDetHessian_eq hcon y hyperOffset hessian,
          addedBlock_addDiagonal haffected y hyperOffset hessian⟩⟩⟩⟩
    have hadded := addedVector_foldl (L := e.numMultipliers mode)
      (fun i => e.affected mode i / (ofPoint y).values i / 2) hyperOffset gradient
    simp only [ofPoint_values] at hadded
    refine (congrArg (fun g => AddedVector hyperOffset g gradient _) ?_).mp hadded
    funext i
    ring

end Dakota.ExperimentData
