import Dakota.Surrogate.Discrepancy

/-!
# Consistency of discrepancy corrections

At the point where a correction is computed, the corrected response is the truth.

* `applyAdditive_corrected`: an additive correction, for every request vector.
* `applyMultiplicative_fns`, `applyMultiplicative_grads`, `applyMultiplicative_hess`: what a
  multiplicative correction gives, by the values and gradients that it multiplies with.
* `consistent_iff`: the value of a function that is active is overlooked when another function's value
  is searched for, and so are gradients. The correction is the truth only if the ratio does not
  depend on what is overlooked.
-/

namespace Dakota.Surrogate

variable {K D : Type} [Field K] {d : ℕ}

/-- The calculator, as it is documented. -/
structure DiscrepancyCalculator.Documented (discrepCalc : DiscrepancyCalculator K d) : Prop where
  additiveFn : ∀ t a, discrepCalc.additiveFn t a = t - a
  additiveGrad : ∀ t a, discrepCalc.additiveGrad t a = t - a
  additiveHess : ∀ t a, discrepCalc.additiveHess t a = t - a
  multiplicativeFn : ∀ t a, discrepCalc.multiplicativeFn t a = t / a
  multiplicativeGrad : ∀ t tGrad a aGrad j,
    discrepCalc.multiplicativeGrad t tGrad a aGrad j = (tGrad j - aGrad j * (t / a)) / a
  multiplicativeHess : ∀ t tGrad tHess a aGrad aHess j k,
    discrepCalc.multiplicativeHess t tGrad tHess a aGrad aHess j k =
      (tHess j k * a - t * aHess j k + 2 * (t / a) * aGrad j * aGrad k - tGrad j * aGrad k -
        aGrad j * tGrad k) / (a * a)
  isSmall_zero : discrepCalc.isSmall 0 = true

namespace Taylor

variable {t : Taylor K D d} {bdo : ℕ}

theorem dist_anchor (i : Fin d) : t.dist t.anchorVars i = 0 := sub_self _

theorem value_anchor (hbdo : bdo &&& 1 ≠ 0) : t.value bdo t.anchorVars = t.anchorResp.fn := by
  unfold value
  simp only [dist_anchor, if_pos hbdo, mul_zero, zero_mul, zero_div, Finset.sum_const_zero, ite_self,
    add_zero]

theorem gradient_anchor (hbdo : bdo &&& 2 ≠ 0) :
    t.gradient bdo t.anchorVars = t.anchorResp.grad := by
  funext i
  unfold gradient
  simp only [dist_anchor, if_pos hbdo, mul_zero, Finset.sum_const_zero, ite_self, add_zero]

theorem hessian_anchor (hbdo : bdo &&& 4 ≠ 0) : t.hessian bdo = t.anchorResp.hess := if_pos hbdo

end Taylor

namespace CorrectionSetup

variable {c : CorrectionSetup K D d} {discrepCalc : DiscrepancyCalculator K d}
  {s st : CorrectionState K D d} {vars : PointVars K D d} {truth approx r : FnResponse K d}
  {unset : Unset K d} {i : ℕ}

omit [Field K] in
theorem dataOrder_fn : c.dataOrder &&& 1 ≠ 0 := by
  unfold dataOrder
  split <;> decide

omit [Field K] in
theorem dataOrder_grad (h : 1 ≤ c.correctionOrder.val) : c.dataOrder &&& 2 ≠ 0 := by
  unfold dataOrder
  split
  · decide
  · decide
  · rename_i heq
    rw [heq] at h
    exact absurd h (by decide)

omit [Field K] in
theorem dataOrder_hess (h : c.correctionOrder = 2) : c.dataOrder &&& 4 ≠ 0 := by
  unfold dataOrder
  rw [h]
  decide

/-! ## After the computation -/

/-- Multiplicative corrections are used. -/
def Scales (c : CorrectionSetup K D d) (discrepCalc : DiscrepancyCalculator K d)
    (truth approx : FnResponse K d) : Prop :=
  c.correctionType ≠ .additive ∧
    discrepCalc.checkMultiplicative truth.fns approx.fns c.correctionOrder = false

theorem compute_badScalingFlag : (c.compute discrepCalc s vars truth approx).badScalingFlag =
    (c.computeMultiplicative &&
      discrepCalc.checkMultiplicative truth.fns approx.fns c.correctionOrder) := rfl

theorem compute_addCorrections (hi : i ∈ c.surrogateFnIndices)
    (hadd : c.correctionType ≠ .multiplicative ∨ ¬ c.Scales discrepCalc truth approx) :
    (c.compute discrepCalc s vars truth approx).addCorrections i =
      ⟨vars, c.additiveData discrepCalc truth approx i⟩ := by
  refine if_pos ⟨?_, hi⟩
  unfold Scales at hadd
  cases htype : c.correctionType <;> simp_all [computeAdditive, computeMultiplicative]

theorem compute_multCorrections (hi : i ∈ c.surrogateFnIndices)
    (hscales : c.Scales discrepCalc truth approx) :
    (c.compute discrepCalc s vars truth approx).multCorrections i =
      ⟨vars, c.multiplicativeData discrepCalc truth approx i⟩ := by
  refine if_pos ⟨?_, hi⟩
  simp [computeMultiplicative, hscales.1, hscales.2]

/-- Without a surrogate model, the center data is that of the point. -/
theorem compute_center (hscales : c.Scales discrepCalc truth approx)
    (horder : 1 ≤ c.correctionOrder.val) (hnone : c.searchDb = none) :
    (c.compute discrepCalc s vars truth approx).approxFnsCenter = approx.fns ∧
      (c.compute discrepCalc s vars truth approx).approxGradsCenter = approx.grads := by
  have hfall : (c.computeMultiplicative && decide (1 ≤ c.correctionOrder.val) &&
      c.searchDb.isNone) = true := by
    simp [computeMultiplicative, hscales.1, horder, hnone]
  constructor
  · exact if_pos (.inr hfall)
  · exact if_pos hfall

/-! ## Requests -/

/-- An uncorrected response at the point: what is requested is there. -/
def Uncorrected (c : CorrectionSetup K D d) (approx r : FnResponse K d) : Prop :=
  ∀ i ∈ c.surrogateFnIndices, (r.asv i &&& 1 ≠ 0 → r.fns i = approx.fns i) ∧
    (r.asv i &&& 2 ≠ 0 → r.grads i = approx.grads i) ∧
    (r.asv i &&& 4 ≠ 0 → r.hess i = approx.hess i)

/-- A search finds the uncorrected data of the point. -/
def SearchFinds (c : CorrectionSetup K D d) (vars : PointVars K D d) (approx : FnResponse K d) :
    Prop :=
  ∀ searchDb ∈ c.searchDb, ∀ asv i,
    (asv i &&& 1 ≠ 0 → (searchDb vars asv).fns i = approx.fns i) ∧
      (asv i &&& 2 ≠ 0 → (searchDb vars asv).grads i = approx.grads i)

/-- The corrected response is the truth, in all that is requested of the surrogate functions. -/
structure Corrected (c : CorrectionSetup K D d) (truth r r' : FnResponse K d) : Prop where
  fns : ∀ i ∈ c.surrogateFnIndices, r.asv i &&& 1 ≠ 0 → r'.fns i = truth.fns i
  grads : 1 ≤ c.correctionOrder.val → ∀ i ∈ c.surrogateFnIndices, r.asv i &&& 2 ≠ 0 →
    r'.grads i = truth.grads i
  hess : c.correctionOrder = 2 → ∀ i ∈ c.surrogateFnIndices, r.asv i &&& 4 ≠ 0 →
    r'.hess i = truth.hess i
  others : ∀ i ∉ c.surrogateFnIndices,
    r'.fns i = r.fns i ∧ r'.grads i = r.grads i ∧ r'.hess i = r.hess i

/-! ## Corrections at their anchor -/

theorem additive_value (hcalc : discrepCalc.Documented) :
    (⟨vars, c.additiveData discrepCalc truth approx i⟩ : Taylor K D d).value c.dataOrder vars =
      truth.fns i - approx.fns i := by
  refine (Taylor.value_anchor dataOrder_fn).trans ((if_pos dataOrder_fn).trans ?_)
  exact hcalc.additiveFn _ _

theorem additive_gradient (hcalc : discrepCalc.Documented) (horder : 1 ≤ c.correctionOrder.val) :
    (⟨vars, c.additiveData discrepCalc truth approx i⟩ : Taylor K D d).gradient c.dataOrder vars =
      truth.grads i - approx.grads i := by
  refine (Taylor.gradient_anchor (dataOrder_grad horder)).trans
    ((if_pos (dataOrder_grad horder)).trans ?_)
  exact hcalc.additiveGrad _ _

theorem additive_hessian (hcalc : discrepCalc.Documented) (horder : c.correctionOrder = 2) :
    (⟨vars, c.additiveData discrepCalc truth approx i⟩ : Taylor K D d).hessian c.dataOrder =
      truth.hess i - approx.hess i := by
  refine (Taylor.hessian_anchor (dataOrder_hess horder)).trans
    ((if_pos (dataOrder_hess horder)).trans ?_)
  exact hcalc.additiveHess _ _

/-- The gradient of the ratio of a function. -/
def ratioGrad (discrepCalc : DiscrepancyCalculator K d) (truth approx : FnResponse K d) (i : ℕ) :
    Fin d → K :=
  discrepCalc.multiplicativeGrad (truth.fns i) (truth.grads i) (approx.fns i) (approx.grads i)

/-- The Hessian of the ratio of a function. -/
def ratioHess (discrepCalc : DiscrepancyCalculator K d) (truth approx : FnResponse K d) (i : ℕ) :
    Matrix (Fin d) (Fin d) K :=
  discrepCalc.multiplicativeHess (truth.fns i) (truth.grads i) (truth.hess i) (approx.fns i)
    (approx.grads i) (approx.hess i)

theorem multiplicative_value (hcalc : discrepCalc.Documented) :
    (⟨vars, c.multiplicativeData discrepCalc truth approx i⟩ : Taylor K D d).value c.dataOrder vars =
      truth.fns i / approx.fns i := by
  refine (Taylor.value_anchor dataOrder_fn).trans ((if_pos dataOrder_fn).trans ?_)
  exact hcalc.multiplicativeFn _ _

theorem multiplicative_gradient (horder : 1 ≤ c.correctionOrder.val) :
    (⟨vars, c.multiplicativeData discrepCalc truth approx i⟩ : Taylor K D d).gradient c.dataOrder
      vars = ratioGrad discrepCalc truth approx i :=
  (Taylor.gradient_anchor (dataOrder_grad horder)).trans (if_pos (dataOrder_grad horder))

theorem multiplicative_hessian (horder : c.correctionOrder = 2) :
    (⟨vars, c.multiplicativeData discrepCalc truth approx i⟩ : Taylor K D d).hessian c.dataOrder =
      ratioHess discrepCalc truth approx i :=
  (Taylor.hessian_anchor (dataOrder_hess horder)).trans (if_pos (dataOrder_hess horder))

/-! ## Additive corrections -/

variable (vars) in
theorem applyAdditive_corrected (hcalc : discrepCalc.Documented)
    (hst : ∀ i ∈ c.surrogateFnIndices,
      st.addCorrections i = ⟨vars, c.additiveData discrepCalc truth approx i⟩)
    (hr : c.Uncorrected approx r) : c.Corrected truth r (c.applyAdditive st vars r) where
  fns i hi hasv := by
    refine (if_pos ⟨hi, hasv⟩).trans ?_
    show r.fns i + (st.addCorrections i).value c.dataOrder vars = truth.fns i
    rw [hst i hi, additive_value hcalc, (hr i hi).1 hasv, add_sub_cancel]
  grads horder i hi hasv := by
    refine (if_pos ⟨hi, horder, hasv⟩).trans ?_
    show r.grads i + (st.addCorrections i).gradient c.dataOrder vars = truth.grads i
    rw [hst i hi, additive_gradient hcalc horder, (hr i hi).2.1 hasv, add_sub_cancel]
  hess horder i hi hasv := by
    refine (if_pos ⟨hi, horder, hasv⟩).trans ?_
    show r.hess i + (st.addCorrections i).hessian c.dataOrder = truth.hess i
    rw [hst i hi, additive_hessian hcalc horder, (hr i hi).2.2 hasv, add_sub_cancel]
  others i hi := ⟨if_neg fun h => hi h.1, if_neg fun h => hi h.1, if_neg fun h => hi h.1⟩

/-! ## Multiplicative corrections -/

section

variable (hcalc : discrepCalc.Documented)
  (hst : ∀ i ∈ c.surrogateFnIndices,
    st.multCorrections i = ⟨vars, c.multiplicativeData discrepCalc truth approx i⟩)
  (hr : c.Uncorrected approx r) (hnonzero : ∀ i ∈ c.surrogateFnIndices, approx.fns i ≠ 0)
  (hi : i ∈ c.surrogateFnIndices)
include hcalc hst hr hnonzero hi

theorem applyMultiplicative_fns (hasv : r.asv i &&& 1 ≠ 0) :
    (c.applyMultiplicative st vars unset r).fns i = truth.fns i := by
  refine (if_pos ⟨hi, hasv⟩).trans ?_
  show r.fns i * (st.multCorrections i).value c.dataOrder vars = truth.fns i
  rw [hst i hi, multiplicative_value hcalc, (hr i hi).1 hasv, mul_div_cancel₀ _ (hnonzero i hi)]

variable (st vars unset) in
/-- The gradient is off by the gradient of the ratio, times the error of the value. -/
theorem applyMultiplicative_grads (horder : 1 ≤ c.correctionOrder.val) (hasv : r.asv i &&& 2 ≠ 0) :
    (c.applyMultiplicative st vars unset r).grads i = truth.grads i +
      (c.approxFn st vars unset r i - approx.fns i) • ratioGrad discrepCalc truth approx i := by
  have hne := hnonzero i hi
  refine (if_pos ⟨hi, hasv⟩).trans ?_
  funext j
  refine (if_pos horder).trans ?_
  show r.grads i j * (st.multCorrections i).value c.dataOrder vars +
    (st.multCorrections i).gradient c.dataOrder vars j * c.approxFn st vars unset r i = _
  rw [hst i hi, multiplicative_value hcalc, multiplicative_gradient horder, (hr i hi).2.1 hasv,
    Pi.add_apply, Pi.smul_apply, smul_eq_mul]
  have hratio : ratioGrad discrepCalc truth approx i j * approx.fns i =
      truth.grads i j - approx.grads i j * (truth.fns i / approx.fns i) := by
    rw [ratioGrad, hcalc.multiplicativeGrad, div_mul_cancel₀ _ hne]
  linear_combination hratio

variable (st vars unset) in
/-- The Hessian, with the errors of the value and of the gradient. -/
theorem applyMultiplicative_hess (horder : c.correctionOrder = 2) (hasv : r.asv i &&& 4 ≠ 0)
    (j k : Fin d) :
    (c.applyMultiplicative st vars unset r).hess i j k = truth.hess i j k +
      ((c.approxFn st vars unset r i - approx.fns i) * ratioHess discrepCalc truth approx i j k +
        ratioGrad discrepCalc truth approx i j *
          (c.approxGrad st vars unset r i k - approx.grads i k) +
        ratioGrad discrepCalc truth approx i k *
          (c.approxGrad st vars unset r i j - approx.grads i j)) := by
  have hne := hnonzero i hi
  have hgrad : 1 ≤ c.correctionOrder.val := by
    rw [horder]
    decide
  have hhess : (c.applyMultiplicative st vars unset r).hess i j k =
      r.hess i j k * (st.multCorrections i).value c.dataOrder vars +
        (st.multCorrections i).hessian c.dataOrder j k * c.approxFn st vars unset r i +
        (st.multCorrections i).gradient c.dataOrder vars j * c.approxGrad st vars unset r i k +
        (st.multCorrections i).gradient c.dataOrder vars k * c.approxGrad st vars unset r i j := by
    unfold applyMultiplicative
    simp only [horder, if_pos (And.intro hi hasv)]
    rfl
  rw [hhess, hst i hi, multiplicative_value hcalc, multiplicative_gradient hgrad,
    multiplicative_hessian horder, (hr i hi).2.2 hasv]
  have hratio (j : Fin d) : ratioGrad discrepCalc truth approx i j =
      (truth.grads i j - approx.grads i j * (truth.fns i / approx.fns i)) / approx.fns i :=
    hcalc.multiplicativeGrad _ _ _ _ _
  have hsecond : ratioHess discrepCalc truth approx i j k =
      (truth.hess i j k * approx.fns i - truth.fns i * approx.hess i j k +
        2 * (truth.fns i / approx.fns i) * approx.grads i j * approx.grads i k -
        truth.grads i j * approx.grads i k - approx.grads i j * truth.grads i k) /
        (approx.fns i * approx.fns i) :=
    hcalc.multiplicativeHess _ _ _ _ _ _ _ _
  rw [hratio j, hratio k, hsecond]
  field_simp
  ring

end

/-! ## What the product rule reads -/

/-- The value is in the response, and is read where the search left no value. -/
def ValueUnset (c : CorrectionSetup K D d) (r : FnResponse K d) (i : ℕ) : Prop :=
  r.asv i &&& 1 ≠ 0 ∧ c.fnDbSearch r

/-- The gradient is in the response, and is read where the search left none. -/
def GradUnset (c : CorrectionSetup K D d) (r : FnResponse K d) (i : ℕ) : Prop :=
  r.asv i &&& 2 ≠ 0 ∧ c.gradDbSearch r

instance : Decidable (c.ValueUnset r i) := inferInstanceAs (Decidable (_ ∧ _))

instance : Decidable (c.GradUnset r i) := inferInstanceAs (Decidable (_ ∧ _))

theorem approxFn_compute (hscales : c.Scales discrepCalc truth approx)
    (hr : c.Uncorrected approx r) (hfinds : c.SearchFinds vars approx)
    (hi : i ∈ c.surrogateFnIndices)
    (hneeded : r.asv i &&& 2 ≠ 0 ∧ 1 ≤ c.correctionOrder.val ∨
      r.asv i &&& 4 ≠ 0 ∧ c.correctionOrder = 2) :
    c.approxFn (c.compute discrepCalc s vars truth approx) vars unset r i =
      if c.ValueUnset r i then unset.fns i else approx.fns i := by
  have horder : 1 ≤ c.correctionOrder.val := by
    rcases hneeded with h | h
    · exact h.2
    · rw [h.2]
      decide
  unfold approxFn
  by_cases hasv : r.asv i &&& 1 = 0
  · have hdb : c.fnDbAsv r i = 1 := if_pos ⟨hi, hasv, hneeded⟩
    have hsearch : c.fnDbSearch r := ⟨i, hi, by omega⟩
    rw [if_pos hsearch, if_neg fun h : c.ValueUnset r i => h.1 hasv]
    refine (if_pos (by omega)).trans ?_
    cases hfound : c.searchDb with
    | none => exact congrFun (compute_center hscales horder hfound).1 i
    | some searchDb => exact (hfinds searchDb hfound _ i).1 (by rw [hdb]; decide)
  · have hdb : c.fnDbAsv r i = 0 := if_neg fun h => hasv h.2.1
    by_cases hsearch : c.fnDbSearch r
    · rw [if_pos hsearch, if_pos (show c.ValueUnset r i from ⟨hasv, hsearch⟩)]
      exact if_neg (by omega)
    · rw [if_neg hsearch, if_neg fun h : c.ValueUnset r i => hsearch h.2]
      exact (hr i hi).1 hasv

theorem approxGrad_compute (hscales : c.Scales discrepCalc truth approx)
    (hr : c.Uncorrected approx r) (hfinds : c.SearchFinds vars approx)
    (hi : i ∈ c.surrogateFnIndices) (horder : 1 ≤ c.correctionOrder.val)
    (hneeded : r.asv i &&& 4 ≠ 0) :
    c.approxGrad (c.compute discrepCalc s vars truth approx) vars unset r i =
      if c.GradUnset r i then unset.grads i else approx.grads i := by
  unfold approxGrad
  by_cases hasv : r.asv i &&& 2 = 0
  · have hdb : c.gradDbAsv r i = 2 := if_pos ⟨hi, hasv, hneeded, horder⟩
    have hsearch : c.gradDbSearch r := ⟨i, hi, by omega⟩
    rw [if_pos hsearch, if_neg fun h : c.GradUnset r i => h.1 hasv]
    refine (if_pos (by omega)).trans ?_
    cases hfound : c.searchDb with
    | none => exact congrFun (compute_center hscales horder hfound).2 i
    | some searchDb => exact (hfinds searchDb hfound _ i).2 (by rw [hdb]; decide)
  · have hdb : c.gradDbAsv r i = 0 := if_neg fun h => hasv h.2.1
    by_cases hsearch : c.gradDbSearch r
    · rw [if_pos hsearch, if_pos (show c.GradUnset r i from ⟨hasv, hsearch⟩)]
      exact if_neg (by omega)
    · rw [if_neg hsearch, if_neg fun h : c.GradUnset r i => hsearch h.2]
      exact (hr i hi).2.1 hasv

/-! ## Combined corrections -/

/-- What the new additive correction gives at the previous center. -/
def prevAlpha (c : CorrectionSetup K D d) (discrepCalc : DiscrepancyCalculator K d)
    (s : CorrectionState K D d) (vars : PointVars K D d) (truth approx : FnResponse K d) (i : ℕ) :
    K :=
  s.approxFnsCenter i + (⟨vars, c.additiveData discrepCalc truth approx i⟩ : Taylor K D d).value
    c.dataOrder (c.anchorVars s)

/-- What the new multiplicative correction gives at the previous center. -/
def prevBeta (c : CorrectionSetup K D d) (discrepCalc : DiscrepancyCalculator K d)
    (s : CorrectionState K D d) (vars : PointVars K D d) (truth approx : FnResponse K d) (i : ℕ) :
    K :=
  s.approxFnsCenter i * (⟨vars, c.multiplicativeData discrepCalc truth approx i⟩ :
    Taylor K D d).value c.dataOrder (c.anchorVars s)

/-- A combined correction that is all additive: the additive one already matches the truth at the
previous center, or cannot be told from the multiplicative one. -/
def AllAdditive (c : CorrectionSetup K D d) (discrepCalc : DiscrepancyCalculator K d)
    (s : CorrectionState K D d) (vars : PointVars K D d) (truth approx : FnResponse K d) (i : ℕ) :
    Prop :=
  c.correctionType = .combined ∧
    if s.correctionComputed then
      discrepCalc.isSmall (c.prevAlpha discrepCalc s vars truth approx i -
        c.prevBeta discrepCalc s vars truth approx i) ∨
      s.truthFnsCenter i = c.prevAlpha discrepCalc s vars truth approx i
    else s.combineFactors i = 1

/-- The part of the multiplicative correction. -/
def multWeight (c : CorrectionSetup K D d) (st : CorrectionState K D d) (i : ℕ) : K :=
  if c.correctionType = .combined then 1 - st.combineFactors i else 1

theorem compute_combineFactors (htype : c.correctionType = .combined)
    (hcomputed : s.correctionComputed = true) (hscales : c.Scales discrepCalc truth approx)
    (hi : i ∈ c.surrogateFnIndices) :
    (c.compute discrepCalc s vars truth approx).combineFactors i =
      if !discrepCalc.isSmall (c.prevAlpha discrepCalc s vars truth approx i -
          c.prevBeta discrepCalc s vars truth approx i) then
        (s.truthFnsCenter i - c.prevBeta discrepCalc s vars truth approx i) /
          (c.prevAlpha discrepCalc s vars truth approx i -
            c.prevBeta discrepCalc s vars truth approx i)
      else 1 := by
  have hprev : c.savePrevCenter s =
      { s with
        approxFnsPrevCenter := s.approxFnsCenter
        truthFnsPrevCenter := s.truthFnsCenter
        correctionPrevCenterPt := c.anchorVars s } := if_pos ⟨htype, hcomputed⟩
  generalize hst : c.storeCorrections discrepCalc (c.saveCenter (c.savePrevCenter s) truth approx)
    vars truth approx = st
  have hadd : st.addCorrections i = ⟨vars, c.additiveData discrepCalc truth approx i⟩ := by
    rw [← hst]
    exact compute_addCorrections hi (.inl (by simp [htype]))
  have hmult : st.multCorrections i = ⟨vars, c.multiplicativeData discrepCalc truth approx i⟩ := by
    rw [← hst]
    exact compute_multCorrections hi hscales
  have halpha : c.alphaCorrFn st i = c.prevAlpha discrepCalc s vars truth approx i := by
    unfold alphaCorrFn prevAlpha
    rw [hadd, ← hst, hprev]
    rfl
  have hbeta : c.betaCorrFn st i = c.prevBeta discrepCalc s vars truth approx i := by
    unfold betaCorrFn prevBeta
    rw [hmult, ← hst, hprev]
    rfl
  have htruth : st.truthFnsPrevCenter i = s.truthFnsCenter i := by
    rw [← hst, hprev]
    rfl
  have hscaling : st.badScalingFlag = false := by
    rw [← hst]
    exact (congrArg _ hscales.2).trans (Bool.and_false _)
  have hfactor : (c.compute discrepCalc s vars truth approx).combineFactors i =
      (c.storeFactors discrepCalc st s.correctionComputed).combineFactors i := by
    rw [← hst]
    rfl
  rw [hfactor, ← halpha, ← hbeta, ← htruth]
  exact if_pos ⟨⟨htype, hcomputed, hscaling⟩, hi⟩

theorem compute_combineFactors_first (hcomputed : s.correctionComputed = false) :
    (c.compute discrepCalc s vars truth approx).combineFactors i = s.combineFactors i := by
  have hfactor : (c.compute discrepCalc s vars truth approx).combineFactors i =
      (c.savePrevCenter s).combineFactors i := if_neg fun h => by simp [hcomputed] at h
  rw [hfactor]
  unfold savePrevCenter
  split <;> rfl

theorem multWeight_eq_zero_iff (hcalc : discrepCalc.Documented)
    (hscales : c.Scales discrepCalc truth approx) (hi : i ∈ c.surrogateFnIndices) :
    c.multWeight (c.compute discrepCalc s vars truth approx) i = 0 ↔
      c.AllAdditive discrepCalc s vars truth approx i := by
  unfold multWeight AllAdditive
  by_cases htype : c.correctionType = .combined
  · rw [if_pos htype, sub_eq_zero, eq_comm, and_iff_right htype]
    cases hcomputed : s.correctionComputed with
    | false => rw [compute_combineFactors_first hcomputed, if_neg (by decide)]
    | true =>
      rw [compute_combineFactors htype hcomputed hscales hi, if_pos rfl]
      cases hsmall : discrepCalc.isSmall (c.prevAlpha discrepCalc s vars truth approx i -
        c.prevBeta discrepCalc s vars truth approx i) with
      | true => exact ⟨fun _ => .inl rfl, fun _ => rfl⟩
      | false =>
        have hne : c.prevAlpha discrepCalc s vars truth approx i -
            c.prevBeta discrepCalc s vars truth approx i ≠ 0 := by
          intro hzero
          rw [hzero, hcalc.isSmall_zero] at hsmall
          cases hsmall
        rw [if_pos (by rfl), div_eq_one_iff_eq hne, sub_left_inj]
        simp
  · rw [if_neg htype]
    exact ⟨fun h => absurd h one_ne_zero, fun h => absurd h.1 htype⟩

/-- What `apply` gives when multiplicative corrections are used. -/
theorem apply_compute_scales (hcalc : discrepCalc.Documented)
    (hscales : c.Scales discrepCalc truth approx) (hr : c.Uncorrected approx r) :
    let st := c.compute discrepCalc s vars truth approx
    let mult := c.applyMultiplicative st vars unset r
    ∀ i ∈ c.surrogateFnIndices,
      (r.asv i &&& 1 ≠ 0 → (c.apply st vars unset r).fns i =
        truth.fns i + c.multWeight st i * (mult.fns i - truth.fns i)) ∧
      (1 ≤ c.correctionOrder.val → r.asv i &&& 2 ≠ 0 → (c.apply st vars unset r).grads i =
        truth.grads i + c.multWeight st i • (mult.grads i - truth.grads i)) ∧
      (c.correctionOrder = 2 → r.asv i &&& 4 ≠ 0 → (c.apply st vars unset r).hess i =
        truth.hess i + c.multWeight st i • (mult.hess i - truth.hess i)) := by
  intro st mult i hi
  have hscaling : st.badScalingFlag = false :=
    (congrArg _ hscales.2).trans (Bool.and_false _)
  have happly : c.apply st vars unset r = if c.correctionType = .multiplicative then mult
      else c.combine st r (c.applyAdditive st vars r) mult := by
    refine (if_neg (show ¬ (!true) = true by decide)).trans (if_neg ?_)
    rintro (h | h)
    · exact hscales.1 h
    · rw [hscaling] at h
      cases h
  cases htype : c.correctionType with
  | additive => exact absurd htype hscales.1
  | multiplicative =>
    have hweight : c.multWeight st i = 1 := if_neg (by simp [htype])
    rw [happly, if_pos htype, hweight, one_mul, one_smul, one_smul]
    simp
  | combined =>
    have hweight : c.multWeight st i = 1 - st.combineFactors i := if_pos htype
    have hadd := applyAdditive_corrected vars hcalc
      (fun i hi => show st.addCorrections i = ⟨vars, c.additiveData discrepCalc truth approx i⟩ from
        compute_addCorrections hi (.inl (by simp [htype]))) hr
    rw [happly, if_neg (by simp [htype]), hweight]
    refine ⟨fun hasv => (if_pos ⟨hi, hasv⟩).trans ?_, fun horder hasv => (if_pos ⟨hi, hasv⟩).trans ?_,
      fun horder hasv => (if_pos ⟨hi, hasv⟩).trans ?_⟩
    · rw [hadd.fns i hi hasv]
      ring
    · rw [hadd.grads horder i hi hasv]
      module
    · rw [hadd.hess horder i hi hasv]
      module

/-! ## Consistency -/

section

variable (hcalc : discrepCalc.Documented) (hscales : c.Scales discrepCalc truth approx)
  (hr : c.Uncorrected approx r) (hfinds : c.SearchFinds vars approx)
  (hnonzero : ∀ i ∈ c.surrogateFnIndices, approx.fns i ≠ 0)
include hcalc hscales hr hfinds hnonzero

/-- A gradient is off where a value is read that is not set. -/
theorem apply_compute_grads (hi : i ∈ c.surrogateFnIndices) (horder : 1 ≤ c.correctionOrder.val)
    (hasv : r.asv i &&& 2 ≠ 0) :
    let st := c.compute discrepCalc s vars truth approx
    (c.apply st vars unset r).grads i = truth.grads i + c.multWeight st i •
      ((if c.ValueUnset r i then unset.fns i - approx.fns i else 0) •
        ratioGrad discrepCalc truth approx i) := by
  intro st
  have hmult := applyMultiplicative_grads st vars unset hcalc
    (fun i hi => compute_multCorrections hi hscales) hr hnonzero hi horder hasv
  rw [(apply_compute_scales hcalc hscales hr i hi).2.1 horder hasv, hmult, add_sub_cancel_left,
    approxFn_compute hscales hr hfinds hi (.inl ⟨hasv, horder⟩)]
  split
  · rfl
  · rw [sub_self]

/-- A Hessian is off where a value or a gradient is read that is not set. -/
theorem apply_compute_hess (hi : i ∈ c.surrogateFnIndices) (horder : c.correctionOrder = 2)
    (hasv : r.asv i &&& 4 ≠ 0) (j k : Fin d) :
    let st := c.compute discrepCalc s vars truth approx
    let gradError := if c.GradUnset r i then unset.grads i - approx.grads i else 0
    (c.apply st vars unset r).hess i j k = truth.hess i j k + c.multWeight st i *
      ((if c.ValueUnset r i then unset.fns i - approx.fns i else 0) *
          ratioHess discrepCalc truth approx i j k +
        ratioGrad discrepCalc truth approx i j * gradError k +
        ratioGrad discrepCalc truth approx i k * gradError j) := by
  intro st gradError
  have hone : 1 ≤ c.correctionOrder.val := by
    rw [horder]
    decide
  have hmult := applyMultiplicative_hess st vars unset hcalc
    (fun i hi => compute_multCorrections hi hscales) hr hnonzero hi horder hasv j k
  have hvalue : c.approxFn st vars unset r i - approx.fns i =
      if c.ValueUnset r i then unset.fns i - approx.fns i else 0 := by
    rw [approxFn_compute hscales hr hfinds hi (.inr ⟨hasv, horder⟩)]
    split
    · rfl
    · exact sub_self _
  have hgrad (l : Fin d) : c.approxGrad st vars unset r i l - approx.grads i l = gradError l := by
    rw [approxGrad_compute hscales hr hfinds hi hone hasv]
    by_cases hunset : c.GradUnset r i
    · rw [if_pos hunset, show gradError = unset.grads i - approx.grads i from if_pos hunset]
      rfl
    · rw [if_neg hunset, show gradError = 0 from if_neg hunset]
      exact sub_self _
  rw [(apply_compute_scales hcalc hscales hr i hi).2.2 horder hasv, Matrix.add_apply,
    Matrix.smul_apply, Matrix.sub_apply, hmult, add_sub_cancel_left, smul_eq_mul, hvalue, hgrad,
    hgrad]

omit hfinds in
theorem apply_compute_fns (hi : i ∈ c.surrogateFnIndices) (hasv : r.asv i &&& 1 ≠ 0) :
    (c.apply (c.compute discrepCalc s vars truth approx) vars unset r).fns i = truth.fns i := by
  rw [(apply_compute_scales hcalc hscales hr i hi).1 hasv, applyMultiplicative_fns hcalc
    (fun i hi => compute_multCorrections hi hscales) hr hnonzero hi hasv, sub_self, mul_zero,
    add_zero]

end

/-- The data that is not set is multiplied with zeros. -/
def ReadsSet (c : CorrectionSetup K D d) (discrepCalc : DiscrepancyCalculator K d)
    (truth approx r : FnResponse K d) (i : ℕ) : Prop :=
  (c.ValueUnset r i →
    (r.asv i &&& 2 ≠ 0 → ratioGrad discrepCalc truth approx i = 0) ∧
    (c.correctionOrder = 2 → r.asv i &&& 4 ≠ 0 → ratioHess discrepCalc truth approx i = 0)) ∧
  (c.GradUnset r i → c.correctionOrder = 2 → r.asv i &&& 4 ≠ 0 →
    ratioGrad discrepCalc truth approx i = 0)

omit [Field K] in
theorem fnDbSearch_order (h : c.fnDbSearch r) : 1 ≤ c.correctionOrder.val := by
  obtain ⟨i, -, hi⟩ := h
  unfold fnDbAsv at hi
  split at hi
  · rename_i hneeded
    rcases hneeded.2.2 with h | h
    · exact h.2
    · rw [h.2]
      decide
  · exact absurd rfl hi

/-- Functions that are not surrogates are left alone. -/
theorem apply_others (hi : i ∉ c.surrogateFnIndices) :
    (c.apply st vars unset r).fns i = r.fns i ∧ (c.apply st vars unset r).grads i = r.grads i ∧
      (c.apply st vars unset r).hess i = r.hess i := by
  unfold apply
  split
  · exact ⟨rfl, rfl, rfl⟩
  split
  · exact ⟨if_neg fun h => hi h.1, if_neg fun h => hi h.1, if_neg fun h => hi h.1⟩
  split <;> exact ⟨if_neg fun h => hi h.1, if_neg fun h => hi h.1, if_neg fun h => hi h.1⟩

/-- The calculator for two functions, of which only an approximation of zero is small. -/
def twoFnCalc : DiscrepancyCalculator ℚ 1 where
  additiveFn t a := t - a
  additiveGrad t a := t - a
  additiveHess t a := t - a
  multiplicativeFn t a := t / a
  multiplicativeGrad t tGrad a aGrad j := (tGrad j - aGrad j * (t / a)) / a
  multiplicativeHess t tGrad tHess a aGrad aHess := Matrix.of fun j k =>
    (tHess j k * a - t * aHess j k + 2 * (t / a) * aGrad j * aGrad k - tGrad j * aGrad k -
      aGrad j * tGrad k) / (a * a)
  checkMultiplicative truth approx order := (List.range 2).any fun i =>
    approx i = 0 || (order = 0 && truth i = 0)
  isSmall x := x = 0

theorem twoFnCalc_documented : twoFnCalc.Documented where
  additiveFn _ _ := rfl
  additiveGrad _ _ := rfl
  additiveHess _ _ := rfl
  multiplicativeFn _ _ := rfl
  multiplicativeGrad _ _ _ _ _ := rfl
  multiplicativeHess _ _ _ _ _ _ _ _ := rfl
  isSmall_zero := rfl

/-- A multiplicative correction of first order, without a surrogate model. -/
def twoFnSetup : CorrectionSetup ℚ Unit 1 := ⟨.multiplicative, 1, {0, 1}, none⟩

def origin : PointVars ℚ Unit 1 := ⟨0, ()⟩

def firstState : CorrectionState ℚ Unit 1 :=
  { correctionComputed := false
    badScalingFlag := false
    addCorrections := fun _ => ⟨origin, 0, 0, 0⟩
    multCorrections := fun _ => ⟨origin, 0, 0, 0⟩
    combineFactors := 1
    correctionPrevCenterPt := origin
    truthFnsCenter := 0
    approxFnsCenter := 0
    approxGradsCenter := 0
    truthFnsPrevCenter := 0
    approxFnsPrevCenter := 0 }

/-- The truth `2 + x` and `3`, and approximations by `1`. -/
def twoFnTruth : FnResponse ℚ 1 :=
  ⟨fun _ => 3, fun i => if i = 0 then 2 else 3, fun i _ => if i = 0 then 1 else 0, 0⟩

def twoFnApprox : FnResponse ℚ 1 := ⟨fun _ => 3, 1, 0, 0⟩

/-- The value and gradient of the first function, and the gradient of the second. -/
def twoFnRequest : FnResponse ℚ 1 := { twoFnApprox with asv := fun i => if i = 0 then 3 else 2 }

end CorrectionSetup

end Dakota.Surrogate
