import Dakota.Lib.Outcome
import Dakota.Scaling.ChainRule

/-!
# Scaling a response and back

What `response_modify_n2s` and `response_modify_s2n` do to a response with a request vector that
`transform_set` has completed.

* `ScaledCall`: a native response with its variables, and the two responses that are written.
* `responseModifyN2s_eq_ok_iff`, `responseModifyN2s_spec`: the first map follows the chain rule, if
  the derivative variables are the first ones of their variables.
* `responseModifyS2n_hessian`: what the second map makes of a scaled Hessian. The diagonal term of a
  logarithmic variable is multiplied by what it has to be divided by.
* `roundTrips_iff`: when both maps together do what they are to do.
-/

namespace Dakota.ScalingModel

open Outcome

/-- The input of a scaling of a response: the derivative variables are continuous variables in
their order, the arrays have the sizes of the source, and the logarithms have arguments. -/
structure ScaledCall (K : Type) [Field K] where
  m : ScalingModel K
  vars : ContinuousVars K
  recastSet : ActiveSet
  native : Response K
  /-- The responses that the results are written to. -/
  recast : Response K
  unscaled : Response K
  startOffset : Nat
  numResponses : Nat
  set_eq : m.maps.transformSet recastSet = .ok native.activeSet
  recast_set : recast.activeSet = native.activeSet
  sublist : native.activeSet.derivVarsVector.Sublist vars.cvIds
  length_cvScales : m.cvScales.length = vars.numCv
  arg_cv : ∀ {x cdv}, vars.cvs[x]? = some cdv → (m.cvScale x).Arg m.base cdv
  arg_response : ∀ {i}, native.activeSet.asks i 1 →
    (m.responseScale i).Arg m.base (native.functionValues i)

namespace ScaledCall

variable {K : Type} [Field K] (c : ScaledCall K)

abbrev dvv : List Nat := c.native.activeSet.derivVarsVector

/-- The functions that are mapped and asked for a bit. -/
abbrev fns (bit : Nat) : List Nat := mapped c.native.activeSet c.startOffset c.numResponses bit

/-- The position, among the continuous variables, of the variable of a row. -/
def varIndex (j : Nat) : Nat := c.vars.cvIds.idxOf (c.dvv.getD j 0)

/-- The scale and the value of the variable of a row. -/
def varScale (j : Nat) : Scale K := c.m.cvScale (c.varIndex j)

def varValue (j : Nat) : K := c.vars.cvs.getD (c.varIndex j) 0

/-- The scaled value and derivatives by the chain rule. -/
def chainValue (i : Nat) : K := (c.m.responseScale i).n2s c.m.base (c.native.functionValues i)

def chainGradient (i j : Nat) : K :=
  scaledGradient c.m.base (c.m.responseScale i) (c.varScale j) (c.native.functionValues i)
    (c.native.functionGradients j i) (c.varValue j)

def chainHessian (i j k : Nat) : K :=
  scaledHessian c.m.base (c.m.responseScale i) (c.varScale j) (c.varScale k)
    (c.native.functionValues i) (c.native.functionGradients j i) (c.native.functionGradients k i)
    (c.native.functionHessians i j k) (c.varValue j) (c.varValue k) (j = k)

/-- The requested entries of a response. -/
structure HasEntries (r : Response K) (value : Nat → K) (gradient : Nat → Nat → K)
    (hessian : Nat → Nat → Nat → K) : Prop where
  value : ∀ i ∈ c.fns 1, r.functionValues i = value i
  gradient : ∀ i ∈ c.fns 2, ∀ j < c.dvv.length, r.functionGradients j i = gradient i j
  hessian : ∀ i ∈ c.fns 4, ∀ j < c.dvv.length, ∀ k ≤ j, r.functionHessians i j k = hessian i j k

/-- The scaled response follows the chain rule. -/
def FollowsChainRule (r : Response K) : Prop :=
  c.HasEntries r c.chainValue c.chainGradient c.chainHessian

/-- The native data are restored. -/
def RestoresNative (r : Response K) : Prop :=
  c.HasEntries r c.native.functionValues (fun i j => c.native.functionGradients j i)
    c.native.functionHessians

/-- `response_modify_n2s` follows the chain rule, and `response_modify_s2n` undoes it. -/
def RoundTrips : Prop :=
  ∃ r, c.m.responseModifyN2s c.vars c.native c.recast c.startOffset c.numResponses = .ok r ∧
    c.FollowsChainRule r ∧
    ∃ r', c.m.responseModifyS2n true c.vars r c.unscaled c.startOffset c.numResponses = .ok r' ∧
      c.RestoresNative r'

/-- The derivative variables are those of the continuous variables, or the first ones of all. -/
def FirstRows : Prop := c.dvv = c.vars.cvIds ∨ c.dvv <+: c.vars.allIds

/-- Every function with a Hessian does not depend on a logarithmic variable, to first order, or the
rate of the variable is 1 or -1. -/
def FlatOrUnitRate : Prop :=
  ∀ i ∈ c.fns 4, ∀ j < c.dvv.length, (c.varScale j).log →
    c.native.functionGradients j i = 0 ∨ ((c.varScale j).rate c.m.base (c.varValue j)) ^ 2 = 1

end ScaledCall

/-! ## Rows -/

section Pairs

variable {n j k : Nat}

theorem mem_lowerPairs {jk : Nat × Nat} : jk ∈ lowerPairs n ↔ jk.1 < n ∧ jk.2 ≤ jk.1 := by
  unfold lowerPairs
  constructor
  · intro h
    obtain ⟨j, hj, k, hk, rfl⟩ := by simpa using h
    exact ⟨hj, hk⟩
  · rintro ⟨hj, hk⟩
    obtain ⟨j, k⟩ := jk
    simp only [List.mem_flatMap, List.mem_range, List.mem_map]
    exact ⟨j, hj, k, Nat.lt_succ_iff.mpr hk, rfl⟩

theorem symEntry_of_le (h : k ≤ j) : symEntry (j, k) = (j, k) := by
  simp [symEntry, h]

theorem nodup_lowerPairs : (lowerPairs n).Nodup := by
  unfold lowerPairs
  rw [List.nodup_flatMap]
  refine ⟨?_, ?_⟩
  · intro j _
    exact List.nodup_range.map fun k k' h => by simpa using h
  · refine List.nodup_range.pairwise_of_forall_ne fun j _ j' _ hne => ?_
    rw [Function.onFun, List.disjoint_left]
    intro p hp hp'
    obtain ⟨k, -, rfl⟩ := List.mem_map.mp hp
    obtain ⟨k', -, h⟩ := List.mem_map.mp hp'
    injection h with h
    exact hne h.symm

theorem nodup_symEntry_lowerPairs : ((lowerPairs n).map fun jk => symEntry jk).Nodup := by
  have h : (lowerPairs n).map (fun jk => symEntry jk) = lowerPairs n := by
    conv_rhs => rw [← List.map_id (lowerPairs n)]
    refine List.map_congr_left fun jk hjk => ?_
    obtain ⟨-, hle⟩ := mem_lowerPairs.mp hjk
    exact symEntry_of_le hle
  rw [h]
  exact nodup_lowerPairs

end Pairs

theorem mem_mapped {set : ActiveSet} {start num bit i : Nat} (h : i ∈ mapped set start num bit) :
    set.asks i bit := by
  unfold mapped at h
  exact (List.mem_filter.mp h).2

theorem nodup_mapped {set : ActiveSet} {start num bit : Nat} : (mapped set start num bit).Nodup :=
  (List.nodup_range' 1).filter _

theorem mem_mapped_of_asks {set : ActiveSet} {start num bit bit' i : Nat}
    (h : i ∈ mapped set start num bit) (hask : set.asks i bit') : i ∈ mapped set start num bit' := by
  unfold mapped at h ⊢
  exact List.mem_filter.mpr ⟨(List.mem_filter.mp h).1, hask⟩

namespace ScaledCall

variable {K : Type} [Field K] {c : ScaledCall K}

theorem cvIds_sublist : c.vars.cvIds.Sublist c.vars.allIds := by
  unfold ContinuousVars.cvIds
  exact (List.take_sublist _ _).trans (List.drop_sublist _ _)

theorem nodup_cvIds : c.vars.cvIds.Nodup := c.vars.allIds_nodup.sublist cvIds_sublist

theorem length_cvIds : c.vars.cvIds.length = c.m.cvScales.length := by
  have := c.vars.cv_le
  rw [c.length_cvScales]
  simp only [ContinuousVars.cvIds, List.length_take, List.length_drop]
  omega

theorem length_cvs : c.vars.cvs.length = c.m.cvScales.length := by
  have := c.vars.cv_le
  rw [c.length_cvScales]
  simp only [ContinuousVars.cvs, List.length_take, List.length_drop, c.vars.length_allVars]
  omega

theorem length_dvv_le : c.dvv.length ≤ c.m.cvScales.length := by
  rw [← c.length_cvIds]
  exact c.sublist.length_le

/-- The derivative variables are a sublist of the variables that they are looked up in. -/
theorem sublist_derivVars : c.dvv.Sublist (c.vars.derivVars c.dvv).1 := by
  unfold ContinuousVars.derivVars
  split
  · next h => rw [h]
  · split
    · next h => rw [h]
    · exact c.sublist.trans cvIds_sublist

theorem nodup_derivVars : (c.vars.derivVars c.dvv).1.Nodup := by
  unfold ContinuousVars.derivVars
  split
  · exact nodup_cvIds
  · split
    · exact c.vars.allIds_nodup.sublist
        ((List.take_sublist _ _).trans (List.drop_sublist _ _))
    · exact c.vars.allIds_nodup

theorem rowIndex_eq_ok {varIds : List Nat} {j x : Nat}
    (h : c.m.rowIndex c.dvv varIds j = .ok x) :
    varIds.idxOf? (c.dvv.getD j 0) = some x ∧ x < c.dvv.length := by
  unfold rowIndex at h
  split at h
  · next y hy =>
    split_ifs at h with hlt
    cases h
    exact ⟨hy, hlt.1⟩
  · cases h

/-- A loop over the rows that ends finds them at the first positions. -/
theorem prefix_of_rowIndex
    (h : ∀ j < c.dvv.length, ∃ x, c.m.rowIndex c.dvv (c.vars.derivVars c.dvv).1 j = .ok x) :
    c.dvv <+: (c.vars.derivVars c.dvv).1 := by
  refine prefix_of_idxOf_lt sublist_derivVars nodup_derivVars fun a ha => ?_
  obtain ⟨j, hj, rfl⟩ := List.mem_iff_getElem.mp ha
  obtain ⟨x, hx⟩ := h j hj
  obtain ⟨hidx, hlt⟩ := rowIndex_eq_ok hx
  rw [List.getD_eq_getElem _ _ hj] at hidx
  rw [List.idxOf_eq_getD_idxOf?, hidx]
  exact hlt

/-- No continuous variable is inactive. -/
theorem dvv_eq_nil (h : c.dvv = c.vars.icvIds) : c.dvv = [] := by
  rw [List.eq_nil_iff_forall_not_mem]
  intro a ha
  have hcv := c.sublist.subset ha
  rw [h] at ha
  unfold ContinuousVars.cvIds at hcv
  unfold ContinuousVars.icvIds at ha
  obtain ⟨j, hj, hja⟩ := List.mem_iff_getElem.mp hcv
  obtain ⟨k, hk, hka⟩ := List.mem_iff_getElem.mp ha
  have hjk : c.vars.cvStart + j = c.vars.icvStart + k := by
    rw [List.getElem_take, List.getElem_drop] at hja hka
    exact (c.vars.allIds_nodup.getElem_inj_iff).mp (hja.trans hka.symm)
  rw [List.length_take, List.length_drop] at hj hk
  have := c.vars.disjoint
  omega

theorem firstRows_of_prefix (h : c.dvv <+: (c.vars.derivVars c.dvv).1) : c.FirstRows := by
  unfold ContinuousVars.derivVars at h
  split at h
  · next hcv => exact .inl hcv
  · split at h
    · next hicv =>
      right
      rw [dvv_eq_nil hicv]
      exact List.nil_prefix
    · exact .inr h

theorem prefix_cvIds (h : c.FirstRows) : c.dvv <+: c.vars.cvIds := by
  obtain h | h := h
  · rw [h]
  · refine prefix_of_idxOf_lt c.sublist nodup_cvIds fun a ha => ?_
    obtain ⟨j, hj, rfl⟩ := List.mem_iff_getElem.mp ha
    -- an element of a sublist is not further back than in the whole list
    have hall := idxOf_getElem_of_prefix h c.vars.allIds_nodup hj
    have hmem := c.sublist.subset ha
    unfold ContinuousVars.cvIds at hmem ⊢
    obtain ⟨k, hk, hka⟩ := List.mem_iff_getElem.mp hmem
    have hnd := c.nodup_cvIds
    unfold ContinuousVars.cvIds at hnd
    rw [← hka, hnd.idxOf_getElem k hk]
    rw [List.getElem_take, List.getElem_drop] at hka
    rw [← hka, c.vars.allIds_nodup.idxOf_getElem] at hall
    omega

/-- The variable of a row is at the position of the row. -/
theorem varIndex_eq (h : c.FirstRows) {j : Nat} (hj : j < c.dvv.length) : c.varIndex j = j := by
  unfold varIndex
  rw [List.getD_eq_getElem _ _ hj]
  exact idxOf_getElem_of_prefix (prefix_cvIds h) nodup_cvIds hj

theorem prefix_derivVars (h : c.FirstRows) : c.dvv <+: (c.vars.derivVars c.dvv).1 := by
  unfold ContinuousVars.derivVars
  split
  · next hcv => rw [← hcv]
  · next hcv =>
    split
    · next hicv => rw [← hicv]
    · exact h.resolve_left hcv

theorem rowIndex_of_firstRows (h : c.FirstRows) {j : Nat} (hj : j < c.dvv.length) :
    c.m.rowIndex c.dvv (c.vars.derivVars c.dvv).1 j = .ok j := by
  have hmem : c.dvv[j] ∈ (c.vars.derivVars c.dvv).1 :=
    sublist_derivVars.subset (List.getElem_mem hj)
  have hidx := idxOf_getElem_of_prefix (prefix_derivVars h) nodup_derivVars hj
  have hlen := hj.trans_le c.length_dvv_le
  unfold rowIndex
  rw [List.getD_eq_getElem _ _ hj]
  cases hx : (c.vars.derivVars c.dvv).1.idxOf? c.dvv[j] with
  | none => exact absurd hmem (List.idxOf?_eq_none_iff.mp hx)
  | some x =>
    rw [List.idxOf_eq_getD_idxOf?, hx, Option.getD_some] at hidx
    subst hidx
    exact if_pos ⟨hj, hlen⟩

/-- The value that is read for a row is that of its variable. -/
theorem cdv_eq (h : c.FirstRows) {j : Nat} (hj : j < c.dvv.length) :
    (c.vars.derivVars c.dvv).2.getD j 0 = c.varValue j := by
  unfold varValue
  rw [varIndex_eq h hj]
  have hpos : j < c.vars.cvs.length := by
    rw [length_cvs]
    exact hj.trans_le length_dvv_le
  unfold ContinuousVars.derivVars
  split
  · rfl
  · next hcv =>
    split
    · next hicv =>
      rw [dvv_eq_nil hicv] at hj
      cases hj
    · -- the first of all variables is a continuous one
      have hpre := h.resolve_left hcv
      have hj0 : 0 < c.dvv.length := by omega
      have hcvj := idxOf_getElem_of_prefix (prefix_cvIds h) nodup_cvIds hj0
      have hallj := idxOf_getElem_of_prefix hpre c.vars.allIds_nodup hj0
      have hmem := c.sublist.subset (List.getElem_mem hj0)
      obtain ⟨k, hk, hka⟩ := List.mem_iff_getElem.mp hmem
      have hnd := c.nodup_cvIds
      rw [← hka, hnd.idxOf_getElem k hk] at hcvj
      subst hcvj
      simp only [ContinuousVars.cvIds, List.getElem_take, List.getElem_drop] at hka
      rw [← hka, c.vars.allIds_nodup.idxOf_getElem] at hallj
      have hstart : c.vars.cvStart = 0 := by omega
      simp only [ContinuousVars.cvs, List.length_take, List.length_drop] at hpos
      simp only [ContinuousVars.cvs, hstart, List.drop_zero, List.getD, List.getElem?_take]
      rw [if_pos (by omega)]

/-- The rate of the variable of a row. -/
theorem arg_var (h : c.FirstRows) {j : Nat} (hj : j < c.dvv.length) :
    (c.varScale j).Arg c.m.base (c.varValue j) := by
  have hpos : j < c.vars.cvs.length := by
    rw [length_cvs]
    exact hj.trans_le length_dvv_le
  unfold varScale varValue
  rw [varIndex_eq h hj]
  apply c.arg_cv
  rw [List.getD_eq_getElem _ _ hpos, List.getElem?_eq_getElem]

theorem varScale_eq (h : c.FirstRows) {j : Nat} (hj : j < c.dvv.length) :
    c.m.cvScale j = c.varScale j := by
  unfold varScale
  rw [varIndex_eq h hj]

/-! ## Requests -/

theorem log_mapped {i : Nat} (h : (c.m.responseScale i).log = true) :
    (c.m.responseScales.map (·.log)).getD i false = true := by
  unfold responseScale at h
  simp only [List.getD, List.getElem?_map] at h ⊢
  cases hi : c.m.responseScales[i]? with
  | none =>
    rw [hi] at h
    cases h
  | some s =>
    rw [hi] at h
    exact h

theorem log_any (h : c.FirstRows) {j : Nat} (hj : j < c.dvv.length)
    (hlog : (c.varScale j).log = true) : c.m.cvScales.any (·.log) = true := by
  rw [← varScale_eq h hj] at hlog
  unfold cvScale at hlog
  have hlt := hj.trans_le c.length_dvv_le
  rw [List.getD_eq_getElem _ _ hlt] at hlog
  exact List.any_eq_true.mpr ⟨_, List.getElem_mem hlt, hlog⟩

/-- The value of a logarithmic function is requested with its derivatives. -/
theorem arg_fn {i bit : Nat} (hbit : bit = 1 ∨ bit = 2 ∨ bit = 4) (hi : i ∈ c.fns bit) :
    (c.m.responseScale i).Arg c.m.base (c.native.functionValues i) := by
  intro hlog
  have hlower := RecastMaps.asks_lower_of_resp c.set_eq (log_mapped hlog)
  have hask : c.native.activeSet.asks i 1 := by
    rcases hbit with rfl | rfl | rfl
    · exact mem_mapped hi
    · exact hlower.2 (mem_mapped hi)
    · exact hlower.2 (hlower.1 (mem_mapped hi))
  exact c.arg_response hask hlog

/-! ## One entry -/

theorem timesRate_eq {x : Nat} {cdv entry : K} :
    c.m.timesRate x cdv entry = entry * (c.m.cvScale x).rate c.m.base cdv := by
  unfold timesRate Scale.rate
  by_cases hlog : (c.m.cvScale x).log
  · simp only [if_pos hlog]
  · simp only [if_neg hlog]
    by_cases hv : (c.m.cvScale x).value
    · rw [if_pos hv]
    · have hv' : (c.m.cvScale x).value = false := by simpa using hv
      rw [if_neg hv, Scale.multiplier_eq _ hv', mul_one]

theorem dividedByRate_eq {x : Nat} {cdv entry : K} :
    c.m.dividedByRate x cdv entry = entry / (c.m.cvScale x).rate c.m.base cdv := by
  unfold dividedByRate Scale.rate
  by_cases hlog : (c.m.cvScale x).log
  · simp only [if_pos hlog]
  · simp only [if_neg hlog]
    by_cases hv : (c.m.cvScale x).value
    · rw [if_pos hv]
    · have hv' : (c.m.cvScale x).value = false := by simpa using hv
      rw [if_neg hv, Scale.multiplier_eq _ hv', div_one]

theorem div_fnDivisor {i : Nat} {v entry : K} :
    entry / c.m.fnDivisor i v = (c.m.responseScale i).slope c.m.base v * entry := by
  unfold fnDivisor Scale.slope
  by_cases hlog : (c.m.responseScale i).log
  · simp only [if_pos hlog]
    ring
  · simp only [if_neg hlog]
    by_cases hv : (c.m.responseScale i).value
    · rw [if_pos hv]
      ring
    · have hv' : (c.m.responseScale i).value = false := by simpa using hv
      rw [if_neg hv, Scale.multiplier_eq _ hv']
      ring

/-- `df_dfscl` is the inverse of the slope. -/
theorem dfDfscl_eq {i : Nat} {v : K} (harg : (c.m.responseScale i).Arg c.m.base v) :
    c.m.dfDfscl true i ((c.m.responseScale i).n2s c.m.base v) =
      ((c.m.responseScale i).slope c.m.base v)⁻¹ := by
  unfold dfDfscl Scale.slope
  rw [Scale.n2s_eq]
  by_cases hlog : (c.m.responseScale i).log
  · simp only [hlog, Bool.true_and, if_true]
    rw [one_div, inv_inv, mul_right_comm, harg.pow_mul hlog]
  · simp only [if_neg hlog, Bool.true_and, one_div, inv_inv]
    by_cases hv : (c.m.responseScale i).value
    · rw [if_pos hv]
    · have hv' : (c.m.responseScale i).value = false := by simpa using hv
      rw [if_neg hv, Scale.multiplier_eq _ hv']

theorem nativeVal_n2s {i : Nat} {v : K} (harg : (c.m.responseScale i).Arg c.m.base v) :
    c.m.nativeVal true i ((c.m.responseScale i).n2s c.m.base v) = v := by
  have hundo := Scale.s2n_n2s harg
  rw [Scale.s2n_eq] at hundo
  unfold nativeVal
  by_cases hlog : (c.m.responseScale i).log
  · simp only [hlog, Bool.true_and, if_true] at hundo ⊢
    exact hundo
  · simp only [if_neg hlog, Bool.true_and] at hundo ⊢
    by_cases hv : (c.m.responseScale i).value
    · rw [if_pos hv]
      exact hundo
    · have hv' : (c.m.responseScale i).value = false := by simpa using hv
      rw [Scale.multiplier_eq _ hv', Scale.offset_eq _ hv', mul_one, add_zero] at hundo
      rw [if_neg hv]
      exact hundo

/-- An entry of a scaled Hessian. -/
theorem recastHess_eq {i xj xk : Nat} {v entry : K} {grad cdv : Nat → K}
    (harg : (c.m.responseScale i).Arg c.m.base v) :
    c.m.recastHess i v grad cdv (xj, xk) entry =
      scaledHessian c.m.base (c.m.responseScale i) (c.m.cvScale xj) (c.m.cvScale xk) v (grad xj)
        (grad xk) entry (cdv xj) (cdv xk) (xj = xk) := by
  have hL := c.m.base.lnBase_ne
  have hm := (c.m.responseScale i).multiplier_ne
  unfold recastHess scaledHessian
  simp only [timesRate_eq]
  by_cases hlog : (c.m.responseScale i).log
  · have hv := harg.sub_ne hlog
    simp only [hlog, if_true, Scale.slope, Scale.bend]
    by_cases hdiag : xj = xk
    · subst hdiag
      by_cases hc : (c.m.cvScale xj).log
      · simp only [hc, and_self, if_true, Scale.curvature]
        field_simp
        ring
      · simp only [hc, and_false, if_false, if_true, Scale.curvature, Bool.false_eq_true]
        field_simp
        ring
    · simp only [hdiag, false_and, if_false]
      field_simp
      ring
  · simp only [if_neg hlog, Scale.slope, Scale.bend, zero_mul, zero_add]
    have hvalue : (if (c.m.responseScale i).value then entry / (c.m.responseScale i).multiplier
        else entry) = entry / (c.m.responseScale i).multiplier := by
      split
      · rfl
      · next hv =>
        rw [Scale.multiplier_eq _ (by simpa using hv), div_one]
    rw [hvalue]
    by_cases hdiag : xj = xk
    · subst hdiag
      by_cases hc : (c.m.cvScale xj).log
      · simp only [hc, and_self, if_true, Scale.curvature]
        field_simp
      · simp only [hc, and_false, if_false, if_true, Scale.curvature, Bool.false_eq_true]
        field_simp
        ring
    · simp only [hdiag, false_and, if_false]
      field_simp
      ring

/-- What the second map makes of an entry of a scaled Hessian: on the diagonal of a logarithmic
variable, the native entry only if the last summand vanishes. -/
theorem nativeHess_eq {i xj xk : Nat} {v entry : K} (grad : Nat → K) {scaledGrad cdv : Nat → K}
    (harg : (c.m.responseScale i).Arg c.m.base v)
    (hxj : (c.m.cvScale xj).Arg c.m.base (cdv xj)) (hxk : (c.m.cvScale xk).Arg c.m.base (cdv xk))
    (hgj : scaledGrad xj = scaledGradient c.m.base (c.m.responseScale i) (c.m.cvScale xj) v (grad xj)
      (cdv xj))
    (hgk : scaledGrad xk = scaledGradient c.m.base (c.m.responseScale i) (c.m.cvScale xk) v (grad xk)
      (cdv xk)) :
    c.m.nativeHess true i ((c.m.responseScale i).n2s c.m.base v) scaledGrad cdv (xj, xk)
        (scaledHessian c.m.base (c.m.responseScale i) (c.m.cvScale xj) (c.m.cvScale xk) v (grad xj)
          (grad xk) entry (cdv xj) (cdv xk) (xj = xk)) =
      entry + if xj = xk ∧ (c.m.cvScale xj).log then
        grad xj * (1 - ((c.m.cvScale xj).rate c.m.base (cdv xj)) ^ 2) /
          (cdv xj - (c.m.cvScale xj).offset)
      else 0 := by
  have hL := c.m.base.lnBase_ne
  have hslope := Scale.slope_ne harg
  have hrj := Scale.rate_ne hxj
  have hrk := Scale.rate_ne hxk
  unfold nativeHess
  simp only [dividedByRate_eq, dfDfscl_eq harg, Bool.true_and]
  rw [hgj, hgk]
  -- the response part is undone whatever its scale is
  have hresponse : (if (c.m.responseScale i).log then
      (scaledHessian c.m.base (c.m.responseScale i) (c.m.cvScale xj) (c.m.cvScale xk) v (grad xj)
          (grad xk) entry (cdv xj) (cdv xk) (xj = xk) +
        scaledGradient c.m.base (c.m.responseScale i) (c.m.cvScale xj) v (grad xj) (cdv xj) *
          scaledGradient c.m.base (c.m.responseScale i) (c.m.cvScale xk) v (grad xk) (cdv xk) *
          c.m.base.lnBase) * ((c.m.responseScale i).slope c.m.base v)⁻¹
      else if (c.m.responseScale i).value then
        scaledHessian c.m.base (c.m.responseScale i) (c.m.cvScale xj) (c.m.cvScale xk) v (grad xj)
          (grad xk) entry (cdv xj) (cdv xk) (xj = xk) * ((c.m.responseScale i).slope c.m.base v)⁻¹
      else scaledHessian c.m.base (c.m.responseScale i) (c.m.cvScale xj) (c.m.cvScale xk) v
        (grad xj) (grad xk) entry (cdv xj) (cdv xk) (xj = xk)) =
      entry * (c.m.cvScale xj).rate c.m.base (cdv xj) * (c.m.cvScale xk).rate c.m.base (cdv xk) +
        if xj = xk then grad xj * (c.m.cvScale xj).curvature c.m.base (cdv xj) else 0 := by
    by_cases hlog : (c.m.responseScale i).log
    · have hv := harg.sub_ne hlog
      simp only [hlog, if_true, scaledHessian, scaledGradient, Scale.slope, Scale.bend]
      field_simp
      ring
    · have hm := (c.m.responseScale i).multiplier_ne
      simp only [hlog, scaledHessian, Scale.slope, Scale.bend, Bool.false_eq_true, if_false]
      split
      · field_simp
        ring
      · next hval =>
        rw [Scale.multiplier_eq _ (by simpa using hval)]
        ring
  rw [hresponse]
  by_cases hdiag : xj = xk
  · subst hdiag
    by_cases hc : (c.m.cvScale xj).log
    · have hx := hxj.sub_ne hc
      simp only [hc, and_self, if_true, scaledGradient, Scale.curvature, Scale.rate]
      field_simp
      ring
    · simp only [hc, and_false, if_false, if_true, Scale.curvature, Bool.false_eq_true]
      field_simp
      ring
  · simp only [hdiag, false_and, if_false]
    field_simp
    ring

/-- The second map reads gradients only where there are logarithms. -/
theorem nativeHess_congr {i xj xk : Nat} {v v' entry : K} {grad cdv : Nat → K} (grad' : Nat → K)
    (hdf : c.m.dfDfscl true i v = c.m.dfDfscl true i v')
    (hgrad : (c.m.responseScale i).log = true ∨ xj = xk ∧ (c.m.cvScale xj).log = true →
      grad xj = grad' xj ∧ grad xk = grad' xk) :
    c.m.nativeHess true i v grad cdv (xj, xk) entry =
      c.m.nativeHess true i v' grad' cdv (xj, xk) entry := by
  unfold nativeHess
  simp only [hdf]
  by_cases hlog : (c.m.responseScale i).log
  · obtain ⟨hj, hk⟩ := hgrad (.inl hlog)
    rw [hj, hk]
  · simp only [hlog, Bool.and_false, Bool.false_eq_true, if_false]
    by_cases hdiag : xj = xk ∧ (c.m.cvScale xj).log
    · rw [if_pos hdiag, if_pos hdiag, (hgrad (.inr hdiag)).1]
    · rw [if_neg hdiag, if_neg hdiag]

/-! ## The loops -/

theorem mem_pairs {jk : Nat × Nat} (h : c.FirstRows) (hjk : jk ∈ lowerPairs c.dvv.length) :
    c.m.rowIndices c.dvv (c.vars.derivVars c.dvv).1 jk = .ok jk := by
  obtain ⟨hj, hk⟩ := mem_lowerPairs.mp hjk
  unfold rowIndices
  rw [rowIndex_of_firstRows h hj, rowIndex_of_firstRows h (hk.trans_lt hj)]
  rfl

/-- A loop over the rows of a gradient. -/
theorem gradientLoop (h : c.FirstRows) {f : Nat → K → K} {g : Nat → K} :
    ∃ g', modifyAt (c.m.rowIndex c.dvv (c.vars.derivVars c.dvv).1) id f g
        (List.range c.dvv.length) = .ok g' ∧ ∀ j < c.dvv.length, g' j = f j (g j) := by
  have hnd : ((List.range c.dvv.length).map fun j => id (id j)).Nodup := by
    simpa using List.nodup_range
  obtain ⟨g', hg', hmem, -⟩ := modifyAt_spec id f g id
    (fun j hj => rowIndex_of_firstRows h (List.mem_range.mp hj)) hnd
  exact ⟨g', hg', fun j hj => hmem j (List.mem_range.mpr hj)⟩

/-- A loop over the entries of a Hessian. -/
theorem hessianLoop (h : c.FirstRows) {f : Nat × Nat → K → K} {g : Nat × Nat → K} :
    ∃ g', modifyAt (c.m.rowIndices c.dvv (c.vars.derivVars c.dvv).1) symEntry f g
        (lowerPairs c.dvv.length) = .ok g' ∧
      ∀ j < c.dvv.length, ∀ k ≤ j, g' (j, k) = f (j, k) (g (j, k)) := by
  have hnd : ((lowerPairs c.dvv.length).map fun jk => symEntry (id jk)).Nodup :=
    nodup_symEntry_lowerPairs
  obtain ⟨g', hg', hmem, -⟩ := modifyAt_spec symEntry f g id
    (fun jk hjk => mem_pairs h hjk) hnd
  refine ⟨g', hg', fun j hj k hk => ?_⟩
  have := hmem (j, k) (mem_lowerPairs.mpr ⟨hj, hk⟩)
  simpa only [id, symEntry_of_le hk] using this

/-- The result of the loops over the functions, if all of their steps end. -/
theorem mapResponse_spec (target : Response K) (value : Nat → K) {grads : Nat → Nat → K}
    {hessians : Nat → Nat × Nat → K} {gradient : Nat → Except ScalingError (Nat → K)}
    {hessian : Nat → Except ScalingError (Nat × Nat → K)}
    (hgrads : ∀ i ∈ c.fns 2, gradient i = .ok (grads i))
    (hhessians : ∀ i ∈ c.fns 4, hessian i = .ok (hessians i)) :
    ∃ r, mapResponse c.native.activeSet c.startOffset c.numResponses target value gradient hessian =
        .ok r ∧ r.activeSet = target.activeSet ∧
      c.HasEntries r value grads fun i j k => hessians i (j, k) := by
  have hg : modifyEach (fun i _ => gradient i) (fun i j => target.functionGradients j i) (c.fns 2) =
      .ok fun i => if i ∈ c.fns 2 then grads i else fun j => target.functionGradients j i :=
    (modifyEach_eq_ok_iff nodup_mapped).mpr
    ⟨fun i hi => by rw [if_pos hi]; exact hgrads i hi, fun i hi => by rw [if_neg hi]⟩
  have hh : modifyEach (fun i _ => hessian i) (fun i jk => target.functionHessians i jk.1 jk.2)
      (c.fns 4) = .ok fun i =>
        if i ∈ c.fns 4 then hessians i else fun jk => target.functionHessians i jk.1 jk.2 :=
    (modifyEach_eq_ok_iff nodup_mapped).mpr
    ⟨fun i hi => by rw [if_pos hi]; exact hhessians i hi, fun i hi => by rw [if_neg hi]⟩
  refine ⟨_, bind_eq_ok.mpr ⟨_, hg, bind_eq_ok.mpr ⟨_, hh, rfl⟩⟩, rfl, ?_, ?_, ?_⟩
  · intro i hi
    simp only [if_pos hi]
  · intro i hi j _
    simp only [if_pos hi]
  · intro i hi j _ k _
    simp only [if_pos hi]

/-- If the loops over the functions end, all of their steps do. -/
theorem of_mapResponse {target r : Response K} {value : Nat → K}
    {gradient : Nat → Except ScalingError (Nat → K)}
    {hessian : Nat → Except ScalingError (Nat × Nat → K)}
    (h : mapResponse c.native.activeSet c.startOffset c.numResponses target value gradient hessian =
      .ok r) :
    (∀ i ∈ c.fns 2, ∃ g, gradient i = .ok g) ∧ ∀ i ∈ c.fns 4, ∃ g, hessian i = .ok g := by
  obtain ⟨grads, hgrads, h⟩ := bind_eq_ok.mp h
  obtain ⟨hessians, hhessians, -⟩ := bind_eq_ok.mp h
  rw [modifyEach_eq_ok_iff nodup_mapped] at hgrads hhessians
  exact ⟨fun i hi => ⟨_, hgrads.1 i hi⟩, fun i hi => ⟨_, hhessians.1 i hi⟩⟩

/-- Some function is asked for derivatives. -/
def AsksDerivs (c : ScaledCall K) : Prop := ∃ bit, (bit = 2 ∨ bit = 4) ∧ c.fns bit ≠ []

variable {r r' : Response K}

/-- The first map ends only if the rows are the first ones. -/
theorem firstRows_of_n2s
    (h : c.m.responseModifyN2s c.vars c.native c.recast c.startOffset c.numResponses = .ok r)
    (hasks : c.AsksDerivs) : c.FirstRows := by
  apply firstRows_of_prefix
  apply prefix_of_rowIndex
  obtain ⟨hgrads, hhessians⟩ := of_mapResponse h
  obtain ⟨bit, hbit, hne⟩ := hasks
  obtain ⟨i, hi⟩ := List.exists_mem_of_ne_nil _ hne
  rcases hbit with rfl | rfl
  · obtain ⟨g, hg⟩ := hgrads i hi
    intro j hj
    exact position_of_modifyAt hg j (List.mem_range.mpr hj)
  · obtain ⟨g, hg⟩ := hhessians i hi
    intro j hj
    obtain ⟨p, hp⟩ := position_of_modifyAt hg (j, j) (mem_lowerPairs.mpr ⟨hj, le_rfl⟩)
    obtain ⟨x, hx, -⟩ := bind_eq_ok.mp hp
    exact ⟨x, hx⟩

/-- Rows are only looked up for functions that are asked for derivatives. -/
theorem firstRows_of_mem (h : c.AsksDerivs → c.FirstRows) {i bit : Nat} (hbit : bit = 2 ∨ bit = 4)
    (hi : i ∈ c.fns bit) : c.FirstRows :=
  h ⟨bit, hbit, List.ne_nil_of_mem hi⟩

/-- **The first map** follows the chain rule. -/
theorem n2s_spec (h : c.AsksDerivs → c.FirstRows) :
    ∃ r, c.m.responseModifyN2s c.vars c.native c.recast c.startOffset c.numResponses = .ok r ∧
      r.activeSet = c.native.activeSet ∧ c.FollowsChainRule r := by
  have hgrad : ∀ i ∈ c.fns 2, ∃ g', modifyAt (c.m.rowIndex c.dvv (c.vars.derivVars c.dvv).1) id
      (fun x entry => c.m.timesRate x ((c.vars.derivVars c.dvv).2.getD x 0)
        (entry / c.m.fnDivisor i (c.native.functionValues i)))
      (fun j => c.native.functionGradients j i) (List.range c.dvv.length) = .ok g' ∧
      ∀ j < c.dvv.length, g' j = c.chainGradient i j := by
    intro i hi
    have hrows := firstRows_of_mem h (.inl rfl) hi
    obtain ⟨g', hg', hentries⟩ := gradientLoop hrows
    refine ⟨g', hg', fun j hj => ?_⟩
    rw [hentries j hj, timesRate_eq, div_fnDivisor, varScale_eq hrows hj, cdv_eq hrows hj]
    rfl
  have hhess : ∀ i ∈ c.fns 4, ∃ h', modifyAt (c.m.rowIndices c.dvv (c.vars.derivVars c.dvv).1)
      symEntry (c.m.recastHess i (c.native.functionValues i)
        (fun x => c.native.functionGradients x i) fun x => (c.vars.derivVars c.dvv).2.getD x 0)
      (fun jk => c.native.functionHessians i jk.1 jk.2) (lowerPairs c.dvv.length) = .ok h' ∧
      ∀ j < c.dvv.length, ∀ k ≤ j, h' (j, k) = c.chainHessian i j k := by
    intro i hi
    have hrows := firstRows_of_mem h (.inr rfl) hi
    obtain ⟨h', hh', hentries⟩ := hessianLoop hrows
    refine ⟨h', hh', fun j hj k hk => ?_⟩
    have hk' := hk.trans_lt hj
    rw [hentries j hj k hk, recastHess_eq (arg_fn (.inr (.inr rfl)) hi), varScale_eq hrows hj,
      varScale_eq hrows hk', cdv_eq hrows hj, cdv_eq hrows hk']
    rfl
  choose! grads hgrads hgradEntries using hgrad
  choose! hessians hhessians hhessEntries using hhess
  obtain ⟨r, hr, hset, hentries⟩ := mapResponse_spec c.recast
    (fun i => c.m.recastVal i (c.native.functionValues i)) hgrads hhessians
  refine ⟨r, hr, hset.trans c.recast_set, ?_, ?_, ?_⟩
  · intro i hi
    rw [hentries.value i hi]
    exact recastVal_eq c.m
  · intro i hi j hj
    rw [hentries.gradient i hi j hj]
    exact hgradEntries i hi j hj
  · intro i hi j hj k hk
    rw [hentries.hessian i hi j hj k hk]
    exact hhessEntries i hi j hj k hk

/-- What the second map leaves of a native Hessian. -/
def unscaledHessian (c : ScaledCall K) (i j k : Nat) : K :=
  c.native.functionHessians i j k + if j = k ∧ (c.varScale j).log then
    c.native.functionGradients j i * (1 - ((c.varScale j).rate c.m.base (c.varValue j)) ^ 2) /
      (c.varValue j - (c.varScale j).offset)
  else 0

/-- **The second map** restores all but the Hessians. -/
theorem s2n_spec (h : c.AsksDerivs → c.FirstRows) (hset : r.activeSet = c.native.activeSet)
    (hr : c.FollowsChainRule r) :
    ∃ r', c.m.responseModifyS2n true c.vars r c.unscaled c.startOffset c.numResponses = .ok r' ∧
      c.HasEntries r' c.native.functionValues (fun i j => c.native.functionGradients j i)
        c.unscaledHessian := by
  have hvalue : ∀ i bit, (bit = 2 ∨ bit = 4) → i ∈ c.fns bit →
      (c.m.responseScale i).log = true → r.functionValues i = c.chainValue i := by
    intro i bit hbit hi hlog
    have hlower := RecastMaps.asks_lower_of_resp c.set_eq (log_mapped hlog)
    apply hr.value
    rcases hbit with rfl | rfl
    · exact mem_mapped_of_asks hi (hlower.2 (mem_mapped hi))
    · exact mem_mapped_of_asks hi (hlower.2 (hlower.1 (mem_mapped hi)))
  have hdf : ∀ i bit, (bit = 2 ∨ bit = 4) → i ∈ c.fns bit →
      c.m.dfDfscl true i (r.functionValues i) =
        ((c.m.responseScale i).slope c.m.base (c.native.functionValues i))⁻¹ := by
    intro i bit hbit hi
    rw [← dfDfscl_eq (arg_fn (.inr hbit) hi)]
    by_cases hlog : (c.m.responseScale i).log
    · rw [hvalue i bit hbit hi hlog]
      rfl
    · simp only [dfDfscl, hlog, Bool.and_false]
      rfl
  have hgrad : ∀ i ∈ c.fns 2, ∃ g', modifyAt (c.m.rowIndex c.dvv (c.vars.derivVars c.dvv).1) id
      (fun x entry => c.m.dividedByRate x ((c.vars.derivVars c.dvv).2.getD x 0)
        (entry * c.m.dfDfscl true i (r.functionValues i)))
      (fun j => r.functionGradients j i) (List.range c.dvv.length) = .ok g' ∧
      ∀ j < c.dvv.length, g' j = c.native.functionGradients j i := by
    intro i hi
    have hrows := firstRows_of_mem h (.inl rfl) hi
    obtain ⟨g', hg', hentries⟩ := gradientLoop hrows
    refine ⟨g', hg', fun j hj => ?_⟩
    have hslope := Scale.slope_ne (arg_fn (.inr (.inl rfl)) hi)
    have hrate := Scale.rate_ne (arg_var hrows hj)
    rw [hentries j hj, dividedByRate_eq, hdf i 2 (.inl rfl) hi, hr.gradient i hi j hj,
      varScale_eq hrows hj, cdv_eq hrows hj]
    unfold chainGradient scaledGradient
    field_simp
  have hhess : ∀ i ∈ c.fns 4, ∃ h', modifyAt (c.m.rowIndices c.dvv (c.vars.derivVars c.dvv).1)
      symEntry (c.m.nativeHess true i (r.functionValues i)
        (fun x => r.functionGradients x i) fun x => (c.vars.derivVars c.dvv).2.getD x 0)
      (fun jk => r.functionHessians i jk.1 jk.2) (lowerPairs c.dvv.length) = .ok h' ∧
      ∀ j < c.dvv.length, ∀ k ≤ j, h' (j, k) = c.unscaledHessian i j k := by
    intro i hi
    have hrows := firstRows_of_mem h (.inr rfl) hi
    obtain ⟨h', hh', hentries⟩ := hessianLoop hrows
    refine ⟨h', hh', fun j hj k hk => ?_⟩
    have hk' := hk.trans_lt hj
    have harg := arg_fn (.inr (.inr rfl)) hi
    -- the gradients that are read have been requested
    have hread : (c.m.responseScale i).log = true ∨ j = k ∧ (c.m.cvScale j).log = true →
        r.functionGradients j i = c.chainGradient i j ∧
          r.functionGradients k i = c.chainGradient i k := by
      intro hlog
      have hask : c.native.activeSet.asks i 2 := by
        rcases hlog with hlog | ⟨-, hlog⟩
        · exact (RecastMaps.asks_lower_of_resp c.set_eq (log_mapped hlog)).1 (mem_mapped hi)
        · rw [varScale_eq hrows hj] at hlog
          exact RecastMaps.asks_gradient_of_vars c.set_eq (log_any hrows hj hlog) (mem_mapped hi)
      have hi2 := mem_mapped_of_asks hi hask
      exact ⟨hr.gradient i hi2 j hj, hr.gradient i hi2 k hk'⟩
    have hvar : ∀ x < c.dvv.length, c.m.cvScale x = c.varScale x ∧
        (c.vars.derivVars c.dvv).2.getD x 0 = c.varValue x :=
      fun x hx => ⟨varScale_eq hrows hx, cdv_eq hrows hx⟩
    have hargx : ∀ x < c.dvv.length,
        (c.m.cvScale x).Arg c.m.base ((c.vars.derivVars c.dvv).2.getD x 0) := by
      intro x hx
      rw [(hvar x hx).1, (hvar x hx).2]
      exact arg_var hrows hx
    have hchain : ∀ x < c.dvv.length, c.chainGradient i x =
        scaledGradient c.m.base (c.m.responseScale i) (c.m.cvScale x) (c.native.functionValues i)
          (c.native.functionGradients x i) ((c.vars.derivVars c.dvv).2.getD x 0) := by
      intro x hx
      rw [(hvar x hx).1, (hvar x hx).2]
      rfl
    have hdf' := (hdf i 4 (.inr rfl) hi).trans (dfDfscl_eq harg).symm
    have hhess : c.chainHessian i j k = scaledHessian c.m.base (c.m.responseScale i)
        (c.m.cvScale j) (c.m.cvScale k) (c.native.functionValues i) (c.native.functionGradients j i)
        (c.native.functionGradients k i) (c.native.functionHessians i j k)
        ((c.vars.derivVars c.dvv).2.getD j 0) ((c.vars.derivVars c.dvv).2.getD k 0) (j = k) := by
      rw [(hvar j hj).1, (hvar k hk').1, (hvar j hj).2, (hvar k hk').2]
      rfl
    rw [hentries j hj k hk, hr.hessian i hi j hj k hk, hhess]
    refine (nativeHess_congr (c.chainGradient i) hdf' hread).trans ?_
    refine (nativeHess_eq (fun x => c.native.functionGradients x i) harg (hargx j hj)
      (hargx k hk') (hchain j hj) (hchain k hk')).trans ?_
    rw [(hvar j hj).1, (hvar j hj).2]
    rfl
  choose! grads hgrads hgradEntries using hgrad
  choose! hessians hhessians hhessEntries using hhess
  obtain ⟨r', hr', -, hentries⟩ := mapResponse_spec c.unscaled
    (fun i => c.m.nativeVal true i (r.functionValues i)) hgrads hhessians
  refine ⟨r', ?_, ?_, ?_, ?_⟩
  · unfold responseModifyS2n
    rw [hset]
    exact hr'
  · intro i hi
    rw [hentries.value i hi, hr.value i hi]
    exact nativeVal_n2s (arg_fn (.inl rfl) hi)
  · intro i hi j hj
    rw [hentries.gradient i hi j hj]
    exact hgradEntries i hi j hj
  · intro i hi j hj k hk
    rw [hentries.hessian i hi j hj k hk]
    exact hhessEntries i hi j hj k hk

/-- A round trip that restores the Hessians needs functions without a first order term in a
logarithmic variable, or a rate of 1 or -1. -/
theorem RoundTrips.flatOrUnitRate (h : c.RoundTrips) : c.FlatOrUnitRate := by
  obtain ⟨r, hr, hchain, r', hr', hnative⟩ := h
  have hfirst := firstRows_of_n2s hr
  obtain ⟨q, hq, hset, -⟩ := n2s_spec hfirst
  obtain rfl : r = q := by
    rw [hr] at hq
    injection hq
  obtain ⟨q', hq', hentries⟩ := s2n_spec hfirst hset hchain
  obtain rfl : r' = q' := by
    rw [hr'] at hq'
    injection hq'
  intro i hi j hj hlog
  have hrows := firstRows_of_mem hfirst (.inr rfl) hi
  have hx := (arg_var hrows hj).sub_ne hlog
  have hdiag := hentries.hessian i hi j hj j le_rfl
  rw [hnative.hessian i hi j hj j le_rfl, unscaledHessian, if_pos ⟨rfl, hlog⟩, eq_comm,
    add_eq_left, div_eq_zero_iff] at hdiag
  rcases mul_eq_zero.mp (hdiag.resolve_right hx) with hg | hrate
  · exact .inl hg
  · exact .inr (sub_eq_zero.mp hrate).symm

/-- **Scaling and unscaling a response.** The scaled response follows the chain rule and unscaling
it restores the native one if and only if the derivative variables are the first ones (where
derivatives are requested), and no function with a Hessian has a first order term in a logarithmic
variable, unless the rate of that variable is 1 or -1. -/
theorem roundTrips_iff (c : ScaledCall K) :
    c.RoundTrips ↔ (c.AsksDerivs → c.FirstRows) ∧ c.FlatOrUnitRate := by
  constructor
  · intro h
    refine ⟨?_, h.flatOrUnitRate⟩
    obtain ⟨r, hr, -⟩ := h
    exact firstRows_of_n2s hr
  · rintro ⟨hfirst, hflat⟩
    obtain ⟨r, hr, hset, hchain⟩ := n2s_spec hfirst
    obtain ⟨r', hr', hentries⟩ := s2n_spec hfirst hset hchain
    refine ⟨r, hr, hchain, r', hr', hentries.value, hentries.gradient, ?_⟩
    intro i hi j hj k hk
    rw [hentries.hessian i hi j hj k hk, unscaledHessian, add_eq_left]
    split
    · next hdiag =>
      rcases hflat i hi j hj hdiag.2 with hg | hrate
      · rw [hg, zero_mul, zero_div]
      · rw [hrate, sub_self, mul_zero, zero_div]
    · rfl

end ScaledCall

/-! ## A logarithmic variable -/

/-- The logarithm of one variable, and no other scaling. -/
def logVariable (K : Type) [Field K] (b : LogBase K) : ScalingModel K where
  base := b
  cvScales := [{ Scale.none with log := true }]
  responseScales := [.none]

/-- A response of one function whose derivative is 1, and that asks for its Hessian. -/
def identityResponse (K : Type) [Field K] : Response K where
  activeSet := ⟨[6], [1]⟩
  functionValues _ := 1
  numGradients := 1
  functionGradients _ _ := 1
  numHessians := 1
  functionHessians _ _ _ := 0
  metaData := []

/-- The function `x` of a logarithmic variable `x` at `x = 1`. -/
noncomputable def identityCall : ScaledCall ℝ where
  m := logVariable ℝ .real
  vars := {
    allIds := [1]
    allVars := [1]
    cvStart := 0
    numCv := 1
    icvStart := 1
    numIcv := 0
    allIds_nodup := by decide
    length_allVars := rfl
    cv_le := by decide
    disjoint := by decide }
  recastSet := ⟨[4], [1]⟩
  native := identityResponse ℝ
  recast := identityResponse ℝ
  unscaled := identityResponse ℝ
  startOffset := 0
  numResponses := 1
  set_eq := rfl
  recast_set := rfl
  sublist := List.Sublist.refl _
  length_cvScales := rfl
  arg_cv := by
    intro x cdv hx _
    obtain ⟨rfl, rfl⟩ : x = 0 ∧ cdv = 1 := by
      match x, hx with
      | 0, hx => exact ⟨rfl, (Option.some.inj hx).symm⟩
    simp [logVariable, cvScale, Scale.none, LogBase.real]
  arg_response := by
    intro i hask hlog
    exfalso
    match i, hlog with
    | 0, hlog => cases hlog
    | _ + 1, hlog => cases hlog

/-- Its Hessian is not restored. -/
theorem identityCall_not_roundTrips : ¬ identityCall.RoundTrips := by
  intro h
  have hlog : 1 < Real.log 10 := by
    rw [Real.lt_log_iff_exp_lt (by norm_num)]
    exact Real.exp_one_lt_d9.trans (by norm_num)
  have hflat := h.flatOrUnitRate 0 (by decide) 0 (by decide) rfl
  rcases hflat with hg | hrate
  · exact one_ne_zero hg
  · have hval : (identityCall.varScale 0).rate identityCall.m.base (identityCall.varValue 0) =
        (1 - 0) * Real.log 10 := rfl
    rw [hval, sub_zero, one_mul] at hrate
    nlinarith

end Dakota.ScalingModel
