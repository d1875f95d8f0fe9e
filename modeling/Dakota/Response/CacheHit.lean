import Dakota.Response.Update

/-!
# Data from a cache hit

What `Response::update` delivers to a search set that `set_compare` accepts: the requested data, if
the derivative variables of the search set are the first ones of the stored set, in the same order
(`Response.Has.updated`). The copy is by position, and `set_compare` accepts others as well
(`update_delivers_iff`).
-/

namespace Dakota

open ActiveSet

namespace Response

variable {K : Type} [Zero K] {target source r : Response K} {d : FunctionData K}

@[simp] theorem activeSet_updated : (target.updated source).activeSet = target.activeSet := by
  simp only [updated]
  split <;> rfl

@[simp] theorem numGradients_updated :
    (target.updated source).numGradients = target.numGradients := by
  simp only [updated]
  split <;> rfl

@[simp] theorem numHessians_updated : (target.updated source).numHessians = target.numHessians := by
  simp only [updated]
  split <;> rfl

theorem Shaped.updated (h : target.Shaped) : (target.updated source).Shaped where
  gradients := by simpa using h.gradients
  hessians := by simpa using h.hessians

theorem functionValues_updated {i : Nat} (h : target.activeSet.asks i 1) :
    (target.updated source).functionValues i = source.functionValues i := by
  simp only [Response.updated]
  split <;> simp [resetInactive, copyActive, h]

theorem functionGradients_updated {i j : Nat} (h : target.activeSet.asks i 2)
    (hj : j < target.activeSet.numParams) :
    (target.updated source).functionGradients j i = source.functionGradients j i := by
  simp only [Response.updated]
  split <;> simp [resetInactive, copyActive, h, hj]

theorem functionHessians_updated {i j k : Nat} (h : target.activeSet.asks i 4)
    (hj : j < target.activeSet.numParams) (hk : k ≤ j) :
    (target.updated source).functionHessians i j k = source.functionHessians i j k := by
  simp only [Response.updated]
  split <;> simp [resetInactive, copyActive, h, hj, hk]

theorem eq_updated (h : target.update source = .ok r) : r = target.updated source := by
  simp only [update] at h
  split_ifs at h
  cases h
  rfl

/-- `update` demands at least as many derivative variables as it copies. -/
theorem numParams_le (h : target.update source = .ok r) (hd : target.activeSet.flag 6) :
    target.activeSet.numParams ≤ source.activeSet.numParams := by
  simp only [update] at h
  split_ifs at h with _ hlt
  rw [Bool.and_eq_true, Bool.or_eq_true, decide_eq_true_eq] at hlt
  exact not_lt.mp fun hlt' => hlt ⟨flag_derivs.mp hd, hlt'⟩

/-- With an accepted set and as many derivative variables, the data are of sufficient size. -/
theorem update_eq_ok (hcmp : setCompare source.activeSet target.activeSet) (hs : source.Shaped)
    (hlen : target.activeSet.flag 6 → target.activeSet.numParams ≤ source.activeSet.numParams) :
    target.update source = .ok (target.updated source) := by
  have hfns := setCompare.numFns_eq hcmp
  have hflag {bits : Nat} (h : target.activeSet.flag bits) : source.activeSet.flag bits := by
    obtain ⟨i, hi⟩ := flag_iff.mp h
    exact flag_iff.mpr ⟨i, setCompare.asks hcmp hi⟩
  simp only [update, hfns]
  rw [if_neg (lt_irrefl _), if_neg, if_neg, if_neg]
  · simp only [Bool.and_eq_true, decide_eq_true_eq, not_and, not_lt]
    exact fun h => (hfns.symm.trans (hs.hessians (hflag h)).symm).le
  · simp only [Bool.and_eq_true, decide_eq_true_eq, not_and, not_lt]
    exact fun h => (hfns.symm.trans (hs.gradients (hflag h)).symm).le
  · simp only [Bool.and_eq_true, Bool.or_eq_true, decide_eq_true_eq, not_and, not_lt]
    exact fun h => hlen (flag_derivs.mpr h)

/-- The requested data arrive, if the derivative variables start the stored ones. -/
theorem Has.updated (h : source.Has d) (hcmp : setCompare source.activeSet target.activeSet)
    (hpre : target.activeSet.flag 6 →
      target.activeSet.derivVarsVector <+: source.activeSet.derivVarsVector) :
    (target.updated source).Has d := by
  have hget {i bits j a : Nat} (hb : bits = 2 ∨ bits = 4) (hi : target.activeSet.asks i bits)
      (ha : target.activeSet.derivVarsVector[j]? = some a) :
      j < target.activeSet.numParams ∧ source.activeSet.derivVarsVector[j]? = some a := by
    have hflag : target.activeSet.flag 6 := by
      rw [flag_derivs, flag_iff, flag_iff]
      rcases hb with rfl | rfl
      exacts [.inl ⟨i, hi⟩, .inr ⟨i, hi⟩]
    obtain ⟨hj, rfl⟩ := List.getElem?_eq_some_iff.mp ha
    exact ⟨hj, List.prefix_iff_getElem?.mp (hpre hflag) j hj⟩
  refine ⟨fun {i} hi => ?_, fun {i j a} hi ha => ?_, fun {i j k a b} hi ha hb hk => ?_⟩
  · rw [activeSet_updated] at hi
    rw [functionValues_updated hi]
    exact h.value (setCompare.asks hcmp hi)
  · rw [activeSet_updated] at hi ha
    obtain ⟨hj, ha'⟩ := hget (.inl rfl) hi ha
    rw [functionGradients_updated hi hj]
    exact h.gradient (setCompare.asks hcmp hi) ha'
  · rw [activeSet_updated] at hi ha hb
    obtain ⟨hj, ha'⟩ := hget (.inr rfl) hi ha
    rw [functionHessians_updated hi hj hk]
    exact h.hessian (setCompare.asks hcmp hi) ha' (hget (.inr rfl) hi hb).2 hk

theorem inactiveZero_resetInactive : r.resetInactive.InactiveZero where
  value i hi h := by simp_all [resetInactive]
  gradient i hi h j := by simp_all [resetInactive]
  hessian i hi h j k := by simp_all [resetInactive]

theorem inactiveZero_copyActive : (target.copyActive source).InactiveZero ↔ target.InactiveZero := by
  refine ⟨fun ⟨hv, hg, hh⟩ => ⟨fun i hi hb => ?_, fun i hi hb j => ?_, fun i hi hb j k => ?_⟩,
    fun ⟨hv, hg, hh⟩ => ⟨fun i hi hb => ?_, fun i hi hb j => ?_, fun i hi hb j k => ?_⟩⟩
  · simpa [copyActive, hb] using hv i hi hb
  · simpa [copyActive, hb] using hg i hi hb j
  · simpa [copyActive, hb] using hh i hi hb j k
  all_goals change target.activeSet.asks i _ = false at hb
  · simpa [copyActive, hb] using hv i hi hb
  · simpa [copyActive, hb] using hg i hi hb j
  · simpa [copyActive, hb] using hh i hi hb j k

/-- The inactive entries are reset if the sets differ, and kept otherwise. -/
theorem inactiveZero_updated : (target.updated source).InactiveZero ↔
    source.activeSet ≠ target.activeSet ∨ target.InactiveZero := by
  by_cases he : target.activeSet = source.activeSet
  · rw [Response.updated, if_neg (not_not.mpr he), inactiveZero_copyActive,
      or_iff_right (not_not.mpr he.symm)]
  · rw [Response.updated, if_pos he]
    exact iff_of_true inactiveZero_resetInactive (.inl fun h => he h.symm)

end Response

/-! ## All stored data -/

/-- The search set whose requests `target` has gets what it asks for, whatever the stored data. -/
def Delivers {K : Type} [Zero K] (stored : ActiveSet) (target : Response K) : Prop :=
  ∀ (d : FunctionData K) (source : Response K), source.activeSet = stored → source.Shaped →
    source.Has d →
    ∃ r, target.update source = .ok r ∧ r.activeSet = target.activeSet ∧ r.Has d ∧ r.InactiveZero

/-- **Cache hits.** An accepted search set gets the requested data, and zeros elsewhere, if and only
if its derivative variables (when it asks for derivatives) start the stored ones in the same order,
and the response has no inactive data left over when the sets are the same. -/
theorem update_delivers_iff {K : Type} [Zero K] [Nontrivial K] {stored : ActiveSet}
    {target : Response K} (hcmp : setCompare stored target.activeSet) :
    Delivers stored target ↔
      (target.activeSet.flag 6 →
        target.activeSet.derivVarsVector <+: stored.derivVarsVector) ∧
      (stored ≠ target.activeSet ∨ target.InactiveZero) := by
  constructor
  · intro h
    refine ⟨fun hd => ?_, ?_⟩
    · rw [List.prefix_iff_getElem?]
      intro j hj
      set a := target.activeSet.derivVarsVector[j] with ha
      have hja : target.activeSet.derivVarsVector[j]? = some a := List.getElem?_eq_getElem hj
      obtain ⟨c, hc⟩ := exists_ne (0 : K)
      obtain ⟨r, hok, hset, hhas, -⟩ := h (.single a c) (.ofData stored (.single a c)) rfl
        (Response.shaped_ofData ..) (Response.has_ofData ..)
      have hlen := hj.trans_le (Response.numParams_le hok hd)
      obtain rfl := Response.eq_updated hok
      obtain ⟨b, hb⟩ : ∃ b, stored.derivVarsVector[j]? = some b :=
        ⟨_, List.getElem?_eq_getElem hlen⟩
      -- Position `j` of the stored data is for the variable `b`.
      have hba : (if b = a then c else 0) = c := by
        rcases flag_derivs.mp hd with hf | hf
        · obtain ⟨i, hi⟩ := flag_iff.mp hf
          have h₁ := hhas.gradient (hset ▸ hi) (hset ▸ hja)
          have h₂ := (Response.has_ofData stored (.single a c)).gradient
            (setCompare.asks hcmp hi) hb
          rw [Response.functionGradients_updated hi hj, h₂] at h₁
          simpa [FunctionData.single] using h₁
        · obtain ⟨i, hi⟩ := flag_iff.mp hf
          have h₁ := hhas.hessian (hset ▸ hi) (hset ▸ hja) (hset ▸ hja) le_rfl
          have h₂ := (Response.has_ofData stored (.single a c)).hessian
            (setCompare.asks hcmp hi) hb hb le_rfl
          rw [Response.functionHessians_updated hi hj le_rfl, h₂] at h₁
          simpa [FunctionData.single] using h₁
      rw [hb]
      by_contra hne
      rw [if_neg fun he => hne (congrArg some he)] at hba
      exact hc hba.symm
    · obtain ⟨r, hok, -, -, hz⟩ := h (.single 0 0) (.ofData stored (.single 0 0)) rfl
        (Response.shaped_ofData ..) (Response.has_ofData ..)
      obtain rfl := Response.eq_updated hok
      exact Response.inactiveZero_updated.mp hz
  · rintro ⟨hpre, hz⟩ d source rfl hs hhas
    exact ⟨_, Response.update_eq_ok hcmp hs fun hd => (hpre hd).length_le,
      Response.activeSet_updated, hhas.updated hcmp hpre, Response.inactiveZero_updated.mpr hz⟩

/-- A gradient with respect to the first of two stored variables. -/
theorem update_delivers_first :
    Delivers ⟨[3], [1, 2]⟩ (.ofData ⟨[2], [1]⟩ (.single 1 (0 : ℚ))) :=
  (update_delivers_iff (by decide)).mpr ⟨fun _ => ⟨[2], rfl⟩, .inl (by decide)⟩

/-- A gradient with respect to the second of two stored variables: the copy has the first one. -/
theorem update_not_delivers_second :
    let d : FunctionData ℚ := .single 2 1
    let target : Response ℚ := .ofData ⟨[2], [2]⟩ (.single 2 0)
    let source : Response ℚ := .ofData ⟨[2], [1, 2]⟩ d
    setCompare source.activeSet target.activeSet ∧ source.Shaped ∧ source.Has d ∧
      ¬ ∃ r, target.update source = .ok r ∧ r.Has d := by
  refine ⟨by decide, Response.shaped_ofData .., Response.has_ofData .., ?_⟩
  rintro ⟨r, hok, hhas⟩
  obtain rfl := Response.eq_updated hok
  have h : (0 : ℚ) = 1 := hhas.gradient (i := 0) (j := 0) (a := 2) rfl rfl
  exact absurd h (by decide)

end Dakota
