import Dakota.Variables.Counts

/-!
# Views

The slices that `view_start_counts` gives to the views, for the relaxed and for the mixed views.

* `viewsPartition_iff`: the slices of the four groups cover the arrays. With relaxed views this
  includes the view of all variables only if no variable after the design group is relaxed, since
  that case counts the bits of the design group alone.
-/

namespace Dakota

/-- The two families of views. -/
inductive ViewFamily where
  | relaxed
  | mixed
deriving DecidableEq, Repr

def ViewFamily.view : ViewFamily → ViewSubset → View
  | .relaxed => .relaxed
  | .mixed => .mixed

namespace SharedVariablesData

/-- The views of a family partition the arrays of sizes `total`, and have the counts of their
groups. -/
structure ViewsPartition (svd : SharedVariablesData) (family : ViewFamily)
    (view : ViewSubset → StartCounts) (total : Counts) : Prop where
  view_eq : ∀ s, svd.viewStartCounts (family.view s) = some (view s)
  total_eq : svd.allCounts = some total
  design_start : ∀ d, (view .design).start d = 0
  aleatory_start : ∀ d, (view .aleatoryUncertain).start d = (view .design).num d
  epistemic_start : ∀ d, (view .epistemicUncertain).start d =
    (view .aleatoryUncertain).start d + (view .aleatoryUncertain).num d
  state_start : ∀ d, (view .state).start d =
    (view .epistemicUncertain).start d + (view .epistemicUncertain).num d
  state_end : ∀ d, (view .state).start d + (view .state).num d = total d
  uncertain_start : ∀ d, (view .uncertain).start d = (view .aleatoryUncertain).start d
  uncertain_num : ∀ d, (view .uncertain).num d =
    (view .aleatoryUncertain).num d + (view .epistemicUncertain).num d
  all_start : ∀ d, (view .all).start d = 0
  all_num : ∀ d, (view .all).num d = total d
  designCounts_eq : svd.designCounts = some (view .design).num
  aleatoryUncertainCounts_eq : svd.aleatoryUncertainCounts = some (view .aleatoryUncertain).num
  epistemicUncertainCounts_eq : svd.epistemicUncertainCounts = some (view .epistemicUncertain).num
  uncertainCounts_eq : svd.uncertainCounts = some (view .uncertain).num
  stateCounts_eq : svd.stateCounts = some (view .state).num
  relaxCounts_eq : svd.relaxCounts (svd.variablesCompsTotals .design) 0 0 =
      some (view .design).num ∧
    svd.relaxCounts (svd.variablesCompsTotals .aleatoryUncertain)
      (svd.sumTotals [.design] .div) (svd.sumTotals [.design] .drv) =
        some (view .aleatoryUncertain).num ∧
    svd.relaxCounts (svd.variablesCompsTotals .epistemicUncertain)
      (svd.sumTotals [.design, .aleatoryUncertain] .div)
      (svd.sumTotals [.design, .aleatoryUncertain] .drv) = some (view .epistemicUncertain).num ∧
    svd.relaxCounts (svd.variablesCompsTotals .state)
      (svd.sumTotals [.design, .aleatoryUncertain, .epistemicUncertain] .div)
      (svd.sumTotals [.design, .aleatoryUncertain, .epistemicUncertain] .drv) =
        some (view .state).num

/-- The relaxed bits that a family can have: those of design variables, or none. -/
def RelaxedWithin (svd : SharedVariablesData) : ViewFamily → Prop
  | .relaxed =>
    (∀ i, svd.variablesCompsTotals .design .div ≤ i →
      svd.allRelaxedDiscreteInt.getD i false = false) ∧
    ∀ i, svd.variablesCompsTotals .design .drv ≤ i →
      svd.allRelaxedDiscreteReal.getD i false = false
  | .mixed =>
    (∀ i, svd.allRelaxedDiscreteInt.getD i false = false) ∧
    ∀ i, svd.allRelaxedDiscreteReal.getD i false = false

/-- The groups that a view selects, and the groups before them. -/
def ownGroups : ViewSubset → List VarGroup
  | .all => allGroups
  | .design => [.design]
  | .uncertain => [.aleatoryUncertain, .epistemicUncertain]
  | .aleatoryUncertain => [.aleatoryUncertain]
  | .epistemicUncertain => [.epistemicUncertain]
  | .state => [.state]

def skipGroups : ViewSubset → List VarGroup
  | .all => []
  | .design => []
  | .uncertain => [.design]
  | .aleatoryUncertain => [.design]
  | .epistemicUncertain => [.design, .aleatoryUncertain]
  | .state => [.design, .aleatoryUncertain, .epistemicUncertain]

variable (svd : SharedVariablesData)

/-- The slice of a view. -/
def viewSlice (s : ViewSubset) : StartCounts where
  start d := (svd.slotsAfter [] (skipGroups s)).count d
  num d := (svd.slotsAfter (skipGroups s) (ownGroups s)).count d

variable {svd}

theorem viewStartCounts_relaxed {s : ViewSubset} (hs : s ≠ .all) :
    svd.viewStartCounts (.relaxed s) = some (svd.viewSlice s) := by
  cases s with
  | all => exact absurd rfl hs
  | _ => exact relaxedStartCounts_eq _ _

theorem mixedStartCounts_eq (h : svd.anyRelaxed = false) (skip own : List VarGroup) :
    svd.mixedStartCounts skip own = some
      { start := fun d => (svd.slotsAfter [] skip).count d
        num := fun d => (svd.slotsAfter skip own).count d } := by
  rw [mixedStartCounts, slotsAfter, slotsAfter, count_of_not_relaxed h, count_of_not_relaxed h]

theorem viewStartCounts_mixed (h : svd.anyRelaxed = false) (s : ViewSubset) :
    svd.viewStartCounts (.mixed s) = some (svd.viewSlice s) := by
  cases s <;> exact mixedStartCounts_eq h _ _

theorem slotsAfter_append (skip own own' : List VarGroup) :
    svd.slotsAfter skip (own ++ own') = svd.slotsAfter skip own ++
      svd.slotsAfter (skip ++ own) own' := by
  rw [slotsAfter, slotsFrom_append, slotsAfter, slotsAfter]
  simp [sumTotals]

/-- The loops of the view of all variables, which end with the design variables, see all the set
bits. -/
theorem relaxedAllStartCounts_eq (h : svd.RelaxedWithin .relaxed) :
    svd.relaxedAllStartCounts = some (svd.viewSlice .all) := by
  have hall {bits : List Bool} {m : Nat} (n : Nat) (hb : ∀ i, m ≤ i → bits.getD i false = false) :
      countRelaxed bits 0 m = countRelaxed bits 0 (m + n) := by
    have hzero : countRelaxed bits (0 + m) n = 0 :=
      countRelaxed_eq_zero.mpr fun i _ => hb _ (by omega)
    rw [countRelaxed_add, hzero, Nat.add_zero]
  have hi := hall (svd.sumTotals [.aleatoryUncertain, .epistemicUncertain, .state] .div) h.1
  have hr := hall (svd.sumTotals [.aleatoryUncertain, .epistemicUncertain, .state] .drv) h.2
  simp only [relaxedAllStartCounts, hi, hr]
  rw [show svd.variablesCompsTotals .design .div +
      svd.sumTotals [.aleatoryUncertain, .epistemicUncertain, .state] .div =
        svd.sumTotals allGroups .div from rfl,
    show svd.variablesCompsTotals .design .drv +
      svd.sumTotals [.aleatoryUncertain, .epistemicUncertain, .state] .drv =
        svd.sumTotals allGroups .drv from rfl,
    sizeSub_of_le countRelaxed_le, sizeSub_of_le countRelaxed_le]
  simp only [Option.bind_eq_bind, Option.bind_some]
  refine congrArg some (congr (congrArg _ ?_) ?_) <;> funext d
  · cases d <;> rfl
  · change _ = (svd.slotsFrom 0 0 allGroups).count d
    rw [count_slotsFrom]
    cases d <;> simp [counts, Nat.add_assoc]

/-- The slices of the groups follow each other. -/
theorem viewsPartition_viewSlice {family : ViewFamily}
    (h : ∀ s, svd.viewStartCounts (family.view s) = some (svd.viewSlice s)) :
    svd.ViewsPartition family svd.viewSlice fun d => svd.slots.count d where
  view_eq := h
  total_eq := allCounts_eq
  design_start _ := rfl
  aleatory_start _ := rfl
  epistemic_start d := by
    change (svd.slotsAfter [] ([.design] ++ [.aleatoryUncertain])).count d = _
    rw [slotsAfter_append, List.count_append]
    rfl
  state_start d := by
    change (svd.slotsAfter [] ([.design, .aleatoryUncertain] ++ [.epistemicUncertain])).count d = _
    rw [slotsAfter_append, List.count_append]
    rfl
  state_end d := by
    change _ = (svd.slotsAfter [] ([.design, .aleatoryUncertain, .epistemicUncertain] ++
      [.state])).count d
    rw [slotsAfter_append, List.count_append]
    rfl
  uncertain_start _ := rfl
  uncertain_num d := by
    change (svd.slotsAfter [.design] ([.aleatoryUncertain] ++ [.epistemicUncertain])).count d = _
    rw [slotsAfter_append, List.count_append]
    rfl
  all_start _ := rfl
  all_num _ := rfl
  designCounts_eq := countsAfter_eq _ _
  aleatoryUncertainCounts_eq := countsAfter_eq _ _
  epistemicUncertainCounts_eq := countsAfter_eq _ _
  uncertainCounts_eq := countsAfter_eq _ _
  stateCounts_eq := countsAfter_eq _ _
  relaxCounts_eq := ⟨relaxCounts_eq _ _ [.design], relaxCounts_eq _ _ [.aleatoryUncertain],
    relaxCounts_eq _ _ [.epistemicUncertain], relaxCounts_eq _ _ [.state]⟩

/-- All the continuous variables, from the totals and the bits. -/
theorem count_slots_cv : svd.slots.count .cv = svd.sumTotals allGroups .cv +
    (countRelaxed svd.allRelaxedDiscreteInt 0 (svd.sumTotals allGroups .div) +
      countRelaxed svd.allRelaxedDiscreteReal 0 (svd.sumTotals allGroups .drv)) :=
  count_slotsFrom 0 0 allGroups .cv

/-- No bit is set where a loop counts none and the array has no more bits. -/
theorem getD_eq_false {bits : List Bool} {m n : Nat} (hlen : bits = [] ∨ bits.length = m + n)
    (hzero : countRelaxed bits m n = 0) {i : Nat} (hi : m ≤ i) : bits.getD i false = false := by
  rcases Nat.lt_or_ge i (m + n) with hlt | hge
  · have := countRelaxed_eq_zero.mp hzero (i - m) (by omega)
    rwa [Nat.add_sub_cancel' hi] at this
  · refine List.getD_eq_default _ _ ?_
    rcases hlen with rfl | hlen
    · exact Nat.zero_le i
    · omega

theorem relaxedAll_num_cv {view : StartCounts} (h : svd.relaxedAllStartCounts = some view) :
    view.num .cv = svd.sumTotals allGroups .cv +
      countRelaxed svd.allRelaxedDiscreteInt 0 (svd.variablesCompsTotals .design .div) +
      countRelaxed svd.allRelaxedDiscreteReal 0 (svd.variablesCompsTotals .design .drv) := by
  simp only [relaxedAllStartCounts, Option.bind_eq_bind, Option.bind_eq_some_iff] at h
  obtain ⟨_, -, _, -, h⟩ := h
  cases h
  rfl

/-- The view of all variables has all the continuous ones only if no variable after the design group
is relaxed. -/
theorem relaxedWithin_of_relaxedAll {view : StartCounts} (h : svd.relaxedAllStartCounts = some view)
    (hcv : view.num .cv = svd.slots.count .cv) : svd.RelaxedWithin .relaxed := by
  have hint := svd.int_length
  have hreal := svd.real_length
  -- The bits after those of the design variables are the ones that its loops leave out.
  rw [count_slots_cv, relaxedAll_num_cv h] at hcv
  have hsplit (d : VarDomain) : svd.sumTotals allGroups d = svd.variablesCompsTotals .design d +
    svd.sumTotals [.aleatoryUncertain, .epistemicUncertain, .state] d := rfl
  rw [hsplit .div, hsplit .drv, countRelaxed_add, countRelaxed_add, Nat.zero_add,
    Nat.zero_add] at hcv
  refine ⟨fun i => getD_eq_false (hint.imp_right fun hl => hl.trans ?_)
    (n := svd.sumTotals [.aleatoryUncertain, .epistemicUncertain, .state] .div) (by omega),
    fun i => getD_eq_false (hreal.imp_right fun hl => hl.trans ?_)
      (n := svd.sumTotals [.aleatoryUncertain, .epistemicUncertain, .state] .drv) (by omega)⟩
  · simp
    omega
  · simp
    omega

theorem relaxedWithin_of_partition {family : ViewFamily} {view : ViewSubset → StartCounts}
    {total : Counts} (h : svd.ViewsPartition family view total) : svd.RelaxedWithin family := by
  have htotal : total = fun d => svd.slots.count d :=
    Option.some.inj (h.total_eq.symm.trans allCounts_eq)
  subst htotal
  have hall := h.view_eq .all
  cases family with
  | mixed =>
    have hcv := (h.all_num .cv).trans count_slots_cv
    have hint := svd.int_length
    have hreal := svd.real_length
    rw [← (Option.some.inj hall : StartCounts.mk (svd.sumTotals []) (svd.sumTotals allGroups) = _)]
      at hcv
    change svd.sumTotals allGroups .cv = _ at hcv
    refine ⟨fun i => getD_eq_false (m := 0) (n := svd.sumTotals allGroups .div)
      (hint.imp_right fun hl => hl.trans ?_) (by omega) (Nat.zero_le i),
      fun i => getD_eq_false (m := 0) (n := svd.sumTotals allGroups .drv)
        (hreal.imp_right fun hl => hl.trans ?_) (by omega) (Nat.zero_le i)⟩
    · simp [allGroups]
      omega
    · simp [allGroups]
      omega
  | relaxed => exact relaxedWithin_of_relaxedAll hall (h.all_num .cv)

/-- **The views of a family** partition the arrays if and only if the relaxed variables are design
variables, or the views are mixed and no variable is relaxed. -/
theorem viewsPartition_iff (svd : SharedVariablesData) (family : ViewFamily) :
    (∃ view total, svd.ViewsPartition family view total) ↔ svd.RelaxedWithin family := by
  constructor
  · rintro ⟨view, total, h⟩
    exact relaxedWithin_of_partition h
  · intro h
    refine ⟨_, _, viewsPartition_viewSlice fun s => ?_⟩
    cases family with
    | mixed => exact viewStartCounts_mixed (anyRelaxed_eq_false.mpr h) s
    | relaxed =>
      by_cases hs : s = .all
      · subst hs
        exact relaxedAllStartCounts_eq h
      · exact viewStartCounts_relaxed hs

/-- One discrete int variable, of the aleatory uncertain group, that is relaxed. -/
def oneRelaxed : SharedVariablesData where
  variablesCompsTotals g d := if g = .aleatoryUncertain ∧ d = .div then 1 else 0
  allRelaxedDiscreteInt := [true]
  allRelaxedDiscreteReal := []
  int_length := by decide
  real_length := by decide

/-- The view of all variables has no variable, and the array of continuous variables has one. -/
theorem oneRelaxed_not_partition : ¬ ∃ view total, oneRelaxed.ViewsPartition .relaxed view total := by
  rintro ⟨view, total, h⟩
  have hall := congrArg (Option.map fun v => v.num .cv) (h.view_eq .all)
  have htotal := congrArg (Option.map fun n => n .cv) h.total_eq
  have hnum := h.all_num .cv
  rw [show Option.map (fun v => v.num .cv) (oneRelaxed.viewStartCounts (ViewFamily.view .relaxed .all))
    = some 0 by decide] at hall
  rw [show Option.map (fun n => n .cv) oneRelaxed.allCounts = some 1 by decide] at htotal
  simp only [Option.map_some, Option.some.injEq] at hall htotal
  omega

end SharedVariablesData

end Dakota
