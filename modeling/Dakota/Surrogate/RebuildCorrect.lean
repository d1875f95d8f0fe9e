import Dakota.Surrogate.Rebuild

/-!
# What the rebuild check detects

* `Matches`: the references are those of the top-level model `built`, and the discrete string
  variables that are not recorded have not changed since.
* `checkRebuild_iff`: then the check says whether anything has changed.
* `matches_build`: a build establishes it if the truth model has the inactive values of the top-level
  model, which `update_model` does not give to a truth model in the same view.
-/

namespace Dakota.Surrogate.Config

variable {R : Type} {total : Counts} {cfg : Config}

/-! ## Views -/

theorem not_distinct_of_all {v : View} (h : v.isAll = true) : v.isDistinct = false := by
  cases v with
  | emptyView => rfl
  | relaxed s => simp [View.isDistinct, h]
  | mixed s => simp [View.isDistinct, h]

theorem all_and_distinct (v : View) : (v.isAll && v.isDistinct) = false := by
  cases h : v.isAll with
  | true => rw [not_distinct_of_all h, Bool.and_false]
  | false => rfl

theorem ne_of_distinct_of_all {v v' : View} (h : v.isDistinct = true) (h' : v'.isAll = true) :
    v ≠ v' := by
  rintro rfl
  rw [not_distinct_of_all h'] at h
  cases h

theorem not_all_of_distinct {v : View} (h : v.isDistinct = true) : v.isAll = false := by
  cases hall : v.isAll with
  | true =>
    rw [not_distinct_of_all hall] at h
    cases h
  | false => rfl

theorem start_of_isAll {v : View} (h : v.isAll = true) (d : VarDomain) :
    (cfg.startCounts v).start d = 0 := by
  have hstart : ∀ sc, cfg.svd.viewStartCounts v = some sc → sc.start d = 0 := by
    intro sc hsc
    cases v with
    | emptyView => cases h
    | relaxed s =>
      cases s with
      | all =>
        change cfg.svd.relaxedAllStartCounts = some sc at hsc
        simp only [SharedVariablesData.relaxedAllStartCounts, Option.bind_eq_bind,
          Option.bind_eq_some_iff] at hsc
        obtain ⟨_, -, _, -, hsc⟩ := hsc
        cases hsc
        rfl
      | _ => cases h
    | mixed s =>
      cases s with
      | all => cases hsc; rfl
      | _ => cases h
  unfold startCounts
  cases hsc : cfg.svd.viewStartCounts v with
  | none => rfl
  | some sc => exact hstart sc hsc

theorem startCounts_emptyView (d : VarDomain) : (cfg.startCounts .emptyView).num d = 0 := rfl

/-- The slice of a group starts within the arrays. -/
theorem viewSlice_start_le (svd : SharedVariablesData) (s : ViewSubset) (d : VarDomain) :
    (svd.viewSlice s).start d ≤ svd.slots.count d := by
  have happend (skip rest : List VarGroup)
      (h : SharedVariablesData.allGroups = skip ++ rest) :
      (svd.slotsAfter [] skip).count d ≤ svd.slots.count d := by
    rw [SharedVariablesData.slots, h, SharedVariablesData.slotsAfter_append, List.count_append]
    exact Nat.le_add_right _ _
  cases s with
  | all => exact Nat.zero_le _
  | design => exact Nat.zero_le _
  | uncertain => exact happend [.design] _ rfl
  | aleatoryUncertain => exact happend [.design] _ rfl
  | epistemicUncertain => exact happend [.design, .aleatoryUncertain] _ rfl
  | state => exact happend [.design, .aleatoryUncertain, .epistemicUncertain] _ rfl

theorem start_le {v : View} (htotal : cfg.svd.allCounts = some total)
    (hmixed : ∀ s, v = .mixed s → cfg.svd.anyRelaxed = false) (d : VarDomain) :
    (cfg.startCounts v).start d ≤ total d := by
  have htotal' : total = fun d => cfg.svd.slots.count d :=
    Option.some.inj (htotal.symm.trans SharedVariablesData.allCounts_eq)
  cases v with
  | emptyView => exact Nat.zero_le _
  | relaxed s =>
    by_cases hs : s = .all
    · rw [start_of_isAll (by rw [hs]; rfl)]
      exact Nat.zero_le _
    · rw [startCounts, SharedVariablesData.viewStartCounts_relaxed hs, htotal']
      exact viewSlice_start_le _ _ _
  | mixed s =>
    rw [startCounts, SharedVariablesData.viewStartCounts_mixed (hmixed s rfl), htotal']
    exact viewSlice_start_le _ _ _

theorem inView_emptyView {α : Type} (d : VarDomain) (vec : List α) :
    cfg.inView .emptyView d vec = [] := slice_zero_num

/-- A view of everything. -/
theorem inView_of_isAll {α : Type} {v : View} (h : v.isAll = true)
    (hnum : (cfg.startCounts v).num = total) {d : VarDomain} {vec : List α}
    (hlen : vec.length = total d) : cfg.inView v d vec = vec := by
  rw [inView, start_of_isAll h, hnum]
  exact slice_all hlen

theorem differIn_iff {α : Type} {v : View} {d : VarDomain} {vec vec' : List α} :
    cfg.DifferIn v d vec vec' ↔ cfg.inView v d vec ≠ cfg.inView v d vec' := by
  rw [inView, inView, ne_eq, slice_eq_iff, DifferIn]
  push Not
  rfl

instance decidableDifferIn {α : Type} [DecidableEq α] {v : View} {d : VarDomain}
    {vec vec' : List α} : Decidable (cfg.DifferIn v d vec vec') :=
  decidable_of_iff _ differIn_iff.symm

/-! ## The check -/

/-- The truth model is in a Distinct view below a view of all variables. -/
def AllOnDistinct (cfg : Config) : Prop :=
  ∃ tv, cfg.truthView = some tv ∧ cfg.view.1.isAll = true ∧ tv.1.isDistinct = true

/-- No discrete string variable is inactive in the view of the approximation. -/
def NoInactiveStrings (cfg : Config) : Prop := (cfg.startCounts cfg.approxView.2).num .dsv = 0

/-- The references are those of `built`, and what is not recorded is as it was. -/
structure Matches (cfg : Config) (ref : Reference R) (built top : ModelData R total) : Prop where
  vars : ∀ d, d ≠ .dsv → ref.vars d = cfg.inView cfg.approxView.2 d (built.vars d).toList
  noReference : ref.vars .dsv = []
  bounds : cfg.isGlobal = true → ∀ d,
    ref.lower d = cfg.inView cfg.approxView.1 d.domain (built.lower d).toList ∧
      ref.upper d = cfg.inView cfg.approxView.1 d.domain (built.upper d).toList
  strings : cfg.inView cfg.approxView.2 .dsv (built.vars .dsv).toList =
    cfg.inView cfg.approxView.2 .dsv (top.vars .dsv).toList
  noStrings : cfg.NoInactiveStrings ∨ cfg.AllOnDistinct

theorem anyM_eq_some {α : Type} {f : α → Option Bool} {g : α → Bool} (h : ∀ a, f a = some (g a))
    (l : List α) : l.anyM f = some (l.any g) := by
  induction l with
  | nil => rfl
  | cons a l ih =>
    rw [List.anyM, h a, List.any_cons]
    cases g a with
    | true => rfl
    | false => exact ih

variable [DecidableEq R] {ref : Reference R} {built top : ModelData R total}

theorem any_varDomain {p : VarDomain → Bool} :
    [VarDomain.cv, .div, .dsv, .drv].any p = true ↔ ∃ d, p d = true := by
  rw [List.any_eq_true]
  exact ⟨fun ⟨d, _, h⟩ => ⟨d, h⟩, fun ⟨d, h⟩ => ⟨d, by cases d <;> simp, h⟩⟩

theorem any_boundDomain {p : BoundDomain → Bool} :
    [BoundDomain.cv, .div, .drv].any p = true ↔ ∃ d, p d = true := by
  rw [List.any_eq_true]
  exact ⟨fun ⟨d, _, h⟩ => ⟨d, h⟩, fun ⟨d, h⟩ => ⟨d, by cases d <;> simp, h⟩⟩

theorem inactiveDiffer_iff (h : cfg.Matches ref built top) (hview : cfg.approxView = cfg.view)
    (hno : cfg.NoInactiveStrings) : cfg.inactiveDiffer ref top = true ↔
      ∃ d, cfg.DifferIn cfg.approxView.2 d (built.vars d).toList (top.vars d).toList := by
  unfold inactiveDiffer
  rw [any_varDomain]
  refine exists_congr fun d => ?_
  rw [decide_eq_true_iff, differIn_iff, ← hview]
  by_cases hd : d = .dsv
  · subst hd
    have hnil {α : Type} (vec : List α) : cfg.inView cfg.approxView.2 .dsv vec = [] := by
      rw [inView, hno, slice_zero_num]
    rw [h.noReference, hnil, hnil]
  · rw [h.vars d hd]

theorem boundsDiffer_iff (h : cfg.Matches ref built top) (hview : cfg.approxView = cfg.view)
    (hglobal : cfg.isGlobal = true) : cfg.boundsDiffer ref top = true ↔ ∃ d,
      cfg.DifferIn cfg.approxView.1 d.domain (built.lower d).toList (top.lower d).toList ∨
        cfg.DifferIn cfg.approxView.1 d.domain (built.upper d).toList (top.upper d).toList := by
  unfold boundsDiffer
  rw [any_boundDomain]
  refine exists_congr fun d => ?_
  rw [decide_eq_true_iff, differIn_iff, differIn_iff, (h.bounds hglobal d).1,
    (h.bounds hglobal d).2, ← hview]

theorem allBoundsDiffer_iff (h : cfg.Matches ref built top) (hglobal : cfg.isGlobal = true)
    (hall : cfg.approxView.1.isAll = true) (hnum : (cfg.startCounts cfg.approxView.1).num = total) :
    allBoundsDiffer ref top = true ↔ ∃ d,
      cfg.DifferIn cfg.approxView.1 d.domain (built.lower d).toList (top.lower d).toList ∨
        cfg.DifferIn cfg.approxView.1 d.domain (built.upper d).toList (top.upper d).toList := by
  unfold allBoundsDiffer
  rw [any_boundDomain]
  refine exists_congr fun d => ?_
  rw [decide_eq_true_iff, differIn_iff, differIn_iff, (h.bounds hglobal d).1,
    (h.bounds hglobal d).2, inView_of_isAll hall hnum (top.lower d).toList_length,
    inView_of_isAll hall hnum (top.upper d).toList_length]

/-- A recorded slice against the array that it is a slice of. -/
theorem isEqualPartial_slice {α : Type} [DecidableEq α] {vec vec' : List α} {start num : Nat}
    (hlen : vec.length = vec'.length) (hstart : start ≤ vec.length) :
    isEqualPartial (slice vec start num) vec' start =
      some (decide (slice vec start num = slice vec' start num)) := by
  have hclip : slice vec' start (slice vec start num).length = slice vec' start num := by
    rw [length_slice, slice, slice, hlen, ← List.length_drop, ← List.take_take, List.take_length]
  unfold isEqualPartial
  rw [hclip, if_pos]
  rw [length_slice]
  omega

/-- Without a reference nothing differs. -/
theorem isEqualPartial_nil {α : Type} [DecidableEq α] {vec : List α} {start : Nat}
    (hstart : start ≤ vec.length) : isEqualPartial [] vec start = some true :=
  if_pos hstart

theorem partialVarsDiffer_eq {tv : View × View} (h : cfg.Matches ref built top)
    (htv : cfg.approxView = tv) (hall : cfg.view.1.isAll = true)
    (hnum : (cfg.startCounts cfg.view.1).num = total)
    (hstart : ∀ d, (cfg.startCounts tv.2).start d ≤ total d) :
    ∃ r, cfg.partialVarsDiffer tv ref top = some r ∧ (r = true ↔
      ∃ d, cfg.DifferIn cfg.approxView.2 d (built.vars d).toList (top.vars d).toList) := by
  subst htv
  refine ⟨_, anyM_eq_some (g := fun d => decide (cfg.DifferIn cfg.approxView.2 d
    (built.vars d).toList (top.vars d).toList)) ?_ _, any_varDomain.trans ?_⟩
  · intro d
    have hlen := (built.vars d).toList_length.trans (top.vars d).toList_length.symm
    rw [inView_of_isAll hall hnum (top.vars d).toList_length]
    by_cases hd : d = .dsv
    · subst hd
      rw [h.noReference, isEqualPartial_nil ((hstart _).trans_eq
        (top.vars .dsv).toList_length.symm)]
      simp [differIn_iff, h.strings]
    · rw [h.vars d hd, inView, isEqualPartial_slice hlen
        ((hstart d).trans_eq (built.vars d).toList_length.symm)]
      simp [differIn_iff, inView]
  · exact exists_congr fun d => decide_eq_true_iff

theorem partialBoundsDiffer_eq {tv : View × View} (h : cfg.Matches ref built top)
    (htv : cfg.approxView = tv) (hglobal : cfg.isGlobal = true) (hall : cfg.view.1.isAll = true)
    (hnum : (cfg.startCounts cfg.view.1).num = total)
    (hstart : ∀ d, (cfg.startCounts tv.1).start d ≤ total d) :
    ∃ r, cfg.partialBoundsDiffer tv ref top = some r ∧ (r = true ↔ ∃ d,
      cfg.DifferIn cfg.approxView.1 d.domain (built.lower d).toList (top.lower d).toList ∨
        cfg.DifferIn cfg.approxView.1 d.domain (built.upper d).toList (top.upper d).toList) := by
  subst htv
  refine ⟨_, anyM_eq_some (g := fun d => decide
    (cfg.DifferIn cfg.approxView.1 d.domain (built.lower d).toList (top.lower d).toList ∨
      cfg.DifferIn cfg.approxView.1 d.domain (built.upper d).toList (top.upper d).toList)) ?_ _,
    any_boundDomain.trans ?_⟩
  · intro d
    have hlo := (built.lower d).toList_length.trans (top.lower d).toList_length.symm
    have hup := (built.upper d).toList_length.trans (top.upper d).toList_length.symm
    rw [inView_of_isAll hall hnum (top.lower d).toList_length,
      inView_of_isAll hall hnum (top.upper d).toList_length, (h.bounds hglobal d).1,
      (h.bounds hglobal d).2, inView, inView, isEqualPartial_slice hlo
        ((hstart _).trans_eq (built.lower d).toList_length.symm), isEqualPartial_slice hup
        ((hstart _).trans_eq (built.upper d).toList_length.symm)]
    simp [differIn_iff, inView]
  · exact exists_congr fun d => decide_eq_true_iff

/-! ## The whole check -/

theorem approxView_none (h : cfg.truthView = none) : cfg.approxView = cfg.view := by
  rw [approxView, h, Option.getD_none]

theorem approxView_some {tv : View × View} (h : cfg.truthView = some tv) : cfg.approxView = tv := by
  rw [approxView, h, Option.getD_some]

omit [DecidableEq R] in
theorem not_differIn_emptyView (built top : ModelData R total) (h : cfg.approxView.1.isDistinct = false)
    (hvalid : cfg.ValidView cfg.approxView) :
    ¬ ∃ d, cfg.DifferIn cfg.approxView.2 d (built.vars d).toList (top.vars d).toList := by
  rintro ⟨d, hd⟩
  rw [differIn_iff, hvalid.inactive h, inView_emptyView, inView_emptyView] at hd
  exact hd rfl

omit [DecidableEq R] in
theorem noInactiveStrings_of_same {tv : View × View} (h : cfg.Matches ref built top)
    (htv : cfg.truthView = some tv) (hsame : cfg.view = tv) : cfg.NoInactiveStrings := by
  refine h.noStrings.resolve_right ?_
  rintro ⟨tv', htv', hall, hdistinct⟩
  obtain rfl : tv = tv' := Option.some.inj (htv.symm.trans htv')
  rw [hsame] at hall
  rw [not_distinct_of_all hall] at hdistinct
  cases hdistinct

theorem checkVars_eq {tv : View × View} (hs : cfg.Supported total) (htv : cfg.truthView = some tv)
    (h : cfg.Matches ref built top) : ∃ r, cfg.checkVars tv ref top = some r ∧ (r = true ↔
      ∃ d, cfg.DifferIn cfg.approxView.2 d (built.vars d).toList (top.vars d).toList) := by
  have happ := approxView_some htv
  obtain ⟨hvalid, hpair⟩ := hs.truthView tv htv
  unfold checkVars
  rcases hpair with hsame | ⟨hdist, hall, -⟩ | ⟨hall, hdist, hnum⟩
  · -- the same view
    have hview := happ.trans hsame.symm
    have hdiffer := inactiveDiffer_iff h hview (noInactiveStrings_of_same h htv hsame)
    rw [hsame, all_and_distinct]
    cases hdist : tv.1.isDistinct with
    | true =>
      cases hd : cfg.inactiveDiffer ref top with
      | true => exact ⟨true, by simp, by simpa [hd] using hdiffer⟩
      | false => exact ⟨false, by simp, by simpa [hd] using hdiffer⟩
    | false =>
      refine ⟨false, by simp, ?_⟩
      simpa using not_differIn_emptyView built top (by rwa [happ])
        (happ ▸ hvalid)
  · -- Distinct on All: no variable of the truth model is inactive
    have hne : cfg.view.1 ≠ tv.1 := ne_of_distinct_of_all hdist hall
    have hnall := not_all_of_distinct hdist
    refine ⟨false, by simp [hne, hnall], ?_⟩
    simpa using not_differIn_emptyView built top
      (by rw [happ]; exact not_distinct_of_all hall) (happ ▸ hvalid)
  · -- All on Distinct
    have hne : cfg.view.1 ≠ tv.1 := (ne_of_distinct_of_all hdist hall).symm
    simp only [hne, decide_false, Bool.false_and, Bool.false_eq_true, if_false, hall, hdist,
      Bool.and_self, if_true]
    exact partialVarsDiffer_eq h happ hall hnum
      (start_le hs.total_eq fun s hs' => hvalid.mixed s (.inr hs'))

theorem checkBounds_eq {tv : View × View} (hs : cfg.Supported total) (htv : cfg.truthView = some tv)
    (h : cfg.Matches ref built top) (hglobal : cfg.isGlobal = true) :
    ∃ r, cfg.checkBounds tv ref top = some r ∧ (r = true ↔ ∃ d,
      cfg.DifferIn cfg.approxView.1 d.domain (built.lower d).toList (top.lower d).toList ∨
        cfg.DifferIn cfg.approxView.1 d.domain (built.upper d).toList (top.upper d).toList) := by
  have happ := approxView_some htv
  obtain ⟨hvalid, hpair⟩ := hs.truthView tv htv
  unfold checkBounds
  rcases hpair with hsame | ⟨hdist, hall, hnum⟩ | ⟨hall, hdist, hnum⟩
  · have hdiffer := boundsDiffer_iff h (happ.trans hsame.symm) hglobal
    rw [hsame, all_and_distinct, Bool.and_comm tv.1.isDistinct, all_and_distinct]
    cases hd : cfg.boundsDiffer ref top with
    | true => exact ⟨true, by simp, by simpa [hd] using hdiffer⟩
    | false => exact ⟨false, by simp, by simpa [hd] using hdiffer⟩
  · have hdiffer := allBoundsDiffer_iff h hglobal (by rwa [happ]) (by rwa [happ])
    have hne : cfg.view.1 ≠ tv.1 := ne_of_distinct_of_all hdist hall
    have hnd := not_distinct_of_all hall
    cases hd : allBoundsDiffer ref top with
    | true => exact ⟨true, by simp [hne, hdist, hall], by simpa [hd] using hdiffer⟩
    | false => exact ⟨false, by simp [hne, hnd], by simpa [hd] using hdiffer⟩
  · have hne : cfg.view.1 ≠ tv.1 := by
      intro heq
      rw [← heq, not_distinct_of_all hall] at hdist
      cases hdist
    have hnd := not_distinct_of_all hall
    simp only [hne, decide_false, Bool.false_and, Bool.false_eq_true, if_false, hall, hdist, hnd,
      Bool.and_self, if_true]
    exact partialBoundsDiffer_eq h happ hglobal hall hnum
      (start_le hs.total_eq fun s hs' => hvalid.mixed s (.inl hs'))

/-- The check against matching references. -/
theorem checkRebuild_iff (hs : cfg.Supported total) (h : cfg.Matches ref built top) :
    ∃ r, cfg.checkRebuild ref top = some r ∧ (r = true ↔ cfg.Changed built top) := by
  unfold checkRebuild Changed
  cases htv : cfg.truthView with
  | none =>
    have hview := approxView_none htv
    have hglobal := hs.global htv
    have hno : cfg.NoInactiveStrings := h.noStrings.resolve_right fun ⟨tv, htv', _⟩ => by
      cases htv.symm.trans htv'
    refine ⟨_, rfl, ?_⟩
    rw [hglobal, Bool.true_and, Bool.or_eq_true, inactiveDiffer_iff h hview hno,
      boundsDiffer_iff h hview hglobal]
    simp
  | some tv =>
    obtain ⟨vars, hvars, hvars_iff⟩ := checkVars_eq hs htv h
    simp only [hvars, Option.bind_eq_bind, Option.bind_some]
    cases vars with
    | true => exact ⟨true, rfl, by simpa using Or.inl (hvars_iff.mp rfl)⟩
    | false =>
      have hnot : ¬ ∃ d, cfg.DifferIn cfg.approxView.2 d (built.vars d).toList
          (top.vars d).toList := fun hd => Bool.false_ne_true (hvars_iff.mpr hd)
      simp only [Bool.false_eq_true, if_false]
      cases hglobal : cfg.isGlobal with
      | true =>
        obtain ⟨bounds, hbounds, hbounds_iff⟩ := checkBounds_eq hs htv h hglobal
        refine ⟨bounds, by rw [if_pos rfl, hbounds], ?_⟩
        rw [hbounds_iff]
        simp only [hnot, false_or, true_and]
      | false =>
        refine ⟨false, by simp, ?_⟩
        simp [hnot]

/-! ## Builds -/

variable {s s' : DataFit R total} {tv : View × View} {points : Arrays R total}

/-- The active part of the truth model after an update. -/
theorem inView_updateActive {α : Type} (hs : cfg.Supported total) (htv : cfg.truthView = some tv)
    {d : VarDomain} {truth top : List α} (htruth : truth.length = total d)
    (htop : top.length = total d) :
    cfg.inView tv.1 d (cfg.updateActive tv d truth top) = cfg.inView tv.1 d top := by
  have hlen : top.length = truth.length := htop.trans htruth.symm
  unfold updateActive
  rcases (hs.truthView tv htv).2 with hsame | ⟨hdist, hall, -⟩ | ⟨hall, hdist, hnum⟩
  · rw [if_pos (by rw [hsame]), hsame]
    exact slice_overwrite_slice hlen
  · rw [if_neg (ne_of_distinct_of_all hdist hall), hall, not_all_of_distinct hdist]
    simp only [Bool.not_false, Bool.and_self, if_true]
    rw [start_of_isAll hall, overwrite_zero hlen]
  · rw [if_neg (ne_of_distinct_of_all hdist hall).symm, hall]
    simp only [Bool.not_true, Bool.false_and, Bool.false_eq_true, if_false]
    rw [inView_of_isAll hall hnum htop, overwrite_zero hlen]

/-- Its inactive part, if that agreed already in the same view. -/
theorem inView_updateActive_inactive {α : Type} (hs : cfg.Supported total)
    (htv : cfg.truthView = some tv) (hdistinct : tv.1.isDistinct = true) {d : VarDomain}
    {truth top : List α} (htruth : truth.length = total d) (htop : top.length = total d)
    (hagree : cfg.view = tv → cfg.inView tv.2 d truth = cfg.inView tv.2 d top) :
    cfg.inView tv.2 d (cfg.updateActive tv d truth top) = cfg.inView tv.2 d top := by
  have hlen : top.length = truth.length := htop.trans htruth.symm
  unfold updateActive
  rcases (hs.truthView tv htv).2 with hsame | ⟨-, hall, -⟩ | ⟨hall, hdist, hnum⟩
  · rw [if_pos (by rw [hsame]), hsame]
    exact slice_overwrite_of_agree hlen (hagree hsame)
  · rw [not_distinct_of_all hall] at hdistinct
    cases hdistinct
  · rw [if_neg (ne_of_distinct_of_all hdist hall).symm, hall]
    simp only [Bool.not_true, Bool.false_and, Bool.false_eq_true, if_false]
    rw [inView_of_isAll hall hnum htop, overwrite_zero hlen]

/-- The inactive values of a truth model in the same view, strings apart, are those of the top-level
model. -/
def Aligned (cfg : Config) (s : DataFit R total) : Prop :=
  cfg.truthView = some cfg.view → ∀ d, d ≠ .dsv →
    cfg.inView cfg.view.2 d (s.truth.vars d).toList = cfg.inView cfg.view.2 d (s.top.vars d).toList

/-- The condition for a build. -/
def BuildOk (cfg : Config) (s : DataFit R total) : Prop :=
  cfg.Aligned s ∧ (cfg.NoInactiveStrings ∨ cfg.AllOnDistinct)

/-- What no step changes in the references. -/
structure RefInv (cfg : Config) (ref : Reference R) : Prop where
  strings : ref.vars .dsv = []
  all : cfg.approxView.1.isDistinct = false → ∀ d, ref.vars d = []

omit [DecidableEq R] in
theorem refInv_empty : cfg.RefInv (Reference.empty : Reference R) := ⟨rfl, fun _ _ => rfl⟩

omit [DecidableEq R] in
/-- The references to variables that are recorded from `data`. -/
theorem recordInactive_vars {data : ModelData R total} (hinv : cfg.RefInv ref)
    (hvalid : cfg.ValidView cfg.approxView)
    (hdata : cfg.approxView.1.isDistinct = true → ∀ d, d ≠ .dsv →
      cfg.inView cfg.approxView.2 d (data.vars d).toList =
        cfg.inView cfg.approxView.2 d (top.vars d).toList) :
    cfg.RefInv (cfg.recordInactive cfg.approxView data ref) ∧
      ∀ d, d ≠ .dsv → (cfg.recordInactive cfg.approxView data ref).vars d =
        cfg.inView cfg.approxView.2 d (top.vars d).toList := by
  unfold recordInactive
  cases hdist : cfg.approxView.1.isDistinct with
  | true =>
    rw [if_pos rfl]
    refine ⟨⟨hinv.strings, fun h => ?_⟩, fun d hd => ?_⟩
    · rw [hdist] at h
      cases h
    · change (if d = .dsv then _ else _) = _
      rw [if_neg hd]
      exact hdata hdist d hd
  | false =>
    rw [if_neg Bool.false_ne_true]
    refine ⟨hinv, fun d _ => ?_⟩
    rw [hinv.all hdist d, hvalid.inactive hdist, inView_emptyView]

omit [DecidableEq R] in
theorem matches_record (data top : ModelData R total) (hinv : cfg.RefInv ref)
    (hvalid : cfg.ValidView cfg.approxView) (hno : cfg.NoInactiveStrings ∨ cfg.AllOnDistinct)
    (hdata : cfg.approxView.1.isDistinct = true → ∀ d, d ≠ .dsv →
      cfg.inView cfg.approxView.2 d (data.vars d).toList =
        cfg.inView cfg.approxView.2 d (top.vars d).toList)
    (hbounds : ∀ d,
      cfg.inView cfg.approxView.1 d.domain (data.lower d).toList =
          cfg.inView cfg.approxView.1 d.domain (top.lower d).toList ∧
        cfg.inView cfg.approxView.1 d.domain (data.upper d).toList =
          cfg.inView cfg.approxView.1 d.domain (top.upper d).toList) :
    cfg.RefInv (cfg.updateGlobalReference cfg.approxView data ref) ∧
      cfg.Matches (cfg.updateGlobalReference cfg.approxView data ref) top top ∧
      (cfg.isGlobal = false → cfg.RefInv (cfg.updateLocalReference cfg.approxView data ref) ∧
        cfg.Matches (cfg.updateLocalReference cfg.approxView data ref) top top) := by
  obtain ⟨hinv', hvars⟩ := recordInactive_vars hinv hvalid hdata
  refine ⟨⟨hinv'.strings, hinv'.all⟩, ⟨hvars, hinv'.strings, fun _ => hbounds, rfl, hno⟩, ?_⟩
  intro hlocal
  refine ⟨hinv', hvars, hinv'.strings, fun hglobal => ?_, rfl, hno⟩
  rw [hlocal] at hglobal
  cases hglobal

omit [DecidableEq R] in
/-- After a build the references are those of the top-level model. -/
theorem matches_build (hs : cfg.Supported total) (hok : cfg.BuildOk s) (hinv : cfg.RefInv s.ref)
    (h : cfg.buildApproximation points s = some s') :
    s'.top = s.top ∧ s'.builtAt = some s.top ∧ 0 < s'.approxBuilds ∧ cfg.RefInv s'.ref ∧
      cfg.Matches s'.ref s.top s.top := by
  obtain ⟨haligned, hno⟩ := hok
  unfold buildApproximation updateReference pushToTruth runBuild at h
  cases htv : cfg.truthView with
  | none =>
    have hview := approxView_none htv
    have hglobal := hs.global htv
    obtain ⟨hinv', hmatch, -⟩ := matches_record s.top s.top hinv
      (hview ▸ hs.view) hno (fun _ _ _ => rfl) (fun _ => ⟨rfl, rfl⟩)
    rw [hview] at hinv' hmatch
    simp only [htv, hglobal, Option.bind_eq_bind, Option.bind_some, Option.pure_def,
      Option.some.injEq] at h
    subst h
    exact ⟨rfl, rfl, Nat.succ_pos _, hinv', hmatch⟩
  | some tv =>
    have hview := approxView_some htv
    have hvars : tv.1.isDistinct = true → ∀ d, d ≠ .dsv →
        cfg.inView tv.2 d ((cfg.updateModel tv s.truth s.top).vars d).toList =
          cfg.inView tv.2 d (s.top.vars d).toList := by
      intro hdist d hd
      refine inView_updateActive_inactive hs htv hdist (s.truth.vars d).toList_length
        (s.top.vars d).toList_length fun hsame => ?_
      subst hsame
      exact haligned htv d hd
    obtain ⟨hinv', hmatch, hlocal⟩ := matches_record (cfg.updateModel tv s.truth s.top)
      s.top hinv (hview ▸ (hs.truthView tv htv).1) hno (by rwa [hview]) (by
        rw [hview]
        exact fun d => ⟨inView_updateActive hs htv (s.truth.lower d).toList_length
          (s.top.lower d).toList_length, inView_updateActive hs htv
          (s.truth.upper d).toList_length (s.top.upper d).toList_length⟩)
    rw [hview] at hinv' hmatch hlocal
    cases hglobal : cfg.isGlobal with
    | true =>
      simp only [htv, hglobal, Option.bind_eq_bind, Option.bind_some, Option.pure_def,
        Option.some.injEq] at h
      subst h
      exact ⟨rfl, rfl, Nat.succ_pos _, hinv', hmatch⟩
    | false =>
      simp only [htv, hglobal, Option.bind_eq_bind, Option.bind_some, Option.pure_def,
        Option.some.injEq] at h
      subst h
      exact ⟨rfl, rfl, Nat.succ_pos _, (hlocal hglobal).1, (hlocal hglobal).2⟩

end Dakota.Surrogate.Config
