import Dakota.Lib.Splice
import Dakota.Variables.Views

/-!
# Hyper-parameters among the variables

The variables of a `DataTransformModel` (`src/src/DataTransformModel.cpp`): those of its sub-model
and the multipliers of the observation error. `variables_expand` makes room for them,
`init_continuous_vars` fills the arrays, `update_cv_skip_hyperparams` updates them and
`vars_mapping` recovers the variables of the sub-model.

* `getHyperparamVcIndex`: the case of the design views falls through to the one after it.
* `hyperparamsAligned_iff`: the hyper-parameters trail the active continuous variables, unless the
  design variables are active.
-/

namespace Dakota

variable {K : Type}

/-- Rows of `variablesCompsTotals`. -/
abbrev CompsTotals := VarGroup → Counts

namespace CompsTotals

/-- The shared data of a mixed view: no variable is relaxed. -/
def mixed (vcTotals : CompsTotals) : SharedVariablesData where
  variablesCompsTotals := vcTotals
  allRelaxedDiscreteInt := []
  allRelaxedDiscreteReal := []
  int_length := .inl rfl
  real_length := .inl rfl

/-- The total of some groups. -/
def sum (vcTotals : CompsTotals) (groups : List VarGroup) : Counts :=
  vcTotals.mixed.sumTotals groups

/-- `acv` -/
def acv (vcTotals : CompsTotals) : Nat := vcTotals.sum SharedVariablesData.allGroups .cv

/-- `cv_start` -/
def cvStart (vcTotals : CompsTotals) (s : ViewSubset) : Nat :=
  vcTotals.sum (SharedVariablesData.skipGroups s) .cv

/-- `cv` -/
def cv (vcTotals : CompsTotals) (s : ViewSubset) : Nat :=
  vcTotals.sum (SharedVariablesData.ownGroups s) .cv

theorem allCounts_mixed (vcTotals : CompsTotals) : vcTotals.mixed.allCounts.map (· .cv) =
    some vcTotals.acv := rfl

theorem viewStartCounts_mixed (vcTotals : CompsTotals) (s : ViewSubset) :
    (vcTotals.mixed.viewStartCounts (.mixed s)).map (fun c => (c.start .cv, c.num .cv)) =
      some (vcTotals.cvStart s, vcTotals.cv s) := by
  cases s <;> rfl

/-- `vcTotals[TOTAL_C...] += n` -/
def addCv (vcTotals : CompsTotals) (g : VarGroup) (n : Nat) : CompsTotals :=
  Function.update vcTotals g (Function.update (vcTotals g) .cv (vcTotals g .cv + n))

end CompsTotals

/-- What the all-continuous arrays have at a position. -/
structure ContinuousEntry (K : Type) where
  value : K
  label : String
  lower : K
  upper : K
deriving DecidableEq

/-- The active variables of a model. -/
structure ActiveVariables (K : Type) where
  continuous : List K
  discreteInt : List Int
  discreteString : List String
  discreteReal : List K
deriving DecidableEq

/-! ## The source -/

/-- `get_hyperparam_vc_index`, or `none` where it aborts. The case of the design views sets
`TOTAL_CDV` and has no `break`. -/
def getHyperparamVcIndex : View → Option VarGroup
  | .mixed .design | .relaxed .design => some .aleatoryUncertain
  | .mixed .aleatoryUncertain | .relaxed .aleatoryUncertain => some .aleatoryUncertain
  | .mixed .uncertain | .relaxed .uncertain => some .epistemicUncertain
  | .mixed .epistemicUncertain | .relaxed .epistemicUncertain => some .epistemicUncertain
  | .mixed .all | .relaxed .all => some .state
  | .mixed .state | .relaxed .state => some .state
  | .emptyView => none

/-- `variables_expand`, with `none` inside for an empty array: no size change. -/
def variablesExpand (vcTotals : CompsTotals) (view : View) (numHyper : Nat) :
    Option (Option CompsTotals) :=
  if 0 < numHyper then do
    let vcIndex ← getHyperparamVcIndex view
    return some (vcTotals.addCv vcIndex numHyper)
  else some none

/-- The totals of the variables that `RecastModel` builds with this. -/
def recastTotals (vcTotals : CompsTotals) (view : View) (numHyper : Nat) : Option CompsTotals := do
  return (← variablesExpand vcTotals view numHyper).getD vcTotals

/-- The entry of a hyper-parameter. -/
def hyperparamEntry [Zero K] [One K] [Top K] (label : String) : ContinuousEntry K where
  value := 1
  label := label
  lower := 0
  upper := ⊤

/-- The state of the loop of `init_continuous_vars`. -/
structure InitState (K : Type) where
  smOffset : Nat
  dtmOffset : Nat
  dtm : List (ContinuousEntry K)

/-- One pass of this loop. -/
def initGroup [Zero K] [One K] [Top K] (vcTotals : CompsTotals) (vcIndex : VarGroup)
    (hyperLabels : List String) (sm : List (ContinuousEntry K)) (s : InitState K) (g : VarGroup) :
    Option (InitState K) := do
  let numCvars := vcTotals g .cv
  let dtm ← copyInto sm s.smOffset s.dtm s.dtmOffset numCvars
  let smOffset := s.smOffset + numCvars
  let dtmOffset := s.dtmOffset + numCvars
  if g = vcIndex then
    let dtm ← writeInto dtm dtmOffset (hyperLabels.map hyperparamEntry)
    return ⟨smOffset, dtmOffset + hyperLabels.length, dtm⟩
  else return ⟨smOffset, dtmOffset, dtm⟩

/-- `init_continuous_vars` on the arrays `dtm`, for the labels of `hyperparam_labels`, one of each
hyper-parameter. -/
def initContinuousVars [Zero K] [One K] [Top K] (vcTotals : CompsTotals) (view : View)
    (hyperLabels : List String) (sm dtm : List (ContinuousEntry K)) :
    Option (List (ContinuousEntry K)) := do
  let vcIndex ← getHyperparamVcIndex view
  let s ← SharedVariablesData.allGroups.foldlM (initGroup vcTotals vcIndex hyperLabels sm)
    ⟨0, 0, dtm⟩
  return s.dtm

/-- `update_cv_skip_hyperparams` -/
def updateCvSkipHyperparams (vcTotals : CompsTotals) (s : ViewSubset) (numHyper : Nat)
    (sm dtm : List (ContinuousEntry K)) : Option (List (ContinuousEntry K)) := do
  let cvEnd := vcTotals.cvStart s + vcTotals.cv s
  let dtm ← copyInto sm 0 dtm 0 cvEnd
  copyInto sm cvEnd dtm (numHyper + cvEnd) (vcTotals.acv - cvEnd)

/-- `vars_mapping` for a sub-model with `smCv` active continuous variables. -/
def varsMapping (smCv : Nat) (recastVars : ActiveVariables K) : Option (ActiveVariables K) :=
  if smCv ≤ recastVars.continuous.length then
    some { recastVars with continuous := recastVars.continuous.take smCv }
  else none

/-! ## Alignment -/

/-- The active entries of all-continuous arrays. -/
def activeEntries (vcTotals : CompsTotals) (s : ViewSubset) (acv : List (ContinuousEntry K)) :
    List (ContinuousEntry K) :=
  (acv.drop (vcTotals.cvStart s)).take (vcTotals.cv s)

/-- The entries `dtm` are those of `sm` with `hyper` after the active ones. -/
structure Trails (vcTotals recast : CompsTotals) (s : ViewSubset)
    (sm hyper dtm : List (ContinuousEntry K)) : Prop where
  length_eq : dtm.length = recast.acv
  before : dtm.take (recast.cvStart s) = sm.take (vcTotals.cvStart s)
  active : activeEntries recast s dtm = activeEntries vcTotals s sm ++ hyper
  after : dtm.drop (recast.cvStart s + recast.cv s) = sm.drop (vcTotals.cvStart s + vcTotals.cv s)

/-- Construction, updates and evaluation agree on the place of the hyper-parameters. -/
structure Aligned [Zero K] [One K] [Top K] (vcTotals recast : CompsTotals) (s : ViewSubset)
    (hyperLabels : List String) : Prop where
  init : ∀ sm dtm₀ : List (ContinuousEntry K), sm.length = vcTotals.acv →
    dtm₀.length = recast.acv → ∃ dtm,
      initContinuousVars vcTotals (.mixed s) hyperLabels sm dtm₀ = some dtm ∧
        Trails vcTotals recast s sm (hyperLabels.map hyperparamEntry) dtm
  update : ∀ sm dtm : List (ContinuousEntry K), sm.length = vcTotals.acv →
    dtm.length = recast.acv → ∃ dtm',
      updateCvSkipHyperparams vcTotals s hyperLabels.length sm dtm = some dtm' ∧
        Trails vcTotals recast s sm ((activeEntries recast s dtm).drop (vcTotals.cv s)) dtm'
  mapping : ∀ sm hyper dtm : List (ContinuousEntry K), sm.length = vcTotals.acv →
    Trails vcTotals recast s sm hyper dtm → ∀ vars : ActiveVariables K,
      vars.continuous = (activeEntries recast s dtm).map (·.value) →
        varsMapping (vcTotals.cv s) vars =
          some { vars with continuous := (activeEntries vcTotals s sm).map (·.value) }

/-- The same for the totals of `variables_expand`. -/
def HyperparamsAligned (K : Type) [Zero K] [One K] [Top K] (vcTotals : CompsTotals)
    (s : ViewSubset) (hyperLabels : List String) : Prop :=
  ∃ recast, recastTotals vcTotals (.mixed s) hyperLabels.length = some recast ∧
    Aligned (K := K) vcTotals recast s hyperLabels

/-! ## The arrays -/

section Init

variable [Zero K] [One K] [Top K] {vcTotals : CompsTotals} {vcIndex : VarGroup}
  {hyperLabels : List String} {sm rest : List (ContinuousEntry K)}

/-- The entries of consecutive groups, with `hyper` after the ones of `vcIndex`. -/
def expandGroups (vcTotals : CompsTotals) (vcIndex : VarGroup) (hyper : List (ContinuousEntry K)) :
    List VarGroup → List (ContinuousEntry K) → List (ContinuousEntry K)
  | [], sm => sm
  | g :: gs, sm =>
    sm.take (vcTotals g .cv) ++ (if g = vcIndex then hyper else []) ++
      expandGroups vcTotals vcIndex hyper gs (sm.drop (vcTotals g .cv))

omit [Zero K] [One K] [Top K] in
theorem expandGroups_of_notMem {gs : List VarGroup} (hyper : List (ContinuousEntry K))
    (h : vcIndex ∉ gs) : expandGroups vcTotals vcIndex hyper gs sm = sm := by
  induction gs generalizing sm with
  | nil => rfl
  | cons g gs ih =>
    obtain ⟨hne, hnot⟩ := not_or.mp (mt List.mem_cons.mpr h)
    rw [expandGroups, if_neg (Ne.symm hne), ih hnot, List.append_nil, List.take_append_drop]

omit [Zero K] [One K] [Top K] in
theorem expandGroups_eq {gs gs' : List VarGroup} (hyper : List (ContinuousEntry K))
    (h : vcIndex ∉ gs) (h' : vcIndex ∉ gs') :
    expandGroups vcTotals vcIndex hyper (gs ++ vcIndex :: gs') sm =
      sm.take (vcTotals.sum (gs ++ [vcIndex]) .cv) ++ hyper ++
        sm.drop (vcTotals.sum (gs ++ [vcIndex]) .cv) := by
  induction gs generalizing sm with
  | nil =>
    rw [List.nil_append, expandGroups, if_pos rfl, expandGroups_of_notMem hyper h']
    rfl
  | cons g gs ih =>
    obtain ⟨hne, hnot⟩ := not_or.mp (mt List.mem_cons.mpr h)
    have hsum : vcTotals.sum (g :: gs ++ [vcIndex]) .cv =
        vcTotals g .cv + vcTotals.sum (gs ++ [vcIndex]) .cv := rfl
    rw [List.cons_append, expandGroups, if_neg (Ne.symm hne), ih hnot, List.append_nil, hsum,
      List.take_add, List.drop_drop]
    simp only [List.append_assoc]

/-- What one pass writes. -/
theorem initGroup_eq (w : List (ContinuousEntry K)) {off : Nat} {g : VarGroup}
    (hsm : off + vcTotals g .cv ≤ sm.length)
    (hrest : vcTotals g .cv + (if g = vcIndex then hyperLabels.length else 0) ≤ rest.length) :
    let block := (sm.drop off).take (vcTotals g .cv) ++
      (if g = vcIndex then hyperLabels.map hyperparamEntry else [])
    initGroup vcTotals vcIndex hyperLabels sm ⟨off, w.length, w ++ rest⟩ g =
      some ⟨off + vcTotals g .cv, (w ++ block).length, w ++ block ++ rest.drop block.length⟩ := by
  intro block
  have htake := length_take_drop hsm
  have hblock : block.length =
      vcTotals g .cv + (if g = vcIndex then hyperLabels.length else 0) := by
    simp only [block, List.length_append, htake]
    split <;> simp
  rw [initGroup, copyInto_length w hsm (by omega), Option.bind_eq_bind, Option.bind_some]
  by_cases hg : g = vcIndex
  · have hpre : w.length + vcTotals g .cv =
        (w ++ (sm.drop off).take (vcTotals g .cv)).length := by rw [List.length_append, htake]
    simp only [if_pos hg] at hrest hblock ⊢
    rw [hpre, writeInto_length _ (by rw [List.length_map, List.length_drop]; omega),
      Option.bind_some, List.drop_drop, hblock, List.length_map]
    simp [block, hg, Nat.add_assoc]
  · simp only [if_neg hg] at hblock ⊢
    rw [hblock]
    simp [block, hg, htake]

/-- The whole loop, if the arrays have the right length. -/
theorem foldlM_initGroup {gs : List VarGroup} (w : List (ContinuousEntry K)) (off : Nat)
    (hsm : off + vcTotals.sum gs .cv ≤ sm.length)
    (hrest : rest.length = vcTotals.sum gs .cv + gs.count vcIndex * hyperLabels.length) :
    ∃ s, gs.foldlM (initGroup vcTotals vcIndex hyperLabels sm) ⟨off, w.length, w ++ rest⟩ = some s ∧
      s.dtm ++ sm.drop (off + vcTotals.sum gs .cv) =
        w ++ expandGroups vcTotals vcIndex (hyperLabels.map hyperparamEntry) gs (sm.drop off) := by
  induction gs generalizing w rest off with
  | nil =>
    refine ⟨_, rfl, ?_⟩
    have hsum : vcTotals.sum [] .cv = 0 := rfl
    rw [hsum] at hrest ⊢
    rw [List.count_nil, Nat.zero_mul] at hrest
    rw [List.length_eq_zero_iff.mp hrest, List.append_nil, expandGroups, Nat.add_zero]
  | cons g gs ih =>
    have hsum : vcTotals.sum (g :: gs) .cv = vcTotals g .cv + vcTotals.sum gs .cv := rfl
    rw [hsum] at hsm hrest
    have hcount : (g :: gs).count vcIndex * hyperLabels.length =
        (if g = vcIndex then hyperLabels.length else 0) +
          gs.count vcIndex * hyperLabels.length := by
      rw [List.count_cons, Nat.add_mul, Nat.add_comm]
      congr 1
      split <;> simp_all
    rw [hcount] at hrest
    have hstep := initGroup_eq w (by omega : off + vcTotals g .cv ≤ sm.length)
      (by omega : vcTotals g .cv + (if g = vcIndex then hyperLabels.length else 0) ≤ rest.length)
    have hlen : ((sm.drop off).take (vcTotals g .cv) ++
        (if g = vcIndex then hyperLabels.map hyperparamEntry else [])).length =
          vcTotals g .cv + (if g = vcIndex then hyperLabels.length else 0) := by
      rw [List.length_append, length_take_drop (by omega)]
      split <;> simp
    rw [List.foldlM_cons, hstep, Option.bind_eq_bind, Option.bind_some, hsum, ← Nat.add_assoc]
    have hleft : (rest.drop ((sm.drop off).take (vcTotals g .cv) ++
        (if g = vcIndex then hyperLabels.map hyperparamEntry else [])).length).length =
          vcTotals.sum gs .cv + gs.count vcIndex * hyperLabels.length := by
      rw [List.length_drop, hlen, hrest]
      omega
    obtain ⟨s, hs, hdtm⟩ := ih _ _
      (by omega : off + vcTotals g .cv + vcTotals.sum gs .cv ≤ sm.length) hleft
    refine ⟨s, hs, ?_⟩
    rw [hdtm, expandGroups, List.drop_drop]
    simp only [List.append_assoc]

theorem initContinuousVars_eq {s : ViewSubset} {gs gs' : List VarGroup}
    {dtm : List (ContinuousEntry K)} (hidx : getHyperparamVcIndex (.mixed s) = some vcIndex)
    (hgroups : SharedVariablesData.allGroups = gs ++ vcIndex :: gs')
    (hsm : sm.length = vcTotals.acv) (hdtm : dtm.length = vcTotals.acv + hyperLabels.length) :
    initContinuousVars vcTotals (.mixed s) hyperLabels sm dtm =
      some (sm.take (vcTotals.sum (gs ++ [vcIndex]) .cv) ++ hyperLabels.map hyperparamEntry ++
        sm.drop (vcTotals.sum (gs ++ [vcIndex]) .cv)) := by
  have hnd : (gs ++ vcIndex :: gs').Nodup := hgroups ▸ by decide
  have hnot : vcIndex ∉ gs := fun h => (List.nodup_append.mp hnd).2.2 _ h _ List.mem_cons_self rfl
  have hnot' : vcIndex ∉ gs' := (List.nodup_cons.mp (List.nodup_append.mp hnd).2.1).1
  have hcount : SharedVariablesData.allGroups.count vcIndex * hyperLabels.length =
      hyperLabels.length := by
    cases vcIndex <;> exact Nat.one_mul _
  have hacv : vcTotals.sum SharedVariablesData.allGroups .cv = vcTotals.acv := rfl
  have hrest : dtm.length = vcTotals.sum SharedVariablesData.allGroups .cv +
      SharedVariablesData.allGroups.count vcIndex * hyperLabels.length := by omega
  have hfits : 0 + vcTotals.sum SharedVariablesData.allGroups .cv ≤ sm.length := by omega
  obtain ⟨st, hst, hres⟩ := foldlM_initGroup [] 0 hfits hrest
  have hall : sm.drop (0 + vcTotals.sum SharedVariablesData.allGroups .cv) = [] :=
    List.drop_of_length_le (by omega)
  rw [hall, List.append_nil, List.drop_zero, hgroups, expandGroups_eq _ hnot hnot'] at hres
  rw [List.length_nil, List.nil_append] at hst
  simp only [initContinuousVars, hidx, Option.bind_eq_bind, Option.bind_some, hst]
  exact congrArg some hres

end Init

/-! ## The totals -/

section Totals

variable {vcTotals recast : CompsTotals} {s : ViewSubset} {numHyper : Nat}

theorem sum_addCv_of_notMem {g : VarGroup} {gs : List VarGroup} (h : g ∉ gs) :
    (vcTotals.addCv g numHyper).sum gs .cv = vcTotals.sum gs .cv := by
  refine congrArg List.sum (List.map_congr_left fun x hx => ?_)
  have hne : x ≠ g := fun hxg => h (hxg ▸ hx)
  simp [CompsTotals.mixed, CompsTotals.addCv, Function.update_of_ne hne]

theorem sum_addCv {g : VarGroup} {gs : List VarGroup} (hnd : gs.Nodup) (h : g ∈ gs) :
    (vcTotals.addCv g numHyper).sum gs .cv = vcTotals.sum gs .cv + numHyper := by
  induction gs with
  | nil => cases h
  | cons x gs ih =>
    obtain ⟨hx, hnd⟩ := List.nodup_cons.mp hnd
    have hsum (t : CompsTotals) : t.sum (x :: gs) .cv = t x .cv + t.sum gs .cv := rfl
    rw [hsum, hsum]
    rcases List.mem_cons.mp h with rfl | h
    · rw [sum_addCv_of_notMem hx]
      simp only [CompsTotals.addCv, Function.update_self]
      omega
    · have hne : x ≠ g := fun hxg => hx (hxg ▸ h)
      rw [ih hnd h]
      simp only [CompsTotals.addCv, Function.update_of_ne hne]
      omega

/-- The active variables, and no others, have `numHyper` more entries. -/
structure Extends (vcTotals recast : CompsTotals) (s : ViewSubset) (numHyper : Nat) : Prop where
  cvStart_eq : recast.cvStart s = vcTotals.cvStart s
  cv_eq : recast.cv s = vcTotals.cv s + numHyper
  acv_eq : recast.acv = vcTotals.acv + numHyper

/-- The group of the hyper-parameters is the last active one. -/
theorem exists_groups (hs : s ≠ .design) :
    ∃ vcIndex gs gs', getHyperparamVcIndex (.mixed s) = some vcIndex ∧
      SharedVariablesData.allGroups = gs ++ vcIndex :: gs' ∧
      vcIndex ∉ SharedVariablesData.skipGroups s ∧ vcIndex ∈ SharedVariablesData.ownGroups s ∧
      gs ++ [vcIndex] = SharedVariablesData.skipGroups s ++ SharedVariablesData.ownGroups s := by
  cases s with
  | design => exact absurd rfl hs
  | aleatoryUncertain => exact ⟨_, [.design], _, rfl, rfl, by decide, by decide, rfl⟩
  | epistemicUncertain | uncertain =>
    exact ⟨_, [.design, .aleatoryUncertain], _, rfl, rfl, by decide, by decide, rfl⟩
  | all | state =>
    exact ⟨_, [.design, .aleatoryUncertain, .epistemicUncertain], _, rfl, rfl, by decide,
      by decide, rfl⟩

theorem CompsTotals.sum_skip_own (t : CompsTotals) : t.sum (SharedVariablesData.skipGroups s ++
    SharedVariablesData.ownGroups s) .cv = t.cvStart s + t.cv s := by
  simp [CompsTotals.sum, CompsTotals.cvStart, CompsTotals.cv, SharedVariablesData.sumTotals]

theorem CompsTotals.cvEnd_le (t : CompsTotals) : t.cvStart s + t.cv s ≤ t.acv := by
  rw [← t.sum_skip_own]
  have hsum (g : VarGroup) (gs : List VarGroup) : t.sum (g :: gs) .cv = t g .cv + t.sum gs .cv :=
    rfl
  have hnil : t.sum [] .cv = 0 := rfl
  cases s <;>
    simp only [CompsTotals.acv, SharedVariablesData.allGroups, SharedVariablesData.skipGroups,
      SharedVariablesData.ownGroups, List.nil_append, List.cons_append, hsum, hnil] <;> omega

theorem extends_addCv {g : VarGroup} (hskip : g ∉ SharedVariablesData.skipGroups s)
    (hown : g ∈ SharedVariablesData.ownGroups s) :
    Extends vcTotals (vcTotals.addCv g numHyper) s numHyper where
  cvStart_eq := sum_addCv_of_notMem hskip
  cv_eq := sum_addCv (by cases s <;> decide) hown
  acv_eq := sum_addCv (by decide) (by cases g <;> decide)

variable (vcTotals) in
theorem exists_recastTotals (h : s ≠ .design ∨ numHyper = 0) :
    ∃ recast, recastTotals vcTotals (.mixed s) numHyper = some recast ∧
      Extends vcTotals recast s numHyper := by
  rcases Nat.eq_zero_or_pos numHyper with rfl | hpos
  · exact ⟨vcTotals, by simp [recastTotals, variablesExpand], rfl, rfl, rfl⟩
  · obtain ⟨g, gs, gs', hidx, -, hskip, hown, -⟩ := exists_groups (h.resolve_right (by omega))
    exact ⟨vcTotals.addCv g numHyper, by simp [recastTotals, variablesExpand, hpos, hidx],
      extends_addCv hskip hown⟩

variable {sm hyper dtm : List (ContinuousEntry K)}

/-- The one place that all the routines agree on: after the active entries. -/
theorem Extends.trails (h : Extends vcTotals recast s numHyper) (hsm : sm.length = vcTotals.acv)
    (hhyper : hyper.length = numHyper) :
    Trails vcTotals recast s sm hyper (sm.take (vcTotals.cvStart s + vcTotals.cv s) ++ hyper ++
      sm.drop (vcTotals.cvStart s + vcTotals.cv s)) := by
  have hle := vcTotals.cvEnd_le (s := s)
  have htake : (sm.take (vcTotals.cvStart s + vcTotals.cv s)).length =
      vcTotals.cvStart s + vcTotals.cv s := List.length_take_of_le (by omega)
  have hbefore : (sm.take (vcTotals.cvStart s)).length = vcTotals.cvStart s :=
    List.length_take_of_le (by omega)
  have hactive := length_take_drop (by omega : vcTotals.cvStart s + vcTotals.cv s ≤ sm.length)
  have hsplit : sm.take (vcTotals.cvStart s + vcTotals.cv s) ++ hyper ++
      sm.drop (vcTotals.cvStart s + vcTotals.cv s) = sm.take (vcTotals.cvStart s) ++
        ((activeEntries vcTotals s sm ++ hyper) ++
          sm.drop (vcTotals.cvStart s + vcTotals.cv s)) := by
    rw [List.take_add, activeEntries]
    simp only [List.append_assoc]
  have hblock : (activeEntries vcTotals s sm ++ hyper).length = recast.cv s := by
    rw [List.length_append, h.cv_eq, activeEntries, hactive, hhyper]
  constructor
  · rw [h.acv_eq, List.length_append, List.length_append, htake, List.length_drop]
    omega
  · rw [hsplit, h.cvStart_eq]
    exact List.take_left' hbefore
  · rw [hsplit, activeEntries, h.cvStart_eq, List.drop_left' hbefore, List.take_left' hblock]
  · rw [hsplit, ← List.append_assoc, h.cvStart_eq]
    exact List.drop_left' (by rw [List.length_append, hbefore, hblock])

theorem updateCvSkipHyperparams_eq (h : Extends vcTotals recast s numHyper)
    (hsm : sm.length = vcTotals.acv) (hdtm : dtm.length = recast.acv) :
    updateCvSkipHyperparams vcTotals s numHyper sm dtm =
      some (sm.take (vcTotals.cvStart s + vcTotals.cv s) ++
        (activeEntries recast s dtm).drop (vcTotals.cv s) ++
          sm.drop (vcTotals.cvStart s + vcTotals.cv s)) := by
  have hle := vcTotals.cvEnd_le (s := s)
  have hacv := h.acv_eq
  have hfirst : copyInto sm 0 dtm 0 (vcTotals.cvStart s + vcTotals.cv s) =
      some (sm.take (vcTotals.cvStart s + vcTotals.cv s) ++
        dtm.drop (vcTotals.cvStart s + vcTotals.cv s)) :=
    copyInto_length [] (by omega) (by omega)
  have hmid : (activeEntries recast s dtm).drop (vcTotals.cv s) =
      (dtm.drop (vcTotals.cvStart s + vcTotals.cv s)).take numHyper := by
    rw [activeEntries, h.cvStart_eq, h.cv_eq, List.drop_take, List.drop_drop,
      Nat.add_sub_cancel_left]
  have hsplit : sm.take (vcTotals.cvStart s + vcTotals.cv s) ++
      dtm.drop (vcTotals.cvStart s + vcTotals.cv s) =
        sm.take (vcTotals.cvStart s + vcTotals.cv s) ++
          (activeEntries recast s dtm).drop (vcTotals.cv s) ++
            dtm.drop (vcTotals.cvStart s + vcTotals.cv s + numHyper) := by
    rw [hmid, List.append_assoc, ← List.drop_drop (i := numHyper), List.take_append_drop]
  have hlen : (sm.take (vcTotals.cvStart s + vcTotals.cv s) ++
      (activeEntries recast s dtm).drop (vcTotals.cv s)).length =
        numHyper + (vcTotals.cvStart s + vcTotals.cv s) := by
    rw [hmid, List.length_append, List.length_take, List.length_take, List.length_drop]
    omega
  have hrest : vcTotals.acv - (vcTotals.cvStart s + vcTotals.cv s) =
      (dtm.drop (vcTotals.cvStart s + vcTotals.cv s + numHyper)).length := by
    rw [List.length_drop]
    omega
  have hall : (sm.drop (vcTotals.cvStart s + vcTotals.cv s)).take
      (vcTotals.acv - (vcTotals.cvStart s + vcTotals.cv s)) =
        sm.drop (vcTotals.cvStart s + vcTotals.cv s) :=
    List.take_of_length_le (by rw [List.length_drop, hsm])
  simp only [updateCvSkipHyperparams, hfirst, Option.bind_eq_bind, Option.bind_some]
  rw [hsplit, ← hlen, copyInto_length _ (by omega) hrest.le, hall, hrest, List.drop_length,
    List.append_nil]

end Totals

/-! ## Agreement -/

section Aligned

variable [Zero K] [One K] [Top K] {vcTotals recast : CompsTotals} {s : ViewSubset}
  {hyperLabels : List String}

theorem Extends.aligned (h : Extends vcTotals recast s hyperLabels.length)
    (hs : s ≠ .design ∨ hyperLabels = []) :
    Aligned (K := K) vcTotals recast s hyperLabels where
  init := by
    intro sm dtm₀ hsm hdtm
    refine ⟨_, ?_, h.trails hsm (List.length_map _)⟩
    have hlen := hdtm.trans h.acv_eq
    rcases hs with hs | rfl
    · obtain ⟨g, gs, gs', hidx, hgroups, -, -, hsum⟩ := exists_groups hs
      rw [initContinuousVars_eq hidx hgroups hsm hlen, hsum, CompsTotals.sum_skip_own]
    · obtain ⟨g, gs, gs', hidx, hgroups⟩ : ∃ g gs gs', getHyperparamVcIndex (.mixed s) = some g ∧
          SharedVariablesData.allGroups = gs ++ g :: gs' := by
        rcases eq_or_ne s .design with rfl | hs
        · exact ⟨_, [.design], _, rfl, rfl⟩
        · obtain ⟨g, gs, gs', hidx, hgroups, -⟩ := exists_groups hs
          exact ⟨g, gs, gs', hidx, hgroups⟩
      rw [initContinuousVars_eq hidx hgroups hsm hlen]
      simp
  update := by
    intro sm dtm hsm hdtm
    refine ⟨_, updateCvSkipHyperparams_eq h hsm hdtm, h.trails hsm ?_⟩
    have hle := recast.cvEnd_le (s := s)
    rw [activeEntries, List.length_drop, length_take_drop (by omega), h.cv_eq,
      Nat.add_sub_cancel_left]
  mapping := by
    intro sm hyper dtm hsm htrails vars hvars
    have hle := vcTotals.cvEnd_le (s := s)
    have hlen : (activeEntries vcTotals s sm).length = vcTotals.cv s :=
      length_take_drop (by omega)
    rw [htrails.active, List.map_append] at hvars
    rw [varsMapping, if_pos (by simp [hvars, hlen]), hvars,
      List.take_left' (by rw [List.length_map, hlen])]

/-- The number of design variables does not grow. -/
theorem cv_of_design (hrecast : recastTotals vcTotals (.mixed .design) hyperLabels.length =
    some recast) (hne : hyperLabels ≠ []) : recast.cv .design = vcTotals.cv .design := by
  have hpos := List.length_pos_of_ne_nil hne
  simp only [recastTotals, variablesExpand, if_pos hpos, getHyperparamVcIndex] at hrecast
  obtain rfl : vcTotals.addCv .aleatoryUncertain hyperLabels.length = recast := by
    simpa using hrecast
  exact sum_addCv_of_notMem (by decide)

theorem not_aligned_design (hne : hyperLabels ≠ []) :
    ¬ HyperparamsAligned K vcTotals .design hyperLabels := by
  rintro ⟨recast, hrecast, haligned⟩
  obtain ⟨dtm, -, htrails⟩ := haligned.init (List.replicate vcTotals.acv (hyperparamEntry ""))
    (List.replicate recast.acv (hyperparamEntry "")) (List.length_replicate ..)
    (List.length_replicate ..)
  have hactive := congrArg List.length htrails.active
  have hle := recast.cvEnd_le (s := .design)
  have hle' := vcTotals.cvEnd_le (s := .design)
  rw [activeEntries, activeEntries, List.length_append, length_take_drop (htrails.length_eq ▸ hle),
    length_take_drop (by rwa [List.length_replicate]), cv_of_design hrecast hne,
    List.length_map] at hactive
  have hpos := List.length_pos_of_ne_nil hne
  omega

/-- The hyper-parameters are where the variable mapping expects them if and only if the active view
is not the one of the design variables, or there are none. -/
theorem hyperparamsAligned_iff (vcTotals : CompsTotals) (s : ViewSubset)
    (hyperLabels : List String) :
    HyperparamsAligned K vcTotals s hyperLabels ↔ s ≠ .design ∨ hyperLabels = [] := by
  constructor
  · intro h
    by_contra hcon
    obtain ⟨rfl, hne⟩ : s = .design ∧ hyperLabels ≠ [] := by simpa using hcon
    exact not_aligned_design hne h
  · intro h
    obtain ⟨recast, hrecast, hext⟩ := exists_recastTotals vcTotals
      (h.imp_right List.length_eq_zero_iff.mpr)
    exact ⟨recast, hrecast, hext.aligned h⟩

end Aligned

/-- One variable in each group. -/
def oneOfEach : CompsTotals := fun _ => counts 1 0 0 0

/-- With active design variables the multiplier is the third variable of four, an inactive one. -/
theorem not_hyperparamsAligned_design :
    ¬ HyperparamsAligned (WithTop ℚ) oneOfEach .design ["CovMult"] :=
  not_aligned_design (List.cons_ne_nil _ _)

end Dakota
