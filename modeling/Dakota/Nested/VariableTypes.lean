import Dakota.Variables.AllOrder

/-!
# Types of variables

`variablesComponents`, `components_to_totals` and `initialize_all_types`
(`src/src/SharedVariablesData.cpp`): the number of variables of each type, and the types of the
variables in each array.

* `typedSlots`: the variables in the order of the specification, each with its array and its type.
* `types_group`, `types_sorted`: in each array the groups stand as in the order of all variables, and
  the types in the order of their enumeration.
-/

namespace Dakota

/-- `CONTINUOUS_DESIGN`, ... -/
inductive VarType where
  | continuousDesign
  | discreteDesignRange
  | discreteDesignSetInt
  | discreteDesignSetString
  | discreteDesignSetReal
  | normalUncertain
  | lognormalUncertain
  | uniformUncertain
  | loguniformUncertain
  | triangularUncertain
  | exponentialUncertain
  | betaUncertain
  | gammaUncertain
  | gumbelUncertain
  | frechetUncertain
  | weibullUncertain
  | histogramBinUncertain
  | poissonUncertain
  | binomialUncertain
  | negativeBinomialUncertain
  | geometricUncertain
  | hypergeometricUncertain
  | histogramPointUncertainInt
  | histogramPointUncertainString
  | histogramPointUncertainReal
  | continuousIntervalUncertain
  | discreteIntervalUncertain
  | discreteUncertainSetInt
  | discreteUncertainSetString
  | discreteUncertainSetReal
  | continuousState
  | discreteStateRange
  | discreteStateSetInt
  | discreteStateSetString
  | discreteStateSetReal
deriving DecidableEq, Repr

namespace VarType

/-- The types of a total, in the order of the enumeration. -/
def ofTotal : VarGroup → VarDomain → List VarType
  | .design, .cv => [continuousDesign]
  | .design, .div => [discreteDesignRange, discreteDesignSetInt]
  | .design, .dsv => [discreteDesignSetString]
  | .design, .drv => [discreteDesignSetReal]
  | .aleatoryUncertain, .cv => [normalUncertain, lognormalUncertain, uniformUncertain,
      loguniformUncertain, triangularUncertain, exponentialUncertain, betaUncertain, gammaUncertain,
      gumbelUncertain, frechetUncertain, weibullUncertain, histogramBinUncertain]
  | .aleatoryUncertain, .div => [poissonUncertain, binomialUncertain, negativeBinomialUncertain,
      geometricUncertain, hypergeometricUncertain, histogramPointUncertainInt]
  | .aleatoryUncertain, .dsv => [histogramPointUncertainString]
  | .aleatoryUncertain, .drv => [histogramPointUncertainReal]
  | .epistemicUncertain, .cv => [continuousIntervalUncertain]
  | .epistemicUncertain, .div => [discreteIntervalUncertain, discreteUncertainSetInt]
  | .epistemicUncertain, .dsv => [discreteUncertainSetString]
  | .epistemicUncertain, .drv => [discreteUncertainSetReal]
  | .state, .cv => [continuousState]
  | .state, .div => [discreteStateRange, discreteStateSetInt]
  | .state, .dsv => [discreteStateSetString]
  | .state, .drv => [discreteStateSetReal]

/-- The types of a group. -/
def ofGroup (g : VarGroup) : List VarType :=
  ofTotal g .cv ++ ofTotal g .div ++ ofTotal g .dsv ++ ofTotal g .drv

/-- All types, in the order of the enumeration. -/
def all : List VarType := SharedVariablesData.allGroups.flatMap ofGroup

/-- The number of a type in the enumeration. -/
def code (t : VarType) : Nat := all.idxOf t + 1

/-- The variables that a type is for. -/
def group (t : VarType) : VarGroup :=
  if t ∈ ofGroup .design then .design
  else if t ∈ ofGroup .aleatoryUncertain then .aleatoryUncertain
  else if t ∈ ofGroup .epistemicUncertain then .epistemicUncertain
  else .state

theorem mem_all (t : VarType) : t ∈ all := by cases t <;> decide

theorem code_injective {s t : VarType} (h : s.code = t.code) : s = t :=
  (List.idxOf_inj (mem_all s)).mp (Nat.succ.inj h)

theorem pairwise_all : all.Pairwise fun s t => s.code < t.code := by decide

theorem group_of_mem {g : VarGroup} {d : VarDomain} : ∀ t ∈ ofTotal g d, t.group = g := by
  cases g <;> cases d <;> decide

end VarType

/-- A specification of variables, with the active view. Nothing is relaxed for a mixed view
(`relax_noncategorical`). -/
structure VariablesSpec where
  variablesComponents : VarType → Nat
  svd : SharedVariablesData
  view : View
  /-- `components_to_totals` -/
  totals_eq : ∀ g d, svd.variablesCompsTotals g d =
    ((VarType.ofTotal g d).map variablesComponents).sum
  view_ne : view ≠ .emptyView
  not_relaxed : ∀ s, view = .mixed s → svd.anyRelaxed = false

namespace VariablesSpec

variable (spec : VariablesSpec)

/-- The variables of a total, by type. -/
def typesOf (g : VarGroup) (d : VarDomain) : List VarType :=
  (VarType.ofTotal g d).flatMap fun t => List.replicate (spec.variablesComponents t) t

/-- The variables of a group with their arrays and types, if its bits start at `offsetDi` and
`offsetDr`. -/
def groupTypedSlots (offsetDi offsetDr : Nat) (g : VarGroup) : List (VarDomain × VarType) :=
  (spec.typesOf g .cv).map (fun t => (.cv, t)) ++
    List.zipWith (fun t relax => (SharedVariablesData.relaxTo .div relax, t)) (spec.typesOf g .div)
      (SharedVariablesData.relaxBits spec.svd.allRelaxedDiscreteInt offsetDi
        (spec.svd.variablesCompsTotals g .div)) ++
    (spec.typesOf g .dsv).map (fun t => (.dsv, t)) ++
    List.zipWith (fun t relax => (SharedVariablesData.relaxTo .drv relax, t)) (spec.typesOf g .drv)
      (SharedVariablesData.relaxBits spec.svd.allRelaxedDiscreteReal offsetDr
        (spec.svd.variablesCompsTotals g .drv))

/-- The same for a group behind those before it. -/
def slotsOfGroup (g : VarGroup) : List (VarDomain × VarType) :=
  spec.groupTypedSlots (spec.svd.sumTotals (SharedVariablesData.groupsBefore g) .div)
    (spec.svd.sumTotals (SharedVariablesData.groupsBefore g) .drv) g

def typedSlots : List (VarDomain × VarType) :=
  SharedVariablesData.allGroups.flatMap spec.slotsOfGroup

/-- `allContinuousTypes`, `allDiscreteIntTypes`, ... of `initialize_all_types` -/
def types (d : VarDomain) : List VarType := (spec.typedSlots.filter fun p => p.1 = d).map Prod.snd

/-- What the active view selects. -/
def subset : ViewSubset :=
  match spec.view with
  | .emptyView => .all
  | .relaxed s => s
  | .mixed s => s

/-- Whether the variables of a type are active. -/
def isActive (t : VarType) : Bool := t.group ∈ SharedVariablesData.ownGroups spec.subset

/-- The positions in an array of the variables that are not active. -/
def complementPositions (d : VarDomain) : List Nat :=
  (spec.types d).findIdxs fun t => !spec.isActive t

variable {spec} {g : VarGroup} {d : VarDomain}

theorem length_typesOf : (spec.typesOf g d).length = spec.svd.variablesCompsTotals g d := by
  rw [typesOf, List.length_flatMap, spec.totals_eq]
  simp only [List.length_replicate]

theorem map_fst_groupTypedSlots (offsetDi offsetDr : Nat) (g : VarGroup) :
    (spec.groupTypedSlots offsetDi offsetDr g).map Prod.fst =
      spec.svd.groupSlots offsetDi offsetDr g := by
  have hzip {d : VarDomain} {bits : List Bool} {offset : Nat} :
      (List.zipWith (fun t relax => (SharedVariablesData.relaxTo d relax, t)) (spec.typesOf g d)
        (SharedVariablesData.relaxBits bits offset (spec.svd.variablesCompsTotals g d))).map
          Prod.fst = (SharedVariablesData.relaxBits bits offset
            (spec.svd.variablesCompsTotals g d)).map (SharedVariablesData.relaxTo d) := by
    rw [List.map_zipWith]
    apply List.ext_getElem
    · simp [SharedVariablesData.relaxBits, length_typesOf]
    · intro i h₁ h₂
      simp
  unfold groupTypedSlots SharedVariablesData.groupSlots
  simp only [List.map_append, List.map_map, hzip]
  simp [Function.comp_def, length_typesOf]

theorem map_snd_groupTypedSlots (offsetDi offsetDr : Nat) (g : VarGroup) :
    (spec.groupTypedSlots offsetDi offsetDr g).map Prod.snd = (VarType.ofGroup g).flatMap fun t =>
      List.replicate (spec.variablesComponents t) t := by
  have hzip {d : VarDomain} {bits : List Bool} {offset : Nat} :
      (List.zipWith (fun t relax => (SharedVariablesData.relaxTo d relax, t)) (spec.typesOf g d)
        (SharedVariablesData.relaxBits bits offset (spec.svd.variablesCompsTotals g d))).map
          Prod.snd = spec.typesOf g d := by
    rw [List.map_zipWith]
    apply List.ext_getElem
    · simp [SharedVariablesData.relaxBits, length_typesOf]
    · intro i h₁ h₂
      simp
  unfold groupTypedSlots VarType.ofGroup
  simp only [List.map_append, List.map_map, hzip, List.flatMap_append]
  simp [Function.comp_def, typesOf]

theorem map_snd_typedSlots : spec.typedSlots.map Prod.snd = VarType.all.flatMap fun t =>
    List.replicate (spec.variablesComponents t) t := by
  rw [typedSlots, List.map_flatMap, VarType.all, List.flatMap_assoc]
  simp only [slotsOfGroup, map_snd_groupTypedSlots]

/-- In each array the types stand in the order of their enumeration. -/
theorem types_sorted (d : VarDomain) : (spec.types d).Pairwise fun s t => s.code ≤ t.code := by
  have hall : (spec.typedSlots.map Prod.snd).Pairwise fun s t => s.code ≤ t.code := by
    rw [map_snd_typedSlots, List.pairwise_flatMap]
    refine ⟨fun t _ => List.pairwise_replicate.mpr (.inr le_rfl), ?_⟩
    refine VarType.pairwise_all.imp fun {s t} hst x hx y hy => ?_
    obtain rfl := (List.mem_replicate.mp hx).2
    obtain rfl := (List.mem_replicate.mp hy).2
    exact hst.le
  rw [List.pairwise_map] at hall
  exact List.pairwise_map.mpr (hall.filter _)

/-- In each array the groups stand as in the order of all variables. -/
theorem types_group (spec : VariablesSpec) (d : VarDomain) : (spec.types d).map VarType.group =
    SharedVariablesData.allGroups.flatMap fun g =>
      List.replicate (spec.svd.groupCounts g d) g := by
  unfold types typedSlots
  rw [List.filter_flatMap, List.map_flatMap, List.map_flatMap]
  congr 1
  funext g
  rw [List.eq_replicate_iff]
  constructor
  · rw [List.length_map, List.length_map, ← List.countP_eq_length_filter]
    rw [SharedVariablesData.groupCounts, SharedVariablesData.slotsAfter,
      SharedVariablesData.slotsFrom, SharedVariablesData.slotsFrom, List.append_nil,
      ← map_fst_groupTypedSlots, List.count, List.countP_map]
    exact List.countP_congr fun x _ => by simp
  · intro x hx
    obtain ⟨t, ht, rfl⟩ := List.mem_map.mp hx
    obtain ⟨p, hp, rfl⟩ := List.mem_map.mp ht
    have hmem : p.2 ∈ (spec.slotsOfGroup g).map Prod.snd :=
      List.mem_map.mpr ⟨p, (List.mem_filter.mp hp).1, rfl⟩
    rw [slotsOfGroup, map_snd_groupTypedSlots] at hmem
    obtain ⟨t, ht, hpt⟩ := List.mem_flatMap.mp hmem
    rw [(List.mem_replicate.mp hpt).2]
    simp only [VarType.ofGroup, List.mem_append] at ht
    rcases ht with ((h | h) | h) | h <;> exact VarType.group_of_mem t h

/-! ## The slice of the active view -/

section

open SharedVariablesData

/-- The groups after those that a view selects. -/
def afterGroups : ViewSubset → List VarGroup
  | .all => []
  | .design => [.aleatoryUncertain, .epistemicUncertain, .state]
  | .uncertain => [.state]
  | .aleatoryUncertain => [.epistemicUncertain, .state]
  | .epistemicUncertain => [.state]
  | .state => []

theorem allGroups_eq (s : ViewSubset) :
    allGroups = skipGroups s ++ ownGroups s ++ afterGroups s := by
  cases s <;> rfl

theorem count_slotsAfter_cons (svd : SharedVariablesData) (skip own : List VarGroup)
    (g : VarGroup) (d : VarDomain) : (svd.slotsAfter skip (g :: own)).count d =
      (svd.slotsAfter skip [g]).count d + (svd.slotsAfter (skip ++ [g]) own).count d := by
  rw [← List.count_append, ← slotsAfter_append]
  rfl

/-- The slice of a view stands behind the groups before it and has those that it selects. -/
theorem viewSlice_eq (svd : SharedVariablesData) (s : ViewSubset) (d : VarDomain) :
    (svd.viewSlice s).start d = ((skipGroups s).map fun g => svd.groupCounts g d).sum ∧
      (svd.viewSlice s).num d = ((ownGroups s).map fun g => svd.groupCounts g d).sum := by
  have hnil (skip : List VarGroup) : (svd.slotsAfter skip []).count d = 0 := rfl
  cases s <;>
    simp [viewSlice, skipGroups, ownGroups, allGroups, groupCounts, groupsBefore, hnil,
      count_slotsAfter_cons svd _ (_ :: _)]

/-- The variables of groups that have the same flag. -/
theorem map_flatMap_replicate {f : VarGroup → Bool} {b : Bool} {num : VarGroup → Nat}
    {gs : List VarGroup} (h : ∀ g ∈ gs, f g = b) :
    (gs.flatMap fun g => List.replicate (num g) g).map f = List.replicate (gs.map num).sum b := by
  induction gs with
  | nil => rfl
  | cons g gs ih =>
    rw [List.flatMap_cons, List.map_append, List.map_replicate, h g List.mem_cons_self,
      ih fun a ha => h a (List.mem_cons_of_mem g ha), List.map_cons, List.sum_cons,
      List.replicate_add]

/-- The active variables of an array are a slice. -/
theorem types_isActive (spec : VariablesSpec) (d : VarDomain) : ∃ rest, (spec.types d).map spec.isActive =
    List.replicate ((spec.svd.viewSlice spec.subset).start d) false ++
      List.replicate ((spec.svd.viewSlice spec.subset).num d) true ++
      List.replicate rest false := by
  have hmap : (spec.types d).map spec.isActive = ((spec.types d).map VarType.group).map
      fun g => decide (g ∈ ownGroups spec.subset) := by
    rw [List.map_map]
    rfl
  have hskip : ∀ g ∈ skipGroups spec.subset, decide (g ∈ ownGroups spec.subset) = false := by
    cases spec.subset <;> decide
  have hown : ∀ g ∈ ownGroups spec.subset, decide (g ∈ ownGroups spec.subset) = true := by
    intro g hg
    exact decide_eq_true hg
  have hafter : ∀ g ∈ afterGroups spec.subset, decide (g ∈ ownGroups spec.subset) = false := by
    cases spec.subset <;> decide
  refine ⟨((afterGroups spec.subset).map fun g => spec.svd.groupCounts g d).sum, ?_⟩
  rw [hmap, types_group, allGroups_eq spec.subset, List.flatMap_append, List.flatMap_append,
    List.map_append, List.map_append, map_flatMap_replicate hskip, map_flatMap_replicate hown,
    map_flatMap_replicate hafter, (viewSlice_eq spec.svd spec.subset d).1,
    (viewSlice_eq spec.svd spec.subset d).2]

theorem selects_eq (g : VarGroup) (d : VarDomain) :
    spec.view.subsets.selects g d = decide (g ∈ ownGroups spec.subset) := by
  have hne := spec.view_ne
  unfold subset
  cases hv : spec.view with
  | emptyView => exact absurd hv hne
  | relaxed s => cases s <;> cases g <;> cases d <;> rfl
  | mixed s => cases s <;> cases g <;> cases d <;> rfl

/-- The variables of an array in the order of all variables. -/
theorem filter_allOrder (d : VarDomain) :
    (spec.svd.allOrder.filter fun x => x.2 = d).map Prod.fst =
      (spec.types d).map VarType.group := by
  have hgroup (g : VarGroup) : ((spec.svd.groupOrder g).filter fun x => x.2 = d).map Prod.fst =
      List.replicate (spec.svd.groupCounts g d) g := by
    cases d <;> simp [groupOrder]
  rw [types_group, allOrder, List.filter_flatMap, List.map_flatMap]
  simp only [hgroup]

/-- The maps of complement indices are the positions of the complement, except the one of discrete
int variables. -/
theorem complementIndexToDomainIndex_positions (hd : d ≠ .div) (i : Nat) :
    spec.svd.complementIndexToDomainIndex spec.view.subsets.complement d i =
      (spec.complementPositions d)[i]? := by
  have hselects : (spec.svd.allOrder.filter fun x => x.2 = d).findIdxs
      (fun x => spec.view.subsets.complement.selects x.1 x.2) =
        ((spec.svd.allOrder.filter fun x => x.2 = d).map Prod.fst).findIdxs
          fun g => !decide (g ∈ ownGroups spec.subset) := by
    rw [List.findIdxs_map]
    refine List.findIdxs_congr fun x _ => ?_
    rw [Subsets.selects_complement, selects_eq]
    rfl
  rw [complementIndexToDomainIndex_eq _ hd, hselects, filter_allOrder, List.findIdxs_map]
  rfl

theorem length_types (d : VarDomain) : (spec.types d).length = spec.svd.slots.count d := by
  have h := congrArg List.length (types_group spec d)
  rw [List.length_map] at h
  rw [h, count_slots]
  simp [allGroups]
  omega

end

end VariablesSpec

end Dakota
