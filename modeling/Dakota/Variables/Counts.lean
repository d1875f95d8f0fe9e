import Dakota.Lib.Numerals
import Mathlib

/-!
# Counts of the variables

`SharedVariablesDataRep` (`src/src/SharedVariablesData.hpp`, `src/src/SharedVariablesData.cpp`): the
totals of the specification, the bits of the discrete variables that are relaxed to continuous ones,
and the counts and starts that are computed from them.

* A count is `none` where a subtraction of two `size_t` wraps around.
* `slots`: the arrays that the variables of a group are in, in the order of the specification. The
  counts of a group count its slots (`groupCounts_eq`).
-/

namespace Dakota

/-- The rows of `variablesCompsTotals`. -/
inductive VarGroup where
  | design
  | aleatoryUncertain
  | epistemicUncertain
  | state
deriving DecidableEq, Repr

/-- The columns of `variablesCompsTotals`, and the arrays of the variables: continuous, discrete
int, discrete string, discrete real. -/
inductive VarDomain where
  | cv
  | div
  | dsv
  | drv
deriving DecidableEq, Repr

/-- A number for each of `num_cv`, `num_div`, `num_dsv`, `num_drv`. -/
abbrev Counts := VarDomain → Nat

def counts (numCv numDiv numDsv numDrv : Nat) : Counts
  | .cv => numCv
  | .div => numDiv
  | .dsv => numDsv
  | .drv => numDrv

/-- What a view selects. -/
inductive ViewSubset where
  | all
  | design
  | uncertain
  | aleatoryUncertain
  | epistemicUncertain
  | state
deriving DecidableEq, Repr

/-- `EMPTY_VIEW`, `RELAXED_ALL`, `MIXED_ALL`, ... -/
inductive View where
  | emptyView
  | relaxed (subset : ViewSubset)
  | mixed (subset : ViewSubset)
deriving DecidableEq, Repr

structure SharedVariablesData where
  variablesCompsTotals : VarGroup → Counts
  allRelaxedDiscreteInt : List Bool
  allRelaxedDiscreteReal : List Bool
  /-- `container will be empty when not relaxing variables` -/
  int_length : allRelaxedDiscreteInt = [] ∨ allRelaxedDiscreteInt.length =
    variablesCompsTotals .design .div + variablesCompsTotals .aleatoryUncertain .div +
      variablesCompsTotals .epistemicUncertain .div + variablesCompsTotals .state .div
  real_length : allRelaxedDiscreteReal = [] ∨ allRelaxedDiscreteReal.length =
    variablesCompsTotals .design .drv + variablesCompsTotals .aleatoryUncertain .drv +
      variablesCompsTotals .epistemicUncertain .drv + variablesCompsTotals .state .drv

/-- A subtraction of two `size_t`, unless it wraps around. -/
def sizeSub (a b : Nat) : Option Nat := if b ≤ a then some (a - b) else none

/-- The number of set bits with indices in `[offset, offset + n)`. -/
def countRelaxed (bits : List Bool) (offset n : Nat) : Nat :=
  (List.range' offset n).countP fun i => bits.getD i false

/-- Starts and counts of a view. -/
structure StartCounts where
  start : Counts
  num : Counts

namespace SharedVariablesData

variable (svd : SharedVariablesData)

/-- The total of some groups. -/
def sumTotals (groups : List VarGroup) : Counts :=
  fun d => (groups.map fun g => svd.variablesCompsTotals g d).sum

def allGroups : List VarGroup := [.design, .aleatoryUncertain, .epistemicUncertain, .state]

/-- `allRelaxedDiscreteInt.any() || allRelaxedDiscreteReal.any()` -/
def anyRelaxed : Bool := svd.allRelaxedDiscreteInt.any id || svd.allRelaxedDiscreteReal.any id

/-- `all_counts` -/
def allCounts : Option Counts :=
  let num := svd.sumTotals allGroups
  if svd.anyRelaxed then do
    let numRelaxInt := svd.allRelaxedDiscreteInt.count true
    let numRelaxReal := svd.allRelaxedDiscreteReal.count true
    let numAdiv ← sizeSub (num .div) numRelaxInt
    let numAdrv ← sizeSub (num .drv) numRelaxReal
    return counts (num .cv + (numRelaxInt + numRelaxReal)) numAdiv (num .dsv) numAdrv
  else some num

/-- `relax_counts` -/
def relaxCounts (num : Counts) (offsetDi offsetDr : Nat) : Option Counts := do
  let numRelaxInt := countRelaxed svd.allRelaxedDiscreteInt offsetDi (num .div)
  let numRelaxReal := countRelaxed svd.allRelaxedDiscreteReal offsetDr (num .drv)
  let numDiv ← sizeSub (num .div) numRelaxInt
  let numDrv ← sizeSub (num .drv) numRelaxReal
  return counts (num .cv + (numRelaxInt + numRelaxReal)) numDiv (num .dsv) numDrv

/-- The counts of `own` groups that stand after the groups `skip`. -/
def countsAfter (skip own : List VarGroup) : Option Counts :=
  let num := svd.sumTotals own
  if svd.anyRelaxed then svd.relaxCounts num (svd.sumTotals skip .div) (svd.sumTotals skip .drv)
  else some num

/-- `design_counts` -/
def designCounts : Option Counts := svd.countsAfter [] [.design]

/-- `aleatory_uncertain_counts` -/
def aleatoryUncertainCounts : Option Counts := svd.countsAfter [.design] [.aleatoryUncertain]

/-- `epistemic_uncertain_counts` -/
def epistemicUncertainCounts : Option Counts :=
  svd.countsAfter [.design, .aleatoryUncertain] [.epistemicUncertain]

/-- `uncertain_counts` -/
def uncertainCounts : Option Counts :=
  svd.countsAfter [.design] [.aleatoryUncertain, .epistemicUncertain]

/-- `state_counts` -/
def stateCounts : Option Counts :=
  svd.countsAfter [.design, .aleatoryUncertain, .epistemicUncertain] [.state]

/-- A case `MIXED_...` of `view_start_counts`. -/
def mixedStartCounts (skip own : List VarGroup) : Option StartCounts :=
  some ⟨svd.sumTotals skip, svd.sumTotals own⟩

/-- A case `RELAXED_...` of `view_start_counts`. -/
def relaxedStartCounts (skip own : List VarGroup) : Option StartCounts := do
  let start := svd.sumTotals skip
  let num := svd.sumTotals own
  let startRelaxDi := countRelaxed svd.allRelaxedDiscreteInt 0 (start .div)
  let countRelaxDi := countRelaxed svd.allRelaxedDiscreteInt (start .div) (num .div)
  let startRelaxDr := countRelaxed svd.allRelaxedDiscreteReal 0 (start .drv)
  let countRelaxDr := countRelaxed svd.allRelaxedDiscreteReal (start .drv) (num .drv)
  let divStart ← sizeSub (start .div) startRelaxDi
  let drvStart ← sizeSub (start .drv) startRelaxDr
  let numDiv ← sizeSub (num .div) countRelaxDi
  let numDrv ← sizeSub (num .drv) countRelaxDr
  return {
    start := counts (start .cv + startRelaxDi + startRelaxDr) divStart (start .dsv) drvStart
    num := counts (num .cv + countRelaxDi + countRelaxDr) numDiv (num .dsv) numDrv }

/-- The case `RELAXED_ALL` of `view_start_counts`: its loops end with the design variables. -/
def relaxedAllStartCounts : Option StartCounts := do
  let num := svd.sumTotals allGroups
  let countRelaxDi :=
    countRelaxed svd.allRelaxedDiscreteInt 0 (svd.variablesCompsTotals .design .div)
  let countRelaxDr :=
    countRelaxed svd.allRelaxedDiscreteReal 0 (svd.variablesCompsTotals .design .drv)
  let numDiv ← sizeSub (num .div) countRelaxDi
  let numDrv ← sizeSub (num .drv) countRelaxDr
  return {
    start := fun _ => 0
    num := counts (num .cv + countRelaxDi + countRelaxDr) numDiv (num .dsv) numDrv }

/-- `view_start_counts` -/
def viewStartCounts : View → Option StartCounts
  | .emptyView => some ⟨fun _ => 0, fun _ => 0⟩
  | .mixed .all => svd.mixedStartCounts [] allGroups
  | .mixed .design => svd.mixedStartCounts [] [.design]
  | .mixed .aleatoryUncertain => svd.mixedStartCounts [.design] [.aleatoryUncertain]
  | .mixed .epistemicUncertain =>
    svd.mixedStartCounts [.design, .aleatoryUncertain] [.epistemicUncertain]
  | .mixed .uncertain => svd.mixedStartCounts [.design] [.aleatoryUncertain, .epistemicUncertain]
  | .mixed .state =>
    svd.mixedStartCounts [.design, .aleatoryUncertain, .epistemicUncertain] [.state]
  | .relaxed .all => svd.relaxedAllStartCounts
  | .relaxed .design => svd.relaxedStartCounts [] [.design]
  | .relaxed .aleatoryUncertain => svd.relaxedStartCounts [.design] [.aleatoryUncertain]
  | .relaxed .epistemicUncertain =>
    svd.relaxedStartCounts [.design, .aleatoryUncertain] [.epistemicUncertain]
  | .relaxed .uncertain =>
    svd.relaxedStartCounts [.design] [.aleatoryUncertain, .epistemicUncertain]
  | .relaxed .state =>
    svd.relaxedStartCounts [.design, .aleatoryUncertain, .epistemicUncertain] [.state]

/-! ## Slots -/

/-- The array that a discrete variable of domain `d` is in. -/
def relaxTo (d : VarDomain) (relax : Bool) : VarDomain := if relax then .cv else d

/-- The bits with indices in `[offset, offset + n)`. -/
def relaxBits (bits : List Bool) (offset n : Nat) : List Bool :=
  (List.range' offset n).map fun i => bits.getD i false

/-- The arrays of the variables of a group, in the order of the specification, if its bits start at
`offsetDi` and `offsetDr`. -/
def groupSlots (offsetDi offsetDr : Nat) (g : VarGroup) : List VarDomain :=
  List.replicate (svd.variablesCompsTotals g .cv) .cv ++
    (relaxBits svd.allRelaxedDiscreteInt offsetDi (svd.variablesCompsTotals g .div)).map
      (relaxTo .div) ++
    List.replicate (svd.variablesCompsTotals g .dsv) .dsv ++
    (relaxBits svd.allRelaxedDiscreteReal offsetDr (svd.variablesCompsTotals g .drv)).map
      (relaxTo .drv)

/-- The same for groups that stand one after the other. -/
def slotsFrom (offsetDi offsetDr : Nat) : List VarGroup → List VarDomain
  | [] => []
  | g :: gs => svd.groupSlots offsetDi offsetDr g ++
      slotsFrom (offsetDi + svd.variablesCompsTotals g .div)
        (offsetDr + svd.variablesCompsTotals g .drv) gs

/-- The slots of the groups `own`, which stand after the groups `skip`. -/
def slotsAfter (skip own : List VarGroup) : List VarDomain :=
  svd.slotsFrom (svd.sumTotals skip .div) (svd.sumTotals skip .drv) own

/-- All the variables. -/
def slots : List VarDomain := svd.slotsAfter [] allGroups

variable {svd} {bits : List Bool} {offset m n : Nat}

theorem countRelaxed_eq : countRelaxed bits offset n = (relaxBits bits offset n).count true := by
  rw [countRelaxed, relaxBits, List.count, List.countP_map]
  exact List.countP_congr fun i _ => by simp

theorem countRelaxed_le : countRelaxed bits offset n ≤ n :=
  List.countP_le_length.trans_eq List.length_range'

theorem countRelaxed_add : countRelaxed bits offset (m + n) =
    countRelaxed bits offset m + countRelaxed bits (offset + m) n := by
  rw [countRelaxed, ← List.range'_append_1, List.countP_append]
  rfl

theorem countRelaxed_eq_zero :
    countRelaxed bits offset n = 0 ↔ ∀ i < n, bits.getD (offset + i) false = false := by
  simp only [countRelaxed, List.countP_eq_zero, List.mem_range'_1, Bool.not_eq_true]
  constructor
  · exact fun h i hi => h _ ⟨by omega, by omega⟩
  · intro h i hi
    rw [show i = offset + (i - offset) by omega]
    exact h _ (by omega)

/-- The loops over all the variables count the set bits. -/
theorem countRelaxed_all (hlen : bits = [] ∨ bits.length = n) :
    countRelaxed bits 0 n = bits.count true := by
  rcases hlen with rfl | rfl
  · exact countRelaxed_eq_zero.mpr fun i _ => by simp
  · have hbits : relaxBits bits 0 bits.length = bits := by
      refine List.ext_getElem (by simp [relaxBits]) fun i _ hi => ?_
      simp [relaxBits, hi]
    rw [countRelaxed_eq, hbits]

theorem count_relaxTo {d : VarDomain} (hd : d ≠ .cv) (l : List Bool) :
    (l.map (relaxTo d)).count .cv = l.count true ∧
      (l.map (relaxTo d)).count d = l.length - l.count true ∧
      ∀ e, e ≠ .cv → e ≠ d → (l.map (relaxTo d)).count e = 0 := by
  induction l with
  | nil => simp
  | cons b l ih =>
    obtain ⟨ih₁, ih₂, ih₃⟩ := ih
    have hle : l.count true ≤ l.length := List.count_le_length
    cases b with
    | true =>
      refine ⟨by simp [relaxTo, ih₁], ?_, fun e he hed => ?_⟩
      · simp [relaxTo, hd.symm, ih₂]
      · simp [relaxTo, he.symm, ih₃ e he hed]
    | false =>
      refine ⟨by simp [relaxTo, hd, ih₁], ?_, fun e he hed => ?_⟩
      · simp [relaxTo, ih₂]
        omega
      · simp [relaxTo, hed.symm, ih₃ e he hed]

@[simp] theorem sumTotals_nil (d : VarDomain) : svd.sumTotals [] d = 0 := rfl

@[simp] theorem sumTotals_cons (g : VarGroup) (gs : List VarGroup) (d : VarDomain) :
    svd.sumTotals (g :: gs) d = svd.variablesCompsTotals g d + svd.sumTotals gs d := rfl

/-- The counts of a group from its totals and bits. -/
theorem count_groupSlots (offsetDi offsetDr : Nat) (g : VarGroup) (d : VarDomain) :
    (svd.groupSlots offsetDi offsetDr g).count d =
      let num := svd.variablesCompsTotals g
      let numRelaxInt := countRelaxed svd.allRelaxedDiscreteInt offsetDi (num .div)
      let numRelaxReal := countRelaxed svd.allRelaxedDiscreteReal offsetDr (num .drv)
      counts (num .cv + (numRelaxInt + numRelaxReal)) (num .div - numRelaxInt) (num .dsv)
        (num .drv - numRelaxReal) d := by
  have hlen (bits : List Bool) (offset n : Nat) : (relaxBits bits offset n).length = n := by
    simp [relaxBits]
  obtain ⟨hi₁, hi₂, hi₃⟩ := count_relaxTo (d := .div) (by decide)
    (relaxBits svd.allRelaxedDiscreteInt offsetDi (svd.variablesCompsTotals g .div))
  obtain ⟨hr₁, hr₂, hr₃⟩ := count_relaxTo (d := .drv) (by decide)
    (relaxBits svd.allRelaxedDiscreteReal offsetDr (svd.variablesCompsTotals g .drv))
  rw [hlen] at hi₂ hr₂
  simp only [groupSlots, List.count_append, countRelaxed_eq]
  cases d with
  | cv => simp [counts, hi₁, hr₁, List.count_replicate, Nat.add_assoc]
  | div => simp [counts, hi₂, hr₃, List.count_replicate]
  | dsv => simp [counts, hi₃, hr₃, List.count_replicate]
  | drv => simp [counts, hi₃, hr₂, List.count_replicate]

theorem count_slotsFrom (offsetDi offsetDr : Nat) (gs : List VarGroup) (d : VarDomain) :
    (svd.slotsFrom offsetDi offsetDr gs).count d =
      let num := svd.sumTotals gs
      let numRelaxInt := countRelaxed svd.allRelaxedDiscreteInt offsetDi (num .div)
      let numRelaxReal := countRelaxed svd.allRelaxedDiscreteReal offsetDr (num .drv)
      counts (num .cv + (numRelaxInt + numRelaxReal)) (num .div - numRelaxInt) (num .dsv)
        (num .drv - numRelaxReal) d := by
  induction gs generalizing offsetDi offsetDr with
  | nil => cases d <;> rfl
  | cons g gs ih =>
    rw [slotsFrom, List.count_append, count_groupSlots, ih]
    simp only [sumTotals_cons, countRelaxed_add]
    have hle (bits : List Bool) (offset n : Nat) : countRelaxed bits offset n ≤ n :=
      countRelaxed_le
    have hi₁ := hle svd.allRelaxedDiscreteInt offsetDi (svd.variablesCompsTotals g .div)
    have hi₂ := hle svd.allRelaxedDiscreteInt (offsetDi + svd.variablesCompsTotals g .div)
      (svd.sumTotals gs .div)
    have hr₁ := hle svd.allRelaxedDiscreteReal offsetDr (svd.variablesCompsTotals g .drv)
    have hr₂ := hle svd.allRelaxedDiscreteReal (offsetDr + svd.variablesCompsTotals g .drv)
      (svd.sumTotals gs .drv)
    cases d <;> simp only [counts] <;> omega

theorem slotsFrom_append (offsetDi offsetDr : Nat) (gs gs' : List VarGroup) :
    svd.slotsFrom offsetDi offsetDr (gs ++ gs') = svd.slotsFrom offsetDi offsetDr gs ++
      svd.slotsFrom (offsetDi + svd.sumTotals gs .div) (offsetDr + svd.sumTotals gs .drv) gs' := by
  induction gs generalizing offsetDi offsetDr with
  | nil => simp [slotsFrom]
  | cons g gs ih => simp [slotsFrom, ih, Nat.add_assoc]

/-! ## Counts -/

theorem sizeSub_of_le {a b : Nat} (h : b ≤ a) : sizeSub a b = some (a - b) := if_pos h

theorem relaxCounts_eq (offsetDi offsetDr : Nat) (gs : List VarGroup) :
    svd.relaxCounts (svd.sumTotals gs) offsetDi offsetDr =
      some fun d => (svd.slotsFrom offsetDi offsetDr gs).count d := by
  simp only [relaxCounts, sizeSub_of_le countRelaxed_le, Option.bind_eq_bind, Option.bind_some]
  exact congrArg some (funext fun d => (count_slotsFrom _ _ _ d).symm)

theorem anyRelaxed_eq_false : svd.anyRelaxed = false ↔
    (∀ i, svd.allRelaxedDiscreteInt.getD i false = false) ∧
      ∀ i, svd.allRelaxedDiscreteReal.getD i false = false := by
  have hany (bits : List Bool) : bits.any id = false ↔ ∀ i, bits.getD i false = false := by
    rw [List.any_eq_false]
    constructor
    · intro h i
      rw [List.getD_eq_getElem?_getD]
      cases hb : bits[i]? with
      | none => rfl
      | some b => simpa using h b (List.mem_of_getElem? hb)
    · intro h b hb
      obtain ⟨i, hi⟩ := List.mem_iff_getElem?.mp hb
      have := h i
      rw [List.getD_eq_getElem?_getD, hi] at this
      simpa using this
  rw [anyRelaxed, Bool.or_eq_false_iff, hany, hany]

/-- Without relaxed variables the counts are the totals. -/
theorem count_of_not_relaxed (h : svd.anyRelaxed = false) (offsetDi offsetDr : Nat)
    (gs : List VarGroup) :
    (fun d => (svd.slotsFrom offsetDi offsetDr gs).count d) = svd.sumTotals gs := by
  obtain ⟨hi, hr⟩ := anyRelaxed_eq_false.mp h
  funext d
  rw [count_slotsFrom]
  simp only [countRelaxed_eq_zero.mpr fun i _ => hi _, countRelaxed_eq_zero.mpr fun i _ => hr _]
  cases d <;> rfl

theorem countsAfter_eq (skip own : List VarGroup) :
    svd.countsAfter skip own = some fun d => (svd.slotsAfter skip own).count d := by
  simp only [countsAfter]
  split
  · exact relaxCounts_eq _ _ _
  · rename_i h
    rw [slotsAfter, count_of_not_relaxed (Bool.not_eq_true _ ▸ h)]

theorem allCounts_eq : svd.allCounts = some fun d => svd.slots.count d := by
  simp only [allCounts]
  split
  · have hint : countRelaxed svd.allRelaxedDiscreteInt 0 (svd.sumTotals allGroups .div) =
        svd.allRelaxedDiscreteInt.count true :=
      countRelaxed_all (svd.int_length.imp_right fun h => h.trans (by simp [allGroups]; omega))
    have hreal : countRelaxed svd.allRelaxedDiscreteReal 0 (svd.sumTotals allGroups .drv) =
        svd.allRelaxedDiscreteReal.count true :=
      countRelaxed_all (svd.real_length.imp_right fun h => h.trans (by simp [allGroups]; omega))
    rw [← hint, ← hreal]
    exact relaxCounts_eq 0 0 allGroups
  · rename_i h
    rw [slots, slotsAfter, count_of_not_relaxed (Bool.not_eq_true _ ▸ h)]

theorem relaxedStartCounts_eq (skip own : List VarGroup) :
    svd.relaxedStartCounts skip own = some
      { start := fun d => (svd.slotsAfter [] skip).count d
        num := fun d => (svd.slotsAfter skip own).count d } := by
  simp only [relaxedStartCounts, sizeSub_of_le countRelaxed_le, Option.bind_eq_bind,
    Option.bind_some]
  refine congrArg some (congr (congrArg _ ?_) ?_) <;> funext d <;> rw [slotsAfter, count_slotsFrom]
    <;> cases d <;> simp [counts, Nat.add_assoc]

end SharedVariablesData

end Dakota
