import Dakota.Lib.CInt

/-!
# Vector and centered parameter studies

`ParamStudy` (`src/src/ParamStudy.hpp`, `src/src/ParamStudy.cpp`): the checks of the specification and
the loops that fill `allVariables`. Arrays of the source with one entry for each variable are one
list of records. A loop that fills `allVariables` logs what it writes and where.

* `SetVar.step`: `dsi_step`, `dss_step` and `dsr_step` abort if there is no such value.
* `checkSets`: the check of terminal indices that the two `check_ranges_sets` use.
* `centeredLoop`, `indexToVarStep`: the layout of a centered study, written and decoded.
-/

namespace Dakota

open CInt

/-- Undefined behaviour, or a call of `abort_handler`. -/
inductive StudyError
  | overflow
  | outOfBounds
  | valueNotInSet
  | indexOutOfRange (index : ℤ)
  deriving DecidableEq

def StudyError.IsAbort : StudyError → Prop
  | .overflow | .outOfBounds => False
  | .valueNotInSet | .indexOutOfRange _ => True

/-! ## Variables -/

/-- A continuous variable or a discrete range: its initial value and its step. -/
structure RangeVar (α : Type) where
  initial : α
  step : α

/-- A discrete set variable: the elements of the `std::set` in their order, and the step in it. -/
structure SetVar (α : Type) where
  initial : α
  values : List α
  step : ℤ
  size_int : values.length < 2 ^ 31

inductive DiscreteIntVar
  | range (var : RangeVar ℤ)
  | set (var : SetVar ℤ)

def DiscreteIntVar.initial : DiscreteIntVar → ℤ
  | .range var => var.initial
  | .set var => var.initial

/-- One entry for each variable, by the type of the variable. -/
structure ByType (α : Type) where
  c : List α
  di : List α
  ds : List α
  dr : List α

def ByType.all {α : Type} (b : ByType α) : List α := b.c ++ b.di ++ b.ds ++ b.dr

/-- `active_components_totals` of one category (design, aleatory, epistemic, state). -/
structure CategoryTotals where
  c : ℕ
  di : ℕ
  ds : ℕ
  dr : ℕ

variable (K : Type)

/-- `Variables` -/
structure StudyPoint where
  cv : List K
  div : List ℤ
  dsv : List String
  drv : List K

/-- What a study knows of its variables. -/
structure ParamStudy where
  cv : List (RangeVar K)
  div : List DiscreteIntVar
  dsv : List (SetVar String)
  drv : List (SetVar K)
  totals : List CategoryTotals
  cv_totals : cv.length = (totals.map CategoryTotals.c).sum
  div_totals : div.length = (totals.map CategoryTotals.di).sum
  dsv_totals : dsv.length = (totals.map CategoryTotals.ds).sum
  drv_totals : drv.length = (totals.map CategoryTotals.dr).sum
  numVars_int : cv.length + div.length + dsv.length + drv.length < 2 ^ 31

variable {K}

def ParamStudy.numVars (study : ParamStudy K) : ℕ :=
  study.cv.length + study.div.length + study.dsv.length + study.drv.length

/-- The initial point. -/
def ParamStudy.center (study : ParamStudy K) : StudyPoint K where
  cv := study.cv.map RangeVar.initial
  div := study.div.map DiscreteIntVar.initial
  dsv := study.dsv.map SetVar.initial
  drv := study.drv.map SetVar.initial

/-! ## Steps -/

/-- `_NPOS` -/
def npos : ℤ := 2 ^ 64 - 1

def setValueToIndex {α : Type} [DecidableEq α] (value : α) (values : List α) : ℤ :=
  match values.idxOf? value with
  | some index => index
  | none => npos

/-- `c_step` -/
def cStep [Ring K] (var : RangeVar K) (increment : ℤ) : K := var.initial + increment * var.step

/-- `dri_step` -/
def driStep (var : RangeVar ℤ) (increment : ℤ) : Except StudyError ℤ := do
  let product ← checkedInt .overflow (increment * var.step)
  checkedInt .overflow (var.initial + product)

/-- The one body of `dsi_step`, `dss_step` and `dsr_step`. -/
def setStep {α : Type} [DecidableEq α] (var : SetVar α) (increment : ℤ) : Except StudyError α := do
  let index0 := setValueToIndex var.initial var.values
  if index0 = npos then .error .valueNotInSet
  else
    let product ← checkedInt .overflow (increment * var.step)
    let index := narrow (index0 + product)
    if h : 0 ≤ index ∧ index < var.values.length then
      pure (var.values.get ⟨index.toNat, by omega⟩)
    else .error (.indexOutOfRange index)

def dsiStep (var : SetVar ℤ) (increment : ℤ) : Except StudyError ℤ := setStep var increment

def dssStep (var : SetVar String) (increment : ℤ) : Except StudyError String :=
  setStep var increment

def dsrStep [DecidableEq K] (var : SetVar K) (increment : ℤ) : Except StudyError K :=
  setStep var increment

/-- `if (di_set_bits[j]) dsi_step(..) else dri_step(..)` -/
def diStep (var : DiscreteIntVar) (increment : ℤ) : Except StudyError ℤ :=
  match var with
  | .range var => driStep var increment
  | .set var => dsiStep var increment

/-! ## Checks -/

/-- `check_num_steps`: `numSteps` and `numEvals`, or an error. -/
def checkNumSteps (numSteps : ℤ) : Option (ℕ × ℕ) :=
  if numSteps < 0 then none else some (numSteps.toNat, numSteps.toNat + 1)

/-- The extraction of `distribute`, in the order of categories. -/
def distribute {α : Type} : List CategoryTotals → List α → ByType α
  | [], _ => ⟨[], [], [], []⟩
  | t :: totals, all =>
    let rest := distribute totals (all.drop (t.c + t.di + t.ds + t.dr))
    { c := all.take t.c ++ rest.c
      di := (all.drop t.c).take t.di ++ rest.di
      ds := (all.drop (t.c + t.di)).take t.ds ++ rest.ds
      dr := (all.drop (t.c + t.di + t.ds)).take t.dr ++ rest.dr }

/-- What `check_steps_per_variable` sets. -/
structure CheckedSteps where
  steps : ByType ℤ
  stepsPerVariable : List ℤ
  numEvals : ℕ

/-- `spv_sum += std::abs(steps[i])` -/
def addAbs (spvSum : ℕ) (steps : List ℤ) : Except StudyError ℕ :=
  steps.foldlM (fun spvSum n => do
    let magnitude ← checkedInt .overflow |n|
    pure (spvSum + magnitude.toNat)) spvSum

/-- `check_steps_per_variable`: no result for a vector of another length. -/
def checkStepsPerVariable (study : ParamStudy K) (stepsPerVar : List ℤ) :
    Except StudyError (Option CheckedSteps) := do
  let distributed : Option (ByType ℤ × List ℤ) :=
    if stepsPerVar.length = study.numVars then
      let steps := distribute study.totals stepsPerVar
      some (steps, steps.all)
    else match stepsPerVar with
      | [n] =>
        let steps : ByType ℤ := ⟨.replicate study.cv.length n, .replicate study.div.length n,
          .replicate study.dsv.length n, .replicate study.drv.length n⟩
        some (steps, .replicate study.numVars n)
      | _ => none
  match distributed with
  | none => pure none
  | some (steps, stepsPerVariable) =>
    let spvSum ← addAbs 0 steps.c
    let spvSum ← addAbs spvSum steps.di
    let spvSum ← addAbs spvSum steps.ds
    let spvSum ← addAbs spvSum steps.dr
    pure (some ⟨steps, stepsPerVariable, 2 * spvSum + 1⟩)

/-- The check of one terminal index. -/
def checkSet {α : Type} [DecidableEq α] (var : SetVar α) (numSteps : ℤ) (err : Bool) :
    Except StudyError Bool := do
  let product ← checkedInt .overflow (var.step * numSteps)
  let terminalIndex := narrow (setValueToIndex var.initial var.values + product)
  pure (err || decide (terminalIndex < 0 ∨ terminalIndex ≥ var.values.length))

/-- `if (di_set_bits[j])`: ranges are not checked. -/
def checkIntVar (var : DiscreteIntVar) (numSteps : ℤ) (err : Bool) : Except StudyError Bool :=
  match var with
  | .range _ => pure err
  | .set var => checkSet var numSteps err

/-- `check_sets(c_steps, di_steps, ds_steps, dr_steps)` -/
def checkSets [DecidableEq K] (study : ParamStudy K) (steps : ByType ℤ) : Except StudyError Bool := do
  let err ← (study.div.zip steps.di).foldlM (fun err var => checkIntVar var.1 var.2 err) false
  let err ← (study.dsv.zip steps.ds).foldlM (fun err var => checkSet var.1 var.2 err) err
  (study.drv.zip steps.dr).foldlM (fun err var => checkSet var.1 var.2 err) err

/-- `check_ranges_sets(num_steps)` -/
def checkRangesSets [DecidableEq K] (study : ParamStudy K) (numSteps : ℤ) : Except StudyError Bool :=
  checkSets study ⟨.replicate study.cv.length numSteps, .replicate study.div.length numSteps,
    .replicate study.dsv.length numSteps, .replicate study.drv.length numSteps⟩

/-- `scale(-1)` -/
def scaleNeg (steps : List ℤ) : Except StudyError (List ℤ) :=
  steps.mapM fun n => checkedInt .overflow (-n)

/-- `check_ranges_sets(c_steps, di_steps, ds_steps, dr_steps)`: plus offsets, and minus offsets of
all but the string variables. -/
def checkRangesSetsCentered [DecidableEq K] (study : ParamStudy K) (steps : ByType ℤ) :
    Except StudyError Bool := do
  let err ← checkSets study steps
  let c ← scaleNeg steps.c
  let di ← scaleNeg steps.di
  let dr ← scaleNeg steps.dr
  let errNeg ← checkSets study ⟨c, di, steps.ds, dr⟩
  pure (err || errNeg)

/-! ## Loops -/

section

variable [Ring K] [DecidableEq K]

/-- The point `increment` steps from the initial one. -/
def vectorPoint (study : ParamStudy K) (increment : ℤ) : Except StudyError (StudyPoint K) := do
  let cv := study.cv.map fun var => cStep var increment
  let div ← study.div.mapM fun var => diStep var increment
  let dsv ← study.dsv.mapM fun var => dssStep var increment
  let drv ← study.drv.mapM fun var => dsrStep var increment
  pure ⟨cv, div, dsv, drv⟩

/-- `vector_loop`: all of `allVariables`. -/
def vectorLoop (study : ParamStudy K) (numSteps : ℕ) : Except StudyError (List (StudyPoint K)) :=
  (List.range (numSteps + 1)).mapM fun (i : ℕ) => vectorPoint study i

end

/-- The counter of `allVariables`, and what has been written. -/
structure StudyWrites (α : Type) where
  cntr : ℕ
  log : List (ℕ × α)

def StudyWrites.write {α : Type} (w : StudyWrites α) (vars : α) : StudyWrites α :=
  ⟨w.cntr + 1, w.log ++ [(w.cntr, vars)]⟩

/-- The loop over the plus and minus steps of one variable. -/
def stepLoop {α : Type} (numSteps : ℤ) (step : ℤ → Except StudyError α) (w : StudyWrites α) :
    Except StudyError (StudyWrites α) := do
  let first ← checkedInt .overflow (-numSteps)
  let range ← intRange .overflow first numSteps
  range.foldlM (fun w i => if i ≠ 0 then do
      let vars ← step i
      pure (w.write vars)
    else pure w) w

section

variable [Ring K] [DecidableEq K]

/-- `centered_loop` -/
def centeredLoop (study : ParamStudy K) (steps : ByType ℤ) :
    Except StudyError (StudyWrites (StudyPoint K)) := do
  let center := study.center
  let w := StudyWrites.write ⟨0, []⟩ center
  let w ← (study.cv.zip steps.c).zipIdx.foldlM (fun w var => stepLoop var.1.2
    (fun i => pure { center with cv := center.cv.set var.2 (cStep var.1.1 i) }) w) w
  let w ← (study.div.zip steps.di).zipIdx.foldlM (fun w var => stepLoop var.1.2 (fun i => do
    let value ← diStep var.1.1 i
    pure { center with div := center.div.set var.2 value }) w) w
  let w ← (study.dsv.zip steps.ds).zipIdx.foldlM (fun w var => stepLoop var.1.2 (fun i => do
    let value ← dssStep var.1.1 i
    pure { center with dsv := center.dsv.set var.2 value }) w) w
  (study.drv.zip steps.dr).zipIdx.foldlM (fun w var => stepLoop var.1.2 (fun i => do
    let value ← dsrStep var.1.1 i
    pure { center with drv := center.drv.set var.2 value }) w) w

end

/-- A conversion to `size_t`. -/
def toSizeT (x : ℤ) : ℕ := (x % 2 ^ 64).toNat

/-- The search of `index_to_var_step` from a variable on. -/
def findVarStep (studyIdx : ℕ) : List ℤ → ℕ → ℕ → Except StudyError (ℕ × ℕ)
  | [], _, _ => .error .outOfBounds
  | n :: rest, offset, varIdx => do
    let twice ← checkedInt .overflow (2 * n)
    let next := toSizeT (offset + twice)
    if studyIdx < next then
      let back := toSizeT (studyIdx - offset)
      pure (varIdx, if back < toSizeT n then back else toSizeT (back + 1))
    else findVarStep studyIdx rest next (varIdx + 1)

/-- `index_to_var_step`: the index of the variable and that of the step in it. -/
def indexToVarStep (stepsPerVariable : List ℤ) (studyIdx : ℕ) : Except StudyError (ℕ × ℕ) :=
  findVarStep studyIdx stepsPerVariable 1 0

end Dakota
