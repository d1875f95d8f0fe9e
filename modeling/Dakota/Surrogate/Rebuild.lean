import Dakota.Lib.Slice
import Dakota.Variables.Views

/-!
# Rebuilds of a data fit surrogate

`SurrogateModel::check_rebuild`, `update_model_active_variables` and
`update_model_active_constraints` (`src/src/SurrogateModel.cpp`, `src/src/DakotaModel.cpp`), and the
references of `DataFitSurrModel` (`src/src/DataFitSurrModel.cpp`), for truth models that are neither
recast nor active subspace models.

* `ModelData`: the arrays of a model, one for each domain. A view is a slice of each.
* `updateLocalReference`, `updateGlobalReference`: the references that a build records from the truth
  model. No reference to discrete string variables is recorded.
* `checkRebuild`: the comparison of the references with the top-level model.
* `DataFit.step`: changes of the top-level model, builds and evaluations. The field `builtAt` is not in
  the source: it keeps what the top-level model was at the last build.
-/

namespace Dakota

/-- The type of the variables of a domain. -/
abbrev VarDomain.Value (R : Type) : VarDomain → Type
  | .cv => R
  | .div => Int
  | .dsv => String
  | .drv => R

instance {R : Type} [DecidableEq R] : (d : VarDomain) → DecidableEq (d.Value R)
  | .cv => inferInstanceAs (DecidableEq R)
  | .div => inferInstanceAs (DecidableEq Int)
  | .dsv => inferInstanceAs (DecidableEq String)
  | .drv => inferInstanceAs (DecidableEq R)

/-- The domains whose variables have bounds. -/
inductive BoundDomain where
  | cv
  | div
  | drv
deriving DecidableEq, Repr

def BoundDomain.domain : BoundDomain → VarDomain
  | .cv => .cv
  | .div => .div
  | .drv => .drv

/-- `RELAXED_ALL`, `MIXED_ALL` -/
def View.isAll : View → Bool
  | .relaxed .all => true
  | .mixed .all => true
  | _ => false

/-- `>= RELAXED_DESIGN` -/
def View.isDistinct : View → Bool
  | .emptyView => false
  | v => !v.isAll

namespace Surrogate

/-- Arrays of the sizes `total`, one for each domain. -/
abbrev Arrays (R : Type) (total : Counts) := (d : VarDomain) → List.Vector (d.Value R) (total d)

/-- Arrays of bounds. -/
abbrev BoundArrays (R : Type) (total : Counts) :=
  (d : BoundDomain) → List.Vector (d.domain.Value R) (total d.domain)

/-- `currentVariables` and `userDefinedConstraints` of a model. -/
structure ModelData (R : Type) (total : Counts) where
  vars : Arrays R total
  lower : BoundArrays R total
  upper : BoundArrays R total

/-- `surrogateType` begins with `local_`, `multipoint_` or `global_`. -/
inductive SurrogateType where
  | localType
  | multipoint
  | globalType
deriving DecidableEq, Repr

/-- `responseMode` -/
inductive ResponseMode where
  | uncorrected
  | autoCorrected
  | bypass
  | modelDiscrepancy
  | aggregatedModelPair
deriving DecidableEq, Repr

/-- A surrogate model, and the views of its variables and of those of its truth model, if it has
one. -/
structure Config where
  svd : SharedVariablesData
  surrogateType : SurrogateType
  view : View × View
  truthView : Option (View × View)

/-- `referenceICVars`, `referenceIDIVars`, ..., and the six arrays of bounds. -/
structure Reference (R : Type) where
  vars : (d : VarDomain) → List (d.Value R)
  lower : (d : BoundDomain) → List (d.domain.Value R)
  upper : (d : BoundDomain) → List (d.domain.Value R)

def Reference.empty {R : Type} : Reference R := ⟨fun _ => [], fun _ => [], fun _ => []⟩

/-- `is_equal_partial`, which aborts if the index is out of bounds. -/
def isEqualPartial {α : Type} [DecidableEq α] (vec1 vec2 : List α) (start2 : Nat) : Option Bool :=
  if start2 + vec1.length ≤ vec2.length then
    some (decide (vec1 = slice vec2 start2 vec1.length))
  else none

namespace Config

variable {R : Type} [DecidableEq R] {total : Counts} (cfg : Config)

/-- The slice of a view. -/
def startCounts (v : View) : StartCounts :=
  (cfg.svd.viewStartCounts v).getD ⟨fun _ => 0, fun _ => 0⟩

/-- `vec` in the view `v`. -/
def inView {α : Type} (v : View) (d : VarDomain) (vec : List α) : List α :=
  slice vec ((cfg.startCounts v).start d) ((cfg.startCounts v).num d)

def isGlobal : Bool := cfg.surrogateType = .globalType

/-! ## From the top-level model to the truth model -/

/-- The array of the truth model after an update of its active part from the top-level model:
`active_variables`, `all_to_active_variables` or `active_to_all_variables`, and the same for
bounds. -/
def updateActive {α : Type} (tv : View × View) (d : VarDomain) (truth top : List α) : List α :=
  if cfg.view.1 = tv.1 then
    overwrite truth ((cfg.startCounts tv.1).start d) (cfg.inView cfg.view.1 d top)
  else if !cfg.view.1.isAll && tv.1.isAll then
    overwrite truth ((cfg.startCounts tv.1).start d) top
  else overwrite truth 0 (cfg.inView cfg.view.1 d top)

theorem length_updateActive {α : Type} (tv : View × View) (d : VarDomain) (truth top : List α) :
    (cfg.updateActive tv d truth top).length = truth.length := by
  unfold updateActive
  split
  · exact length_overwrite
  · split <;> exact length_overwrite

/-- `update_model` -/
def updateModel (tv : View × View) (truth top : ModelData R total) : ModelData R total where
  vars d := ⟨cfg.updateActive tv d (truth.vars d).toList (top.vars d).toList,
    (cfg.length_updateActive tv d _ _).trans (truth.vars d).toList_length⟩
  lower d := ⟨cfg.updateActive tv d.domain (truth.lower d).toList (top.lower d).toList,
    (cfg.length_updateActive tv d.domain _ _).trans (truth.lower d).toList_length⟩
  upper d := ⟨cfg.updateActive tv d.domain (truth.upper d).toList (top.upper d).toList,
    (cfg.length_updateActive tv d.domain _ _).trans (truth.upper d).toList_length⟩

/-- The active variables after evaluations at other points, as the build runs them. -/
def runDace (tv : View × View) (truth : ModelData R total) (points : Arrays R total) :
    ModelData R total :=
  { truth with
    vars := fun d => ⟨overwrite (truth.vars d).toList ((cfg.startCounts tv.1).start d)
        (cfg.inView tv.1 d (points d).toList),
      length_overwrite.trans (truth.vars d).toList_length⟩ }

/-! ## References -/

/-- The inactive variables as references: those of type string are not copied. -/
def recordInactive (v : View × View) (data : ModelData R total) (ref : Reference R) : Reference R :=
  if v.1.isDistinct then
    { ref with
      vars := fun d => if d = .dsv then ref.vars d else cfg.inView v.2 d (data.vars d).toList }
  else ref

/-- The active bounds as references. -/
def recordBounds (v : View × View) (data : ModelData R total) (ref : Reference R) : Reference R :=
  { ref with
    lower := fun d => cfg.inView v.1 d.domain (data.lower d).toList
    upper := fun d => cfg.inView v.1 d.domain (data.upper d).toList }

/-- `update_local_reference` -/
def updateLocalReference (tv : View × View) (truth : ModelData R total) (ref : Reference R) :
    Reference R :=
  cfg.recordInactive tv truth ref

/-- `update_global_reference`, from the truth model or, without one, from the top-level model. -/
def updateGlobalReference (v : View × View) (data : ModelData R total) (ref : Reference R) :
    Reference R :=
  cfg.recordBounds v data (cfg.recordInactive v data ref)

/-! ## The check -/

/-- The references to variables differ from the inactive variables of the top-level model. -/
def inactiveDiffer (ref : Reference R) (top : ModelData R total) : Bool :=
  [VarDomain.cv, .div, .dsv, .drv].any fun d =>
    ref.vars d ≠ cfg.inView cfg.view.2 d (top.vars d).toList

/-- The references to bounds differ from the active bounds of the top-level model. -/
def boundsDiffer (ref : Reference R) (top : ModelData R total) : Bool :=
  [BoundDomain.cv, .div, .drv].any fun d =>
    ref.lower d ≠ cfg.inView cfg.view.1 d.domain (top.lower d).toList ∨
      ref.upper d ≠ cfg.inView cfg.view.1 d.domain (top.upper d).toList

/-- The references to bounds differ from all bounds of the top-level model. -/
def allBoundsDiffer (ref : Reference R) (top : ModelData R total) : Bool :=
  [BoundDomain.cv, .div, .drv].any fun d =>
    ref.lower d ≠ (top.lower d).toList ∨ ref.upper d ≠ (top.upper d).toList

/-- The references to variables differ from a part of the active variables of the top-level model,
the part that is inactive in the truth model. -/
def partialVarsDiffer (tv : View × View) (ref : Reference R) (top : ModelData R total) :
    Option Bool :=
  [VarDomain.cv, .div, .dsv, .drv].anyM fun d =>
    (isEqualPartial (ref.vars d) (cfg.inView cfg.view.1 d (top.vars d).toList)
      ((cfg.startCounts tv.2).start d)).map not

/-- The references to bounds differ from a part of the active bounds of the top-level model, the part
that is active in the truth model. -/
def partialBoundsDiffer (tv : View × View) (ref : Reference R) (top : ModelData R total) :
    Option Bool :=
  [BoundDomain.cv, .div, .drv].anyM fun d => do
    let lower ← isEqualPartial (ref.lower d)
      (cfg.inView cfg.view.1 d.domain (top.lower d).toList) ((cfg.startCounts tv.1).start d.domain)
    let upper ← isEqualPartial (ref.upper d)
      (cfg.inView cfg.view.1 d.domain (top.upper d).toList) ((cfg.startCounts tv.1).start d.domain)
    return !lower || !upper

/-- The first part of `check_rebuild` with a truth model. -/
def checkVars (tv : View × View) (ref : Reference R) (top : ModelData R total) : Option Bool :=
  if cfg.view.1 = tv.1 && cfg.view.1.isDistinct && cfg.inactiveDiffer ref top then some true
  else if cfg.view.1.isAll && tv.1.isDistinct then cfg.partialVarsDiffer tv ref top
  else some false

/-- The second part, for global surrogates. -/
def checkBounds (tv : View × View) (ref : Reference R) (top : ModelData R total) : Option Bool :=
  if cfg.view.1 = tv.1 && cfg.boundsDiffer ref top then some true
  else if cfg.view.1.isDistinct && tv.1.isAll && allBoundsDiffer ref top then some true
  else if cfg.view.1.isAll && tv.1.isDistinct then cfg.partialBoundsDiffer tv ref top
  else some false

/-- `check_rebuild` -/
def checkRebuild (ref : Reference R) (top : ModelData R total) : Option Bool :=
  match cfg.truthView with
  | none => some (cfg.inactiveDiffer ref top || (cfg.isGlobal && cfg.boundsDiffer ref top))
  | some tv => do
    let vars ← cfg.checkVars tv ref top
    if vars then return true
    else if cfg.isGlobal then cfg.checkBounds tv ref top
    else return false

/-! ## Steps -/

/-- A `DataFitSurrModel`. -/
structure DataFit (R : Type) (total : Counts) where
  top : ModelData R total
  /-- the truth model, if there is one -/
  truth : ModelData R total
  ref : Reference R
  approxBuilds : Nat
  builtAt : Option (ModelData R total)

/-- Before the first build. -/
def DataFit.initial (top truth : ModelData R total) : DataFit R total :=
  ⟨top, truth, .empty, 0, none⟩

/-- `update_model(actualModel)` -/
def pushToTruth (s : DataFit R total) : DataFit R total :=
  match cfg.truthView with
  | none => s
  | some tv => { s with truth := cfg.updateModel tv s.truth s.top }

/-- The evaluations of the truth model for a build. -/
def runBuild (points : Arrays R total) (s : DataFit R total) : DataFit R total :=
  match cfg.truthView with
  | none => s
  | some tv => { s with truth := cfg.runDace tv s.truth points }

/-- `update_global_reference` or `update_local_reference`, which needs a truth model. -/
def updateReference (s : DataFit R total) : Option (DataFit R total) :=
  match cfg.truthView, cfg.isGlobal with
  | some tv, true => some { s with ref := cfg.updateGlobalReference tv s.truth s.ref }
  | some tv, false => some { s with ref := cfg.updateLocalReference tv s.truth s.ref }
  | none, true => some { s with ref := cfg.updateGlobalReference cfg.view s.top s.ref }
  | none, false => none

/-- `build_approximation` -/
def buildApproximation (points : Arrays R total) (s : DataFit R total) :
    Option (DataFit R total) := do
  let s ← cfg.updateReference (cfg.pushToTruth s)
  let s := cfg.runBuild points s
  return { s with approxBuilds := s.approxBuilds + 1, builtAt := some s.top }

/-- `rebuild_approximation`. A local or multipoint surrogate is built anew, a global one gets more
data, if it needs any. -/
def rebuildApproximation (points : Arrays R total) (more : Bool) (s : DataFit R total) :
    DataFit R total :=
  let s := cfg.runBuild points (cfg.pushToTruth s)
  if cfg.isGlobal then { s with approxBuilds := s.approxBuilds + more.toNat }
  else { s with approxBuilds := s.approxBuilds + 1, builtAt := some s.top }

/-- `force_rebuild` -/
def forceRebuild (s : DataFit R total) : Option Bool := cfg.checkRebuild s.ref s.top

/-- The truth part of `derived_evaluate` and of `derived_evaluate_nowait`. -/
def evaluateTruth (s : DataFit R total) : Option (DataFit R total) :=
  if cfg.truthView.isSome then some (cfg.pushToTruth s) else none

/-- The build before an evaluation of the approximation. -/
def buildIfNeeded (points : Arrays R total) (s : DataFit R total) : Option (DataFit R total) := do
  let rebuild ← (if s.approxBuilds = 0 then some true else cfg.forceRebuild s : Option Bool)
  if rebuild then cfg.buildApproximation points s else return s

/-- `derived_evaluate` and `derived_evaluate_nowait`, as far as the data of the models goes.
`actualEval` and `approxEval` say which parts the request has. -/
def evaluate (mode : ResponseMode) (actualEval approxEval : Bool) (points : Arrays R total)
    (s : DataFit R total) : Option (DataFit R total) :=
  match mode with
  | .uncorrected | .autoCorrected => do
    let s ← (if actualEval then cfg.evaluateTruth s else some s : Option (DataFit R total))
    if approxEval then cfg.buildIfNeeded points s else return s
  | .bypass | .modelDiscrepancy | .aggregatedModelPair => cfg.evaluateTruth s

/-- What can happen to a surrogate model. -/
inductive Op (R : Type) (total : Counts) where
  | setVariables (vars : Arrays R total)
  | setBounds (lower upper : BoundArrays R total)
  | build (points : Arrays R total)
  | rebuild (points : Arrays R total) (more : Bool)
  | evaluate (mode : ResponseMode) (actualEval approxEval : Bool) (points : Arrays R total)

/-- One step; `none` where the code aborts. -/
def step (s : DataFit R total) : Op R total → Option (DataFit R total)
  | .setVariables vars => some { s with top := { s.top with vars } }
  | .setBounds lower upper => some { s with top := { s.top with lower, upper } }
  | .build points => cfg.buildApproximation points s
  | .rebuild points more => some (cfg.rebuildApproximation points more s)
  | .evaluate mode actualEval approxEval points => cfg.evaluate mode actualEval approxEval points s

/-- A run. -/
def run (s : DataFit R total) (ops : List (Op R total)) : Option (DataFit R total) :=
  ops.foldlM cfg.step s

/-! ## What the check is for -/

/-- The view of the variables that the approximation is built over. -/
def approxView : View × View := cfg.truthView.getD cfg.view

/-- Two arrays differ in the view `v`. -/
def DifferIn {α : Type} (v : View) (d : VarDomain) (vec vec' : List α) : Prop :=
  ∃ i, (cfg.startCounts v).start d ≤ i ∧
    i < (cfg.startCounts v).start d + (cfg.startCounts v).num d ∧ vec[i]? ≠ vec'[i]?

/-- What the approximation depends on, besides its variables, has changed: a variable that it is not
built over or, for a global one, a bound of a variable that it is built over. -/
def Changed (built top : ModelData R total) : Prop :=
  (∃ d, cfg.DifferIn cfg.approxView.2 d (built.vars d).toList (top.vars d).toList) ∨
  (cfg.isGlobal = true ∧ ∃ d,
    cfg.DifferIn cfg.approxView.1 d.domain (built.lower d).toList (top.lower d).toList ∨
      cfg.DifferIn cfg.approxView.1 d.domain (built.upper d).toList (top.upper d).toList)

/-- Views of one variables object: those that `check_view_compatibility` and the constructors let
through. -/
structure ValidView (v : View × View) : Prop where
  /-- an active view of all variables has no inactive one beside it -/
  inactive : v.1.isDistinct = false → v.2 = .emptyView
  notAll : v.2.isAll = false
  /-- relaxed variables need a relaxed view -/
  mixed : ∀ subset, v.1 = .mixed subset ∨ v.2 = .mixed subset → cfg.svd.anyRelaxed = false

/-- `check_submodel_compatibility`, for arrays of the sizes `total`: the same views, Distinct on All,
or All on Distinct. Without a truth model only a global surrogate can be built. -/
structure Supported (total : Counts) : Prop where
  total_eq : cfg.svd.allCounts = some total
  view : cfg.ValidView cfg.view
  truthView : ∀ tv, cfg.truthView = some tv → cfg.ValidView tv ∧
    (cfg.view = tv ∨
      (cfg.view.1.isDistinct = true ∧ tv.1.isAll = true ∧ (cfg.startCounts tv.1).num = total) ∨
      (cfg.view.1.isAll = true ∧ tv.1.isDistinct = true ∧
        (cfg.startCounts cfg.view.1).num = total))
  global : cfg.truthView = none → cfg.isGlobal = true

end Config

end Surrogate

end Dakota
