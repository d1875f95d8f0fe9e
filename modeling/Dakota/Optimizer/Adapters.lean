import Dakota.Lib.Scatter

/-!
# Adapters for third-party optimizers

The templates of `src/src/DakotaOptimizer.hpp` that carry variables, bounds, constraints and responses
between a model and the vectors of an optimizer.

* A loop over a vector is the list of its writes `vec[slot] = value`, in order.
* The numbers are exact, and an assignment of a number to an integer truncates it.
* A discrete variable is a range or a set; discrete real and string variables are sets.
-/

namespace Dakota.Optimizer

inductive AdapterError where
  /-- `copy_data Error: bad index in discrete set lookup.` -/
  | badIndex
  /-- `Error: index ... must be between 0 and ... in set_index_to_value()` -/
  | outOfRange
  /-- `get_variables Error: model variables have inconsistent lengths.` -/
  | inconsistentLengths
deriving DecidableEq, Repr

/-- `std::set`, with at least one value. -/
structure DiscreteSet (α : Type) [LT α] where
  values : List α
  sorted : values.Pairwise (· < ·)
  nonempty : values ≠ []

/-- An active discrete int variable, with its bounds or the values of its set. -/
inductive IntVar where
  | range (lower upper : Int)
  | set (values : DiscreteSet Int)

def IntVar.isSet : IntVar → Bool
  | .range _ _ => false
  | .set _ => true

def IntVar.set? : IntVar → Option (DiscreteSet Int)
  | .range _ _ => none
  | .set s => some s

/-- The bounds of a set are its least and its greatest value. -/
def IntVar.lowerBound : IntVar → Int
  | .range lower _ => lower
  | .set s => s.values.head s.nonempty

def IntVar.upperBound : IntVar → Int
  | .range _ upper => upper
  | .set s => s.values.getLast s.nonempty

section Model

variable (K : Type) [Field K] [LinearOrder K]

/-- What the adapters read of a `Model`: bounds, sets, and nonlinear constraints. -/
structure OptModel where
  /-- lower and upper bounds -/
  continuous : List (K × K)
  discreteInt : List IntVar
  discreteReal : List (DiscreteSet K)
  discreteString : List (DiscreteSet String)
  /-- `primary_response_fn_sense`, of a single objective -/
  maximize : Bool
  /-- nonlinear inequality constraints: lower and upper bounds -/
  ineqBounds : List (K × K)
  eqTargets : List K

/-- The active variables. -/
structure Vars where
  continuous : List K
  discreteInt : List Int
  discreteReal : List K
  discreteString : List String

/-- `bigRealBoundSize`, `bigIntBoundSize`, `AdapterT::noValue()` and its conversion to `int`. -/
structure Limits where
  bigReal : K
  bigInt : Int
  noValue : K
  intNoValue : Int

end Model

namespace OptModel

variable {K : Type} [Field K] [LinearOrder K]

section Variables

variable (m : OptModel K)

def cv : Nat := m.continuous.length
def div : Nat := m.discreteInt.length
def drv : Nat := m.discreteReal.length
def dsv : Nat := m.discreteString.length

/-- `discrete_int_sets` -/
def discreteIntSets : List Bool := m.discreteInt.map IntVar.isSet

/-- `discrete_set_int_values` -/
def discreteSetIntValues : List (DiscreteSet Int) := m.discreteInt.filterMap IntVar.set?

end Variables

/-- `set_value_to_index`; `none` is `_NPOS`. -/
def setValueToIndex {α : Type} [LT α] [DecidableEq α] (value : α) (values : DiscreteSet α) :
    Option Nat :=
  values.values.idxOf? value

/-- The conversion of a number to an integer. -/
def truncate [FloorRing K] (x : K) : Int := if 0 ≤ x then ⌊x⌋ else ⌈x⌉

/-- `set_index_to_value` -/
def setIndexToValue [FloorRing K] {α : Type} [LT α] (index : K) (values : DiscreteSet α) :
    Except AdapterError α :=
  if index < 0 ∨ (values.values.length : K) ≤ index then .error .outOfRange
  else
    match values.values[(truncate index).toNat]? with
    | some value => .ok value
    | none => .error .outOfRange

/-! ## Variables -/

/-- `copy_variables` for discrete int variables, from position `i` on: the ranges are written without
the offset. -/
def copyIntVariables (offset : Nat) :
    Nat → List Bool → List (DiscreteSet Int) → List Int → Except AdapterError (List (Nat × K))
  | _, _, _, [] => .ok []
  | i, true :: bits, set :: sets, x :: source =>
    match setValueToIndex x set with
    | none => .error .badIndex
    | some index => do
      let writes ← copyIntVariables offset (i + 1) bits sets source
      return (i + offset, (index : K)) :: writes
  | i, false :: bits, sets, x :: source => do
    let writes ← copyIntVariables offset (i + 1) bits sets source
    return (i, (x : K)) :: writes
  | _, _, _, _ => .error .outOfRange

/-- `copy_variables` for variables that are all sets. -/
def copySetVariables {α : Type} [LT α] [DecidableEq α] (offset : Nat) :
    Nat → List (DiscreteSet α) → List α → Except AdapterError (List (Nat × K))
  | _, _, [] => .ok []
  | i, set :: sets, x :: source =>
    match setValueToIndex x set with
    | none => .error .badIndex
    | some index => do
      let writes ← copySetVariables offset (i + 1) sets source
      return (i + offset, (index : K)) :: writes
  | _, [], _ :: _ => .error .outOfRange

/-- `get_variables`: the writes. The offset of the strings is that of the discrete real variables
among the sets. -/
def getVariables (m : OptModel K) (vars : Vars K) : Except AdapterError (List (Nat × K)) :=
  if m.cv ≠ vars.continuous.length ∨ m.div ≠ vars.discreteInt.length ∨
      m.drv ≠ vars.discreteReal.length ∨ m.dsv ≠ vars.discreteString.length then
    .error .inconsistentLengths
  else do
    let offset := vars.continuous.length
    let ints ← copyIntVariables offset 0 m.discreteIntSets m.discreteSetIntValues vars.discreteInt
    let offset := offset + vars.discreteInt.length
    let reals ← copySetVariables offset 0 m.discreteReal vars.discreteReal
    let offset := vars.discreteReal.length
    let strings ← copySetVariables offset 0 m.discreteString vars.discreteString
    return enumFrom 0 vars.continuous ++ ints ++ reals ++ strings

/-- `copy_variables` from a vector to discrete int variables. -/
def copyToIntVariables [FloorRing K] (source : Nat → K) (offset : Nat) :
    Nat → List Bool → List (DiscreteSet Int) → Except AdapterError (List Int)
  | _, [], _ => .ok []
  | i, true :: bits, set :: sets => do
    let x ← setIndexToValue (source (i + offset)) set
    let rest ← copyToIntVariables source offset (i + 1) bits sets
    return x :: rest
  | _, true :: _, [] => .error .outOfRange
  | i, false :: bits, sets => do
    let rest ← copyToIntVariables source offset (i + 1) bits sets
    return truncate (source (i + offset)) :: rest

/-- The loops of `set_variables` over variables that are all sets. -/
def copyToSetVariables [FloorRing K] {α : Type} [LT α] (source : Nat → K) (offset : Nat) :
    Nat → List (DiscreteSet α) → Except AdapterError (List α)
  | _, [] => .ok []
  | i, set :: sets => do
    let x ← setIndexToValue (source (i + offset)) set
    let rest ← copyToSetVariables source offset (i + 1) sets
    return x :: rest

/-- `set_variables` -/
def setVariables [FloorRing K] (m : OptModel K) (source : Nat → K) :
    Except AdapterError (Vars K) := do
  let discreteInt ← copyToIntVariables source m.cv 0 m.discreteIntSets m.discreteSetIntValues
  let discreteReal ← copyToSetVariables source (m.cv + m.div) 0 m.discreteReal
  let discreteString ← copyToSetVariables source (m.cv + m.div + m.drv) 0 m.discreteString
  return {
    continuous := (List.range m.cv).map source
    discreteInt, discreteReal, discreteString }

/-! ## Bounds -/

/-- The writes of a loop over bounds, and whether all bounds are set. -/
structure BoundWrites (K : Type) where
  lower : List (Nat × K)
  upper : List (Nat × K)
  allSet : Bool

/-- `get_bounds` of continuous variables. -/
def getBounds (limits : Limits K) (bounds : List (K × K)) : BoundWrites K where
  lower := enumFrom 0 (bounds.map fun b => if -limits.bigReal < b.1 then b.1 else limits.noValue)
  upper := enumFrom 0 (bounds.map fun b => if b.2 < limits.bigReal then b.2 else limits.noValue)
  allSet := bounds.all fun b => decide (-limits.bigReal < b.1) && decide (b.2 < limits.bigReal)

/-- `get_bounds` of sets. -/
def getSetBounds {α : Type} [LT α] (sets : List (DiscreteSet α)) (offset : Nat) :
    List (Nat × K) × List (Nat × K) :=
  (enumFrom offset (sets.map fun _ => (0 : K)),
    enumFrom offset (sets.map fun s => ((s.values.length - 1 : Nat) : K)))

/-- `get_mixed_bounds`, from position `i` on: `no_value` is written without the offset. -/
def getMixedBounds (limits : Limits K) (offset : Nat) :
    Nat → List Bool → List (DiscreteSet Int) → List Int → List Int → BoundWrites K
  | i, true :: bits, set :: sets, _ :: lower, _ :: upper =>
    let rest := getMixedBounds limits offset (i + 1) bits sets lower upper
    { rest with
      lower := (i + offset, 0) :: rest.lower
      upper := (i + offset, ((set.values.length - 1 : Nat) : K)) :: rest.upper }
  | i, false :: bits, sets, l :: lower, u :: upper =>
    let rest := getMixedBounds limits offset (i + 1) bits sets lower upper
    { lower := (if -limits.bigInt < l then (i + offset, (l : K))
        else (i, (limits.intNoValue : K))) :: rest.lower
      upper := (if u < limits.bigInt then (i + offset, (u : K))
        else (i, (limits.intNoValue : K))) :: rest.upper
      allSet := decide (-limits.bigInt < l) && decide (u < limits.bigInt) && rest.allSet }
  | _, _, _, _, _ => ⟨[], [], true⟩

/-- The second operand of `&&` in `get_variable_bounds`: without all continuous bounds the call is not
made. -/
def discreteIntBounds (m : OptModel K) (limits : Limits K) : BoundWrites K :=
  if (getBounds limits m.continuous).allSet then
    getMixedBounds limits m.cv 0 m.discreteIntSets m.discreteSetIntValues
      (m.discreteInt.map IntVar.lowerBound) (m.discreteInt.map IntVar.upperBound)
  else ⟨[], [], false⟩

/-- `get_variable_bounds` -/
def getVariableBounds (m : OptModel K) (limits : Limits K) : BoundWrites K :=
  let continuous := getBounds limits m.continuous
  let ints := m.discreteIntBounds limits
  let reals := getSetBounds m.discreteReal (m.cv + m.div)
  let strings := getSetBounds m.discreteString (m.cv + m.div + m.drv)
  { lower := continuous.lower ++ ints.lower ++ reals.1 ++ strings.1
    upper := continuous.upper ++ ints.upper ++ reals.2 ++ strings.2
    allSet := ints.allSet }

/-! ## Constraints -/

/-- An entry of `constraintMapIndices`, `constraintMapMultipliers` and `constraintMapOffsets`. -/
structure MapEntry (K : Type) where
  index : Nat
  multiplier : K
  offset : K

/-- `configure_equality_constraint_maps` -/
def configureEqualityConstraintMaps (targets : List K) (indexOffset : Nat) (makeOneSided : Bool) :
    List (MapEntry K) :=
  (targets.mapIdx fun i target =>
    if makeOneSided then [⟨i + indexOffset, -1, target⟩, ⟨i + indexOffset, 1, -target⟩]
    else [⟨i + indexOffset, 1, -target⟩]).flatten

/-- `configure_inequality_constraint_maps` -/
def configureInequalityConstraintMaps (bounds : List (K × K)) (bigReal scaling : K) :
    List (MapEntry K) :=
  (bounds.mapIdx fun i b =>
    (if -bigReal < b.1 then [⟨i, scaling, -scaling * b.1⟩] else []) ++
      (if b.2 < bigReal then [⟨i, -scaling, scaling * b.2⟩] else [])).flatten

/-- `nonlinear_inequality_format` -/
inductive InequalityFormat where
  | oneSidedLower
  | oneSidedUpper
deriving DecidableEq, Repr

def InequalityFormat.scaling : InequalityFormat → K
  | .oneSidedLower => 1
  | .oneSidedUpper => -1

/-- `configure_equality_constraints` with true equalities, then `configure_inequality_constraints`. -/
def constraintMaps (m : OptModel K) (bigReal : K) (format : InequalityFormat) : List (MapEntry K) :=
  configureEqualityConstraintMaps m.eqTargets m.ineqBounds.length false ++
    configureInequalityConstraintMaps m.ineqBounds bigReal format.scaling

/-- `f_vec`, `cEqs_vec`, `cIneqs_vec` -/
structure TplResponses (K : Type) where
  f : K
  cEqs : List K
  cIneqs : List K

def MapEntry.apply (e : MapEntry K) (fnVals : Nat → K) : K :=
  e.offset + e.multiplier * fnVals (e.index + 1)

/-- `get_responses` -/
def getResponses (m : OptModel K) (fnVals : Nat → K) (maps : List (MapEntry K)) :
    TplResponses K where
  f := if m.maximize then -fnVals 0 else fnVals 0
  cEqs := (maps.take m.eqTargets.length).map (·.apply fnVals)
  cIneqs := (maps.drop m.eqTargets.length).map (·.apply fnVals)

/-- An assignment to `best_fns` from a value of the optimizer. -/
def MapEntry.restore (e : MapEntry K) (numUserPrimaryFns : Nat) (best : K) : Nat × K :=
  (e.index + numUserPrimaryFns, (best - e.offset) / e.multiplier)

/-- `set_best_responses`, from the best values of the optimizer: `best_fns`. -/
def setBestResponses (m : OptModel K) (best : TplResponses K) (setObjectives : Bool)
    (numUserPrimaryFns : Nat) (maps : List (MapEntry K)) : Nat → K :=
  let numEq := m.eqTargets.length
  let objective := if setObjectives then [(0, if m.maximize then -best.f else best.f)] else []
  let eqs := if 0 < numEq then
      List.zipWith (·.restore numUserPrimaryFns ·) (maps.take numEq) best.cEqs else []
  let ineqs := if 0 < m.ineqBounds.length then
      List.zipWith (·.restore numUserPrimaryFns ·) (maps.drop numEq) best.cIneqs else []
  scatter (fun _ => 0) (objective ++ eqs ++ ineqs)

end OptModel

end Dakota.Optimizer
