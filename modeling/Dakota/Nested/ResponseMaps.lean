import Dakota.Lib.IndexLoop
import Dakota.Response.Mapping

/-!
# Nested response mapping

`NestedModel::set_mapping`, `interface_response_overlay`, `iterator_response_overlay` and their use in
`derived_evaluate` (`src/src/NestedModel.cpp`): the mapped functions `{f} + [W]{S}`, `{g}` and
`[A]{S}`.

* `requestIndex` is the position that `set_mapping` reads the request of a mapped function from,
  `overlayIndex` the position that the overlay writes the function to.
* Data are kept by function. The loops over rows are `modifyKeyed`; an error is a call of
  `abort_handler` or a write behind the end of a gradient.
* The derivative variables of the sub-iterator are given (`NestedVariables.subIteratorDvv`).
-/

namespace Dakota

/-- The value, the gradient and the lower triangle of the Hessian of a function. -/
structure FunctionEntries (K : Type) where
  value : K
  gradient : Nat → K
  hessian : Nat → Nat → K

/-- The data of a response by function. -/
structure ResponseEntries (K : Type) where
  set : ActiveSet
  entry : Nat → FunctionEntries K

/-- `DBL_MIN` -/
def dblMin (K : Type) [Field K] : K := (1 / 2) ^ 1022

/-- The sizes and matrices of a nested model, as `init_sub_iterator` leaves them. -/
structure NestedResponses (K : Type) where
  /-- `!optInterfacePointer.empty()` -/
  optInterface : Bool
  numOptInterfPrimary : Nat
  numOptInterfIneqCon : Nat
  numOptInterfEqCon : Nat
  numSubIterFns : Nat
  numSubIterMappedIneqCon : Nat
  numSubIterMappedEqCon : Nat
  identityRespMap : Bool
  subIterMappedPri : Nat
  subIterMappedSec : Nat
  primaryRespCoeffs : Nat → Nat → K
  secondaryRespCoeffs : Nat → Nat → K
  no_interface : optInterface = false →
    numOptInterfPrimary = 0 ∧ numOptInterfIneqCon = 0 ∧ numOptInterfEqCon = 0
  identity_interface : identityRespMap = true → optInterface = false
  identity_fns : identityRespMap = true → numSubIterFns = subIterMappedPri + subIterMappedSec

/-- A function of the sub-iterator mapping: a row of `[W]` or of `[A]`. -/
inductive MappedRow where
  | primary (i : Nat)
  | secondary (i : Nat)
deriving DecidableEq, Repr

/-- The sets for the optional interface and the sub-iterator. -/
structure SetMapping where
  optInterfaceSet : ActiveSet
  optInterfaceMap : Bool
  subIteratorSet : ActiveSet
  subIteratorMap : Bool

namespace NestedResponses

variable {K : Type} (m : NestedResponses K)

/-- `num_opt_interf_con` -/
def numOptInterfCon : Nat := m.numOptInterfIneqCon + m.numOptInterfEqCon

/-- `num_mapped_primary` -/
def numMappedPrimary : Nat := max m.numOptInterfPrimary m.subIterMappedPri

/-- `check_response_map` -/
def checkResponseMap (mappedAsv : List Nat) : Bool :=
  mappedAsv.length = m.numMappedPrimary + m.numOptInterfCon + m.subIterMappedSec ∧
    m.subIterMappedSec = m.numSubIterMappedIneqCon + m.numSubIterMappedEqCon

/-- The loops over the rows of `[W]` and `[A]`. -/
def primaryRows : List MappedRow := (List.range m.subIterMappedPri).map .primary

def secondaryRows : List MappedRow := (List.range m.subIterMappedSec).map .secondary

def rows : List MappedRow := m.primaryRows ++ m.secondaryRows

/-- The position of the request of a row in `set_mapping`. -/
def requestIndex : MappedRow → Nat
  | .primary i => i
  | .secondary i => i + m.numMappedPrimary + m.numOptInterfCon

/-- The position of a row in `iterator_response_overlay`. -/
def overlayIndex : MappedRow → Nat
  | .primary i => i
  | .secondary i =>
    let mIndex := m.numMappedPrimary + m.numOptInterfIneqCon + i
    if i ≥ m.numSubIterMappedIneqCon then mIndex + m.numOptInterfEqCon else mIndex

/-- The position of a constraint of the optional interface in `interface_response_overlay`. -/
def interfaceIndex (i : Nat) : Nat :=
  let mIndex := m.numMappedPrimary + i
  if i ≥ m.numOptInterfIneqCon then mIndex + m.numSubIterMappedIneqCon else mIndex

/-- The row of `[W]` or `[A]`. -/
def coeff : MappedRow → Nat → K
  | .primary i => m.primaryRespCoeffs i
  | .secondary i => m.secondaryRespCoeffs i

/-- The function of the sub-iterator that `set_mapping` takes for a row of the identity. -/
def identityIndex : MappedRow → Nat
  | .primary i => i
  | .secondary i => m.subIterMappedPri + i

/-! ## Requests -/

section Requests

variable [Field K] [LinearOrder K]

/-- Whether `set_mapping` asks function `j` of the sub-iterator for the data of a row. -/
def augments (r : MappedRow) (j : Nat) : Bool :=
  if m.identityRespMap then j = m.identityIndex r else dblMin K < |m.coeff r j|

/-- `sub_iterator_asv[j] |= mapped_asv_val` -/
def augment (mappedAsv : List Nat) (asv : List Nat) (r : MappedRow) : List Nat :=
  asv.mapIdx fun j bits =>
    if m.augments r j then bits ||| mappedAsv.getD (m.requestIndex r) 0 else bits

/-- `sub_iterator_asv` -/
def subIteratorAsv (mappedAsv : List Nat) : List Nat :=
  m.rows.foldl (m.augment mappedAsv) (List.replicate m.numSubIterFns 0)

end Requests

/-- `sub_iterator_map` -/
def subIteratorMap (mappedAsv : List Nat) : Bool :=
  m.rows.any fun r => mappedAsv.getD (m.requestIndex r) 0 ≠ 0

/-- `opt_interface_asv` -/
def optInterfaceAsv (mappedAsv : List Nat) : List Nat :=
  (List.range m.numOptInterfPrimary).map (mappedAsv.getD · 0) ++
    (List.range m.numOptInterfCon).map fun i => mappedAsv.getD (i + m.numMappedPrimary) 0

/-- `opt_interface_map`. An interface without functions is executed for the sub-iterator. -/
def optInterfaceMap (mappedAsv : List Nat) : Bool :=
  if m.optInterface ∧ m.numOptInterfPrimary + m.numOptInterfCon = 0 then m.subIteratorMap mappedAsv
  else (m.optInterfaceAsv mappedAsv).any (· ≠ 0)

/-- `set_mapping`, with the derivative variables of the sub-iterator. `none` is the call of
`abort_handler`. -/
def setMapping [Field K] [LinearOrder K] (mappedSet : ActiveSet) (subIteratorDvv : List Nat) :
    Option SetMapping :=
  let mappedAsv := mappedSet.requestVector
  if mappedAsv.length ≠ m.numMappedPrimary + m.numOptInterfCon + m.subIterMappedSec then none
  else some
    { optInterfaceSet :=
        if m.optInterfaceMap mappedAsv then
          ⟨m.optInterfaceAsv mappedAsv, mappedSet.derivVarsVector⟩
        else ⟨[], []⟩
      optInterfaceMap := m.optInterfaceMap mappedAsv
      subIteratorSet :=
        if m.subIteratorMap mappedAsv then ⟨m.subIteratorAsv mappedAsv, subIteratorDvv⟩
        else ⟨[], []⟩
      subIteratorMap := m.subIteratorMap mappedAsv }

/-! ## Overlays -/

section Overlays

variable [Field K] [LinearOrder K]

/-- `function_value`, `function_gradient` and `function_hessian` for the requests of one function. -/
def overlayEntry (set : ActiveSet) (mIndex : Nat) (source target : FunctionEntries K) :
    FunctionEntries K where
  value := if set.asks mIndex 1 then source.value else target.value
  gradient j := if set.asks mIndex 2 ∧ j < set.numParams then source.gradient j
    else target.gradient j
  hessian j k := if set.asks mIndex 4 ∧ j < set.numParams ∧ k ≤ j then source.hessian j k
    else target.hessian j k

/-- The functions of the optional interface, each with its position among the mapped ones. -/
def interfaceRows : List (Nat × Nat) :=
  (List.range m.numOptInterfPrimary).map (fun i => (i, i)) ++
    (List.range m.numOptInterfCon).map fun i => (m.numOptInterfPrimary + i, m.interfaceIndex i)

/-- `interface_response_overlay`. Its loop for `deriv_flag` ends with the first function. -/
def interfaceResponseOverlay (optInterface mapped : ResponseEntries K) :
    Except Unit (ResponseEntries K) := do
  if mapped.set.asks 0 6 ∧ optInterface.set.derivVarsVector ≠ mapped.set.derivVarsVector then
    throw ()
  if m.checkResponseMap mapped.set.requestVector = false then throw ()
  let entry ← modifyKeyed Prod.snd
    (fun r row => return overlayEntry mapped.set r.2 (optInterface.entry r.1) row) mapped.entry
    m.interfaceRows
  return { mapped with entry }

/-- `inner_prod += coeff * val` for the coefficients that are not zero. -/
def innerProd (coeff : Nat → K) (n : Nat) (init : K) (val : Nat → K) : K :=
  (List.range n).foldl (fun innerProd j =>
    if coeff j ≠ 0 then innerProd + coeff j * val j else innerProd) init

/-- The inner products of a row with the functions of the sub-iterator. -/
def combine (coeff : Nat → K) (n : Nat) (init : FunctionEntries K)
    (subIterator : Nat → FunctionEntries K) : FunctionEntries K where
  value := innerProd coeff n init.value fun j => (subIterator j).value
  gradient j := innerProd coeff n (init.gradient j) fun l => (subIterator l).gradient j
  hessian j k := innerProd coeff n (init.hessian j k) fun l => (subIterator l).hessian j k

instance : Zero (FunctionEntries K) where
  zero := ⟨0, fun _ => 0, fun _ _ => 0⟩

/-- `[W]{S}` for one row, which adds to the function of the optional interface. -/
def primaryEntry (set : ActiveSet) (subIterator : Nat → FunctionEntries K) (i : Nat)
    (row : FunctionEntries K) : FunctionEntries K :=
  overlayEntry set i
    (if m.identityRespMap then subIterator i
    else combine (m.primaryRespCoeffs i) m.numSubIterFns row subIterator) row

/-- `mapped_grad[m_index] = sub_iterator_grads(j, m_index)` for each `j`. -/
def identityGradient (numParams mIndex : Nat) (source target : Nat → K) : Except Unit (Nat → K) :=
  if mIndex < numParams ∨ numParams = 0 then
    return (List.range numParams).foldl (fun grad j => Function.update grad mIndex (source j)) target
  else throw ()

/-- `[A]{S}` for one row. -/
def secondaryEntry (set : ActiveSet) (subIterator : Nat → FunctionEntries K) (i : Nat)
    (row : FunctionEntries K) : Except Unit (FunctionEntries K) :=
  let mIndex := m.overlayIndex (.secondary i)
  if m.identityRespMap = false then
    return overlayEntry set mIndex
      (combine (m.secondaryRespCoeffs i) m.numSubIterFns 0 subIterator) row
  else if set.asks mIndex 2 then do
    let gradient ← identityGradient set.numParams mIndex (subIterator mIndex).gradient row.gradient
    return { overlayEntry set mIndex (subIterator mIndex) row with gradient }
  else return overlayEntry set mIndex (subIterator mIndex) row

/-- One row in `iterator_response_overlay`. -/
def rowEntry (set : ActiveSet) (subIterator : Nat → FunctionEntries K) :
    MappedRow → FunctionEntries K → Except Unit (FunctionEntries K)
  | .primary i, row => return m.primaryEntry set subIterator i row
  | .secondary i, row => m.secondaryEntry set subIterator i row

/-- `iterator_response_overlay` -/
def iteratorResponseOverlay (subIterator mapped : ResponseEntries K) :
    Except Unit (ResponseEntries K) := do
  let set := mapped.set
  if set.flag 6 ∧ set.numParams ≠ subIterator.set.numParams then throw ()
  if m.checkResponseMap set.requestVector = false then throw ()
  let entry ← modifyKeyed m.overlayIndex (m.rowEntry set subIterator.entry) mapped.entry m.rows
  return { mapped with entry }

/-- `derived_evaluate`, from the responses of the optional interface and the sub-iterator. -/
def derivedEvaluate (set : ActiveSet) (optInterface subIterator : ResponseEntries K) :
    Except Unit (ResponseEntries K) :=
  match m.setMapping set subIterator.set.derivVarsVector with
  | none => throw ()
  | some sets =>
    let reset : ResponseEntries K := ⟨set, fun _ => 0⟩
    let first := if sets.optInterfaceMap then m.interfaceResponseOverlay optInterface reset
      else .ok reset
    first.bind fun mapped =>
      if sets.subIteratorMap then m.iteratorResponseOverlay subIterator mapped else .ok mapped

end Overlays

end NestedResponses

end Dakota
