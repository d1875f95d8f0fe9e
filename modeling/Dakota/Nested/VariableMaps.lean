import Dakota.Lib.RunCounter
import Dakota.Nested.VariableTypes

/-!
# Maps from the variables to those of a sub-model

The constructor of `NestedModel`, `update_sub_model` and the derivative variables of `set_mapping`
(`src/src/NestedModel.cpp`), without secondary mappings.

* A variable with an empty primary mapping is inserted into a variable of its type, a labelled one
  into the variable with the label. `none` stands for `_NPOS` in a map, and for the call of
  `abort_handler` in a result.
* The aggregation of the inactive view of the sub-model, which can only reject a specification, and
  the bounds, labels and distribution parameters that follow a value are left out.
-/

namespace Dakota

/-- `all_continuous_variable_types`, `all_continuous_variable_labels`, ... of the sub-model. -/
structure SubModelVariables where
  types : VarDomain → List VarType
  labels : VarDomain → List String
  /-- `all_continuous_variable_ids` -/
  allContinuousIds : List Nat
  labels_length : ∀ d, (labels d).length = (types d).length
  ids_length : allContinuousIds.length = (types .cv).length
  ids_nodup : allContinuousIds.Nodup

/-- An entry of `active1ACVarMapIndices`, `active1ADIVarMapIndices`, ... -/
abbrev MapEntry := VarDomain → Option Nat

/-- The order in which the arrays are gone through. -/
def VarDomain.all : List VarDomain := [.cv, .div, .dsv, .drv]

/-- The entry of a target in one array. -/
def MapEntry.only (d : VarDomain) (index : Nat) : MapEntry := fun e =>
  if e = d then some index else none

/-- The first array with a target. -/
def MapEntry.target (entry : MapEntry) : Option (VarDomain × Nat) :=
  VarDomain.all.findSome? fun d => (entry d).map (d, ·)

/-- `resolve_map1` -/
def SubModelVariables.resolveMap1 (sub : SubModelVariables) (map1 : String) : Option MapEntry :=
  VarDomain.all.findSome? fun d => ((sub.labels d).idxOf? map1).map (MapEntry.only d)

/-- `prev_c_type`, `sm_acv_cntr` and `sm_acv_avail`, and those of the other arrays. -/
structure TypeCounter extends RunCounter VarType where
  avail : Nat

/-- `USHRT_MAX` is no type. -/
def TypeCounter.init : TypeCounter := ⟨⟨none, 0⟩, 0⟩

/-- The next variable of a type in the sub-model. -/
def defaultIndex (types : List VarType) (t : VarType) (c : TypeCounter) :
    Option (Nat × TypeCounter) := do
  let offset ← types.idxOf? t
  let cntr := if some t = c.prev then c.cntr else 0
  let avail := if some t = c.prev then c.avail else types.count t
  if cntr + 1 ≤ avail then some (offset + cntr, ⟨⟨some t, cntr + 1⟩, avail⟩) else none

/-- `active1ACVarMapIndices`, ..., and `complement1ACVarMapIndices`, ... -/
structure VarMaps where
  active : Nat → MapEntry
  complement : VarDomain → List Nat

/-- A value that is written: its array, its position there, and the position in the same array of the
sub-model. -/
structure Insertion where
  domain : VarDomain
  source : Nat
  target : Nat
deriving DecidableEq, Repr

/-- The specification of a nested model. -/
structure NestedVariables where
  spec : VariablesSpec
  sub : SubModelVariables
  /-- empty, or one entry for each active variable -/
  primaryVarMapping : List String

namespace NestedVariables

variable (m : NestedVariables)

/-- `cv_start()`, `cv()`, ... -/
def startCounts : Option StartCounts := m.spec.svd.viewStartCounts m.spec.view

def indexToActiveIndex (d : VarDomain) (i : Nat) : Option Nat :=
  m.spec.svd.indexToActiveIndex m.spec.view.subsets d i

def complementIndexToDomainIndex (d : VarDomain) (i : Nat) : Option Nat :=
  m.spec.svd.complementIndexToDomainIndex m.spec.view.subsets.complement d i

/-- `(num_var_map_1) ? primary_var_mapping[curr_i] : empty_str` -/
def map1 (currI : Nat) : String := m.primaryVarMapping.getD currI ""

/-- A view of the active variables in an array of all. -/
def activeView {α : Type} (view : StartCounts) (d : VarDomain) (l : List α) : List α :=
  (l.drop (view.start d)).take (view.num d)

/-- One active variable in the constructor. -/
def mapActiveStep (view : StartCounts) (d : VarDomain) (s : (Nat → MapEntry) × TypeCounter)
    (i : Nat) : Option ((Nat → MapEntry) × TypeCounter) := do
  let currI ← m.indexToActiveIndex d i
  if m.map1 currI = "" then
    let t ← (activeView view d (m.spec.types d))[i]?
    let (index, counter) ← defaultIndex (m.sub.types d) t s.2
    return (Function.update s.1 currI (MapEntry.only d index), counter)
  else
    let entry ← m.sub.resolveMap1 (m.map1 currI)
    return (Function.update s.1 currI entry, s.2)

/-- The loop over the active variables of an array. -/
def mapActive (view : StartCounts) (active : Nat → MapEntry) (d : VarDomain) :
    Option (Nat → MapEntry) :=
  ((List.range (view.num d)).foldlM (m.mapActiveStep view d) (active, .init)).map Prod.fst

/-- One complement variable in the constructor. -/
def mapComplementStep (d : VarDomain) (s : List Nat × TypeCounter) (i : Nat) :
    Option (List Nat × TypeCounter) := do
  let currI ← m.complementIndexToDomainIndex d i
  let t ← (m.spec.types d)[currI]?
  let (index, counter) ← defaultIndex (m.sub.types d) t s.2
  return (s.1 ++ [index], counter)

/-- `currentVariables.acv() - num_curr_cv`, ... -/
def numComplement (view : StartCounts) (d : VarDomain) : Option Nat := do
  let all ← m.spec.svd.allCounts
  sizeSub (all d) (view.num d)

/-- The loop over the complement variables of an array. -/
def mapComplement (view : StartCounts) (d : VarDomain) : Option (List Nat) := do
  let n ← m.numComplement view d
  ((List.range n).foldlM (m.mapComplementStep d) ([], .init)).map Prod.fst

/-- The maps of the constructor. The entries are 0 after `resize`. -/
def construct : Option VarMaps := do
  let view ← m.startCounts
  if m.primaryVarMapping ≠ [] ∧
      m.primaryVarMapping.length ≠ SharedVariablesData.numVars view.num then none
  else
    let active ← VarDomain.all.foldlM (m.mapActive view) fun _ _ => some 0
    let ccv ← m.mapComplement view .cv
    let cdiv ← m.mapComplement view .div
    let cdsv ← m.mapComplement view .dsv
    let cdrv ← m.mapComplement view .drv
    return ⟨active, fun
      | .cv => ccv
      | .div => cdiv
      | .dsv => cdsv
      | .drv => cdrv⟩

/-- The value of one active variable. Without secondary mappings there is no target for a value of
another array. -/
def activeInsertion (view : StartCounts) (maps : VarMaps) (d : VarDomain) (i : Nat) :
    Option (List Insertion) := do
  let currI ← m.indexToActiveIndex d i
  match (maps.active currI).target with
  | none => return []
  | some (e, index) => if e = d then return [⟨d, view.start d + i, index⟩] else none

/-- The value of one complement variable. -/
def complementInsertion (maps : VarMaps) (d : VarDomain) (i : Nat) : Option (List Insertion) := do
  let currI ← m.complementIndexToDomainIndex d i
  let index ← (maps.complement d)[i]?
  return [⟨d, currI, index⟩]

/-- The values that `update_sub_model` writes. -/
def updateSubModel (maps : VarMaps) : Option (List Insertion) := do
  let view ← m.startCounts
  let active ← VarDomain.all.mapM fun d =>
    (List.range (view.num d)).mapM (m.activeInsertion view maps d)
  let complement ← VarDomain.all.mapM fun d => do
    let n ← m.numComplement view d
    (List.range n).mapM (m.complementInsertion maps d)
  return active.flatten.flatten ++ complement.flatten.flatten

/-- `sub_iterator_dvv` in `set_mapping` -/
def subIteratorDvv (maps : VarMaps) (mappedDvv : List Nat) : Option (List Nat) := do
  let view ← m.startCounts
  mappedDvv.mapM fun id => do
    let cvIndex ← (activeView view .cv (m.spec.svd.allIds .cv)).idxOf? id
    let smAcvIndex ← maps.active cvIndex .cv
    m.sub.allContinuousIds[smAcvIndex]?

end NestedVariables

end Dakota
