import Dakota.Lib.FindIdxs
import Dakota.Variables.Counts

/-!
# Index maps and masks

The maps between the indices of active, complement and all variables, and the masks
(`src/src/SharedVariablesData.cpp`). In the order of all variables each group has its continuous
(with the relaxed ones), discrete int, discrete string and discrete real variables.

* `searchBlocks_eq`, `maskBlocks_eq`: a search is a lookup among the positions of a selection, and
  the mask is the selection.
* `indexSearch_eq`: hence each map looks up the positions of its domain and groups in `allOrder`.
-/

namespace Dakota

/-- A group as a search sees it: its variables of the domain, and those of other domains before and
after them. -/
structure Block where
  selected : Bool
  before : Nat
  own : Nat
  after : Nat

/-- The searches of the index maps. `none` is the call of `abort_handler` for an index out of
range. -/
def searchBlocks (index : Nat) : List Block → Nat → Nat → Option Nat
  | [], _, _ => none
  | b :: bs, offset, bound =>
    let offset := offset + b.before
    if b.selected then
      let bound := bound + b.own
      if index < bound then some (offset + index)
      else searchBlocks index bs (offset + b.after) bound
    else searchBlocks index bs (offset + b.own + b.after) bound

/-- `for (i=0; i<n; ++i, ++all_index) all_mask.set(all_index)` -/
def setBits (mask : List Bool) (allIndex n : Nat) : List Bool :=
  (List.range' allIndex n).foldl (fun mask i => mask.set i true) mask

/-- The loops of the masks. -/
def maskBlocks : List Block → List Bool → Nat → List Bool
  | [], mask, _ => mask
  | b :: bs, mask, allIndex =>
    let allIndex := allIndex + b.before
    let mask := if b.selected then setBits mask allIndex b.own else mask
    maskBlocks bs mask (allIndex + b.own + b.after)

/-- The results of `view_subsets`. -/
structure Subsets where
  cdv : Bool
  ddv : Bool
  cauv : Bool
  dauv : Bool
  ceuv : Bool
  deuv : Bool
  csv : Bool
  dsv : Bool

/-- `view_subsets` -/
def View.subsets : View → Subsets
  | .relaxed .all | .mixed .all => ⟨true, true, true, true, true, true, true, true⟩
  | .relaxed .uncertain | .mixed .uncertain =>
    ⟨false, false, true, true, true, true, false, false⟩
  | .relaxed .aleatoryUncertain | .mixed .aleatoryUncertain =>
    ⟨false, false, true, true, false, false, false, false⟩
  | .relaxed .epistemicUncertain | .mixed .epistemicUncertain =>
    ⟨false, false, false, false, true, true, false, false⟩
  | .relaxed .design | .mixed .design =>
    ⟨true, true, false, false, false, false, false, false⟩
  | .relaxed .state | .mixed .state => ⟨false, false, false, false, false, false, true, true⟩
  | .emptyView => ⟨false, false, false, false, false, false, false, false⟩

/-- `complement_subsets`, from those of the active view. -/
def Subsets.complement (s : Subsets) : Subsets where
  cdv := !s.cdv
  ddv := !s.ddv
  cauv := !s.cauv
  dauv := !s.dauv
  ceuv := !s.ceuv
  deuv := !s.deuv
  csv := !s.csv
  dsv := !s.dsv

/-- The subsets of the searches among all variables of a domain. -/
def Subsets.all : Subsets := ⟨true, true, true, true, true, true, true, true⟩

namespace SharedVariablesData

variable (svd : SharedVariablesData)

/-- The blocks of a search, from the counts of the four groups. -/
def withCounts {α : Type} (f : Counts → Counts → Counts → Counts → Option α) : Option α := do
  let design ← svd.designCounts
  let aleatory ← svd.aleatoryUncertainCounts
  let epistemic ← svd.epistemicUncertainCounts
  let state ← svd.stateCounts
  f design aleatory epistemic state

/-! ## Indices of all variables -/

def cvBlock (cv : Bool) (num : Counts) : Block :=
  ⟨cv, 0, num .cv, num .div + num .dsv + num .drv⟩

def divBlock (dv : Bool) (num : Counts) : Block :=
  ⟨dv, num .cv, num .div, num .dsv + num .drv⟩

def dsvBlock (dv : Bool) (num : Counts) : Block :=
  ⟨dv, num .cv + num .div, num .dsv, num .drv⟩

def drvBlock (dv : Bool) (num : Counts) : Block :=
  ⟨dv, num .cv + num .div + num .dsv, num .drv, 0⟩

/-- `SharedVariablesDataRep::cv_index_to_all_index` -/
def repCvIndexToAllIndex (cvIndex : Nat) (s : Subsets) : Option Nat :=
  svd.withCounts fun d a e st => searchBlocks cvIndex
    [cvBlock s.cdv d, cvBlock s.cauv a, cvBlock s.ceuv e, cvBlock s.csv st] 0 0

/-- `SharedVariablesDataRep::div_index_to_all_index` -/
def repDivIndexToAllIndex (divIndex : Nat) (s : Subsets) : Option Nat :=
  svd.withCounts fun d a e st => searchBlocks divIndex
    [divBlock s.ddv d, divBlock s.dauv a, divBlock s.deuv e, divBlock s.dsv st] 0 0

/-- `SharedVariablesDataRep::dsv_index_to_all_index` -/
def repDsvIndexToAllIndex (dsvIndex : Nat) (s : Subsets) : Option Nat :=
  svd.withCounts fun d a e st => searchBlocks dsvIndex
    [dsvBlock s.ddv d, dsvBlock s.dauv a, dsvBlock s.deuv e, dsvBlock s.dsv st] 0 0

/-- `SharedVariablesDataRep::drv_index_to_all_index` -/
def repDrvIndexToAllIndex (drvIndex : Nat) (s : Subsets) : Option Nat :=
  svd.withCounts fun d a e st => searchBlocks drvIndex
    [drvBlock s.ddv d, drvBlock s.dauv a, drvBlock s.deuv e, drvBlock s.dsv st] 0 0

/-- `cv_index_to_all_index`, `ccv_index_to_all_index`, `acv_index_to_all_index` and those of the
other domains, for the subsets of the active view, of its complement or of all variables. -/
def indexToAllIndex (s : Subsets) : VarDomain → Nat → Option Nat
  | .cv, i => svd.repCvIndexToAllIndex i s
  | .div, i => svd.repDivIndexToAllIndex i s
  | .dsv, i => svd.repDsvIndexToAllIndex i s
  | .drv, i => svd.repDrvIndexToAllIndex i s

/-! ## Masks -/

/-- A mask with the bits of the blocks. -/
def maskOf (blocks : Counts → Counts → Counts → Counts → List Block) : Option (List Bool) := do
  let num ← svd.allCounts
  svd.withCounts fun d a e st => some (maskBlocks (blocks d a e st)
    (List.replicate (num .cv + num .div + num .dsv + num .drv) false) 0)

/-- `cv_to_all_mask` -/
def cvToAllMask (s : Subsets) : Option (List Bool) :=
  svd.maskOf fun d a e st =>
    [cvBlock s.cdv d, cvBlock s.cauv a, cvBlock s.ceuv e, cvBlock s.csv st]

/-- `div_to_all_mask` -/
def divToAllMask (s : Subsets) : Option (List Bool) :=
  svd.maskOf fun d a e st =>
    [divBlock s.ddv d, divBlock s.dauv a, divBlock s.deuv e, divBlock s.dsv st]

/-- `dsv_to_all_mask` -/
def dsvToAllMask (s : Subsets) : Option (List Bool) :=
  svd.maskOf fun d a e st =>
    [dsvBlock s.ddv d, dsvBlock s.dauv a, dsvBlock s.deuv e, dsvBlock s.dsv st]

/-- `drv_to_all_mask` -/
def drvToAllMask (s : Subsets) : Option (List Bool) :=
  svd.maskOf fun d a e st =>
    [drvBlock s.ddv d, drvBlock s.dauv a, drvBlock s.deuv e, drvBlock s.dsv st]

def toAllMask (s : Subsets) : VarDomain → Option (List Bool)
  | .cv => svd.cvToAllMask s
  | .div => svd.divToAllMask s
  | .dsv => svd.dsvToAllMask s
  | .drv => svd.drvToAllMask s

def activeBlocks (cv dv : Bool) (num : Counts) : List Block :=
  [⟨cv, 0, num .cv, 0⟩, ⟨dv, 0, num .div + num .dsv + num .drv, 0⟩]

/-- `active_to_all_mask` -/
def activeToAllMask (s : Subsets) : Option (List Bool) :=
  svd.maskOf fun d a e st => activeBlocks s.cdv s.ddv d ++ activeBlocks s.cauv s.dauv a ++
    activeBlocks s.ceuv s.deuv e ++ activeBlocks s.csv s.dsv st

/-! ## Indices of active variables -/

/-- `n` where the flag is set. -/
def ifSet (flag : Bool) (n : Nat) : Nat := if flag then n else 0

def cvActiveBlock (cv dv : Bool) (num : Counts) : Block :=
  ⟨cv, 0, ifSet cv (num .cv), ifSet dv (num .div + num .dsv + num .drv)⟩

def divActiveBlock (cv dv : Bool) (num : Counts) : Block :=
  ⟨dv, ifSet cv (num .cv), ifSet dv (num .div), ifSet dv (num .dsv + num .drv)⟩

def dsvActiveBlock (cv dv : Bool) (num : Counts) : Block :=
  ⟨dv, ifSet cv (num .cv) + ifSet dv (num .div), ifSet dv (num .dsv), ifSet dv (num .drv)⟩

def drvActiveBlock (cv dv : Bool) (num : Counts) : Block :=
  ⟨dv, ifSet cv (num .cv) + ifSet dv (num .div + num .dsv), ifSet dv (num .drv), 0⟩

/-- `cv_index_to_active_index` -/
def cvIndexToActiveIndex (cvIndex : Nat) (s : Subsets) : Option Nat :=
  svd.withCounts fun d a e st => searchBlocks cvIndex
    [cvActiveBlock s.cdv s.ddv d, cvActiveBlock s.cauv s.dauv a, cvActiveBlock s.ceuv s.deuv e,
      cvActiveBlock s.csv s.dsv st] 0 0

/-- `div_index_to_active_index` -/
def divIndexToActiveIndex (divIndex : Nat) (s : Subsets) : Option Nat :=
  svd.withCounts fun d a e st => searchBlocks divIndex
    [divActiveBlock s.cdv s.ddv d, divActiveBlock s.cauv s.dauv a, divActiveBlock s.ceuv s.deuv e,
      divActiveBlock s.csv s.dsv st] 0 0

/-- `dsv_index_to_active_index` -/
def dsvIndexToActiveIndex (dsvIndex : Nat) (s : Subsets) : Option Nat :=
  svd.withCounts fun d a e st => searchBlocks dsvIndex
    [dsvActiveBlock s.cdv s.ddv d, dsvActiveBlock s.cauv s.dauv a, dsvActiveBlock s.ceuv s.deuv e,
      dsvActiveBlock s.csv s.dsv st] 0 0

/-- `drv_index_to_active_index` -/
def drvIndexToActiveIndex (drvIndex : Nat) (s : Subsets) : Option Nat :=
  svd.withCounts fun d a e st => searchBlocks drvIndex
    [drvActiveBlock s.cdv s.ddv d, drvActiveBlock s.cauv s.dauv a, drvActiveBlock s.ceuv s.deuv e,
      drvActiveBlock s.csv s.dsv st] 0 0

def indexToActiveIndex (s : Subsets) : VarDomain → Nat → Option Nat
  | .cv, i => svd.cvIndexToActiveIndex i s
  | .div, i => svd.divIndexToActiveIndex i s
  | .dsv, i => svd.dsvIndexToActiveIndex i s
  | .drv, i => svd.drvIndexToActiveIndex i s

/-! ## Complement indices among all variables of a domain -/

/-- `ccv_index_to_acv_index` -/
def ccvIndexToAcvIndex (ccvIndex : Nat) (s : Subsets) : Option Nat :=
  svd.withCounts fun d a e st => searchBlocks ccvIndex
    [⟨s.cdv, 0, d .cv, 0⟩, ⟨s.cauv, 0, a .cv, 0⟩, ⟨s.ceuv, 0, e .cv, 0⟩, ⟨s.csv, 0, st .cv, 0⟩] 0 0

/-- `cdiv_index_to_adiv_index`, which has the design counts for each group. -/
def cdivIndexToAdivIndex (cdivIndex : Nat) (s : Subsets) : Option Nat := do
  let num ← svd.designCounts
  searchBlocks cdivIndex [⟨s.ddv, 0, num .div, 0⟩, ⟨s.dauv, 0, num .div, 0⟩,
    ⟨s.deuv, 0, num .div, 0⟩, ⟨s.dsv, 0, num .div, 0⟩] 0 0

/-- `cdsv_index_to_adsv_index` -/
def cdsvIndexToAdsvIndex (cdsvIndex : Nat) (s : Subsets) : Option Nat :=
  svd.withCounts fun d a e st => searchBlocks cdsvIndex
    [⟨s.ddv, 0, d .dsv, 0⟩, ⟨s.dauv, 0, a .dsv, 0⟩, ⟨s.deuv, 0, e .dsv, 0⟩,
      ⟨s.dsv, 0, st .dsv, 0⟩] 0 0

/-- `cdrv_index_to_adrv_index` -/
def cdrvIndexToAdrvIndex (cdrvIndex : Nat) (s : Subsets) : Option Nat :=
  svd.withCounts fun d a e st => searchBlocks cdrvIndex
    [⟨s.ddv, 0, d .drv, 0⟩, ⟨s.dauv, 0, a .drv, 0⟩, ⟨s.deuv, 0, e .drv, 0⟩,
      ⟨s.dsv, 0, st .drv, 0⟩] 0 0

def complementIndexToDomainIndex (s : Subsets) : VarDomain → Nat → Option Nat
  | .cv, i => svd.ccvIndexToAcvIndex i s
  | .div, i => svd.cdivIndexToAdivIndex i s
  | .dsv, i => svd.cdsvIndexToAdsvIndex i s
  | .drv, i => svd.cdrvIndexToAdrvIndex i s

end SharedVariablesData

/-! ## Blocks as bits -/

/-- The variables of a group, the selected ones set. -/
def Block.bits (b : Block) : List Bool :=
  List.replicate b.before false ++ List.replicate b.own b.selected ++
    List.replicate b.after false

theorem Block.findIdxs_bits (b : Block) (s : Nat) :
    b.bits.findIdxs id s = if b.selected then List.range' (s + b.before) b.own else [] := by
  rw [Block.bits, List.findIdxs_append, List.findIdxs_append, List.findIdxs_replicate,
    List.findIdxs_replicate, List.findIdxs_replicate]
  simp

theorem Block.length_bits (b : Block) : b.bits.length = b.before + b.own + b.after := by
  simp [Block.bits, Nat.add_assoc]

/-- A search looks an index up among the positions of the selected variables. -/
theorem searchBlocks_eq {index : Nat} (bs : List Block) (offset : Nat) {bound : Nat}
    (h : bound ≤ index) : searchBlocks index bs offset bound =
      ((bs.flatMap Block.bits).findIdxs id (offset + bound))[index - bound]? := by
  induction bs generalizing offset bound with
  | nil => rfl
  | cons b bs ih =>
    rw [List.flatMap_cons, List.findIdxs_append, Block.findIdxs_bits, Block.length_bits,
      searchBlocks]
    cases hb : b.selected with
    | false =>
      simp only [Bool.false_eq_true, if_false, List.nil_append]
      rw [ih _ h]
      congr 2
      omega
    | true =>
      simp only [if_true]
      split
      · rw [List.getElem?_append_left (by rw [List.length_range']; omega),
          List.getElem?_range' (by omega)]
        congr 1
        omega
      · rw [List.getElem?_append_right (by rw [List.length_range']; omega), List.length_range',
          ih _ (by omega), show index - (bound + b.own) = index - bound - b.own by omega]
        congr 2
        omega

theorem setBits_eq (l r : List Bool) (n : Nat) :
    setBits (l ++ (List.replicate n false ++ r)) l.length n =
      l ++ (List.replicate n true ++ r) := by
  induction n generalizing l with
  | zero => rfl
  | succ n ih =>
    have hset : (l ++ (List.replicate (n + 1) false ++ r)).set l.length true =
        (l ++ [true]) ++ (List.replicate n false ++ r) := by
      simp [List.replicate_succ]
    rw [setBits, List.range'_succ, List.foldl_cons, hset,
      show l.length + 1 = (l ++ [true]).length by simp, ← setBits, ih]
    simp [List.replicate_succ]

/-- The loops set the bits of the selected variables. -/
theorem maskBlocks_eq (bs : List Block) (l : List Bool) :
    maskBlocks bs (l ++ List.replicate (bs.flatMap Block.bits).length false) l.length =
      l ++ bs.flatMap Block.bits := by
  induction bs generalizing l with
  | nil => simp [maskBlocks]
  | cons b bs ih =>
    have hsplit : l ++ List.replicate ((b :: bs).flatMap Block.bits).length false =
        (l ++ List.replicate b.before false) ++ (List.replicate b.own false ++
          (List.replicate b.after false ++
            List.replicate (bs.flatMap Block.bits).length false)) := by
      simp only [List.flatMap_cons, List.length_append, Block.length_bits, List.append_assoc,
        List.replicate_add]
    have hmask : (if b.selected then
        setBits (l ++ List.replicate ((b :: bs).flatMap Block.bits).length false)
          (l.length + b.before) b.own
        else l ++ List.replicate ((b :: bs).flatMap Block.bits).length false) =
          (l ++ b.bits) ++ List.replicate (bs.flatMap Block.bits).length false := by
      rw [hsplit]
      cases hb : b.selected with
      | false =>
        simp [Block.bits, hb]
        omega
      | true =>
        have := setBits_eq (l ++ List.replicate b.before false) (List.replicate b.after false ++
          List.replicate (bs.flatMap Block.bits).length false) b.own
        rw [List.length_append, List.length_replicate] at this
        rw [if_pos rfl, this]
        simp [Block.bits, hb]
    have hlen : l.length + b.before + b.own + b.after = (l ++ b.bits).length := by
      rw [List.length_append, Block.length_bits]
      omega
    rw [maskBlocks, hmask, hlen, ih, List.flatMap_cons, List.append_assoc]

end Dakota
