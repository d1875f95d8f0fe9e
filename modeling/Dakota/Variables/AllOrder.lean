import Dakota.Variables.IndexMaps
import Dakota.Variables.Views

/-!
# One partition of the variables

The order of all variables, as a list of groups and domains. The index maps and masks of the active
view and of its complement are the positions of its classes (`indexToAllIndex_eq`,
`toAllMask_eq`), so they partition the indices (`indexMaps`).

The map of discrete int complement indices to indices of all discrete int variables is left out: it
is a search with the counts of the design group for every group.
-/

namespace Dakota

/-- The flag of a group and a domain. -/
def Subsets.selects (s : Subsets) : VarGroup → VarDomain → Bool
  | .design, .cv => s.cdv
  | .design, _ => s.ddv
  | .aleatoryUncertain, .cv => s.cauv
  | .aleatoryUncertain, _ => s.dauv
  | .epistemicUncertain, .cv => s.ceuv
  | .epistemicUncertain, _ => s.deuv
  | .state, .cv => s.csv
  | .state, _ => s.dsv

theorem Subsets.selects_complement (s : Subsets) (g : VarGroup) (d : VarDomain) :
    s.complement.selects g d = !s.selects g d := by
  cases g <;> cases d <;> rfl

theorem Subsets.selects_all (g : VarGroup) (d : VarDomain) : Subsets.all.selects g d = true := by
  cases g <;> cases d <;> rfl

theorem Subsets.selects_discrete (s : Subsets) (g : VarGroup) :
    s.selects g .dsv = s.selects g .div ∧ s.selects g .drv = s.selects g .div := by
  cases g <;> exact ⟨rfl, rfl⟩

/-- The variables that a map is about. -/
inductive VarPart where
  | active
  | complement
deriving DecidableEq

/-- `active_subsets` and `complement_subsets` -/
def VarPart.subsets (view : View) : VarPart → Subsets
  | .active => view.subsets
  | .complement => view.subsets.complement

namespace SharedVariablesData

variable (svd : SharedVariablesData)

/-- The groups before a group. -/
def groupsBefore : VarGroup → List VarGroup
  | .design => []
  | .aleatoryUncertain => [.design]
  | .epistemicUncertain => [.design, .aleatoryUncertain]
  | .state => [.design, .aleatoryUncertain, .epistemicUncertain]

/-- The counts of a group. -/
def groupCounts (g : VarGroup) : Counts := fun d => (svd.slotsAfter (groupsBefore g) [g]).count d

/-- The variables of a group, by domain. -/
def groupOrder (g : VarGroup) : List (VarGroup × VarDomain) :=
  [.cv, .div, .dsv, .drv].flatMap fun d => List.replicate (svd.groupCounts g d) (g, d)

/-- The order of all variables. -/
def allOrder : List (VarGroup × VarDomain) := allGroups.flatMap svd.groupOrder

/-- `initialize_all_ids`: the positions of the variables of an array among all variables, from 1. -/
def allIds (d : VarDomain) : List Nat :=
  (svd.slots.zipIdx 1).filterMap fun p => if p.1 = d then some p.2 else none

/-- A variable of a domain that is selected. -/
def inClass (s : Subsets) (d : VarDomain) (x : VarGroup × VarDomain) : Bool :=
  x.2 = d && s.selects x.1 x.2

variable {svd}

theorem withCounts_eq {α : Type} (f : Counts → Counts → Counts → Counts → Option α) :
    svd.withCounts f = f (svd.groupCounts .design) (svd.groupCounts .aleatoryUncertain)
      (svd.groupCounts .epistemicUncertain) (svd.groupCounts .state) := by
  simp only [withCounts, designCounts, aleatoryUncertainCounts, epistemicUncertainCounts,
    stateCounts, countsAfter_eq, Option.bind_eq_bind, Option.bind_some]
  rfl

theorem searchBlocks_zero (index : Nat) (bs : List Block) :
    searchBlocks index bs 0 0 = ((bs.flatMap Block.bits).findIdxs id)[index]? :=
  searchBlocks_eq bs 0 (Nat.zero_le index)

/-- A search that finds, in each group, the positions with `p` among the variables with `q`. -/
theorem search_eq {p q : VarGroup × VarDomain → Bool} {block : VarGroup → Block}
    (hblock : ∀ g, ((svd.groupOrder g).filter q).map p = (block g).bits) (index : Nat) :
    searchBlocks index [block .design, block .aleatoryUncertain, block .epistemicUncertain,
      block .state] 0 0 = ((svd.allOrder.filter q).findIdxs p)[index]? := by
  have hbits : (svd.allOrder.filter q).map p = ([block .design, block .aleatoryUncertain,
      block .epistemicUncertain, block .state]).flatMap Block.bits := by
    simp only [allOrder, allGroups, List.flatMap_cons, List.flatMap_nil, List.filter_append,
      List.map_append, List.filter_nil, List.map_nil, hblock]
  rw [searchBlocks_zero, ← hbits, List.findIdxs_map]
  rfl

/-- The block of a domain. -/
def domainBlock : VarDomain → Bool → Counts → Block
  | .cv => cvBlock
  | .div => divBlock
  | .dsv => dsvBlock
  | .drv => drvBlock

def domainActiveBlock : VarDomain → Bool → Bool → Counts → Block
  | .cv => cvActiveBlock
  | .div => divActiveBlock
  | .dsv => dsvActiveBlock
  | .drv => drvActiveBlock

/-- The variables of one domain in a group. -/
theorem map_groupOrder (s : Subsets) (d : VarDomain) (g : VarGroup) :
    (svd.groupOrder g).map (inClass s d) =
      (domainBlock d (s.selects g d) (svd.groupCounts g)).bits := by
  cases d <;>
    simp [groupOrder, inClass, domainBlock, cvBlock, divBlock, dsvBlock, drvBlock, Block.bits,
      -List.replicate_append_replicate, List.replicate_add]

/-- The variables of one domain among the selected ones of a group. -/
theorem map_filter_groupOrder (s : Subsets) (d : VarDomain) (g : VarGroup) :
    ((svd.groupOrder g).filter fun x => s.selects x.1 x.2).map (fun x => decide (x.2 = d)) =
      (domainActiveBlock d (s.selects g .cv) (s.selects g .div) (svd.groupCounts g)).bits := by
  obtain ⟨hdsv, hdrv⟩ := s.selects_discrete g
  cases hc : s.selects g .cv <;> cases hd : s.selects g .div <;> cases d <;>
    simp [groupOrder, hc, hd, hdsv, hdrv, domainActiveBlock, cvActiveBlock, divActiveBlock,
      dsvActiveBlock, drvActiveBlock, Block.bits, ifSet, -List.replicate_append_replicate,
      List.replicate_add]

/-- The selected variables among those of one domain in a group. -/
theorem map_filter_domain (s : Subsets) (d : VarDomain) (g : VarGroup) :
    ((svd.groupOrder g).filter fun x => x.2 = d).map (fun x => s.selects x.1 x.2) =
      (Block.mk (s.selects g d) 0 (svd.groupCounts g d) 0).bits := by
  cases d <;> simp [groupOrder, Block.bits]

/-! ## The ids -/

theorem pairwise_allIds (d : VarDomain) : (svd.allIds d).Pairwise (· < ·) := by
  unfold allIds
  rw [List.pairwise_filterMap]
  have hsnd : ((svd.slots.zipIdx 1).map Prod.snd).Pairwise (· < ·) := by
    rw [List.zipIdx_map_snd]
    exact List.pairwise_lt_range'
  refine (List.pairwise_map.mp hsnd).imp fun {p p'} hlt a ha b hb => ?_
  split at ha
  · split at hb
    · rwa [← Option.some.inj ha, ← Option.some.inj hb]
    · cases hb
  · cases ha

theorem length_allIds (d : VarDomain) : (svd.allIds d).length = svd.slots.count d := by
  have h (l : List VarDomain) (n : Nat) : ((l.zipIdx n).filterMap fun p =>
      if p.1 = d then some p.2 else none).length = l.count d := by
    induction l generalizing n with
    | nil => rfl
    | cons e l ih =>
      rw [List.zipIdx_cons, List.filterMap_cons, List.count_cons]
      by_cases he : e = d
      · simp [he, ih]
      · simp [he, ih]
  exact h _ _

/-! ## The maps -/

theorem indexToAllIndex_eq (s : Subsets) (d : VarDomain) (i : Nat) :
    svd.indexToAllIndex s d i = (svd.allOrder.findIdxs (inClass s d))[i]? := by
  have hblock (g : VarGroup) : ((svd.groupOrder g).filter fun _ => true).map (inClass s d) =
      (domainBlock d (s.selects g d) (svd.groupCounts g)).bits := by
    rw [List.filter_true]
    exact map_groupOrder s d g
  have hsearch := search_eq hblock i
  rw [List.filter_true] at hsearch
  rw [← hsearch]
  cases d <;> exact withCounts_eq _

theorem indexToActiveIndex_eq (s : Subsets) (d : VarDomain) (i : Nat) :
    svd.indexToActiveIndex s d i =
      ((svd.allOrder.filter fun x => s.selects x.1 x.2).findIdxs fun x => x.2 = d)[i]? := by
  rw [← search_eq (map_filter_groupOrder s d) i]
  cases d <;> exact withCounts_eq _

/-- The maps of complement indices, except the one of discrete int variables. -/
theorem complementIndexToDomainIndex_eq (s : Subsets) {d : VarDomain} (hd : d ≠ .div) (i : Nat) :
    svd.complementIndexToDomainIndex s d i =
      ((svd.allOrder.filter fun x => x.2 = d).findIdxs fun x => s.selects x.1 x.2)[i]? := by
  rw [← search_eq (map_filter_domain s d) i]
  cases d with
  | div => exact absurd rfl hd
  | _ => exact withCounts_eq _

/-! ## The masks -/

/-- All the counts together. -/
def numVars (num : Counts) : Nat := num .cv + num .div + num .dsv + num .drv

theorem count_slots (d : VarDomain) : svd.slots.count d =
    svd.groupCounts .design d + svd.groupCounts .aleatoryUncertain d +
      svd.groupCounts .epistemicUncertain d + svd.groupCounts .state d := by
  change (svd.slotsAfter [] ([.design] ++ ([.aleatoryUncertain] ++ ([.epistemicUncertain] ++
    [.state])))).count d = _
  rw [slotsAfter_append, slotsAfter_append, slotsAfter_append, List.count_append,
    List.count_append, List.count_append, ← Nat.add_assoc, ← Nat.add_assoc]
  rfl

theorem length_allOrder : svd.allOrder.length = numVars fun d => svd.slots.count d := by
  simp only [numVars, count_slots]
  simp [allOrder, allGroups, groupOrder]
  omega

/-- The mask of blocks that are the classes of the groups. -/
theorem maskOf_eq {p : VarGroup × VarDomain → Bool}
    {blocks : Counts → Counts → Counts → Counts → List Block}
    (hblocks : (blocks (svd.groupCounts .design) (svd.groupCounts .aleatoryUncertain)
      (svd.groupCounts .epistemicUncertain) (svd.groupCounts .state)).flatMap Block.bits =
        svd.allOrder.map p) :
    svd.maskOf blocks = some (svd.allOrder.map p) := by
  have hlen : (svd.slots.count .cv + svd.slots.count .div + svd.slots.count .dsv +
      svd.slots.count .drv) = ((blocks (svd.groupCounts .design)
        (svd.groupCounts .aleatoryUncertain) (svd.groupCounts .epistemicUncertain)
        (svd.groupCounts .state)).flatMap Block.bits).length := by
    rw [hblocks, List.length_map, length_allOrder]
    rfl
  have hmask := maskBlocks_eq (blocks (svd.groupCounts .design)
    (svd.groupCounts .aleatoryUncertain) (svd.groupCounts .epistemicUncertain)
    (svd.groupCounts .state)) []
  simp only [maskOf, allCounts_eq, withCounts_eq, Option.bind_eq_bind, Option.bind_some, hlen]
  rw [← hblocks]
  exact congrArg some hmask

theorem toAllMask_eq (s : Subsets) (d : VarDomain) :
    svd.toAllMask s d = some (svd.allOrder.map (inClass s d)) := by
  have hbits : ([domainBlock d (s.selects .design d) (svd.groupCounts .design),
      domainBlock d (s.selects .aleatoryUncertain d) (svd.groupCounts .aleatoryUncertain),
      domainBlock d (s.selects .epistemicUncertain d) (svd.groupCounts .epistemicUncertain),
      domainBlock d (s.selects .state d) (svd.groupCounts .state)]).flatMap Block.bits =
        svd.allOrder.map (inClass s d) := by
    simp only [allOrder, allGroups, List.flatMap_cons, List.flatMap_nil, List.map_append,
      List.map_nil, map_groupOrder]
  cases d <;> exact maskOf_eq hbits

theorem activeToAllMask_eq (s : Subsets) :
    svd.activeToAllMask s = some (svd.allOrder.map fun x => s.selects x.1 x.2) := by
  have hgroup (g : VarGroup) : (svd.groupOrder g).map (fun x => s.selects x.1 x.2) =
      (activeBlocks (s.selects g .cv) (s.selects g .div) (svd.groupCounts g)).flatMap
        Block.bits := by
    obtain ⟨hdsv, hdrv⟩ := s.selects_discrete g
    simp [groupOrder, activeBlocks, Block.bits, hdsv, hdrv, -List.replicate_append_replicate,
      List.replicate_add]
  refine maskOf_eq ?_
  simp only [allOrder, allGroups, List.flatMap_cons, List.flatMap_nil, List.map_append,
    hgroup, List.flatMap_append, List.append_nil, List.append_assoc]
  rfl

/-! ## One partition -/

/-- The number of variables of a domain that are selected. -/
def numSelected (svd : SharedVariablesData) (s : Subsets) (d : VarDomain) : Option Nat :=
  svd.withCounts fun design aleatory epistemic state => some
    (ifSet (s.selects .design d) (design d) + ifSet (s.selects .aleatoryUncertain d) (aleatory d) +
      ifSet (s.selects .epistemicUncertain d) (epistemic d) + ifSet (s.selects .state d) (state d))

/-- The maps and masks of a view describe one partition of the indices below `total`. -/
structure IndexMaps (svd : SharedVariablesData) (view : View) (total : Nat) : Prop where
  increasing : ∀ (part : VarPart) (d : VarDomain) {i j a b : Nat}, i < j →
    svd.indexToAllIndex (part.subsets view) d i = some a →
    svd.indexToAllIndex (part.subsets view) d j = some b → a < b
  defined : ∀ (part : VarPart) (d : VarDomain), ∃ n,
    svd.numSelected (part.subsets view) d = some n ∧
    ∀ i, (svd.indexToAllIndex (part.subsets view) d i).isSome ↔ i < n
  lt_total : ∀ (part : VarPart) (d : VarDomain) {i t : Nat},
    svd.indexToAllIndex (part.subsets view) d i = some t → t < total
  bijective : ∀ t < total, ∃! x : (VarPart × VarDomain) × Nat,
    svd.indexToAllIndex (x.1.1.subsets view) x.1.2 x.2 = some t
  mask : ∀ (part : VarPart) (d : VarDomain), ∃ mask,
    svd.toAllMask (part.subsets view) d = some mask ∧ mask.length = total ∧
    ∀ k, (mask.findIdxs id)[k]? = svd.indexToAllIndex (part.subsets view) d k
  active : ∃ mask, svd.activeToAllMask view.subsets = some mask ∧
    (∀ (d : VarDomain) (i : Nat), (svd.indexToActiveIndex view.subsets d i).bind
      (fun k => (mask.findIdxs id)[k]?) = svd.indexToAllIndex view.subsets d i) ∧
    (∀ (d : VarDomain) {i j a b : Nat}, i < j → svd.indexToActiveIndex view.subsets d i = some a →
      svd.indexToActiveIndex view.subsets d j = some b → a < b) ∧
    (∀ (d : VarDomain) {i k : Nat}, svd.indexToActiveIndex view.subsets d i = some k →
      k < (mask.findIdxs id).length) ∧
    ∀ k < (mask.findIdxs id).length, ∃! x : VarDomain × Nat,
      svd.indexToActiveIndex view.subsets x.1 x.2 = some k
  complement : ∀ (d : VarDomain), d ≠ .div → ∀ i,
    (svd.complementIndexToDomainIndex view.subsets.complement d i).bind
      (svd.indexToAllIndex .all d) = svd.indexToAllIndex view.subsets.complement d i

theorem findIdxs_increasing {α : Type} {p : α → Bool} {l : List α} {i j a b : Nat} (hij : i < j)
    (ha : (l.findIdxs p)[i]? = some a) (hb : (l.findIdxs p)[j]? = some b) : a < b := by
  obtain ⟨hi, rfl⟩ := List.getElem?_eq_some_iff.mp ha
  obtain ⟨hj, rfl⟩ := List.getElem?_eq_some_iff.mp hb
  exact List.pairwise_iff_getElem.mp List.pairwise_findIdxs i j hi hj hij

/-- Each variable has one domain, and is active or in the complement. -/
theorem existsUnique_inClass (view : View) (x : VarGroup × VarDomain) :
    ∃! k : VarPart × VarDomain, inClass (k.1.subsets view) k.2 x := by
  obtain ⟨g, d⟩ := x
  simp only [inClass, Bool.and_eq_true, decide_eq_true_eq]
  cases hsel : view.subsets.selects g d with
  | true =>
    refine ⟨(.active, d), ⟨rfl, hsel⟩, ?_⟩
    rintro ⟨part, e⟩ ⟨rfl, hp⟩
    cases part with
    | active => rfl
    | complement =>
      rw [VarPart.subsets, Subsets.selects_complement, hsel] at hp
      cases hp
  | false =>
    refine ⟨(.complement, d), ⟨rfl, ?_⟩, ?_⟩
    · rw [VarPart.subsets, Subsets.selects_complement, hsel]
      rfl
    · rintro ⟨part, e⟩ ⟨rfl, hp⟩
      cases part with
      | active =>
        rw [VarPart.subsets, hsel] at hp
        cases hp
      | complement => rfl

theorem countP_allOrder (s : Subsets) (d : VarDomain) :
    svd.numSelected s d = some (svd.allOrder.countP (inClass s d)) := by
  have hgroup (g : VarGroup) : (svd.groupOrder g).countP (inClass s d) =
      ifSet (s.selects g d) (svd.groupCounts g d) := by
    rw [← List.length_findIdxs (s := 0), show inClass s d = id ∘ inClass s d from rfl, ← List.findIdxs_map,
      map_groupOrder, Block.findIdxs_bits]
    cases d <;> cases hsel : s.selects g _ <;>
      simp [domainBlock, cvBlock, divBlock, dsvBlock, drvBlock, ifSet]
  simp only [numSelected, withCounts_eq, allOrder, allGroups, List.flatMap_cons, List.flatMap_nil,
    List.countP_append, List.countP_nil, hgroup, Nat.add_zero, Nat.add_assoc]

/-- **Index maps and masks** of a view describe one partition of all the variables. -/
theorem indexMaps (svd : SharedVariablesData) (view : View) :
    ∃ num, svd.allCounts = some num ∧ svd.IndexMaps view (numVars num) := by
  refine ⟨_, allCounts_eq, ?_⟩
  rw [← length_allOrder]
  exact {
    increasing := fun part d i j a b hij ha hb => by
      rw [indexToAllIndex_eq] at ha hb
      exact findIdxs_increasing hij ha hb
    defined := fun part d => by
      refine ⟨_, countP_allOrder _ _, fun i => ?_⟩
      rw [indexToAllIndex_eq, isSome_getElem?, List.length_findIdxs]
    lt_total := fun part d i t ht => by
      rw [indexToAllIndex_eq] at ht
      obtain ⟨a, ha, -⟩ := List.getElem?_findIdxs_eq_some ht
      exact (List.getElem?_eq_some_iff.mp ha).1
    bijective := fun t ht => by
      simp only [indexToAllIndex_eq]
      exact List.existsUnique_getElem (fun k : VarPart × VarDomain => inClass (k.1.subsets view) k.2)
        (existsUnique_inClass view) ht
    mask := fun part d => by
      refine ⟨_, toAllMask_eq _ _, List.length_map _, fun k => ?_⟩
      rw [List.findIdxs_map, indexToAllIndex_eq]
      rfl
    active := by
      have hmask : ((svd.allOrder.map fun x => view.subsets.selects x.1 x.2).findIdxs id) =
          svd.allOrder.findIdxs fun x => view.subsets.selects x.1 x.2 := by
        rw [List.findIdxs_map]
        rfl
      have hlen : (svd.allOrder.findIdxs fun x => view.subsets.selects x.1 x.2).length =
          (svd.allOrder.filter fun x => view.subsets.selects x.1 x.2).length := by
        rw [List.length_findIdxs, List.countP_eq_length_filter]
      refine ⟨_, activeToAllMask_eq _, fun d i => ?_, fun d i j a b hij ha hb => ?_,
        fun d i k hk => ?_, fun k hk => ?_⟩
      · have hfilter : (svd.allOrder.filter fun x => view.subsets.selects x.1 x.2).findIdxs
            (fun x => x.2 = d) = (svd.allOrder.filter fun x =>
              view.subsets.selects x.1 x.2).findIdxs (inClass view.subsets d) :=
          List.findIdxs_congr fun x hx => by simp [inClass, (List.mem_filter.mp hx).2]
        rw [hmask, indexToActiveIndex_eq, indexToAllIndex_eq, hfilter]
        exact List.getElem?_findIdxs_filter (fun x hx => (Bool.and_eq_true_iff.mp hx).2) i
      · rw [indexToActiveIndex_eq] at ha hb
        exact findIdxs_increasing hij ha hb
      · rw [hmask, hlen]
        rw [indexToActiveIndex_eq] at hk
        obtain ⟨a, ha, -⟩ := List.getElem?_findIdxs_eq_some hk
        exact (List.getElem?_eq_some_iff.mp ha).1
      · rw [hmask, hlen] at hk
        simp only [indexToActiveIndex_eq]
        exact List.existsUnique_getElem
          (fun (d : VarDomain) (x : VarGroup × VarDomain) => decide (x.2 = d))
          (fun x => ⟨x.2, decide_eq_true rfl, fun e he => (of_decide_eq_true he).symm⟩) hk
    complement := fun d hd i => by
      have hfilter : (svd.allOrder.filter fun x => x.2 = d).findIdxs
          (fun x => view.subsets.complement.selects x.1 x.2) = (svd.allOrder.filter fun x =>
            x.2 = d).findIdxs (inClass view.subsets.complement d) :=
        List.findIdxs_congr fun x hx => by
          simp [inClass, of_decide_eq_true (List.mem_filter.mp hx).2]
      have hall : inClass .all d = fun x => decide (x.2 = d) := by
        funext x
        rw [inClass, Subsets.selects_all, Bool.and_true]
      have hlookup : svd.indexToAllIndex .all d = fun j =>
          (svd.allOrder.findIdxs fun x => x.2 = d)[j]? := by
        funext j
        rw [indexToAllIndex_eq, hall]
      rw [complementIndexToDomainIndex_eq _ hd, hfilter, hlookup, indexToAllIndex_eq]
      exact List.getElem?_findIdxs_filter (fun x hx => (Bool.and_eq_true_iff.mp hx).1) i }

/-- A discrete int design variable and a continuous aleatory uncertain variable. -/
def intThenContinuous : SharedVariablesData where
  variablesCompsTotals g d :=
    if g = .design ∧ d = .div ∨ g = .aleatoryUncertain ∧ d = .cv then 1 else 0
  allRelaxedDiscreteInt := []
  allRelaxedDiscreteReal := []
  int_length := by decide
  real_length := by decide

/-- The one continuous variable is the second of the active variables. -/
theorem cvIndexToActiveIndex_not_identity : ¬ ∀ i n : Nat,
    intThenContinuous.numSelected (View.mixed .all).subsets .cv = some n → i < n →
      intThenContinuous.cvIndexToActiveIndex i (View.mixed .all).subsets = some i := by
  intro h
  have h₀ := h 0 1 (by decide) Nat.one_pos
  rw [show intThenContinuous.cvIndexToActiveIndex 0 (View.mixed .all).subsets = some 1
    by decide] at h₀
  exact absurd h₀ (by decide)

end SharedVariablesData

end Dakota
