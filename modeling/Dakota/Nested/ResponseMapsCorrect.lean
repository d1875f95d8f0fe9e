import Dakota.Lib.Outcome
import Dakota.Nested.ResponseMaps

/-!
# The declared layout of the mapped functions

Whether `derived_evaluate` gives `{f} + [W]{S}`, the interface inequalities, the mapped inequalities,
the interface equalities and the mapped equalities, in this order, from data that it has asked for.

* The overlays keep to the layout (`expected_interfaceIndex`, `expected_overlayIndex`), but
  `set_mapping` reads the requests as if the interface constraints and the mapped constraints stood
  one after the other.
* `mapsAsDeclared_iff`: so a request is served if and only if it asks for the same data at both
  positions, or for the same data of the sub-iterator elsewhere (`Covered`).
-/

namespace Dakota

open Outcome

section Sums

variable {K : Type} [Field K]

namespace FunctionEntries

instance : Add (FunctionEntries K) where
  add d e := ⟨d.value + e.value, fun j => d.gradient j + e.gradient j,
    fun j k => d.hessian j k + e.hessian j k⟩

/-- The entries of `d` that are requested of a function are those of `e`. -/
structure Matches (set : ActiveSet) (index : Nat) (d e : FunctionEntries K) : Prop where
  value : set.asks index 1 → d.value = e.value
  gradient : set.asks index 2 → ∀ j < set.numParams, d.gradient j = e.gradient j
  hessian : set.asks index 4 → ∀ j < set.numParams, ∀ k ≤ j, d.hessian j k = e.hessian j k

omit [Field K] in
@[ext]
theorem ext {d e : FunctionEntries K} (hvalue : d.value = e.value)
    (hgradient : ∀ j, d.gradient j = e.gradient j)
    (hhessian : ∀ j k, d.hessian j k = e.hessian j k) : d = e := by
  cases d
  cases e
  congr
  · exact funext hgradient
  · exact funext fun j => funext fun k => hhessian j k

theorem zero_add (d : FunctionEntries K) : 0 + d = d :=
  ext (AddZeroClass.zero_add d.value) (fun j => AddZeroClass.zero_add (d.gradient j))
    fun j k => AddZeroClass.zero_add (d.hessian j k)

theorem add_zero (d : FunctionEntries K) : d + 0 = d :=
  ext (AddZeroClass.add_zero d.value) (fun j => AddZeroClass.add_zero (d.gradient j))
    fun j k => AddZeroClass.add_zero (d.hessian j k)

end FunctionEntries

end Sums

/-- An entry of a function is requested. -/
def ActiveSet.Wants (set : ActiveSet) (index bit : Nat) : Prop :=
  bit ∈ [1, 2, 4] ∧ set.asks index bit ∧ (bit = 1 ∨ 0 < set.numParams)

namespace NestedResponses

section Positions

variable {K : Type} {m : NestedResponses K} {set : ActiveSet} {i j index bit : Nat}

/-! ## Positions -/

theorem mem_rows {r : MappedRow} : r ∈ m.rows ↔ match r with
    | .primary i => i < m.subIterMappedPri
    | .secondary i => i < m.subIterMappedSec := by
  cases r <;> simp [rows, primaryRows, secondaryRows]

theorem mem_interfaceRows {p : Nat × Nat} : p ∈ m.interfaceRows ↔
    (p.1 < m.numOptInterfPrimary ∧ p.2 = p.1) ∨
      ∃ i < m.numOptInterfCon, p = (m.numOptInterfPrimary + i, m.interfaceIndex i) := by
  simp only [interfaceRows, List.mem_append, List.mem_map, List.mem_range]
  refine or_congr ⟨?_, ?_⟩ ⟨?_, ?_⟩
  · rintro ⟨i, hi, rfl⟩
    exact ⟨hi, rfl⟩
  · rintro ⟨hi, heq⟩
    exact ⟨p.1, hi, Prod.ext rfl heq.symm⟩
  · rintro ⟨i, hi, rfl⟩
    exact ⟨i, hi, rfl⟩
  · rintro ⟨i, hi, rfl⟩
    exact ⟨i, hi, rfl⟩

theorem interfaceIndex_eq (i : Nat) : m.interfaceIndex i =
    if i < m.numOptInterfIneqCon then m.numMappedPrimary + i
    else m.numMappedPrimary + m.numSubIterMappedIneqCon + i := by
  simp only [interfaceIndex]
  split_ifs <;> omega

theorem overlayIndex_secondary (i : Nat) : m.overlayIndex (.secondary i) =
    if i < m.numSubIterMappedIneqCon then m.numMappedPrimary + m.numOptInterfIneqCon + i
    else m.numMappedPrimary + m.numOptInterfIneqCon + m.numOptInterfEqCon + i := by
  simp only [overlayIndex]
  split_ifs <;> omega

theorem interfaceIndex_lt {i' : Nat} (h : i < i') : m.interfaceIndex i < m.interfaceIndex i' := by
  rw [interfaceIndex_eq, interfaceIndex_eq]
  split_ifs <;> omega

theorem overlayIndex_secondary_lt {i' : Nat} (h : i < i') :
    m.overlayIndex (.secondary i) < m.overlayIndex (.secondary i') := by
  rw [overlayIndex_secondary, overlayIndex_secondary]
  split_ifs <;> omega

theorem le_interfaceIndex (i : Nat) : m.numMappedPrimary ≤ m.interfaceIndex i := by
  rw [interfaceIndex_eq]
  split_ifs <;> omega

theorem le_overlayIndex (i : Nat) : m.numMappedPrimary ≤ m.overlayIndex (.secondary i) := by
  rw [overlayIndex_secondary]
  split_ifs <;> omega

theorem primary_lt (h : i < m.subIterMappedPri) : i < m.numMappedPrimary :=
  lt_of_lt_of_le h (le_max_right _ _)

theorem interface_lt (h : i < m.numOptInterfPrimary) : i < m.numMappedPrimary :=
  lt_of_lt_of_le h (le_max_left _ _)

/-- The constraints of the optional interface and the mapped ones are disjoint. -/
theorem interfaceIndex_ne (hi : i < m.numOptInterfCon) (j : Nat) :
    m.interfaceIndex i ≠ m.overlayIndex (.secondary j) := by
  unfold numOptInterfCon at hi
  rw [interfaceIndex_eq, overlayIndex_secondary]
  split_ifs <;> omega

theorem nodup_map_of_lt {g : Nat → Nat} (hg : ∀ {i i'}, i < i' → g i < g i') (n : Nat) :
    ((List.range n).map g).Nodup := by
  have hpairwise : ((List.range n).map g).Pairwise (· < ·) :=
    List.pairwise_map.mpr (List.pairwise_lt_range.imp fun h => hg h)
  exact hpairwise.imp fun h => Nat.ne_of_lt h

theorem nodup_interfaceRows : (m.interfaceRows.map Prod.snd).Nodup := by
  rw [interfaceRows, List.map_append, List.map_map, List.map_map]
  refine List.Nodup.append (nodup_map_of_lt (fun h => h) _) (nodup_map_of_lt interfaceIndex_lt _) ?_
  intro x hx hx'
  obtain ⟨i, hi, rfl⟩ := List.mem_map.mp hx
  obtain ⟨i', -, heq⟩ := List.mem_map.mp hx'
  have hle := le_interfaceIndex (m := m) i'
  have hlt := interface_lt (m := m) (List.mem_range.mp hi)
  simp only [Function.comp_apply] at heq
  omega

theorem nodup_rows : (m.rows.map m.overlayIndex).Nodup := by
  rw [rows, primaryRows, secondaryRows, List.map_append, List.map_map, List.map_map]
  refine List.Nodup.append (nodup_map_of_lt (fun h => h) _)
    (nodup_map_of_lt overlayIndex_secondary_lt _) ?_
  intro x hx hx'
  obtain ⟨i, hi, rfl⟩ := List.mem_map.mp hx
  obtain ⟨i', -, heq⟩ := List.mem_map.mp hx'
  have hle := le_overlayIndex (m := m) i'
  have hlt := primary_lt (m := m) (List.mem_range.mp hi)
  simp only [Function.comp_apply, overlayIndex] at heq hle
  omega

/-- Each mapped function is a primary one or one of the constraints. -/
theorem index_cases (hcheck : m.checkResponseMap set.requestVector) (h : index < set.numFns) :
    index < m.numMappedPrimary ∨ (∃ i < m.numOptInterfCon, index = m.interfaceIndex i) ∨
      ∃ i < m.subIterMappedSec, index = m.overlayIndex (.secondary i) := by
  obtain ⟨hlen, hsec⟩ := of_decide_eq_true hcheck
  simp only [ActiveSet.numFns, hlen, numOptInterfCon] at h
  unfold numOptInterfCon
  by_cases h₀ : index < m.numMappedPrimary
  · exact .inl h₀
  refine .inr ?_
  by_cases h₁ : index < m.numMappedPrimary + m.numOptInterfIneqCon
  · refine .inl ⟨index - m.numMappedPrimary, by omega, ?_⟩
    rw [interfaceIndex_eq, if_pos (by omega)]
    omega
  by_cases h₂ : index < m.numMappedPrimary + m.numOptInterfIneqCon + m.numSubIterMappedIneqCon
  · refine .inr ⟨index - (m.numMappedPrimary + m.numOptInterfIneqCon), by omega, ?_⟩
    rw [overlayIndex_secondary, if_pos (by omega)]
    omega
  by_cases h₃ : index < m.numMappedPrimary + m.numOptInterfIneqCon + m.numSubIterMappedIneqCon +
      m.numOptInterfEqCon
  · refine .inl ⟨index - (m.numMappedPrimary + m.numSubIterMappedIneqCon), by omega, ?_⟩
    rw [interfaceIndex_eq, if_neg (by omega)]
    omega
  · refine .inr ⟨index - (m.numMappedPrimary + m.numOptInterfIneqCon + m.numOptInterfEqCon),
      by omega, ?_⟩
    rw [overlayIndex_secondary, if_neg (by omega)]
    omega

theorem getD_optInterfaceAsv_primary (mappedAsv : List Nat) (hi : i < m.numOptInterfPrimary) :
    (m.optInterfaceAsv mappedAsv).getD i 0 = mappedAsv.getD i 0 := by
  rw [optInterfaceAsv, List.getD_append _ _ _ _ (by simpa using hi)]
  simp [List.getD_eq_getElem?_getD, hi]

theorem getD_optInterfaceAsv_con (mappedAsv : List Nat) (hi : i < m.numOptInterfCon) :
    (m.optInterfaceAsv mappedAsv).getD (m.numOptInterfPrimary + i) 0 =
      mappedAsv.getD (i + m.numMappedPrimary) 0 := by
  rw [optInterfaceAsv, List.getD_append_right _ _ _ _ (by simp)]
  simp [List.getD_eq_getElem?_getD, hi]

theorem asks_eq (asv dvv : List Nat) (i bit : Nat) :
    ActiveSet.asks ⟨asv, dvv⟩ i bit ↔ asv.getD i 0 &&& bit ≠ 0 := decide_eq_true_iff

theorem ne_zero_of_asks (h : set.asks i bit) : set.requestVector.getD i 0 ≠ 0 := by
  intro hzero
  rw [ActiveSet.asks, hzero, Nat.zero_and] at h
  exact absurd h (by decide)

theorem subIteratorMap_of_asks {r : MappedRow} (hr : r ∈ m.rows)
    (h : set.asks (m.requestIndex r) bit) : m.subIteratorMap set.requestVector = true :=
  List.any_eq_true.mpr ⟨r, hr, decide_eq_true (ne_zero_of_asks h)⟩

/-- A function of the optional interface that is asked for turns its map on. -/
theorem optInterfaceMap_of_ne_zero {mappedAsv : List Nat}
    (hi : i < m.numOptInterfPrimary + m.numOptInterfCon)
    (h : (m.optInterfaceAsv mappedAsv).getD i 0 &&& bit ≠ 0) :
    m.optInterfaceMap mappedAsv = true := by
  rw [optInterfaceMap, if_neg fun h => by omega, List.any_eq_true]
  have hne : (m.optInterfaceAsv mappedAsv).getD i 0 ≠ 0 := by
    intro hzero
    rw [hzero, Nat.zero_and] at h
    exact h rfl
  have hlt : i < (m.optInterfaceAsv mappedAsv).length := by
    by_contra hlt
    exact hne (List.getD_eq_default _ _ (Nat.not_lt.mp hlt))
  rw [List.getD_eq_getElem _ _ hlt] at hne
  exact ⟨_, List.getElem_mem hlt, decide_eq_true hne⟩

theorem asks_optInterfaceSet (hi : i < m.numOptInterfPrimary + m.numOptInterfCon)
    (dvv : List Nat) (bit : Nat) :
    (if m.optInterfaceMap set.requestVector then
      (⟨m.optInterfaceAsv set.requestVector, dvv⟩ : ActiveSet) else ⟨[], []⟩).asks i bit ↔
        (m.optInterfaceAsv set.requestVector).getD i 0 &&& bit ≠ 0 := by
  by_cases hmap : m.optInterfaceMap set.requestVector = true
  · rw [if_pos hmap, asks_eq]
  · rw [if_neg hmap]
    refine ⟨fun h => absurd h (by simp [ActiveSet.asks]), fun h => ?_⟩
    exact absurd (optInterfaceMap_of_ne_zero hi h) hmap

/-! ## The identity -/

theorem overlayIndex_identity (hid : m.identityRespMap = true) (r : MappedRow) :
    m.overlayIndex r = m.identityIndex r := by
  cases r with
  | primary i => rfl
  | secondary i =>
    obtain ⟨hpri, hineq, heq⟩ := m.no_interface (m.identity_interface hid)
    rw [overlayIndex_secondary, identityIndex, numMappedPrimary, hpri, hineq, heq, Nat.zero_max]
    split_ifs <;> omega

theorem requestIndex_identity (hid : m.identityRespMap = true) (r : MappedRow) :
    m.requestIndex r = m.identityIndex r := by
  cases r with
  | primary i => rfl
  | secondary i =>
    obtain ⟨hpri, hineq, heq⟩ := m.no_interface (m.identity_interface hid)
    rw [requestIndex, identityIndex, numMappedPrimary, numOptInterfCon, hpri, hineq, heq,
      Nat.zero_max]
    omega

theorem identityIndex_lt (hid : m.identityRespMap = true) {r : MappedRow} (hr : r ∈ m.rows) :
    m.identityIndex r < m.numSubIterFns := by
  rw [mem_rows] at hr
  rw [m.identity_fns hid]
  cases r <;> simp only [identityIndex] at hr ⊢ <;> omega

end Positions

variable {K : Type} [Field K] (m : NestedResponses K)

/-! ## What the mapping should be -/

/-- A row of `[W]{S}` or `[A]{S}`. -/
def linear (r : MappedRow) (s : Nat → FunctionEntries K) : FunctionEntries K :=
  if m.identityRespMap then s (m.identityIndex r)
  else
    { value := sumTo m.numSubIterFns fun j => m.coeff r j * (s j).value
      gradient := fun i => sumTo m.numSubIterFns fun j => m.coeff r j * (s j).gradient i
      hessian := fun i k => sumTo m.numSubIterFns fun j => m.coeff r j * (s j).hessian i k }

/-- The mapped functions of the functions `f` of the optional interface and `s` of the
sub-iterator. -/
def expected (f s : Nat → FunctionEntries K) (index : Nat) : FunctionEntries K :=
  let ineq := m.numMappedPrimary
  let mappedIneq := ineq + m.numOptInterfIneqCon
  let eq := mappedIneq + m.numSubIterMappedIneqCon
  let mappedEq := eq + m.numOptInterfEqCon
  if index < ineq then
    (if index < m.numOptInterfPrimary then f index else 0) +
      if index < m.subIterMappedPri then m.linear (.primary index) s else 0
  else if index < mappedIneq then f (m.numOptInterfPrimary + (index - ineq))
  else if index < eq then m.linear (.secondary (index - mappedIneq)) s
  else if index < mappedEq then f (m.numOptInterfPrimary + m.numOptInterfIneqCon + (index - eq))
  else m.linear (.secondary (m.numSubIterMappedIneqCon + (index - mappedEq))) s

/-- Whether `iterator_response_overlay` reads function `j` of the sub-iterator for a row. -/
def ReadsFrom (r : MappedRow) (j : Nat) : Prop :=
  if m.identityRespMap then j = m.overlayIndex r else m.coeff r j ≠ 0

section

variable {m} {i : Nat} {f s : Nat → FunctionEntries K}

/-- The overlays keep to the layout. -/
theorem expected_interfaceIndex (hi : i < m.numOptInterfCon) :
    m.expected f s (m.interfaceIndex i) = f (m.numOptInterfPrimary + i) := by
  unfold numOptInterfCon at hi
  rw [interfaceIndex_eq]
  dsimp only [expected]
  by_cases hlt : i < m.numOptInterfIneqCon
  · rw [if_pos hlt, if_neg (by omega), if_pos (by omega)]
    congr 1
    omega
  · rw [if_neg hlt, if_neg (by omega), if_neg (by omega), if_neg (by omega), if_pos (by omega)]
    congr 1
    omega

theorem expected_overlayIndex (i : Nat) :
    m.expected f s (m.overlayIndex (.secondary i)) = m.linear (.secondary i) s := by
  rw [overlayIndex_secondary]
  dsimp only [expected]
  by_cases hlt : i < m.numSubIterMappedIneqCon
  · rw [if_pos hlt, if_neg (by omega), if_neg (by omega), if_pos (by omega)]
    congr 2
    omega
  · rw [if_neg hlt, if_neg (by omega), if_neg (by omega), if_neg (by omega), if_neg (by omega)]
    congr 2
    omega

theorem readsFrom_identity (hid : m.identityRespMap = true) {r : MappedRow} {j : Nat} :
    m.ReadsFrom r j ↔ j = m.identityIndex r := by
  unfold ReadsFrom
  rw [if_pos hid, overlayIndex_identity hid]

theorem linear_identity (hid : m.identityRespMap = true) {r : MappedRow} :
    m.linear r s = s (m.identityIndex r) := if_pos hid

theorem expected_primary (hi : i < m.numMappedPrimary) : m.expected f s i =
    (if i < m.numOptInterfPrimary then f i else 0) +
      if i < m.subIterMappedPri then m.linear (.primary i) s else 0 := by
  dsimp only [expected]
  rw [if_pos hi]

end

variable [LinearOrder K]

/-- What the overlays read has been asked for. -/
structure AsksForReads (set : ActiveSet) (sets : SetMapping) : Prop where
  subIterator : sets.subIteratorMap → ∀ r ∈ m.rows, ∀ j < m.numSubIterFns, m.ReadsFrom r j →
    ∀ bit, set.Wants (m.overlayIndex r) bit → sets.subIteratorSet.asks j bit
  optInterface : sets.optInterfaceMap → ∀ p ∈ m.interfaceRows, ∀ bit, set.Wants p.2 bit →
    sets.optInterfaceSet.asks p.1 bit

/-- The requested entries are those of the declared layout, and were asked for. -/
structure MapsAsDeclared (set : ActiveSet) (subIteratorDvv : List Nat) : Prop where
  maps : ∃ sets, m.setMapping set subIteratorDvv = some sets ∧ m.AsksForReads set sets ∧
    ∀ optInterface subIterator : ResponseEntries K,
      optInterface.set.derivVarsVector = set.derivVarsVector →
      subIterator.set.derivVarsVector = subIteratorDvv →
      ∃ mapped, m.derivedEvaluate set optInterface subIterator = .ok mapped ∧
        ∀ index < set.numFns, (mapped.entry index).Matches set index
          (m.expected optInterface.entry subIterator.entry index)

/-- A request whose data the overlays find where `set_mapping` has asked for them. -/
structure Covered (set : ActiveSet) : Prop where
  interfaceCon : ∀ i < m.numOptInterfCon, ∀ bit, set.Wants (m.interfaceIndex i) bit →
    set.asks (i + m.numMappedPrimary) bit
  column : ∀ r ∈ m.rows, ∀ j < m.numSubIterFns, m.ReadsFrom r j → ∀ bit,
    set.Wants (m.overlayIndex r) bit →
      ∃ r' ∈ m.rows, m.augments r' j ∧ set.asks (m.requestIndex r') bit
  identityGradient : m.identityRespMap → ∀ i < m.subIterMappedSec,
    set.Wants (m.overlayIndex (.secondary i)) 2 →
      set.numParams = 1 ∧ m.overlayIndex (.secondary i) = 0

variable {m} {set : ActiveSet} {i j index bit : Nat} {f s : Nat → FunctionEntries K}

/-! ## Requests -/

theorem length_augment (mappedAsv asv : List Nat) (r : MappedRow) :
    (m.augment mappedAsv asv r).length = asv.length := List.length_mapIdx

theorem asks_augment (mappedAsv asv : List Nat) (r : MappedRow) :
    (m.augment mappedAsv asv r).getD j 0 &&& bit ≠ 0 ↔ asv.getD j 0 &&& bit ≠ 0 ∨
      j < asv.length ∧ m.augments r j ∧ mappedAsv.getD (m.requestIndex r) 0 &&& bit ≠ 0 := by
  have hget : (m.augment mappedAsv asv r).getD j 0 =
      if j < asv.length ∧ m.augments r j then
        asv.getD j 0 ||| mappedAsv.getD (m.requestIndex r) 0
      else asv.getD j 0 := by
    unfold augment
    rw [List.getD_eq_getElem?_getD (l := asv.mapIdx _), List.getElem?_mapIdx]
    by_cases hj : j < asv.length
    · by_cases haug : m.augments r j <;> simp [hj, haug]
    · simp [hj]
  rw [hget]
  split
  · rename_i h
    rw [Nat.and_or_distrib_right, ne_eq, Nat.or_eq_zero_iff, not_and_or]
    simp [h.1, h.2]
  · rename_i h
    rw [← and_assoc]
    exact ⟨.inl, fun h' => h'.resolve_right fun h'' => h h''.1⟩

/-- The requests of the sub-iterator, after the loops over the rows. -/
theorem asks_foldl_augment (mappedAsv asv : List Nat) (rows : List MappedRow) :
    (rows.foldl (m.augment mappedAsv) asv).getD j 0 &&& bit ≠ 0 ↔ asv.getD j 0 &&& bit ≠ 0 ∨
      j < asv.length ∧ ∃ r ∈ rows, m.augments r j ∧
        mappedAsv.getD (m.requestIndex r) 0 &&& bit ≠ 0 := by
  induction rows generalizing asv with
  | nil => simp
  | cons r rows ih =>
    rw [List.foldl_cons, ih, asks_augment, length_augment, or_assoc, ← and_or_left]
    simp only [List.mem_cons, exists_eq_or_imp]

/-- The sets of `set_mapping`, by what they ask for. -/
structure SetMappingFor (m : NestedResponses K) (set : ActiveSet) (sets : SetMapping) : Prop where
  subIterator : ∀ j bit, sets.subIteratorSet.asks j bit ↔ j < m.numSubIterFns ∧
    ∃ r ∈ m.rows, m.augments r j ∧ set.asks (m.requestIndex r) bit
  subIteratorMap : ∀ r ∈ m.rows, ∀ bit, set.asks (m.requestIndex r) bit →
    sets.subIteratorMap = true
  primary : ∀ i < m.numOptInterfPrimary, ∀ bit, sets.optInterfaceSet.asks i bit ↔ set.asks i bit
  con : ∀ i < m.numOptInterfCon, ∀ bit,
    sets.optInterfaceSet.asks (m.numOptInterfPrimary + i) bit ↔
      set.asks (i + m.numMappedPrimary) bit
  optInterfaceMap : ∀ i bit, sets.optInterfaceSet.asks i bit → sets.optInterfaceMap = true

theorem asks_subIteratorAsv (mappedAsv : List Nat) (j bit : Nat) :
    (m.subIteratorAsv mappedAsv).getD j 0 &&& bit ≠ 0 ↔ j < m.numSubIterFns ∧
      ∃ r ∈ m.rows, m.augments r j ∧ mappedAsv.getD (m.requestIndex r) 0 &&& bit ≠ 0 := by
  have hzero : (List.replicate m.numSubIterFns 0).getD j 0 = 0 := by
    rw [List.getD_eq_getElem?_getD, List.getElem?_replicate]
    split <;> rfl
  rw [subIteratorAsv, asks_foldl_augment, List.length_replicate, hzero, Nat.zero_and]
  simp

theorem exists_setMapping (hcheck : m.checkResponseMap set.requestVector) (dvv : List Nat) :
    ∃ sets, m.setMapping set dvv = some sets ∧ m.SetMappingFor set sets := by
  obtain ⟨hlen, -⟩ := of_decide_eq_true hcheck
  unfold setMapping
  rw [if_neg (not_not.mpr hlen)]
  refine ⟨_, rfl, ⟨fun j bit => ?_, fun r hr bit => subIteratorMap_of_asks hr,
    fun i hi bit => ?_, fun i hi bit => ?_, fun i bit => ?_⟩⟩
  · have hasks := asks_subIteratorAsv (m := m) set.requestVector j bit
    by_cases hmap : m.subIteratorMap set.requestVector = true
    · simp only [hmap, if_true, asks_eq, hasks]
      simp only [ActiveSet.asks, decide_eq_true_eq]
    · simp only [hmap]
      refine ⟨fun h => absurd h (by simp [ActiveSet.asks]), ?_⟩
      rintro ⟨-, r, hr, -, hbit⟩
      exact absurd (subIteratorMap_of_asks hr hbit) hmap
  · rw [asks_optInterfaceSet (by omega), getD_optInterfaceAsv_primary _ hi, ActiveSet.asks,
      decide_eq_true_iff]
  · rw [asks_optInterfaceSet (by omega), getD_optInterfaceAsv_con _ hi, ActiveSet.asks,
      decide_eq_true_iff]
  · intro h
    by_contra hmap
    simp only [hmap] at h
    exact absurd h (by simp [ActiveSet.asks])

/-! ## Overlays -/

omit [Field K] [LinearOrder K] in
theorem matches_self (set : ActiveSet) (index : Nat) (d : FunctionEntries K) :
    d.Matches set index d :=
  ⟨fun _ => rfl, fun _ _ _ => rfl, fun _ _ _ _ _ => rfl⟩

omit [Field K] [LinearOrder K] in
theorem matches_overlayEntry (set : ActiveSet) (index : Nat) (source target : FunctionEntries K) :
    (overlayEntry set index source target).Matches set index source where
  value h := if_pos h
  gradient h _ hj := if_pos ⟨h, hj⟩
  hessian h _ hj _ hk := if_pos ⟨h, hj, hk⟩

theorem innerProd_eq (coeff : Nat → K) (n : Nat) (init : K) (val : Nat → K) :
    innerProd coeff n init val = init + sumTo n fun j => coeff j * val j := by
  unfold innerProd sumTo
  induction n with
  | zero => simp
  | succ n ih =>
    rw [List.range_succ, List.foldl_append, ih, List.map_append, List.sum_append, ← add_assoc]
    by_cases h : coeff n = 0 <;> simp [h]

/-- The inner products add a row to what stands there. -/
theorem matches_combine {r : MappedRow} (hid : m.identityRespMap = false)
    {init d : FunctionEntries K} (h : init.Matches set index d) :
    (combine (m.coeff r) m.numSubIterFns init s).Matches set index (d + m.linear r s) := by
  have hlinear : m.linear r s =
      { value := sumTo m.numSubIterFns fun j => m.coeff r j * (s j).value
        gradient := fun i => sumTo m.numSubIterFns fun j => m.coeff r j * (s j).gradient i
        hessian := fun i k => sumTo m.numSubIterFns fun j => m.coeff r j * (s j).hessian i k } := by
    rw [linear, if_neg (by simp [hid])]
  rw [hlinear]
  constructor
  · intro hb
    change innerProd _ _ _ _ = d.value + _
    rw [innerProd_eq, h.value hb]
  · intro hb j hj
    change innerProd _ _ _ _ = d.gradient j + _
    rw [innerProd_eq, h.gradient hb j hj]
  · intro hb j hj k hk
    change innerProd _ _ _ _ = d.hessian j k + _
    rw [innerProd_eq, h.hessian hb j hj k hk]

omit [Field K] [LinearOrder K] in
/-- `interface_response_overlay` writes the functions of the interface to their positions. -/
theorem exists_interfaceResponseOverlay (optInterface mapped : ResponseEntries K)
    (hcheck : m.checkResponseMap mapped.set.requestVector)
    (hdvv : optInterface.set.derivVarsVector = mapped.set.derivVarsVector) :
    ∃ result, m.interfaceResponseOverlay optInterface mapped = .ok result ∧
      result.set = mapped.set ∧
      (∀ p ∈ m.interfaceRows, result.entry p.2 =
        overlayEntry mapped.set p.2 (optInterface.entry p.1) (mapped.entry p.2)) ∧
      ∀ x ∉ m.interfaceRows.map Prod.snd, result.entry x = mapped.entry x := by
  have hloop : ∃ entry, modifyKeyed Prod.snd (fun r row =>
      (.ok (overlayEntry mapped.set r.2 (optInterface.entry r.1) row) : Except Unit _))
        mapped.entry m.interfaceRows = .ok entry :=
    exists_modifyKeyed nodup_interfaceRows fun p _ => ⟨_, rfl⟩
  obtain ⟨entry, hentry⟩ := hloop
  obtain ⟨hrows, hkept⟩ := (modifyKeyed_eq_ok_iff nodup_interfaceRows).mp hentry
  refine ⟨{ mapped with entry }, ?_, rfl, fun p hp => ?_, hkept⟩
  · unfold interfaceResponseOverlay
    rw [if_neg fun h => h.2 hdvv, if_neg (by simp [hcheck])]
    exact bind_eq_ok.mpr ⟨entry, hentry, rfl⟩
  · have := hrows p hp
    injection this with this
    exact this.symm

/-- `iterator_response_overlay` replaces the rows one by one. -/
theorem iteratorResponseOverlay_eq_ok_iff {subIterator mapped result : ResponseEntries K}
    (hcheck : m.checkResponseMap mapped.set.requestVector)
    (hdvv : mapped.set.flag 6 → mapped.set.numParams = subIterator.set.numParams) :
    m.iteratorResponseOverlay subIterator mapped = .ok result ↔ result.set = mapped.set ∧
      (∀ r ∈ m.rows, m.rowEntry mapped.set subIterator.entry r (mapped.entry (m.overlayIndex r)) =
        .ok (result.entry (m.overlayIndex r))) ∧
      ∀ x ∉ m.rows.map m.overlayIndex, result.entry x = mapped.entry x := by
  unfold iteratorResponseOverlay
  dsimp only
  rw [if_neg fun h => h.2 (hdvv h.1), if_neg (by simp [hcheck])]
  constructor
  · intro h
    obtain ⟨entry, hentry, h⟩ := bind_eq_ok.mp h
    cases h
    exact ⟨rfl, (modifyKeyed_eq_ok_iff nodup_rows).mp hentry⟩
  · rintro ⟨hset, h⟩
    refine bind_eq_ok.mpr ⟨result.entry, (modifyKeyed_eq_ok_iff nodup_rows).mpr h, ?_⟩
    rw [← hset]
    rfl

/-! ## Covered requests -/

omit [Field K] [LinearOrder K] in
theorem matches_of_not_wants {d e : FunctionEntries K} (h : ∀ bit, ¬ set.Wants index bit) :
    d.Matches set index e where
  value hb := absurd ⟨by decide, hb, .inl rfl⟩ (h 1)
  gradient hb j hj := absurd ⟨by decide, hb, .inr (Nat.zero_lt_of_lt hj)⟩ (h 2)
  hessian hb j hj k _ := absurd ⟨by decide, hb, .inr (Nat.zero_lt_of_lt hj)⟩ (h 4)

/-- What stands at the position of a row before the row is added. -/
def base (m : NestedResponses K) (f : Nat → FunctionEntries K) : MappedRow → FunctionEntries K
  | .primary i => if i < m.numOptInterfPrimary then f i else 0
  | .secondary _ => 0

omit [LinearOrder K] in
theorem base_identity (hid : m.identityRespMap = true) (r : MappedRow) : m.base f r = 0 := by
  obtain ⟨hpri, -, -⟩ := m.no_interface (m.identity_interface hid)
  cases r with
  | primary i => rw [base, hpri, if_neg (Nat.not_lt_zero i)]
  | secondary i => rfl

/-- A row that reads nothing is zero. -/
theorem linear_eq_zero {r : MappedRow} (hr : r ∈ m.rows)
    (h : ∀ j < m.numSubIterFns, ¬ m.ReadsFrom r j) : m.linear r s = 0 := by
  cases hid : m.identityRespMap with
  | true =>
    exact absurd ((readsFrom_identity hid).mpr rfl) (h _ (identityIndex_lt hid hr))
  | false =>
    have hcoeff : ∀ j < m.numSubIterFns, m.coeff r j = 0 := by
      intro j hj
      by_contra hne
      refine h j hj ?_
      unfold ReadsFrom
      rwa [if_neg (by simp [hid])]
    have hsum (val : Nat → K) : sumTo m.numSubIterFns (fun j => m.coeff r j * val j) = 0 := by
      rw [sumTo_congr (g := fun _ => 0) fun j hj => by rw [hcoeff j hj, zero_mul]]
      simp [sumTo]
    rw [linear, if_neg (by simp [hid])]
    exact FunctionEntries.ext (hsum _) (fun _ => hsum _) fun _ _ => hsum _

/-- One row of the overlay, for a covered request. -/
theorem exists_rowEntry (h : m.Covered set) {r : MappedRow} (hr : r ∈ m.rows)
    {row : FunctionEntries K} (hrow : row.Matches set (m.overlayIndex r) (m.base f r)) :
    ∃ e, m.rowEntry set s r row = .ok e ∧
      e.Matches set (m.overlayIndex r) (m.base f r + m.linear r s) := by
  cases hid : m.identityRespMap with
  | false =>
    cases r with
    | primary i =>
      refine ⟨_, rfl, ?_⟩
      unfold primaryEntry
      rw [if_neg (by simp [hid])]
      have hcombine := matches_combine (s := s) (r := .primary i) hid hrow
      have hoverlay := matches_overlayEntry set i
        (combine (m.primaryRespCoeffs i) m.numSubIterFns row s) row
      exact ⟨fun hb => (hoverlay.value hb).trans (hcombine.value hb),
        fun hb j hj => (hoverlay.gradient hb j hj).trans (hcombine.gradient hb j hj),
        fun hb j hj k hk => (hoverlay.hessian hb j hj k hk).trans (hcombine.hessian hb j hj k hk)⟩
    | secondary i =>
      refine ⟨overlayEntry set (m.overlayIndex (.secondary i))
        (combine (m.secondaryRespCoeffs i) m.numSubIterFns 0 s) row, ?_, ?_⟩
      · change m.secondaryEntry set s i row = _
        exact if_pos hid
      · have hcombine := matches_combine (s := s) (r := .secondary i) hid
          (matches_self set (m.overlayIndex (.secondary i)) 0)
        have hoverlay := matches_overlayEntry set (m.overlayIndex (.secondary i))
          (combine (m.secondaryRespCoeffs i) m.numSubIterFns 0 s) row
        exact ⟨fun hb => (hoverlay.value hb).trans (hcombine.value hb),
          fun hb j hj => (hoverlay.gradient hb j hj).trans (hcombine.gradient hb j hj),
          fun hb j hj k hk => (hoverlay.hessian hb j hj k hk).trans
            (hcombine.hessian hb j hj k hk)⟩
  | true =>
    rw [base_identity hid, FunctionEntries.zero_add, linear_identity hid,
      ← overlayIndex_identity hid]
    have hoverlay := matches_overlayEntry set (m.overlayIndex r)
      (s (m.overlayIndex r)) row
    cases r with
    | primary i =>
      refine ⟨_, rfl, ?_⟩
      unfold primaryEntry
      rw [if_pos hid]
      exact hoverlay
    | secondary i =>
      change ∃ e, m.secondaryEntry set s i row = _ ∧ _
      unfold secondaryEntry
      dsimp only
      rw [if_neg (by simp [hid])]
      by_cases hasks : set.asks (m.overlayIndex (.secondary i)) 2
      · rw [if_pos hasks]
        have hpos : set.numParams = 0 ∨
            set.numParams = 1 ∧ m.overlayIndex (.secondary i) = 0 := by
          by_contra hne
          rw [not_or] at hne
          exact hne.2 (h.identityGradient hid i (mem_rows.mp hr)
            ⟨by decide, hasks, .inr (Nat.pos_of_ne_zero hne.1)⟩)
        rcases hpos with hzero | ⟨hone, hindex⟩
        · refine ⟨_, bind_eq_ok.mpr ⟨row.gradient, ?_, rfl⟩, hoverlay.value,
            fun _ j hj => absurd hj (by omega), hoverlay.hessian⟩
          rw [identityGradient, if_pos (.inr hzero), hzero]
          rfl
        · refine ⟨_, bind_eq_ok.mpr ⟨Function.update row.gradient 0
            ((s (m.overlayIndex (.secondary i))).gradient 0), ?_, rfl⟩, hoverlay.value,
            fun _ j hj => ?_, hoverlay.hessian⟩
          · rw [identityGradient, hindex, hone, if_pos (.inl Nat.one_pos)]
            rfl
          · obtain rfl : j = 0 := by omega
            exact Function.update_self 0 _ row.gradient
      · rw [if_neg hasks]
        exact ⟨_, rfl, hoverlay⟩

/-- A covered request is asked for. -/
theorem Covered.asksForReads (h : m.Covered set) {sets : SetMapping}
    (hfor : m.SetMappingFor set sets) : m.AsksForReads set sets where
  subIterator _ r hr j hj hreads bit hwants :=
    (hfor.subIterator j bit).mpr ⟨hj, h.column r hr j hj hreads bit hwants⟩
  optInterface _ p hp bit hwants := by
    rcases mem_interfaceRows.mp hp with ⟨hlt, heq⟩ | ⟨i, hi, rfl⟩
    · rw [heq] at hwants
      exact (hfor.primary p.1 hlt bit).mpr hwants.2.1
    · exact (hfor.con i hi bit).mpr (h.interfaceCon i hi bit hwants)

/-- The first overlay of `derived_evaluate`. -/
theorem Covered.exists_first (h : m.Covered set)
    (hcheck : m.checkResponseMap set.requestVector) {sets : SetMapping}
    (hfor : m.SetMappingFor set sets) {optInterface : ResponseEntries K}
    (hdvv : optInterface.set.derivVarsVector = set.derivVarsVector) :
    ∃ mapped, (if sets.optInterfaceMap then
        m.interfaceResponseOverlay optInterface ⟨set, fun _ => 0⟩
      else .ok ⟨set, fun _ => 0⟩) = .ok mapped ∧ mapped.set = set ∧
      (∀ p ∈ m.interfaceRows, (mapped.entry p.2).Matches set p.2 (optInterface.entry p.1)) ∧
      ∀ x ∉ m.interfaceRows.map Prod.snd, mapped.entry x = 0 := by
  by_cases hmap : sets.optInterfaceMap = true
  · rw [if_pos hmap]
    obtain ⟨mapped, hmapped, hset, hrows, hkept⟩ := exists_interfaceResponseOverlay
      optInterface ⟨set, fun _ => 0⟩ hcheck hdvv
    refine ⟨mapped, hmapped, hset, fun p hp => ?_, hkept⟩
    rw [hrows p hp]
    exact matches_overlayEntry _ _ _ _
  · rw [if_neg hmap]
    refine ⟨_, rfl, rfl, fun p hp => matches_of_not_wants fun bit hwants => hmap ?_,
      fun _ _ => rfl⟩
    rcases mem_interfaceRows.mp hp with ⟨hlt, heq⟩ | ⟨i, hi, rfl⟩
    · rw [heq] at hwants
      exact hfor.optInterfaceMap p.1 bit ((hfor.primary p.1 hlt bit).mpr hwants.2.1)
    · exact hfor.optInterfaceMap _ bit ((hfor.con i hi bit).mpr (h.interfaceCon i hi bit hwants))

omit [Field K] [LinearOrder K] in
theorem interfaceIndex_notMem_rows (hi : i < m.numOptInterfCon) :
    m.interfaceIndex i ∉ m.rows.map m.overlayIndex := by
  intro hmem
  obtain ⟨r, hr, heq⟩ := List.mem_map.mp hmem
  rw [mem_rows] at hr
  cases r with
  | primary j =>
    have hle := le_interfaceIndex (m := m) i
    have hlt := primary_lt (m := m) hr
    change j = _ at heq
    omega
  | secondary j => exact interfaceIndex_ne hi j heq.symm

omit [LinearOrder K] in
/-- What stands at the position of a row after the first overlay. -/
theorem matches_base {mapped : ResponseEntries K}
    (hrows : ∀ p ∈ m.interfaceRows, (mapped.entry p.2).Matches set p.2 (f p.1))
    (hkept : ∀ x ∉ m.interfaceRows.map Prod.snd, mapped.entry x = 0) {r : MappedRow}
    (hr : r ∈ m.rows) :
    (mapped.entry (m.overlayIndex r)).Matches set (m.overlayIndex r) (m.base f r) := by
  have hzero {index : Nat} (h : index ∉ m.interfaceRows.map Prod.snd) :
      (mapped.entry index).Matches set index 0 := by
    rw [hkept index h]
    exact matches_self _ _ _
  rw [mem_rows] at hr
  cases r with
  | primary i =>
    rw [base]
    split
    · rename_i hlt
      exact hrows (i, i) (mem_interfaceRows.mpr (.inl ⟨hlt, rfl⟩))
    · rename_i hge
      refine hzero fun hmem => ?_
      obtain ⟨p, hp, heq⟩ := List.mem_map.mp hmem
      change p.2 = i at heq
      rcases mem_interfaceRows.mp hp with ⟨hlt, heq'⟩ | ⟨j, -, rfl⟩
      · omega
      · have hle := le_interfaceIndex (m := m) j
        have hlt := primary_lt (m := m) hr
        dsimp only at heq
        omega
  | secondary i =>
    refine hzero fun hmem => ?_
    obtain ⟨p, hp, heq⟩ := List.mem_map.mp hmem
    rcases mem_interfaceRows.mp hp with ⟨hlt, heq'⟩ | ⟨j, hj, rfl⟩
    · have hle := le_overlayIndex (m := m) i
      have hlt := interface_lt (m := m) hlt
      omega
    · exact interfaceIndex_ne hj i heq

/-- The second overlay of `derived_evaluate`. -/
theorem Covered.exists_second (h : m.Covered set)
    (hcheck : m.checkResponseMap set.requestVector) {sets : SetMapping}
    (hfor : m.SetMappingFor set sets) {mapped subIterator : ResponseEntries K}
    (hset : mapped.set = set) (hdvv : set.flag 6 → set.numParams = subIterator.set.numParams)
    (hbase : ∀ r ∈ m.rows,
      (mapped.entry (m.overlayIndex r)).Matches set (m.overlayIndex r) (m.base f r)) :
    ∃ result, (if sets.subIteratorMap then m.iteratorResponseOverlay subIterator mapped
      else .ok mapped) = .ok result ∧
      (∀ r ∈ m.rows, (result.entry (m.overlayIndex r)).Matches set (m.overlayIndex r)
        (m.base f r + m.linear r subIterator.entry)) ∧
      ∀ x ∉ m.rows.map m.overlayIndex, result.entry x = mapped.entry x := by
  subst hset
  by_cases hmap : sets.subIteratorMap = true
  · rw [if_pos hmap]
    have hstep (r : MappedRow) (hr : r ∈ m.rows) :=
      exists_rowEntry (s := subIterator.entry) h hr (hbase r hr)
    have hloop : ∃ entry, modifyKeyed m.overlayIndex (m.rowEntry mapped.set subIterator.entry)
        mapped.entry m.rows = .ok entry :=
      exists_modifyKeyed nodup_rows fun r hr => ⟨_, (hstep r hr).choose_spec.1⟩
    obtain ⟨entry, hentry⟩ := hloop
    obtain ⟨hrows, hkept⟩ := (modifyKeyed_eq_ok_iff nodup_rows).mp hentry
    refine ⟨{ mapped with entry }, (iteratorResponseOverlay_eq_ok_iff hcheck hdvv).mpr
      ⟨rfl, hrows, hkept⟩, fun r hr => ?_, hkept⟩
    obtain ⟨e, he, hmatches⟩ := hstep r hr
    have heq := (hrows r hr).symm.trans he
    injection heq with heq
    change (entry _).Matches _ _ _
    rwa [heq]
  · rw [if_neg hmap]
    refine ⟨mapped, rfl, fun r hr => ?_, fun _ _ => rfl⟩
    by_cases hwants : ∃ bit, mapped.set.Wants (m.overlayIndex r) bit
    · obtain ⟨bit, hbit⟩ := hwants
      rw [linear_eq_zero hr, FunctionEntries.add_zero]
      · exact hbase r hr
      · intro j hj hreads
        obtain ⟨r', hr', -, hasks⟩ := h.column r hr j hj hreads bit hbit
        exact hmap (hfor.subIteratorMap r' hr' bit hasks)
    · exact matches_of_not_wants fun bit hbit => hwants ⟨bit, hbit⟩

theorem Covered.mapsAsDeclared (h : m.Covered set)
    (hcheck : m.checkResponseMap set.requestVector) {dvv : List Nat}
    (hdvv : set.flag 6 → set.numParams = dvv.length) : m.MapsAsDeclared set dvv := by
  obtain ⟨sets, hsets, hfor⟩ := exists_setMapping hcheck dvv
  refine ⟨sets, hsets, h.asksForReads hfor, fun optInterface subIterator hopt hsub => ?_⟩
  obtain ⟨mapped, hmapped, hset, hrows, hkept⟩ := h.exists_first hcheck hfor hopt
  have hlen : set.flag 6 → set.numParams = subIterator.set.numParams := fun hflag =>
    (hdvv hflag).trans (congrArg List.length hsub.symm)
  obtain ⟨result, hresult, hrows', hkept'⟩ := h.exists_second hcheck hfor hset hlen
    fun r hr => matches_base hrows hkept hr
  refine ⟨result, ?_, fun index hindex => ?_⟩
  · unfold derivedEvaluate
    rw [hsub, hsets]
    exact bind_eq_ok.mpr ⟨mapped, hmapped, hresult⟩
  · rcases index_cases hcheck hindex with hlt | ⟨i, hi, rfl⟩ | ⟨i, hi, rfl⟩
    · rw [expected_primary hlt]
      by_cases hpri : index < m.subIterMappedPri
      · rw [if_pos hpri]
        exact hrows' (.primary index) (mem_rows.mpr hpri)
      · have hf : index < m.numOptInterfPrimary := by
          unfold numMappedPrimary at hlt
          omega
        have hnotMem : index ∉ m.rows.map m.overlayIndex := by
          intro hmem
          obtain ⟨r, hr, heq⟩ := List.mem_map.mp hmem
          rw [mem_rows] at hr
          cases r with
          | primary j =>
            change j = index at heq
            dsimp only at hr
            omega
          | secondary j =>
            have hle := le_overlayIndex (m := m) j
            omega
        rw [if_pos hf, if_neg hpri, FunctionEntries.add_zero, hkept' index hnotMem]
        exact hrows (index, index) (mem_interfaceRows.mpr (.inl ⟨hf, rfl⟩))
    · rw [expected_interfaceIndex hi, hkept' _ (interfaceIndex_notMem_rows hi)]
      exact hrows (_, _) (mem_interfaceRows.mpr (.inr ⟨i, hi, rfl⟩))
    · have hrow := hrows' (.secondary i) (mem_rows.mpr hi)
      rw [base, FunctionEntries.zero_add] at hrow
      rwa [expected_overlayIndex]

/-! ## Requests that are mapped as declared -/

/-- The same number in every entry. -/
def constant (c : K) : FunctionEntries K := ⟨c, fun _ => c, fun _ _ => c⟩

omit [LinearOrder K] in
/-- Entries that are the same number everywhere are not zero where they are wanted. -/
theorem not_matches_constant {c : K} (hc : c ≠ 0) (hwants : set.Wants index bit) :
    ¬ (0 : FunctionEntries K).Matches set index (constant c) := by
  intro h
  obtain ⟨hbit, hasks, hpos⟩ := hwants
  simp only [List.mem_cons, List.not_mem_nil, or_false] at hbit
  rcases hbit with rfl | rfl | rfl
  · exact hc (h.value hasks).symm
  · exact hc (h.gradient hasks 0 (hpos.resolve_left (by decide))).symm
  · exact hc (h.hessian hasks 0 (hpos.resolve_left (by decide)) 0 (Nat.zero_le 0)).symm

/-- What a run leaves at a position that the overlays do not write to. -/
theorem derivedEvaluate_kept (subIterator : ResponseEntries K) {sets : SetMapping}
    {optInterface mapped : ResponseEntries K}
    (hcheck : m.checkResponseMap set.requestVector)
    (hsets : m.setMapping set subIterator.set.derivVarsVector = some sets)
    (hopt : optInterface.set.derivVarsVector = set.derivVarsVector)
    (hdvv : set.flag 6 → set.numParams = subIterator.set.numParams)
    (h : m.derivedEvaluate set optInterface subIterator = .ok mapped) :
    ∃ first : ResponseEntries K, first.set = set ∧
      (sets.optInterfaceMap = false → ∀ x, first.entry x = 0) ∧
      (∀ x, (∀ i, (optInterface.entry i) = 0) → first.entry x = 0) ∧
      (∀ x ∉ m.interfaceRows.map Prod.snd, first.entry x = 0) ∧
      (sets.subIteratorMap = false → ∀ x, mapped.entry x = first.entry x) ∧
      (∀ x ∉ m.rows.map m.overlayIndex, mapped.entry x = first.entry x) ∧
      (sets.subIteratorMap = true → ∀ r ∈ m.rows,
        m.rowEntry set subIterator.entry r (first.entry (m.overlayIndex r)) =
          .ok (mapped.entry (m.overlayIndex r))) := by
  unfold derivedEvaluate at h
  rw [hsets] at h
  obtain ⟨first, hfirst, hsecond⟩ := bind_eq_ok.mp h
  have hreset : first.set = set ∧ (sets.optInterfaceMap = false → ∀ x, first.entry x = 0) ∧
      (∀ x, (∀ i, (optInterface.entry i) = 0) → first.entry x = 0) ∧
      ∀ x ∉ m.interfaceRows.map Prod.snd, first.entry x = 0 := by
    by_cases hmap : sets.optInterfaceMap = true
    · rw [if_pos hmap] at hfirst
      obtain ⟨result, hresult, hset, hrows, hkept⟩ :=
        exists_interfaceResponseOverlay optInterface ⟨set, fun _ => 0⟩ hcheck hopt
      rw [hresult] at hfirst
      cases hfirst
      refine ⟨hset, fun hoff => absurd hmap (by simp [hoff]), fun x hzero => ?_, hkept⟩
      by_cases hx : x ∈ m.interfaceRows.map Prod.snd
      · obtain ⟨p, hp, rfl⟩ := List.mem_map.mp hx
        rw [hrows p hp, hzero]
        refine FunctionEntries.ext ?_ (fun j => ?_) fun j k => ?_ <;>
          · dsimp only [overlayEntry]
            split_ifs <;> rfl
      · exact hkept x hx
    · rw [if_neg hmap] at hfirst
      cases hfirst
      exact ⟨rfl, fun _ _ => rfl, fun _ _ => rfl, fun _ _ => rfl⟩
  obtain ⟨hset, hoff, hzero, hkept⟩ := hreset
  refine ⟨first, hset, hoff, hzero, hkept, ?_⟩
  subst hset
  by_cases hmap : sets.subIteratorMap = true
  · rw [if_pos hmap] at hsecond
    obtain ⟨-, hrows, hkept'⟩ := (iteratorResponseOverlay_eq_ok_iff hcheck hdvv).mp hsecond
    exact ⟨fun hoff => absurd hmap (by simp [hoff]), hkept', fun _ => hrows⟩
  · rw [if_neg hmap] at hsecond
    cases hsecond
    exact ⟨fun _ _ => rfl, fun _ _ => rfl, fun hon => absurd hon hmap⟩

omit [LinearOrder K] in
theorem expected_rows {r : MappedRow} (hr : r ∈ m.rows) (hf : ∀ i, f i = 0) :
    m.expected f s (m.overlayIndex r) = m.linear r s := by
  rw [mem_rows] at hr
  cases r with
  | primary i =>
    change m.expected f s i = _
    rw [expected_primary (primary_lt hr), if_pos hr, hf, ite_self, FunctionEntries.zero_add]
  | secondary i => exact expected_overlayIndex i

omit [LinearOrder K] in
theorem sumTo_single {n : Nat} (hj : j < n) (c : Nat → K) :
    sumTo n (fun i => c i * if i = j then 1 else 0) = c j := by
  induction n with
  | zero => cases hj
  | succ n ih =>
    rw [sumTo, List.range_succ, List.map_append, List.sum_append, ← sumTo]
    rcases Nat.lt_succ_iff_lt_or_eq.mp hj with hlt | rfl
    · rw [ih hlt]
      simp [hlt.ne']
    · rw [sumTo_congr (g := fun _ => 0) fun i hi => by rw [if_neg hi.ne, mul_zero]]
      simp [sumTo]

/-- One function of the sub-iterator, of which every entry is 1. -/
def unit (K : Type) [Field K] (j : Nat) : Nat → FunctionEntries K :=
  fun i => constant (if i = j then 1 else 0)

omit [LinearOrder K] in
/-- A row sees the functions that it reads. -/
theorem linear_unit {r : MappedRow} (hj : j < m.numSubIterFns) (hreads : m.ReadsFrom r j) :
    ∃ c : K, c ≠ 0 ∧ m.linear r (unit K j) = constant c := by
  cases hid : m.identityRespMap with
  | true =>
    refine ⟨1, one_ne_zero, ?_⟩
    rw [linear_identity hid, unit, if_pos ((readsFrom_identity hid).mp hreads).symm]
  | false =>
    unfold ReadsFrom at hreads
    rw [if_neg (by simp [hid])] at hreads
    refine ⟨m.coeff r j, hreads, ?_⟩
    rw [linear, if_neg (by simp [hid])]
    exact FunctionEntries.ext (sumTo_single hj _) (fun _ => sumTo_single hj _)
      fun _ _ => sumTo_single hj _

omit [Field K] [LinearOrder K] in
theorem foldl_update_ne {source target : Nat → K} (l : List Nat) {x : Nat} (hx : x ≠ index) :
    l.foldl (fun grad j => Function.update grad index (source j)) target x = target x := by
  induction l generalizing target with
  | nil => rfl
  | cons j l ih => rw [List.foldl_cons, ih, Function.update_of_ne hx]

/-- The gradient of a secondary row of the identity has one entry. -/
theorem secondaryEntry_gradient (hid : m.identityRespMap = true) {row e : FunctionEntries K}
    (hwants : set.Wants (m.overlayIndex (.secondary i)) 2)
    (h : m.secondaryEntry set s i row = .ok e) :
    m.overlayIndex (.secondary i) < set.numParams ∧
      ∀ x, x ≠ m.overlayIndex (.secondary i) → e.gradient x = row.gradient x := by
  unfold secondaryEntry at h
  dsimp only at h
  rw [if_neg (by simp [hid]), if_pos hwants.2.1] at h
  obtain ⟨gradient, hgradient, h⟩ := bind_eq_ok.mp h
  cases h
  have hpos : 0 < set.numParams := hwants.2.2.resolve_left (by decide)
  unfold identityGradient at hgradient
  split at hgradient
  · rename_i hlt
    cases hgradient
    exact ⟨hlt.resolve_right (by omega), fun x hx => foldl_update_ne _ hx⟩
  · cases hgradient

theorem MapsAsDeclared.covered {dvv : List Nat} (h : m.MapsAsDeclared set dvv)
    (hcheck : m.checkResponseMap set.requestVector)
    (hdvv : set.flag 6 → set.numParams = dvv.length) : m.Covered set := by
  obtain ⟨sets, hsets, hasks, heval⟩ := h.maps
  obtain ⟨_, hsets', hfor⟩ := exists_setMapping hcheck dvv
  obtain rfl := Option.some.inj (hsets.symm.trans hsets')
  have hrun (f s : Nat → FunctionEntries K) :=
    heval ⟨⟨[], set.derivVarsVector⟩, f⟩ ⟨⟨[], dvv⟩, s⟩ rfl rfl
  refine ⟨fun i hi bit hwants => ?_, fun r hr j hj hreads bit hwants => ?_,
    fun hid i hi hwants => ?_⟩
  · by_cases hmap : sets.optInterfaceMap = true
    · exact (hfor.con i hi bit).mp (hasks.optInterface hmap (_, _)
        (mem_interfaceRows.mpr (.inr ⟨i, hi, rfl⟩)) bit hwants)
    · obtain ⟨mapped, hmapped, hmatches⟩ := hrun (fun _ => constant 1) fun _ => 0
      obtain ⟨first, -, hoff, -, -, -, hkept, -⟩ := derivedEvaluate_kept
        ⟨⟨[], dvv⟩, fun _ => 0⟩ hcheck hsets rfl hdvv hmapped
      have hentry := hmatches _ (ActiveSet.lt_of_asks hwants.2.1)
      rw [hkept _ (interfaceIndex_notMem_rows hi), hoff (by simpa using hmap),
        expected_interfaceIndex hi] at hentry
      exact absurd hentry (not_matches_constant one_ne_zero hwants)
  · by_cases hmap : sets.subIteratorMap = true
    · exact ((hfor.subIterator j bit).mp
        (hasks.subIterator hmap r hr j hj hreads bit hwants)).2
    · obtain ⟨mapped, hmapped, hmatches⟩ := hrun (fun _ => 0) (unit K j)
      obtain ⟨first, -, -, hzero, -, hkept, -, -⟩ := derivedEvaluate_kept
        ⟨⟨[], dvv⟩, unit K j⟩ hcheck hsets rfl hdvv hmapped
      obtain ⟨c, hc, hlinear⟩ := linear_unit hj hreads
      have hentry := hmatches _ (ActiveSet.lt_of_asks hwants.2.1)
      rw [hkept (by simpa using hmap), hzero _ fun _ => rfl, expected_rows hr fun _ => rfl,
        hlinear] at hentry
      exact absurd hentry (not_matches_constant hc hwants)
  · have hr : MappedRow.secondary i ∈ m.rows := mem_rows.mpr hi
    have hmap : sets.subIteratorMap = true := by
      refine hfor.subIteratorMap _ hr 2 ?_
      rw [requestIndex_identity hid, ← overlayIndex_identity hid]
      exact hwants.2.1
    obtain ⟨mapped, hmapped, hmatches⟩ := hrun (fun _ => 0) fun _ => constant 1
    obtain ⟨first, -, -, hzero, -, -, -, hrows⟩ := derivedEvaluate_kept
      ⟨⟨[], dvv⟩, fun _ => constant 1⟩ hcheck hsets rfl hdvv hmapped
    obtain ⟨hlt, hgradient⟩ := secondaryEntry_gradient hid hwants (hrows hmap _ hr)
    have hentry := hmatches _ (ActiveSet.lt_of_asks hwants.2.1)
    rw [expected_rows hr fun _ => rfl, linear_identity hid] at hentry
    have hsame : ∀ x < set.numParams, x = m.overlayIndex (.secondary i) := by
      intro x hx
      by_contra hne
      have hvalue := hentry.gradient hwants.2.1 x hx
      rw [hgradient x hne, hzero _ fun _ => rfl] at hvalue
      exact zero_ne_one hvalue
    have hfirst := hsame 0 (by omega)
    refine ⟨?_, hfirst.symm⟩
    by_contra hne
    have hsecond := hsame 1 (by omega)
    omega

/-- **Nested response mapping** gives the declared functions from requested data if and only if the
request is covered. -/
theorem mapsAsDeclared_iff (m : NestedResponses K) (set : ActiveSet) (subIteratorDvv : List Nat)
    (hcheck : m.checkResponseMap set.requestVector)
    (hdvv : set.flag 6 → set.numParams = subIteratorDvv.length) :
    m.MapsAsDeclared set subIteratorDvv ↔ m.Covered set :=
  ⟨fun h => h.covered hcheck hdvv, fun h => h.mapsAsDeclared hcheck hdvv⟩

/-- An objective and an equality constraint of the optional interface, and an inequality constraint of
the sub-iterator. -/
def equalityAndInequality : NestedResponses ℚ where
  optInterface := true
  numOptInterfPrimary := 1
  numOptInterfIneqCon := 0
  numOptInterfEqCon := 1
  numSubIterFns := 1
  numSubIterMappedIneqCon := 1
  numSubIterMappedEqCon := 0
  identityRespMap := false
  subIterMappedPri := 0
  subIterMappedSec := 1
  primaryRespCoeffs _ _ := 0
  secondaryRespCoeffs _ _ := 1
  no_interface h := nomatch h
  identity_interface h := nomatch h
  identity_fns h := nomatch h

/-- A request of the objective and the inequality. -/
def objectiveAndInequality : ActiveSet := ⟨[1, 1, 0], []⟩

theorem mapsAsDeclared_iff_equalityAndInequality :
    equalityAndInequality.MapsAsDeclared objectiveAndInequality [] ↔
      equalityAndInequality.Covered objectiveAndInequality :=
  mapsAsDeclared_iff equalityAndInequality objectiveAndInequality [] (by decide)
    fun h => absurd h (by decide)

/-- The request of the inequality is taken for one of the equality, so the sub-iterator is not asked
for anything. -/
theorem equalityAndInequality_not_declared : ¬ ∀ (m : NestedResponses ℚ) (set : ActiveSet)
    (subIteratorDvv : List Nat), m.checkResponseMap set.requestVector →
      (set.flag 6 → set.numParams = subIteratorDvv.length) →
        m.MapsAsDeclared set subIteratorDvv := by
  intro h
  have hcovered := (h equalityAndInequality objectiveAndInequality [] (by decide)
    fun h => absurd h (by decide)).covered (by decide) fun h => absurd h (by decide)
  obtain ⟨r, hr, -, hasks⟩ := hcovered.column (.secondary 0) (by decide) 0 (by decide)
    (by unfold ReadsFrom; decide) 1 ⟨by decide, by decide, .inl rfl⟩
  obtain rfl : r = .secondary 0 := by
    have hrows : equalityAndInequality.rows = [.secondary 0] := by decide
    rwa [hrows, List.mem_singleton] at hr
  exact absurd hasks (by decide)

end NestedResponses

end Dakota
