import Dakota.Optimizer.Adapters

/-!
# Variables and bounds of an optimizer

* `encoded`: the vector of an optimizer for given variables; `setVariables_encoded`: `set_variables`
  takes it back.
* `transfersVariables_iff`: `get_variables` writes this vector if and only if no slot is missed: the
  strings have an offset of their own, and the discrete int ranges have none.
* `transfersBounds_of`, `continuous_set_of_transfersBounds`: the bounds are in the same slots, if the
  call for discrete int variables is made at all.
-/

namespace Dakota.Optimizer

variable {K : Type} [Field K] [LinearOrder K]

/-- The value of a discrete int variable is in its set. -/
def IntVar.Admits : IntVar → Int → Prop
  | .range _ _, _ => True
  | .set s, x => x ∈ s.values

/-- The number that stands for a value of a set. -/
def DiscreteSet.encode {α : Type} [LT α] [DecidableEq α] (s : DiscreteSet α) (x : α) : K :=
  (s.values.idxOf x : Nat)

def IntVar.encode : IntVar → Int → K
  | .range _ _, x => x
  | .set s, x => s.encode x

namespace OptModel

variable {m : OptModel K} {vars : Vars K} {limits : Limits K}

/-- Variables of the model, with the values of sets in their sets. -/
structure Fits (m : OptModel K) (vars : Vars K) : Prop where
  continuous : vars.continuous.length = m.cv
  discreteInt : List.Forall₂ IntVar.Admits m.discreteInt vars.discreteInt
  discreteReal : List.Forall₂ (fun s x => x ∈ s.values) m.discreteReal vars.discreteReal
  discreteString : List.Forall₂ (fun s x => x ∈ s.values) m.discreteString vars.discreteString

def numVars (m : OptModel K) : Nat := m.cv + m.div + m.drv + m.dsv

/-- The numbers that stand for the variables, in the order continuous, discrete int, discrete real,
discrete string. -/
def encoded (m : OptModel K) (vars : Vars K) : List K :=
  vars.continuous ++ List.zipWith IntVar.encode m.discreteInt vars.discreteInt ++
    List.zipWith DiscreteSet.encode m.discreteReal vars.discreteReal ++
    List.zipWith DiscreteSet.encode m.discreteString vars.discreteString

/-! ## From variables to a vector -/

section Get

variable {α : Type} [LT α] [DecidableEq α]

theorem setValueToIndex_eq {s : DiscreteSet α} {x : α} (hx : x ∈ s.values) :
    setValueToIndex x s = some (s.values.idxOf x) := by
  obtain ⟨i, hi⟩ := Option.ne_none_iff_exists'.mp
    (mt List.idxOf?_eq_none_iff.mp (not_not_intro hx))
  rw [setValueToIndex, List.idxOf_eq_getD_idxOf?, hi, Option.getD_some]

omit [LinearOrder K] in
theorem copySetVariables_eq {offset : Nat} {sets : List (DiscreteSet α)} {xs : List α}
    (h : List.Forall₂ (fun s x => x ∈ s.values) sets xs) (i : Nat) :
    copySetVariables (K := K) offset i sets xs =
      .ok (enumFrom (i + offset) (List.zipWith DiscreteSet.encode sets xs)) := by
  induction h generalizing i with
  | nil => rfl
  | cons hx _ ih =>
    rw [copySetVariables, setValueToIndex_eq hx]
    simp only [ih (i + 1)]
    rw [List.zipWith_cons_cons, enumFrom_cons, Nat.add_right_comm]
    rfl

end Get

/-- The slot of the discrete int variable at position `i`. -/
def intSlot (offset i : Nat) (v : IntVar) : Nat := if v.isSet then i + offset else i

/-- The writes of `copy_variables` for discrete int variables. -/
def intWrites (offset : Nat) : Nat → List IntVar → List Int → List (Nat × K)
  | i, v :: vs, x :: xs => (intSlot offset i v, v.encode x) :: intWrites offset (i + 1) vs xs
  | _, _, _ => []

omit [LinearOrder K] in
theorem copyIntVariables_eq {offset : Nat} {vs : List IntVar} {xs : List Int}
    (h : List.Forall₂ IntVar.Admits vs xs) (i : Nat) :
    copyIntVariables (K := K) offset i (vs.map IntVar.isSet) (vs.filterMap IntVar.set?) xs =
      .ok (intWrites offset i vs xs) := by
  induction h generalizing i with
  | nil => rfl
  | @cons v x vs xs hx _ ih =>
    cases v with
    | range l u =>
      rw [List.map_cons, List.filterMap_cons_none rfl]
      simp only [IntVar.isSet, copyIntVariables, ih (i + 1)]
      rfl
    | set s =>
      rw [List.map_cons, List.filterMap_cons_some (show (IntVar.set s).set? = some s from rfl)]
      simp only [IntVar.isSet, copyIntVariables, setValueToIndex_eq hx, ih (i + 1)]
      rfl

omit [LinearOrder K] in
/-- With the offset, or none to add, the slots are consecutive. -/
theorem intWrites_eq {offset : Nat} {vs : List IntVar} (xs : List Int)
    (h : offset = 0 ∨ ∀ v ∈ vs, v.isSet = true) (i : Nat) :
    intWrites (K := K) offset i vs xs =
      enumFrom (i + offset) (List.zipWith IntVar.encode vs xs) := by
  induction vs generalizing i xs with
  | nil => rfl
  | cons v vs ih =>
    cases xs with
    | nil => rfl
    | cons x xs =>
      have hslot : intSlot offset i v = i + offset := by
        unfold intSlot
        rcases h with rfl | h
        · simp
        · rw [h v List.mem_cons_self, if_pos rfl]
      rw [intWrites, ih xs (h.imp_right fun h v hv => h v (List.mem_cons_of_mem _ hv)) (i + 1),
        hslot, List.zipWith_cons_cons, enumFrom_cons, Nat.add_right_comm]

omit [LinearOrder K] in
theorem mem_slots_intWrites {offset i k : Nat} {vs : List IntVar} {xs : List Int}
    (hk : k ∈ (intWrites (K := K) offset i vs xs).map (·.1)) :
    ∃ j v, vs[j]? = some v ∧ k = intSlot offset (j + i) v := by
  induction vs generalizing i xs with
  | nil => cases hk
  | cons v vs ih =>
    cases xs with
    | nil => cases hk
    | cons x xs =>
      rw [intWrites, List.map_cons, List.mem_cons] at hk
      rcases hk with rfl | hk
      · exact ⟨0, v, rfl, by rw [Nat.zero_add]⟩
      · obtain ⟨j, v', hj, rfl⟩ := ih hk
        exact ⟨j + 1, v', hj, by rw [Nat.add_right_comm, Nat.add_assoc]⟩

/-- What `get_variables` writes. -/
def variableWrites (m : OptModel K) (vars : Vars K) : List (Nat × K) :=
  enumFrom 0 vars.continuous ++ intWrites m.cv 0 m.discreteInt vars.discreteInt ++
    enumFrom (m.cv + m.div) (List.zipWith DiscreteSet.encode m.discreteReal vars.discreteReal) ++
    enumFrom m.drv (List.zipWith DiscreteSet.encode m.discreteString vars.discreteString)

theorem getVariables_eq (h : m.Fits vars) : m.getVariables vars = .ok (m.variableWrites vars) := by
  have hints := h.discreteInt.length_eq
  have hreals := h.discreteReal.length_eq
  have hstrings := h.discreteString.length_eq
  have hlengths : ¬ (m.cv ≠ vars.continuous.length ∨ m.div ≠ vars.discreteInt.length ∨
      m.drv ≠ vars.discreteReal.length ∨ m.dsv ≠ vars.discreteString.length) := by
    rintro (hne | hne | hne | hne)
    · exact hne h.continuous.symm
    · exact hne hints
    · exact hne hreals
    · exact hne hstrings
  unfold getVariables variableWrites
  rw [if_neg hlengths, discreteIntSets, discreteSetIntValues, h.continuous, ← hints, ← hreals]
  simp only [copyIntVariables_eq h.discreteInt, copySetVariables_eq h.discreteReal,
    copySetVariables_eq h.discreteString, Nat.zero_add]
  rfl

/-! ## From a vector to variables -/

section Set

variable [IsStrictOrderedRing K] [FloorRing K]

theorem truncate_intCast (n : Int) : truncate (n : K) = n := by
  unfold truncate
  split
  · exact Int.floor_intCast n
  · exact Int.ceil_intCast n

theorem setIndexToValue_encode {α : Type} [LT α] [DecidableEq α] {s : DiscreteSet α} {x : α}
    (hx : x ∈ s.values) : setIndexToValue (s.encode x : K) s = .ok x := by
  have hlt : s.values.idxOf x < s.values.length := List.idxOf_lt_length_iff.mpr hx
  have hrange : ¬ ((s.encode x : K) < 0 ∨ (s.values.length : K) ≤ s.encode x) := by
    rintro (h | h)
    · exact absurd h (not_lt.mpr (Nat.cast_nonneg _))
    · exact absurd (Nat.cast_le.mp h) (Nat.not_le.mpr hlt)
  have htrunc : (truncate (s.encode x : K)).toNat = s.values.idxOf x := by
    have := truncate_intCast (K := K) (s.values.idxOf x : Int)
    rw [Int.cast_natCast] at this
    rw [DiscreteSet.encode, this, Int.toNat_natCast]
  have hget : s.values[s.values.idxOf x]? = some x := by
    rw [List.getElem?_eq_getElem hlt, List.getElem_idxOf hlt]
  unfold setIndexToValue
  rw [if_neg hrange, htrunc, hget]

theorem copyToSetVariables_eq {α : Type} [LT α] [DecidableEq α] {source : Nat → K} {offset i : Nat}
    {sets : List (DiscreteSet α)} {xs : List α}
    (h : List.Forall₂ (fun s x => x ∈ s.values) sets xs)
    (hsource : ∀ j x, (List.zipWith DiscreteSet.encode sets xs)[j]? = some x →
      source (j + i + offset) = x) :
    copyToSetVariables source offset i sets = .ok xs := by
  induction h generalizing i with
  | nil => rfl
  | @cons s x sets xs hx _ ih =>
    have hfirst : source (i + offset) = s.encode x := by
      have := hsource 0 _ rfl
      rwa [Nat.zero_add] at this
    have hrest : copyToSetVariables source offset (i + 1) sets = .ok xs := by
      refine ih fun j y hy => ?_
      have := hsource (j + 1) y hy
      rwa [Nat.add_right_comm j 1 i] at this
    rw [copyToSetVariables, hfirst, setIndexToValue_encode hx, hrest]
    rfl

theorem copyToIntVariables_eq {source : Nat → K} {offset i : Nat} {vs : List IntVar} {xs : List Int}
    (h : List.Forall₂ IntVar.Admits vs xs)
    (hsource : ∀ j x, (List.zipWith IntVar.encode vs xs)[j]? = some x →
      source (j + i + offset) = x) :
    copyToIntVariables source offset i (vs.map IntVar.isSet) (vs.filterMap IntVar.set?) =
      .ok xs := by
  induction h generalizing i with
  | nil => rfl
  | @cons v x vs xs hx _ ih =>
    have hfirst : source (i + offset) = v.encode x := by
      have := hsource 0 _ rfl
      rwa [Nat.zero_add] at this
    have hrest : copyToIntVariables source offset (i + 1) (vs.map IntVar.isSet)
        (vs.filterMap IntVar.set?) = .ok xs := by
      refine ih fun j y hy => ?_
      have := hsource (j + 1) y hy
      rwa [Nat.add_right_comm j 1 i] at this
    cases v with
    | range l u =>
      rw [List.map_cons, List.filterMap_cons_none rfl, IntVar.isSet, copyToIntVariables, hrest,
        hfirst, IntVar.encode, truncate_intCast]
      rfl
    | set s =>
      rw [List.map_cons, List.filterMap_cons_some (show (IntVar.set s).set? = some s from rfl),
        IntVar.isSet, copyToIntVariables, hfirst, IntVar.encode, setIndexToValue_encode hx, hrest]
      rfl

omit [LinearOrder K] [IsStrictOrderedRing K] [FloorRing K] [Field K] in
theorem getElem?_append_of_some {l : List K} (l' : List K) {j : Nat} {x : K} (h : l[j]? = some x) :
    (l ++ l')[j]? = some x := by
  obtain ⟨hj, -⟩ := List.getElem?_eq_some_iff.mp h
  rwa [List.getElem?_append_left hj]

omit [LinearOrder K] [IsStrictOrderedRing K] [FloorRing K] [Field K] in
theorem getElem?_append_add (l : List K) {l' : List K} {j : Nat} {x : K} (h : l'[j]? = some x) :
    (l ++ l')[j + l.length]? = some x := by
  rwa [List.getElem?_append_right (Nat.le_add_left _ _), Nat.add_sub_cancel]

/-- `set_variables` takes back the encoded variables. -/
theorem setVariables_encoded (h : m.Fits vars) {source : Nat → K}
    (hsource : ∀ k x, (m.encoded vars)[k]? = some x → source k = x) :
    m.setVariables source = .ok vars := by
  have hlenInt : (List.zipWith (IntVar.encode (K := K)) m.discreteInt vars.discreteInt).length =
      m.div := by
    rw [List.length_zipWith, ← h.discreteInt.length_eq, Nat.min_self]
    rfl
  have hlenReal : (List.zipWith (DiscreteSet.encode (K := K)) m.discreteReal
      vars.discreteReal).length = m.drv := by
    rw [List.length_zipWith, ← h.discreteReal.length_eq, Nat.min_self]
    rfl
  have hcont : (List.range m.cv).map source = vars.continuous := by
    refine List.ext_getElem (by rw [List.length_map, List.length_range, h.continuous]) ?_
    intro i _ hi
    rw [List.getElem_map, List.getElem_range]
    exact hsource i _ (getElem?_append_of_some _ (getElem?_append_of_some _
      (getElem?_append_of_some _ (List.getElem?_eq_getElem hi))))
  have hints : ∀ j x, (List.zipWith IntVar.encode m.discreteInt vars.discreteInt)[j]? = some x →
      source (j + 0 + m.cv) = x := by
    intro j x hx
    refine hsource _ x (getElem?_append_of_some _ (getElem?_append_of_some _ ?_))
    rw [Nat.add_zero, ← h.continuous]
    exact getElem?_append_add _ hx
  have hreals : ∀ j x, (List.zipWith DiscreteSet.encode m.discreteReal vars.discreteReal)[j]? =
      some x → source (j + 0 + (m.cv + m.div)) = x := by
    intro j x hx
    refine hsource _ x (getElem?_append_of_some _ ?_)
    rw [Nat.add_zero, ← h.continuous, ← hlenInt, ← List.length_append]
    exact getElem?_append_add _ hx
  have hstrings : ∀ j x, (List.zipWith DiscreteSet.encode m.discreteString
      vars.discreteString)[j]? = some x → source (j + 0 + (m.cv + m.div + m.drv)) = x := by
    intro j x hx
    refine hsource _ x ?_
    rw [Nat.add_zero, ← h.continuous, ← hlenInt, ← hlenReal, ← List.length_append,
      ← List.length_append]
    exact getElem?_append_add _ hx
  unfold setVariables
  rw [discreteIntSets, discreteSetIntValues, copyToIntVariables_eq h.discreteInt hints,
    copyToSetVariables_eq h.discreteReal hreals, copyToSetVariables_eq h.discreteString hstrings,
    hcont]
  rfl

end Set

/-! ## The transfer of variables -/

/-- `get_variables` writes each slot once, and `set_variables` gives the variables back. -/
def TransfersVariables [FloorRing K] (m : OptModel K) : Prop :=
  ∀ vars, m.Fits vars → ∃ writes, m.getVariables vars = .ok writes ∧
    (∀ slot < m.numVars, (writes.map (·.1)).count slot = 1) ∧
    (∀ slot ∈ writes.map (·.1), slot < m.numVars) ∧
    ∀ vec, m.setVariables (scatter vec writes) = .ok vars

/-- No string variable behind a continuous or discrete int one. -/
def StringsFirst (m : OptModel K) : Prop := m.dsv = 0 ∨ m.cv + m.div = 0

/-- No discrete int range behind a continuous variable. -/
def RangesFirst (m : OptModel K) : Prop := m.cv = 0 ∨ ∀ v ∈ m.discreteInt, v.isSet = true

theorem length_encoded (h : m.Fits vars) : (m.encoded vars).length = m.numVars := by
  have hints := h.discreteInt.length_eq
  have hreals := h.discreteReal.length_eq
  have hstrings := h.discreteString.length_eq
  simp only [encoded, List.length_append, List.length_zipWith, h.continuous, ← hints, ← hreals,
    ← hstrings, Nat.min_self]
  rfl

theorem variableWrites_eq (h : m.Fits vars) (hs : m.StringsFirst) (hr : m.RangesFirst) :
    m.variableWrites vars = enumFrom 0 (m.encoded vars) := by
  have hints := h.discreteInt.length_eq
  have hreals := h.discreteReal.length_eq
  have hlast : enumFrom m.drv (List.zipWith (DiscreteSet.encode (K := K)) m.discreteString
      vars.discreteString) = enumFrom (m.cv + m.div + m.drv)
        (List.zipWith DiscreteSet.encode m.discreteString vars.discreteString) := by
    rcases hs with hs | hs
    · rw [List.length_eq_zero_iff.mp hs]
      rfl
    · rw [hs, Nat.zero_add]
  unfold variableWrites encoded
  rw [intWrites_eq _ hr, hlast, enumFrom_append, enumFrom_append, enumFrom_append]
  simp only [List.length_append, List.length_zipWith, h.continuous, ← hints, ← hreals,
    Nat.min_self, Nat.zero_add]
  rfl

/-- Values for every variable. -/
def defaultVars (m : OptModel K) : Vars K where
  continuous := m.continuous.map (·.1)
  discreteInt := m.discreteInt.map IntVar.lowerBound
  discreteReal := m.discreteReal.map fun s => s.values.head s.nonempty
  discreteString := m.discreteString.map fun s => s.values.head s.nonempty

omit [Field K] in
theorem fits_defaultVars (m : OptModel K) : m.Fits m.defaultVars where
  continuous := List.length_map _
  discreteInt := by
    refine List.forall₂_map_right_iff.mpr (List.forall₂_same.mpr fun v _ => ?_)
    cases v with
    | range l u => exact trivial
    | set s => exact List.head_mem _
  discreteReal := List.forall₂_map_right_iff.mpr (List.forall₂_same.mpr fun _ _ => List.head_mem _)
  discreteString :=
    List.forall₂_map_right_iff.mpr (List.forall₂_same.mpr fun _ _ => List.head_mem _)

/-- The slots that `get_variables` writes. -/
theorem mem_slots (h : m.Fits vars) {k : Nat} (hk : k ∈ (m.variableWrites vars).map (·.1)) :
    k < m.cv ∨ (∃ j v, m.discreteInt[j]? = some v ∧ k = intSlot m.cv j v) ∨
      (m.cv + m.div ≤ k ∧ k < m.cv + m.div + m.drv) ∨ (m.drv ≤ k ∧ k < m.drv + m.dsv) := by
  have hreals := h.discreteReal.length_eq
  have hstrings := h.discreteString.length_eq
  simp only [variableWrites, List.map_append, map_fst_enumFrom, List.mem_append, List.mem_range'_1,
    List.length_zipWith, ← hreals, ← hstrings, Nat.min_self, h.continuous] at hk
  rcases hk with ((hk | hk) | hk) | hk
  · exact .inl (by omega)
  · obtain ⟨j, v, hj, rfl⟩ := mem_slots_intWrites hk
    exact .inr (.inl ⟨j, v, hj, rfl⟩)
  · exact .inr (.inr (.inl hk))
  · exact .inr (.inr (.inr hk))

theorem intSlot_le (offset j : Nat) (v : IntVar) : intSlot offset j v ≤ j + offset := by
  unfold intSlot
  split <;> omega

/-- With strings behind other variables, the last slot is not written. -/
theorem last_notMem (h : m.Fits vars) (hs : ¬ m.StringsFirst) :
    m.numVars - 1 ∉ (m.variableWrites vars).map (·.1) := by
  obtain ⟨hdsv, hfirst⟩ := not_or.mp hs
  intro hk
  have hnum : m.numVars = m.cv + m.div + m.drv + m.dsv := rfl
  rcases mem_slots h hk with hk | ⟨j, v, hj, hk⟩ | ⟨-, hk⟩ | ⟨-, hk⟩
  · omega
  · obtain ⟨hlt, -⟩ := List.getElem?_eq_some_iff.mp hj
    have hle := intSlot_le m.cv j v
    have hdiv : m.div = m.discreteInt.length := rfl
    omega
  · omega
  · omega

/-- With ranges behind continuous variables, a slot of a discrete int variable is not written. -/
theorem exists_notMem (h : m.Fits vars) (hs : m.StringsFirst) (hr : ¬ m.RangesFirst) :
    ∃ slot < m.numVars, slot ∉ (m.variableWrites vars).map (·.1) := by
  obtain ⟨hcv, hrange⟩ := not_or.mp hr
  have hdsv : m.dsv = 0 := hs.resolve_right (by omega)
  push Not at hrange
  obtain ⟨v, hv, hset⟩ := hrange
  obtain ⟨i, hi, rfl⟩ := List.mem_iff_getElem.mp hv
  obtain ⟨i, hi, hslot⟩ := exists_unwritten (Nat.pos_of_ne_zero hcv)
    (fun j => (m.discreteInt[j]?).any IntVar.isSet) ⟨i, hi, by
      rw [List.getElem?_eq_getElem hi]
      exact Bool.not_eq_true _ ▸ hset⟩
  have hdiv : m.div = m.discreteInt.length := rfl
  refine ⟨i + m.cv, ?_, fun hk => ?_⟩
  · unfold numVars
    omega
  · rcases mem_slots h hk with hk | ⟨j, v, hj, hk⟩ | ⟨hk, -⟩ | ⟨hlo, hhi⟩
    · omega
    · obtain ⟨hlt, -⟩ := List.getElem?_eq_some_iff.mp hj
      refine hslot j hlt ?_
      rw [hk, hj]
      rfl
    · omega
    · omega

/-- **Variables** are transferred if and only if no string variable and no discrete int range stands
behind variables of the kinds whose offset it lacks. -/
theorem transfersVariables_iff [IsStrictOrderedRing K] [FloorRing K] (m : OptModel K) :
    m.TransfersVariables ↔ m.StringsFirst ∧ m.RangesFirst := by
  constructor
  · intro h
    have hfits := m.fits_defaultVars
    obtain ⟨writes, hwrites, hcount, -, -⟩ := h _ hfits
    obtain rfl := Except.ok.inj ((getVariables_eq hfits).symm.trans hwrites)
    have hmem : ∀ slot < m.numVars,
        slot ∈ (m.variableWrites m.defaultVars).map (·.1) := fun slot hslot =>
      List.count_pos_iff.mp (by rw [hcount slot hslot]; exact Nat.one_pos)
    have hs : m.StringsFirst := by
      by_contra hs
      have hpos : 0 < m.numVars := by
        have := (not_or.mp hs).1
        unfold numVars
        omega
      exact last_notMem hfits hs (hmem _ (by omega))
    refine ⟨hs, ?_⟩
    by_contra hr
    obtain ⟨slot, hslot, hnot⟩ := exists_notMem hfits hs hr
    exact hnot (hmem slot hslot)
  · rintro ⟨hs, hr⟩ vars hfits
    refine ⟨_, getVariables_eq hfits, ?_⟩
    rw [variableWrites_eq hfits hs hr, map_fst_enumFrom, length_encoded hfits]
    refine ⟨fun slot hslot => ?_, fun slot hslot => ?_, fun vec => ?_⟩
    · rw [List.count_eq_one_of_mem List.nodup_range' (List.mem_range'_1.mpr (by omega))]
    · have := List.mem_range'_1.mp hslot
      omega
    · exact setVariables_encoded hfits fun k x hk => scatter_enumFrom hk

/-! ## The transfer of bounds -/

/-- The lower bound that an optimizer should see: that of a range if there is one. -/
def IntVar.lowerSlot (limits : Limits K) : IntVar → K
  | .range l _ => if -limits.bigInt < l then l else limits.intNoValue
  | .set _ => 0

def IntVar.upperSlot (limits : Limits K) : IntVar → K
  | .range _ u => if u < limits.bigInt then u else limits.intNoValue
  | .set s => (s.values.length - 1 : Nat)

/-- The lower bounds, in the order of the variables. -/
def lowerSlots (m : OptModel K) (limits : Limits K) : List K :=
  (m.continuous.map fun b => if -limits.bigReal < b.1 then b.1 else limits.noValue) ++
    m.discreteInt.map (IntVar.lowerSlot limits) ++ m.discreteReal.map (fun _ => 0) ++
    m.discreteString.map fun _ => 0

def upperSlots (m : OptModel K) (limits : Limits K) : List K :=
  (m.continuous.map fun b => if b.2 < limits.bigReal then b.2 else limits.noValue) ++
    m.discreteInt.map (IntVar.upperSlot limits) ++
    m.discreteReal.map (fun s => ((s.values.length - 1 : Nat) : K)) ++
    m.discreteString.map fun s => ((s.values.length - 1 : Nat) : K)

/-- `get_variable_bounds` puts each bound in the slot of its variable, whatever the vectors hold. -/
def TransfersBounds (m : OptModel K) (limits : Limits K) : Prop :=
  ∀ vec slot x,
    ((m.lowerSlots limits)[slot]? = some x →
      scatter vec (m.getVariableBounds limits).lower slot = x) ∧
    ((m.upperSlots limits)[slot]? = some x →
      scatter vec (m.getVariableBounds limits).upper slot = x)

/-- All continuous bounds are set, or there is no discrete int variable to miss the call. -/
def ContinuousBounded (m : OptModel K) (limits : Limits K) : Prop :=
  m.div = 0 ∨ ∀ b ∈ m.continuous, -limits.bigReal < b.1 ∧ b.2 < limits.bigReal

theorem allSet_getBounds : (getBounds limits m.continuous).allSet = true ↔
    ∀ b ∈ m.continuous, -limits.bigReal < b.1 ∧ b.2 < limits.bigReal := by
  simp [getBounds]

omit [LinearOrder K] in
theorem getMixedBounds_eq (limits : Limits K) {offset : Nat} {vs : List IntVar}
    (h : offset = 0 ∨ ∀ v ∈ vs, v.isSet = true) (i : Nat) :
    (getMixedBounds limits offset i (vs.map IntVar.isSet) (vs.filterMap IntVar.set?)
        (vs.map IntVar.lowerBound) (vs.map IntVar.upperBound)).lower =
      enumFrom (i + offset) (vs.map (IntVar.lowerSlot limits)) ∧
    (getMixedBounds limits offset i (vs.map IntVar.isSet) (vs.filterMap IntVar.set?)
        (vs.map IntVar.lowerBound) (vs.map IntVar.upperBound)).upper =
      enumFrom (i + offset) (vs.map (IntVar.upperSlot limits)) := by
  induction vs generalizing i with
  | nil => exact ⟨rfl, rfl⟩
  | cons v vs ih =>
    obtain ⟨ihl, ihu⟩ :=
      ih (h.imp_right fun h v hv => h v (List.mem_cons_of_mem _ hv)) (i + 1)
    cases v with
    | set s =>
      rw [List.map_cons, List.filterMap_cons_some (show (IntVar.set s).set? = some s from rfl)]
      simp only [List.map_cons, IntVar.isSet, getMixedBounds, ihl, ihu, enumFrom_cons,
        IntVar.lowerSlot, IntVar.upperSlot, Nat.add_right_comm i 1 offset, and_self]
    | range l u =>
      have hoffset : offset = 0 := h.resolve_right fun h =>
        Bool.false_ne_true (h _ List.mem_cons_self)
      subst hoffset
      rw [List.map_cons, List.filterMap_cons_none rfl]
      simp only [Nat.add_zero] at ihl ihu ⊢
      simp only [List.map_cons, IntVar.isSet, IntVar.lowerBound, IntVar.upperBound, getMixedBounds,
        ihl, ihu, enumFrom_cons, IntVar.lowerSlot, IntVar.upperSlot, Nat.add_zero]
      constructor
      · split <;> rfl
      · split <;> rfl

/-- **Bounds** are transferred if the variables are and the call for discrete int variables is
made. -/
theorem transfersBounds_of (hr : m.RangesFirst) (hc : m.ContinuousBounded limits) :
    m.TransfersBounds limits := by
  have hints : (m.discreteIntBounds limits).lower =
        enumFrom m.cv (m.discreteInt.map (IntVar.lowerSlot limits)) ∧
      (m.discreteIntBounds limits).upper =
        enumFrom m.cv (m.discreteInt.map (IntVar.upperSlot limits)) := by
    have heq := getMixedBounds_eq limits hr 0
    rw [Nat.zero_add] at heq
    unfold discreteIntBounds
    cases hset : (getBounds limits m.continuous).allSet with
    | true =>
      rw [if_pos rfl]
      exact heq
    | false =>
      have hdiv : m.discreteInt = [] := List.length_eq_zero_iff.mp
        (hc.resolve_right fun hall => by
          rw [allSet_getBounds.mpr hall] at hset
          cases hset)
      rw [if_neg Bool.false_ne_true, hdiv]
      exact ⟨rfl, rfl⟩
  have hall : (m.getVariableBounds limits).lower = enumFrom 0 (m.lowerSlots limits) ∧
      (m.getVariableBounds limits).upper = enumFrom 0 (m.upperSlots limits) := by
    unfold getVariableBounds lowerSlots upperSlots
    simp only [hints.1, hints.2, getBounds, getSetBounds, enumFrom_append, List.length_append,
      List.length_map, Nat.zero_add]
    exact ⟨rfl, rfl⟩
  intro vec slot x
  rw [hall.1, hall.2]
  exact ⟨scatter_enumFrom, scatter_enumFrom⟩

/-- If a continuous bound is absent, the bounds of discrete int variables are not written. -/
theorem continuousBounded_of_transfersBounds (h : m.TransfersBounds limits) :
    m.ContinuousBounded limits := by
  by_contra hc
  obtain ⟨hdiv, hset⟩ := not_or.mp hc
  rw [← allSet_getBounds, Bool.not_eq_true] at hset
  obtain ⟨v, vs, hvs⟩ := List.exists_cons_of_ne_nil (mt List.length_eq_zero_iff.mpr hdiv)
  have hslot : (m.lowerSlots limits)[m.cv]? = some (IntVar.lowerSlot limits v) := by
    unfold lowerSlots
    refine getElem?_append_of_some _ (getElem?_append_of_some _ ?_)
    rw [List.getElem?_append_right (by rw [List.length_map]; exact le_rfl), List.length_map, cv,
      Nat.sub_self, hvs]
    rfl
  have hnot : m.cv ∉ (m.getVariableBounds limits).lower.map (·.1) := by
    have hints : (m.discreteIntBounds limits).lower = [] := by
      rw [discreteIntBounds, hset, if_neg Bool.false_ne_true]
    have hcv : m.cv = m.continuous.length := rfl
    unfold getVariableBounds
    simp only [hints, getBounds, getSetBounds, List.append_nil, List.map_append, map_fst_enumFrom,
      List.length_map, List.mem_append, List.mem_range'_1, Nat.zero_add, not_or]
    exact ⟨⟨by omega, by omega⟩, by omega⟩
  -- the slot keeps what the vector held
  have hkeep := (h (fun _ => IntVar.lowerSlot limits v + 1) m.cv _).1 hslot
  rw [scatter_of_notMem hnot] at hkeep
  exact one_ne_zero (add_eq_left.mp hkeep)

end OptModel

end Dakota.Optimizer
