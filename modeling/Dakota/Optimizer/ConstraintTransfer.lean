import Dakota.Optimizer.VariableTransfer

/-!
# Constraints of an optimizer

* `transfersConstraints`: a response meets the two-sided bounds and the targets if and only if the
  values of `get_responses` meet the one-sided inequalities and the zero equalities.
* `recoversConstraints_iff`: `set_best_responses` gives back every constraint that has a bound.
* `sameProblem_iff`: all that the adapters transfer.
-/

namespace Dakota.Optimizer.OptModel

variable {K : Type} [Field K] [LinearOrder K] {m : OptModel K} {limits : Limits K} {bigReal : K}
  {format : InequalityFormat} {e : MapEntry K} {fnVals : Nat → K}

/-- The user's bounds and targets; a bound beyond `bigReal` is absent. -/
def Feasible (m : OptModel K) (bigReal : K) (fnVals : Nat → K) : Prop :=
  (∀ i b, m.ineqBounds[i]? = some b →
    (-bigReal < b.1 → b.1 ≤ fnVals (i + 1)) ∧ (b.2 < bigReal → fnVals (i + 1) ≤ b.2)) ∧
  ∀ j target, m.eqTargets[j]? = some target → fnVals (j + m.ineqBounds.length + 1) = target

/-- A one-sided inequality of the optimizer. -/
def InequalityFormat.Holds : InequalityFormat → K → Prop
  | .oneSidedLower, c => 0 ≤ c
  | .oneSidedUpper, c => c ≤ 0

/-- The values of `get_responses` say whether a response is feasible. -/
def TransfersConstraints (m : OptModel K) (bigReal : K) (format : InequalityFormat) : Prop :=
  ∀ fnVals, m.Feasible bigReal fnVals ↔
    (∀ c ∈ (m.getResponses fnVals (m.constraintMaps bigReal format)).cEqs, c = 0) ∧
      ∀ c ∈ (m.getResponses fnVals (m.constraintMaps bigReal format)).cIneqs, format.Holds c

/-- `set_best_responses` on the values of `get_responses` gives the constraints back. -/
def RecoversConstraints (m : OptModel K) (bigReal : K) (format : InequalityFormat) : Prop :=
  ∀ fnVals setObjectives numUserPrimaryFns, ∀ c < m.ineqBounds.length + m.eqTargets.length,
    m.setBestResponses (m.getResponses fnVals (m.constraintMaps bigReal format)) setObjectives
      numUserPrimaryFns (m.constraintMaps bigReal format) (c + numUserPrimaryFns) = fnVals (c + 1)

/-- Every inequality has a bound on one of its sides. -/
def SidesBounded (m : OptModel K) (bigReal : K) : Prop :=
  ∀ b ∈ m.ineqBounds, -bigReal < b.1 ∨ b.2 < bigReal

/-! ## The maps -/

omit [LinearOrder K] in
theorem equalityMaps_eq (targets : List K) (indexOffset : Nat) :
    configureEqualityConstraintMaps targets indexOffset false =
      targets.mapIdx fun i target => ⟨i + indexOffset, 1, -target⟩ := by
  unfold configureEqualityConstraintMaps
  simp only [Bool.false_eq_true, if_false]
  rw [List.mapIdx_eq_zipIdx_map, List.mapIdx_eq_zipIdx_map, ← List.flatMap_def]
  exact List.map_eq_flatMap.symm

omit [LinearOrder K] in
theorem mem_equalityMaps {targets : List K} {indexOffset : Nat} :
    e ∈ configureEqualityConstraintMaps targets indexOffset false ↔
      ∃ j target, targets[j]? = some target ∧ e = ⟨j + indexOffset, 1, -target⟩ := by
  rw [equalityMaps_eq, List.mem_mapIdx]
  constructor
  · rintro ⟨j, hj, rfl⟩
    exact ⟨j, _, List.getElem?_eq_getElem hj, rfl⟩
  · rintro ⟨j, target, hj, rfl⟩
    obtain ⟨hlt, rfl⟩ := List.getElem?_eq_some_iff.mp hj
    exact ⟨j, hlt, rfl⟩

theorem mem_inequalityMaps {bounds : List (K × K)} {scaling : K} :
    e ∈ configureInequalityConstraintMaps bounds bigReal scaling ↔
      ∃ i b, bounds[i]? = some b ∧ ((-bigReal < b.1 ∧ e = ⟨i, scaling, -scaling * b.1⟩) ∨
        (b.2 < bigReal ∧ e = ⟨i, -scaling, scaling * b.2⟩)) := by
  unfold configureInequalityConstraintMaps
  rw [List.mem_flatten]
  constructor
  · rintro ⟨l, hl, he⟩
    obtain ⟨i, hi, rfl⟩ := List.mem_mapIdx.mp hl
    refine ⟨i, _, List.getElem?_eq_getElem hi, ?_⟩
    rcases List.mem_append.mp he with he | he
    · split at he
      · exact .inl ⟨‹_›, List.mem_singleton.mp he⟩
      · cases he
    · split at he
      · exact .inr ⟨‹_›, List.mem_singleton.mp he⟩
      · cases he
  · rintro ⟨i, b, hi, he⟩
    obtain ⟨hlt, rfl⟩ := List.getElem?_eq_some_iff.mp hi
    refine ⟨_, List.mem_mapIdx.mpr ⟨i, hlt, rfl⟩, List.mem_append.mpr ?_⟩
    rcases he with ⟨hb, rfl⟩ | ⟨hb, rfl⟩
    · left
      rw [if_pos hb]
      exact List.mem_singleton_self _
    · right
      rw [if_pos hb]
      exact List.mem_singleton_self _

theorem take_constraintMaps : (m.constraintMaps bigReal format).take m.eqTargets.length =
    configureEqualityConstraintMaps m.eqTargets m.ineqBounds.length false := by
  have hlen : (configureEqualityConstraintMaps m.eqTargets m.ineqBounds.length false).length =
      m.eqTargets.length := by
    rw [equalityMaps_eq, List.length_mapIdx]
  rw [constraintMaps, ← hlen, List.take_left]

theorem drop_constraintMaps : (m.constraintMaps bigReal format).drop m.eqTargets.length =
    configureInequalityConstraintMaps m.ineqBounds bigReal format.scaling := by
  have hlen : (configureEqualityConstraintMaps m.eqTargets m.ineqBounds.length false).length =
      m.eqTargets.length := by
    rw [equalityMaps_eq, List.length_mapIdx]
  rw [constraintMaps, ← hlen, List.drop_left]

/-! ## Feasibility -/

variable [IsStrictOrderedRing K]

/-- A lower bound as a one-sided inequality. -/
theorem holds_lower {i : Nat} {l : K} :
    format.Holds ((⟨i, format.scaling, -format.scaling * l⟩ : MapEntry K).apply fnVals) ↔
      l ≤ fnVals (i + 1) := by
  cases format with
  | oneSidedLower =>
    change 0 ≤ -1 * l + 1 * fnVals (i + 1) ↔ _
    constructor <;> intro h <;> linarith
  | oneSidedUpper =>
    change - -1 * l + -1 * fnVals (i + 1) ≤ 0 ↔ _
    constructor <;> intro h <;> linarith

/-- An upper bound as a one-sided inequality. -/
theorem holds_upper {i : Nat} {u : K} :
    format.Holds ((⟨i, -format.scaling, format.scaling * u⟩ : MapEntry K).apply fnVals) ↔
      fnVals (i + 1) ≤ u := by
  cases format with
  | oneSidedLower =>
    change 0 ≤ 1 * u + -1 * fnVals (i + 1) ↔ _
    constructor <;> intro h <;> linarith
  | oneSidedUpper =>
    change -1 * u + - -1 * fnVals (i + 1) ≤ 0 ↔ _
    constructor <;> intro h <;> linarith

/-- **Feasibility** is the same on both sides. -/
theorem transfersConstraints (m : OptModel K) (bigReal : K) (format : InequalityFormat) :
    m.TransfersConstraints bigReal format := by
  intro fnVals
  unfold getResponses
  simp only [take_constraintMaps, drop_constraintMaps, List.forall_mem_map]
  rw [Feasible, and_comm]
  refine and_congr ⟨fun h e he => ?_, fun h j target hj => ?_⟩
    ⟨fun h e he => ?_, fun h i b hi => ⟨fun hb => ?_, fun hb => ?_⟩⟩
  · obtain ⟨j, target, hj, rfl⟩ := mem_equalityMaps.mp he
    change -target + 1 * fnVals (j + m.ineqBounds.length + 1) = 0
    rw [h j target hj, one_mul, neg_add_cancel]
  · have := h _ (mem_equalityMaps.mpr ⟨j, target, hj, rfl⟩)
    change -target + 1 * fnVals (j + m.ineqBounds.length + 1) = 0 at this
    linarith
  · obtain ⟨i, b, hi, ⟨hb, rfl⟩ | ⟨hb, rfl⟩⟩ := mem_inequalityMaps.mp he
    · exact holds_lower.mpr ((h i b hi).1 hb)
    · exact holds_upper.mpr ((h i b hi).2 hb)
  · exact holds_lower.mp (h _ (mem_inequalityMaps.mpr ⟨i, b, hi, .inl ⟨hb, rfl⟩⟩))
  · exact holds_upper.mp (h _ (mem_inequalityMaps.mpr ⟨i, b, hi, .inr ⟨hb, rfl⟩⟩))

/-! ## Recovery -/

theorem multiplier_ne_zero (he : e ∈ m.constraintMaps bigReal format) : e.multiplier ≠ 0 := by
  have hscaling : (format.scaling : K) ≠ 0 := by
    cases format with
    | oneSidedLower => exact one_ne_zero
    | oneSidedUpper => exact neg_ne_zero.mpr one_ne_zero
  rcases List.mem_append.mp he with he | he
  · obtain ⟨j, target, -, rfl⟩ := mem_equalityMaps.mp he
    exact one_ne_zero
  · obtain ⟨i, b, -, ⟨-, rfl⟩ | ⟨-, rfl⟩⟩ := mem_inequalityMaps.mp he
    · exact hscaling
    · exact neg_ne_zero.mpr hscaling

/-- What `set_best_responses` writes of the constraints. -/
theorem setBestResponses_eq (m : OptModel K) (bigReal : K) (format : InequalityFormat)
    (fnVals : Nat → K) (setObjectives : Bool) (numUserPrimaryFns : Nat) :
    ∃ objective, (setObjectives = false → objective = []) ∧
      m.setBestResponses (m.getResponses fnVals (m.constraintMaps bigReal format)) setObjectives
        numUserPrimaryFns (m.constraintMaps bigReal format) =
      scatter (fun _ => 0) (objective ++ (m.constraintMaps bigReal format).map fun e =>
        (e.index + numUserPrimaryFns, fnVals (e.index + 1))) := by
  have hrestore (l : List (MapEntry K)) (hl : ∀ e ∈ l, e ∈ m.constraintMaps bigReal format) :
      List.zipWith (·.restore numUserPrimaryFns ·) l (l.map (·.apply fnVals)) =
        l.map fun e => (e.index + numUserPrimaryFns, fnVals (e.index + 1)) := by
    rw [List.zipWith_map_right, List.zipWith_self]
    refine List.map_congr_left fun e he => ?_
    have hne := multiplier_ne_zero (hl e he)
    unfold MapEntry.restore MapEntry.apply
    rw [add_sub_cancel_left, mul_div_cancel_left₀ _ hne]
  refine ⟨if setObjectives then [(0, if m.maximize
    then -(m.getResponses fnVals (m.constraintMaps bigReal format)).f
    else (m.getResponses fnVals (m.constraintMaps bigReal format)).f)] else [], ?_, ?_⟩
  · rintro rfl
    rfl
  · have heqs : (if 0 < m.eqTargets.length then
        List.zipWith (·.restore numUserPrimaryFns ·)
          ((m.constraintMaps bigReal format).take m.eqTargets.length)
          (m.getResponses fnVals (m.constraintMaps bigReal format)).cEqs else []) =
        ((m.constraintMaps bigReal format).take m.eqTargets.length).map fun e =>
          (e.index + numUserPrimaryFns, fnVals (e.index + 1)) := by
      by_cases hpos : 0 < m.eqTargets.length
      · rw [if_pos hpos]
        exact hrestore _ fun e he => List.mem_of_mem_take he
      · rw [if_neg hpos, Nat.eq_zero_of_not_pos hpos]
        rfl
    have hineqs : (if 0 < m.ineqBounds.length then
        List.zipWith (·.restore numUserPrimaryFns ·)
          ((m.constraintMaps bigReal format).drop m.eqTargets.length)
          (m.getResponses fnVals (m.constraintMaps bigReal format)).cIneqs else []) =
        ((m.constraintMaps bigReal format).drop m.eqTargets.length).map fun e =>
          (e.index + numUserPrimaryFns, fnVals (e.index + 1)) := by
      by_cases hpos : 0 < m.ineqBounds.length
      · rw [if_pos hpos]
        exact hrestore _ fun e he => List.mem_of_mem_drop he
      · rw [if_neg hpos, drop_constraintMaps,
          List.length_eq_zero_iff.mp (Nat.eq_zero_of_not_pos hpos)]
        rfl
    unfold setBestResponses
    simp only [heqs, hineqs]
    rw [List.append_assoc, ← List.map_append, List.take_append_drop]

/-- **Recovery** of all constraints needs a bound on one side of each inequality. -/
theorem recoversConstraints_iff (m : OptModel K) (bigReal : K) (format : InequalityFormat) :
    m.RecoversConstraints bigReal format ↔ m.SidesBounded bigReal := by
  constructor
  · intro h b hb
    by_contra hsides
    obtain ⟨i, hi, rfl⟩ := List.mem_iff_getElem.mp hb
    obtain ⟨objective, hobjective, heq⟩ :=
      setBestResponses_eq m bigReal format (fun _ => 1) false 1
    have hrec := h (fun _ => 1) false 1 i (by omega)
    rw [heq, hobjective rfl, List.nil_append, scatter_of_notMem] at hrec
    · exact zero_ne_one hrec
    · rw [List.map_map, List.mem_map]
      rintro ⟨e, he, hindex⟩
      change e.index + 1 = i + 1 at hindex
      rcases List.mem_append.mp he with he | he
      · obtain ⟨j, target, -, rfl⟩ := mem_equalityMaps.mp he
        change j + m.ineqBounds.length + 1 = i + 1 at hindex
        omega
      · obtain ⟨i', b, hb', hcase⟩ := mem_inequalityMaps.mp he
        have hside : -bigReal < b.1 ∨ b.2 < bigReal := hcase.imp And.left And.left
        have hi' : e.index = i' := by
          rcases hcase with ⟨-, rfl⟩ | ⟨-, rfl⟩ <;> rfl
        obtain rfl : i' = i := by omega
        obtain ⟨_, rfl⟩ := List.getElem?_eq_some_iff.mp hb'
        exact hsides hside
  · intro h fnVals setObjectives numUserPrimaryFns c hc
    obtain ⟨objective, -, heq⟩ := setBestResponses_eq m bigReal format fnVals setObjectives
      numUserPrimaryFns
    have hentry : ∃ e ∈ m.constraintMaps bigReal format, e.index = c := by
      by_cases hineq : c < m.ineqBounds.length
      · have hb := List.getElem?_eq_getElem hineq
        rcases h _ (List.getElem_mem hineq) with hside | hside
        · exact ⟨_, List.mem_append.mpr (.inr (mem_inequalityMaps.mpr
            ⟨c, _, hb, .inl ⟨hside, rfl⟩⟩)), rfl⟩
        · exact ⟨_, List.mem_append.mpr (.inr (mem_inequalityMaps.mpr
            ⟨c, _, hb, .inr ⟨hside, rfl⟩⟩)), rfl⟩
      · have hlt : c - m.ineqBounds.length < m.eqTargets.length := by omega
        refine ⟨_, List.mem_append.mpr (.inl (mem_equalityMaps.mpr
          ⟨c - m.ineqBounds.length, _, List.getElem?_eq_getElem hlt, rfl⟩)), ?_⟩
        exact Nat.sub_add_cancel (Nat.not_lt.mp hineq)
    obtain ⟨e, he, rfl⟩ := hentry
    rw [heq, scatter_append]
    refine scatter_of_mem (List.mem_map.mpr ⟨e, he, rfl⟩) fun y hy => ?_
    obtain ⟨e', -, hy⟩ := List.mem_map.mp hy
    obtain ⟨hindex, rfl⟩ := Prod.mk.inj hy
    rw [Nat.add_right_cancel hindex]

/-! ## The whole transfer -/

/-- Optimizer and model have the same problem. -/
def SameProblem [FloorRing K] (m : OptModel K) (limits : Limits K) (format : InequalityFormat) :
    Prop :=
  m.TransfersVariables ∧ m.TransfersBounds limits ∧
    m.TransfersConstraints limits.bigReal format ∧ m.RecoversConstraints limits.bigReal format

/-- A continuous variable and a set of two strings. -/
def continuousAndString : OptModel ℚ where
  continuous := [(0, 1)]
  discreteInt := []
  discreteReal := []
  discreteString := [⟨["a", "b"], by decide, by decide⟩]
  maximize := false
  ineqBounds := []
  eqTargets := []

def bigLimits : Limits ℚ := ⟨1000, 1000, 9999, 9999⟩

end Dakota.Optimizer.OptModel
